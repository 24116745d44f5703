import BlockRuntime.Proofs.Layer.Balance
import BlockRuntime.Script

namespace BlockRuntime.Script

variable {ε α : Type} {allowed wider : Key → Prop}

/-- A script leaves everything below the innermost change set as it was, however it ends. -/
theorem keeps_below_run (script : Script ε α) :
    (script.run : Program Memory ε α).Keeps Memory.below := by
  induction script with
  | done value => exact .pure value
  | fail cause => exact .fail cause
  | abort => exact .abort
  | get key next ih => exact .bind (.read _) ih
  | set key value next ih => exact .bind (.update fun m => Memory.below_set m key value) fun _ => ih
  | clear key next ih => exact .bind (.update fun m => Memory.below_clear m key) fun _ => ih
  | clearStem stem limit next ih =>
    exact .bind (.state fun m => Memory.below_clearStem m stem limit) ih
  | layer lift body next ihbody ihnext =>
    exact .bind (.result (Layer.keeps_below_run lift ihbody)) ihnext
  | hold lift holder next ihholder ihnext =>
    exact .bind (.result (Layer.keeps_below_hold lift ihholder)) ihnext

/-- A key that a script does not name for writing keeps its bytes, however the script ends. -/
theorem keeps_at_run {script : Script ε α} (h : script.WritesOnly allowed) {key : Key}
    (hlevel : Layer.levelKey ≠ key) (hkey : ¬ allowed key) :
    (script.run : Program Memory ε α).Keeps (Store.at key) := by
  induction script with
  | done value => exact .pure value
  | fail cause => exact .fail cause
  | abort => exact .abort
  | get k next ih => exact .bind (.read _) fun value => ih value (h value)
  | set k value next ih =>
    obtain ⟨hk, hnext⟩ := h
    have hne : k ≠ key := fun heq => hkey (heq ▸ hk)
    exact .bind (.update fun m => (Memory.get?_set m k value key).trans (if_neg hne)) fun _ => ih hnext
  | clear k next ih =>
    obtain ⟨hk, hnext⟩ := h
    have hne : k ≠ key := fun heq => hkey (heq ▸ hk)
    exact .bind (.update fun m => (Memory.get?_clear m k key).trans (if_neg hne)) fun _ => ih hnext
  | clearStem stem limit next ih =>
    -- every key under the stem may be written, so this key is not under it
    obtain ⟨hstem, hnext⟩ := h
    have hout : ¬ stem <+: key := fun hp => hkey (hstem key hp)
    exact .bind (.state fun m => Memory.get?_clearStem_of_not_prefix m limit hout)
      fun n => ih n (hnext n)
  | layer lift body next ihbody ihnext =>
    obtain ⟨hbody, hnext⟩ := h
    exact .bind (.result (Layer.keeps_at_run lift hlevel (keeps_below_run body) (ihbody hbody)))
      fun result => ihnext result (hnext result)
  | hold lift holder next ihholder ihnext =>
    obtain ⟨hholder, hnext⟩ := h
    exact .bind (.result (Layer.keeps_at_hold lift hlevel (keeps_below_run holder) (ihholder hholder)))
      fun result => ihnext result (hnext result)

theorem WritesOnly.mono {script : Script ε α} (h : script.WritesOnly allowed)
    (hsub : ∀ key, allowed key → wider key) : script.WritesOnly wider := by
  induction script with
  | done value => trivial
  | fail cause => trivial
  | abort => trivial
  | get key next ih => exact fun value => ih value (h value)
  | set key value next ih => exact ⟨hsub key h.1, ih h.2⟩
  | clear key next ih => exact ⟨hsub key h.1, ih h.2⟩
  | clearStem stem limit next ih =>
    exact ⟨fun key hp => hsub key (h.1 key hp), fun n => ih n (h.2 n)⟩
  | layer lift body next ihbody ihnext => exact ⟨ihbody h.1, fun r => ihnext r (h.2 r)⟩
  | hold lift holder next ihholder ihnext => exact ⟨ihholder h.1, fun r => ihnext r (h.2 r)⟩

end BlockRuntime.Script

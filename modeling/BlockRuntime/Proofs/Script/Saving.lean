import BlockRuntime.Proofs.Script.Frame
/-!
Layers against saved copies. A script that keeps away from the level key finds the same on a memory with
layers as on a plain map that is copied at the start of every layer and put back unless the layer is
kept: the same results on the way, the same ending, the same entries. If every layer is kept, the layers
might as well not be there.
-/

namespace BlockRuntime.Script

variable {σ ε α : Type}

abbrev Finding := (ρ : Type) × ρ

def found {ρ : Type} (result : ρ) : Finding := ⟨ρ, result⟩

/-- What a script finds on its way, in order: the results of its look-ups, of its clearings and, each
behind what is found inside, of its layers. -/
def findings [LayeredStore σ] {ε α : Type} : Script ε α → σ → List Finding
  | done _, _ => []
  | fail _, _ => []
  | abort, _ => []
  | get key next, s => found (Store.get? s key) :: (next (Store.get? s key)).findings s
  | set key value next, s => next.findings (Store.set s key value)
  | clear key next, s => next.findings (Store.clear s key)
  | clearStem stem limit next, s =>
    match Store.clearStem s stem limit with
    | (n, s) => found n :: (next n).findings s
  | layer lift body next, s =>
    let inside :=
      match Layer.enter s with
      | (.ok (), opened) => body.findings opened
      | _ => []
    match ((Layer.run lift body.run).result : Program σ ε _) s with
    | (.ok result, s) => inside ++ found result :: (next result).findings s
    | _ => inside
  | hold lift holder next, s =>
    let inside :=
      match Layer.enter s with
      | (.ok (), opened) => holder.findings opened
      | _ => []
    match ((Layer.hold lift holder.run).result : Program σ ε _) s with
    | (.ok result, s) => inside ++ found result :: (next result).findings s
    | _ => inside

def savedResult {ε β : Type} (lift : DispatchError → ε) (ran : Exit ε β × σ) (copy : σ) :
    Except ε β × σ :=
  match ran with
  | (.ok value, changed) => (.ok value, changed)
  | (.error cause, _) => (.error cause, copy)
  | (.aborted, _) => (.error (lift (.other Layer.abortReason)), copy)

def savedRelease {ε : Type} (ran : Exit ε Layer.Release × σ) (copy : σ) :
    Option (Except ε (Except StoreError Unit)) × σ :=
  match ran with
  | (.ok (.close .commit), changed) => (some (.ok (.ok ())), changed)
  | (.ok _, _) => (some (.ok (.ok ())), copy)
  | (.error cause, _) => (some (.error cause), copy)
  | (.aborted, _) => (none, copy)

/-- What a script finds on its way when it runs with saved copies, as `runSaving` does. -/
def findingsSaving [Store σ] {ε α : Type} : Script ε α → (level : Nat) → σ → List Finding
  | done _, _, _ => []
  | fail _, _, _ => []
  | abort, _, _ => []
  | get key next, level, s =>
    found (Store.get? s key) :: (next (Store.get? s key)).findingsSaving level s
  | set key value next, level, s => next.findingsSaving level (Store.set s key value)
  | clear key next, level, s => next.findingsSaving level (Store.clear s key)
  | clearStem stem limit next, level, s =>
    match Store.clearStem s stem limit with
    | (n, s) => found n :: (next n).findingsSaving level s
  | @layer _ _ ε' β lift body next, level, s =>
    if Layer.limit.toNat ≤ level then
      found (Except.error (lift .layerLimitReached) : Except ε' β) ::
        (next (.error (lift .layerLimitReached))).findingsSaving level s
    else
      match savedResult lift (body.runSaving (level + 1) s) s with
      | (result, t) =>
        body.findingsSaving (level + 1) s ++ found result :: (next result).findingsSaving level t
  | hold lift holder next, level, s =>
    if Layer.limit.toNat ≤ level then
      found (Except.error (lift .layerLimitReached) : Except _ (Except StoreError Unit)) ::
        (next (.error (lift .layerLimitReached))).findingsSaving level s
    else
      match savedRelease (holder.runSaving (level + 1) s) s with
      | (some result, t) =>
        holder.findingsSaving (level + 1) s ++ found result :: (next result).findingsSaving level t
      | (none, _) => holder.findingsSaving (level + 1) s

/-- Runs a script as if it had no layers: their bodies write right to the store around them. -/
def runFlat [Store σ] {ε α : Type} : Script ε α → Program σ ε α
  | done value => pure value
  | fail cause => Program.fail cause
  | abort => Program.abort
  | get key next => fun s => (next (Store.get? s key)).runFlat s
  | set key value next => fun s => next.runFlat (Store.set s key value)
  | clear key next => fun s => next.runFlat (Store.clear s key)
  | clearStem stem limit next => fun s =>
    match Store.clearStem s stem limit with
    | (n, s) => (next n).runFlat s
  | layer lift body next => fun s =>
    match body.runFlat s with
    | (.ok value, s) => (next (.ok value)).runFlat s
    | (.error cause, s) => (next (.error cause)).runFlat s
    | (.aborted, s) => (next (.error (lift (.other Layer.abortReason)))).runFlat s
  | hold _ holder next => fun s =>
    match holder.runFlat s with
    | (.ok _, s) => (next (.ok (.ok ()))).runFlat s
    | (.error cause, s) => (next (.error cause)).runFlat s
    | (.aborted, s) => (.aborted, s)

/-- Whether a script that runs with saved copies keeps every layer it comes to, and comes to none at the
limit. -/
def KeepsLayers [Store σ] {ε α : Type} : Script ε α → (level : Nat) → σ → Prop
  | done _, _, _ => True
  | fail _, _, _ => True
  | abort, _, _ => True
  | get key next, level, s => (next (Store.get? s key)).KeepsLayers level s
  | set key value next, level, s => next.KeepsLayers level (Store.set s key value)
  | clear key next, level, s => next.KeepsLayers level (Store.clear s key)
  | clearStem stem limit next, level, s =>
    match Store.clearStem s stem limit with
    | (n, s) => (next n).KeepsLayers level s
  | layer _ body next, level, s =>
    level < Layer.limit.toNat ∧ body.KeepsLayers (level + 1) s ∧
      ∃ value changed, body.runSaving (level + 1) s = (.ok value, changed) ∧
        (next (.ok value)).KeepsLayers level changed
  | hold _ holder next, level, s =>
    level < Layer.limit.toNat ∧ holder.KeepsLayers (level + 1) s ∧
      ∃ changed, holder.runSaving (level + 1) s = (.ok (.close .commit), changed) ∧
        (next (.ok (.ok ()))).KeepsLayers level changed

section Equations

variable [Store σ] {ε' β : Type} {lift : DispatchError → ε'} {body : Script ε' β}
  {holder : Script ε' Layer.Release} {s : σ} {n : Nat}

theorem runSaving_layer_refused {next : Except ε' β → Script ε α} (hn : Layer.limit.toNat ≤ n) :
    (layer lift body next).runSaving n s = (next (.error (lift .layerLimitReached))).runSaving n s := by
  simp only [runSaving, if_pos hn]

theorem runSaving_layer {next : Except ε' β → Script ε α} (hn : n < Layer.limit.toNat) :
    (layer lift body next).runSaving n s =
      (next (savedResult lift (body.runSaving (n + 1) s) s).1).runSaving n
        (savedResult lift (body.runSaving (n + 1) s) s).2 := by
  simp only [runSaving, if_neg (Nat.not_le.mpr hn)]
  rcases body.runSaving (n + 1) s with ⟨_ | _ | _, _⟩ <;> rfl

theorem findingsSaving_layer_refused {next : Except ε' β → Script ε α} (hn : Layer.limit.toNat ≤ n) :
    (layer lift body next).findingsSaving n s =
      found (Except.error (lift .layerLimitReached) : Except ε' β) ::
        (next (.error (lift .layerLimitReached))).findingsSaving n s := by
  rw [findingsSaving, if_pos hn]

theorem findingsSaving_layer {next : Except ε' β → Script ε α} (hn : n < Layer.limit.toNat) :
    (layer lift body next).findingsSaving n s =
      body.findingsSaving (n + 1) s ++
        found (savedResult lift (body.runSaving (n + 1) s) s).1 ::
          (next (savedResult lift (body.runSaving (n + 1) s) s).1).findingsSaving n
            (savedResult lift (body.runSaving (n + 1) s) s).2 := by
  rw [findingsSaving, if_neg (Nat.not_le.mpr hn)]

variable {next : Except ε' (Except StoreError Unit) → Script ε α}

theorem runSaving_hold_refused (hn : Layer.limit.toNat ≤ n) :
    (hold lift holder next).runSaving n s = (next (.error (lift .layerLimitReached))).runSaving n s := by
  simp only [runSaving, if_pos hn]

theorem runSaving_hold (hn : n < Layer.limit.toNat) :
    (hold lift holder next).runSaving n s =
      match savedRelease (holder.runSaving (n + 1) s) s with
      | (some result, t) => (next result).runSaving n t
      | (none, t) => (.aborted, t) := by
  simp only [runSaving, if_neg (Nat.not_le.mpr hn)]
  rcases holder.runSaving (n + 1) s with ⟨⟨⟨_ | _⟩ | _⟩ | _ | _, _⟩ <;> rfl

theorem findingsSaving_hold_refused (hn : Layer.limit.toNat ≤ n) :
    (hold lift holder next).findingsSaving n s =
      found (Except.error (lift .layerLimitReached) : Except ε' (Except StoreError Unit)) ::
        (next (.error (lift .layerLimitReached))).findingsSaving n s := by
  rw [findingsSaving, if_pos hn]

theorem findingsSaving_hold (hn : n < Layer.limit.toNat) :
    (hold lift holder next).findingsSaving n s =
      match savedRelease (holder.runSaving (n + 1) s) s with
      | (some result, t) =>
        holder.findingsSaving (n + 1) s ++ found result :: (next result).findingsSaving n t
      | (none, _) => holder.findingsSaving (n + 1) s := by
  rw [findingsSaving, if_neg (Nat.not_le.mpr hn)]

end Equations

/-- A memory in which `n` layers are counted, and a plain map that agrees with it everywhere but under
the level key. -/
structure Matches (m : Memory) (map : KeyMap Bytes) (n : Nat) : Prop where
  counts : Layer.Counts m n
  agree : ∀ key, Layer.levelKey ≠ key → Store.get? m key = Store.get? map key

namespace Matches

variable {m s : Memory} {map changed : KeyMap Bytes} {n : Nat}

theorem set (h : Matches m map n) {key : Key} (hkey : key ≠ Layer.levelKey) (value : Bytes) :
    Matches (Store.set m key value) (Store.set map key value) n where
  counts := Layer.counts_congr h.counts ((Memory.get?_set m key value _).trans (if_neg hkey))
  agree other hother := by
    have hmap : Store.get? (Store.set map key value) other =
        if key = other then some value else Store.get? map other :=
      KeyMap.get?_insert map key other value
    rw [Memory.get?_set, hmap, h.agree other hother]

theorem clear (h : Matches m map n) {key : Key} (hkey : key ≠ Layer.levelKey) :
    Matches (Store.clear m key) (Store.clear map key) n where
  counts := Layer.counts_congr h.counts ((Memory.get?_clear m key _).trans (if_neg hkey))
  agree other hother := by
    have hmap : Store.get? (Store.clear map key) other =
        if key = other then none else Store.get? map other :=
      KeyMap.get?_erase map key other
    rw [Memory.get?_clear, hmap, h.agree other hother]

theorem leastUnder_eq (h : Matches m map n) {stem : Bytes}
    (hstem : ∀ key, stem <+: key → key ≠ Layer.levelKey) (limit : Option UInt32) :
    m.entries.leastUnder stem limit = map.leastUnder stem limit := by
  apply KeyMap.leastUnder_congr
  intro key hp
  rw [← Memory.get?_eq_entries]
  exact h.agree key (Ne.symm (hstem key hp))

/-- A stem that the level key does not lie under is cleared alike on both sides. -/
theorem clearStem (h : Matches m map n) {stem : Bytes}
    (hstem : ∀ key, stem <+: key → key ≠ Layer.levelKey) (limit : Option UInt32) :
    (Store.clearStem m stem limit).1 = (Store.clearStem map stem limit).1 ∧
    Matches (Store.clearStem m stem limit).2 (Store.clearStem map stem limit).2 n := by
  have hleast := h.leastUnder_eq hstem limit
  -- the count of the layers is out of the reach of the clearing
  have hout : ¬ stem <+: Layer.levelKey := fun hp => hstem Layer.levelKey hp rfl
  refine ⟨?_, ?_, ?_⟩
  · rw [Memory.clearStem_eq, hleast]
    rfl
  · exact Layer.counts_congr h.counts (Memory.get?_clearStem_of_not_prefix m limit hout)
  · intro key hkey
    have hmap : Store.get? (Store.clearStem map stem limit).2 key =
        if !(map.leastUnder stem limit).contains key then Store.get? map key else none :=
      KeyMap.get?_filterKeys map _ key
    rw [Memory.get?_clearStem, hmap, hleast, h.agree key hkey]
    by_cases hmem : key ∈ map.leastUnder stem limit
    · simp [hmem]
    · simp [hmem]

theorem opened (h : Matches m map n) (hn : n < 255) : Matches (Layer.opened m) map (n + 1) where
  counts := Layer.counts_opened h.counts hn
  agree key hkey := (Layer.get?_opened hkey m).trans (h.agree key hkey)

/-- A layer that is kept carries over what its body came to. -/
theorem kept {merged : Memory} (hn : n < 255) (hs : Matches s changed (n + 1))
    (hget : ∀ key, Store.get? merged key = Store.get? s key) :
    Matches (Layer.lower merged) changed n where
  counts := Layer.counts_lower (Layer.counts_congr hs.counts (hget _)) hn
  agree key hkey := ((Layer.get?_lower hkey merged).trans (hget key)).trans (hs.agree key hkey)

/-- A layer that is undone goes back to what was there before it. -/
theorem undone (h : Matches m map n) (hn : n < 255) :
    Matches (Layer.lower (Layer.raised m)) map n where
  counts := Layer.counts_lower (Layer.counts_raised h.counts hn) hn
  agree key hkey := (Layer.get?_lower_raised hkey m).trans (h.agree key hkey)

theorem limit_le (h : Matches m map n) (hn : n = 255) : Layer.limit ≤ Layer.level m := by
  rw [UInt32.le_iff_toNat_le, Layer.toNat_level_of_counts h.counts (by omega), hn]
  exact Nat.le_refl _

theorem level_lt (h : Matches m map n) (hn : n < 255) : Layer.level m < Layer.limit :=
  Layer.level_lt_limit h.counts hn

end Matches

/-- Two runs of a script, with layers on a memory and with saved copies on a map, come to the same: they
find the same on the way, end in the same way, and leave matching stores. -/
structure SameRun (script : Script ε α) (m : Memory) (map : KeyMap Bytes) (n : Nat) : Prop where
  findings : script.findings m = script.findingsSaving n map
  ending : (script.run m).1 = (script.runSaving n map).1
  stores : Matches (script.run m).2 (script.runSaving n map).2 n

section LayerSteps

variable {ε' β : Type} {lift : DispatchError → ε'} {body : Script ε' β}
  {next : Except ε' β → Script ε α} {m t : Memory} {map : KeyMap Bytes} {n : Nat}

theorem run_layer {result : Except ε' β} (h : Layer.run lift body.run m = (.ofExcept result, t)) :
    (layer lift body next).run m = (next result).run t :=
  Program.bind_ok (Program.result_ofExcept h)

/-- Behind what its body finds, a layer adds its own result to the findings. -/
theorem findings_layer {result : Except ε' β} (hlevel : Layer.level m < Layer.limit)
    (h : Layer.run lift body.run m = (.ofExcept result, t)) :
    (layer lift body next).findings m =
      body.findings (Layer.opened m) ++ found result :: (next result).findings t := by
  have hr : ((Layer.run lift body.run).result : Program Memory ε _) m = (.ok result, t) :=
    Program.result_ofExcept h
  simp only [findings, Layer.enter_of_lt hlevel, hr]

/-- At the limit neither run opens the layer. -/
theorem sameRun_layer_refused (h : Matches m map n) (hn : n = 255)
    (hnext : SameRun (next (.error (lift .layerLimitReached))) m map n) :
    SameRun (layer lift body next) m map n := by
  have hle := h.limit_le hn
  have hrun : Layer.run lift body.run m = (.ofExcept (.error (lift .layerLimitReached)), m) :=
    Layer.run_of_le lift hle
  have hsaving : Layer.limit.toNat ≤ n := Nat.le_of_eq hn.symm
  have hr : ((Layer.run lift body.run).result : Program Memory ε _) m =
      (.ok (.error (lift .layerLimitReached)), m) := Program.result_ofExcept hrun
  refine ⟨?_, ?_, ?_⟩
  · rw [findingsSaving_layer_refused hsaving, ← hnext.findings]
    simp only [findings, Layer.enter_of_le hle, hr, List.nil_append]
  · rw [run_layer hrun, runSaving_layer_refused hsaving]
    exact hnext.ending
  · rw [run_layer hrun, runSaving_layer_refused hsaving]
    exact hnext.stores

/-- Below the limit both runs go on with the result of the body, from the stores that the layer left. -/
theorem sameRun_layer (h : Matches m map n) (hn : n < 255)
    (hbody : SameRun body (Layer.opened m) map (n + 1))
    (hnext : ∀ result t changed, Matches t changed n → SameRun (next result) t changed n) :
    SameRun (layer lift body next) m map n := by
  have hlt := h.level_lt hn
  -- the three endings of the body leave the layer with one result and one store each
  obtain ⟨result, t, hrun, hresult, hstores⟩ : ∃ result t,
      Layer.run lift body.run m = (.ofExcept result, t) ∧
      (savedResult lift (body.runSaving (n + 1) map) map).1 = result ∧
      Matches t (savedResult lift (body.runSaving (n + 1) map) map).2 n := by
    have hend := hbody.ending
    have hs := hbody.stores
    rcases hsave : body.runSaving (n + 1) map with ⟨value | cause | _, changed⟩ <;>
      rw [hsave] at hend hs
    · obtain ⟨merged, hrun, -, hget⟩ :=
        Layer.run_ok lift body.keeps_below_run hlt (Prod.ext hend rfl)
      exact ⟨.ok value, Layer.lower merged, hrun, rfl, Matches.kept hn hs hget⟩
    · exact ⟨.error cause, _, Layer.run_error lift body.keeps_below_run hlt (Prod.ext hend rfl), rfl,
        h.undone hn⟩
    · exact ⟨.error (lift (.other Layer.abortReason)), _,
        Layer.run_aborted lift body.keeps_below_run hlt (Prod.ext hend rfl), rfl, h.undone hn⟩
  have hgo := hnext result t _ hstores
  refine ⟨?_, ?_, ?_⟩
  · rw [findings_layer hlt hrun, findingsSaving_layer hn, hresult, hbody.findings, hgo.findings]
  · rw [run_layer hrun, runSaving_layer hn, hresult]
    exact hgo.ending
  · rw [run_layer hrun, runSaving_layer hn, hresult]
    exact hgo.stores

end LayerSteps

section HoldSteps

variable {ε' : Type} {lift : DispatchError → ε'} {holder : Script ε' Layer.Release}
  {next : Except ε' (Except StoreError Unit) → Script ε α} {m t : Memory} {map : KeyMap Bytes} {n : Nat}

theorem run_hold {result : Except ε' (Except StoreError Unit)}
    (h : Layer.hold lift holder.run m = (.ofExcept result, t)) :
    (hold lift holder next).run m = (next result).run t :=
  Program.bind_ok (Program.result_ofExcept h)

theorem findings_hold {result : Except ε' (Except StoreError Unit)}
    (hlevel : Layer.level m < Layer.limit)
    (h : Layer.hold lift holder.run m = (.ofExcept result, t)) :
    (hold lift holder next).findings m =
      holder.findings (Layer.opened m) ++ found result :: (next result).findings t := by
  have hr : ((Layer.hold lift holder.run).result : Program Memory ε _) m = (.ok result, t) :=
    Program.result_ofExcept h
  simp only [findings, Layer.enter_of_lt hlevel, hr]

/-- At the limit both sides refuse a layer. -/
theorem sameRun_hold_refused (h : Matches m map n) (hn : n = 255)
    (hnext : SameRun (next (.error (lift .layerLimitReached))) m map n) :
    SameRun (hold lift holder next) m map n := by
  have hle := h.limit_le hn
  have hrun : Layer.hold lift holder.run m = (.ofExcept (.error (lift .layerLimitReached)), m) :=
    Layer.hold_of_le lift hle
  have hsaving : Layer.limit.toNat ≤ n := Nat.le_of_eq hn.symm
  have hr : ((Layer.hold lift holder.run).result : Program Memory ε _) m =
      (.ok (.error (lift .layerLimitReached)), m) := Program.result_ofExcept hrun
  refine ⟨?_, ?_, ?_⟩
  · rw [findingsSaving_hold_refused hsaving, ← hnext.findings]
    simp only [findings, Layer.enter_of_le hle, hr, List.nil_append]
  · rw [run_hold hrun, runSaving_hold_refused hsaving]
    exact hnext.ending
  · rw [run_hold hrun, runSaving_hold_refused hsaving]
    exact hnext.stores

/-- A holder that aborts ends both runs, and its layer is undone in both. -/
theorem sameRun_hold_aborted (h : Matches m map n) (hn : n < 255)
    (hholder : SameRun holder (Layer.opened m) map (n + 1)) {changed : KeyMap Bytes}
    (hs : holder.runSaving (n + 1) map = (.aborted, changed)) :
    SameRun (hold lift holder next) m map n := by
  have hlt := h.level_lt hn
  have hend : (holder.run (Layer.opened m)).1 = .aborted := by rw [hholder.ending, hs]
  have hrun : Layer.hold lift holder.run m = (.aborted, Layer.lower (Layer.raised m)) :=
    Layer.hold_undone lift holder.keeps_below_run hlt (Prod.ext hend rfl) (by simp)
  have hr : ((Layer.hold lift holder.run).result : Program Memory ε _) m =
      (.aborted, Layer.lower (Layer.raised m)) := Program.result_aborted hrun
  have hmem : (hold lift holder next).run m = (.aborted, Layer.lower (Layer.raised m)) :=
    Program.bind_aborted hr
  have hmap : (hold lift holder next).runSaving n map = (.aborted, map) := by
    rw [runSaving_hold hn, hs]
    rfl
  refine ⟨?_, ?_, ?_⟩
  · rw [findingsSaving_hold hn, hs]
    simp only [findings, Layer.enter_of_lt hlt, hr, savedRelease, hholder.findings]
  · rw [hmem, hmap]
  · rw [hmem, hmap]
    exact h.undone hn

/-- Held layers come to the same on both sides, whichever way they are let go of. -/
theorem sameRun_hold (h : Matches m map n) (hn : n < 255)
    (hholder : SameRun holder (Layer.opened m) map (n + 1))
    (hnext : ∀ result t changed, Matches t changed n → SameRun (next result) t changed n) :
    SameRun (hold lift holder next) m map n := by
  have hlt := h.level_lt hn
  by_cases habort : ∃ changed, holder.runSaving (n + 1) map = (.aborted, changed)
  · obtain ⟨changed, hs⟩ := habort
    exact sameRun_hold_aborted h hn hholder hs
  -- an abort aside, only a commit keeps what the holder wrote
  obtain ⟨result, t, changed, hrun, hsaved, hstores⟩ : ∃ result t changed,
      Layer.hold lift holder.run m = (.ofExcept result, t) ∧
      savedRelease (holder.runSaving (n + 1) map) map = (some result, changed) ∧
      Matches t changed n := by
    have hend := hholder.ending
    have hs := hholder.stores
    rcases hsave : holder.runSaving (n + 1) map with ⟨⟨⟨_ | _⟩ | _⟩ | cause | _, changed⟩ <;>
      rw [hsave] at hend hs
    · obtain ⟨merged, hrun, -, hget⟩ :=
        Layer.hold_commit lift holder.keeps_below_run hlt (Prod.ext hend rfl)
      exact ⟨.ok (.ok ()), Layer.lower merged, changed, hrun, rfl, Matches.kept hn hs hget⟩
    · exact ⟨.ok (.ok ()), _, map, Layer.hold_undone lift holder.keeps_below_run hlt
        (Prod.ext hend rfl) (by simp), rfl, h.undone hn⟩
    · exact ⟨.ok (.ok ()), _, map, Layer.hold_undone lift holder.keeps_below_run hlt
        (Prod.ext hend rfl) (by simp), rfl, h.undone hn⟩
    · exact ⟨.error cause, _, map, Layer.hold_undone lift holder.keeps_below_run hlt
        (Prod.ext hend rfl) (by simp), rfl, h.undone hn⟩
    · exact absurd ⟨changed, hsave⟩ habort
  have hgo := hnext result t changed hstores
  refine ⟨?_, ?_, ?_⟩
  · rw [findings_hold hlt hrun, findingsSaving_hold hn, hsaved, hholder.findings, hgo.findings]
  · rw [run_hold hrun, runSaving_hold hn, hsaved]
    exact hgo.ending
  · rw [run_hold hrun, runSaving_hold hn, hsaved]
    exact hgo.stores

end HoldSteps

/-- The simulation: from matching stores, layers and saved copies come to the same. -/
theorem sameRun (script : Script ε α) (hreads : script.ReadsOnly (· ≠ Layer.levelKey))
    (hwrites : script.WritesOnly (· ≠ Layer.levelKey)) {m : Memory} {map : KeyMap Bytes} {n : Nat}
    (hn : n ≤ 255) (h : Matches m map n) : SameRun script m map n := by
  -- each step goes on from other stores, so the induction is for all that match, at any level
  induction script generalizing m map n with
  | done value => exact ⟨rfl, rfl, h⟩
  | fail cause => exact ⟨rfl, rfl, h⟩
  | abort => exact ⟨rfl, rfl, h⟩
  | get key next ih =>
    have hget := h.agree key (Ne.symm hreads.1)
    have hnext := ih (Store.get? map key) (hreads.2 _) (hwrites _) hn h
    refine ⟨?_, ?_, ?_⟩
    · change found (Store.get? m key) :: (next (Store.get? m key)).findings m =
        found (Store.get? map key) :: (next (Store.get? map key)).findingsSaving n map
      rw [hget, hnext.findings]
    · exact (congrArg (fun v => ((next v).run m).1) hget).trans hnext.ending
    · have hrun : (Script.get key next).run m = (next (Store.get? map key)).run m :=
        congrArg (fun v => (next v).run m) hget
      rw [hrun]
      exact hnext.stores
  | set key value next ih =>
    have hnext := ih hreads hwrites.2 hn (h.set hwrites.1 value)
    exact ⟨hnext.findings, hnext.ending, hnext.stores⟩
  | clear key next ih =>
    have hnext := ih hreads hwrites.2 hn (h.clear hwrites.1)
    exact ⟨hnext.findings, hnext.ending, hnext.stores⟩
  | clearStem stem limit next ih =>
    obtain ⟨hcount, hstores⟩ := h.clearStem hwrites.1 limit
    have hnext := ih (Store.clearStem map stem limit).1 (hreads _) (hwrites.2 _) hn hstores
    have hrun : (Script.clearStem stem limit next).run m =
        (next (Store.clearStem map stem limit).1).run (Store.clearStem m stem limit).2 :=
      congrArg (fun k => (next k).run (Store.clearStem m stem limit).2) hcount
    refine ⟨?_, ?_, ?_⟩
    · change found (Store.clearStem m stem limit).1 ::
          (next (Store.clearStem m stem limit).1).findings (Store.clearStem m stem limit).2 =
        found (Store.clearStem map stem limit).1 ::
          (next (Store.clearStem map stem limit).1).findingsSaving n (Store.clearStem map stem limit).2
      rw [hcount, hnext.findings]
    · rw [hrun]
      exact hnext.ending
    · rw [hrun]
      exact hnext.stores
  | layer lift body next ihbody ihnext =>
    rcases Nat.lt_or_eq_of_le hn with hlt | heq
    · exact sameRun_layer h hlt (ihbody hreads.1 hwrites.1 hlt (h.opened hlt))
        fun result t changed => ihnext result (hreads.2 _) (hwrites.2 _) hn
    · exact sameRun_layer_refused h heq (ihnext _ (hreads.2 _) (hwrites.2 _) hn h)
  | hold lift holder next ihholder ihnext =>
    rcases Nat.lt_or_eq_of_le hn with hlt | heq
    · exact sameRun_hold h hlt (ihholder hreads.1 hwrites.1 hlt (h.opened hlt))
        fun result t changed => ihnext result (hreads.2 _) (hwrites.2 _) hn
    · exact sameRun_hold_refused h heq (ihnext _ (hreads.2 _) (hwrites.2 _) hn h)

/-- Saved copies leave the keys alone that a script does not name for writing. -/
theorem get?_runSaving {allowed : Key → Prop} {script : Script ε α} (h : script.WritesOnly allowed)
    {key : Key} (hkey : ¬ allowed key) (n : Nat) (map : KeyMap Bytes) :
    Store.get? (script.runSaving n map).2 key = Store.get? map key := by
  induction script generalizing n map with
  | done value => rfl
  | fail cause => rfl
  | abort => rfl
  | get k next ih => exact ih _ (h _) n map
  | set k value next ih =>
    have hne : k ≠ key := fun heq => hkey (heq ▸ h.1)
    exact (ih h.2 n _).trans ((KeyMap.get?_insert map k key value).trans (if_neg hne))
  | clear k next ih =>
    have hne : k ≠ key := fun heq => hkey (heq ▸ h.1)
    exact (ih h.2 n _).trans ((KeyMap.get?_erase map k key).trans (if_neg hne))
  | clearStem stem limit next ih =>
    have hout : key ∉ map.leastUnder stem limit := fun hmem =>
      hkey (h.1 key (KeyMap.prefix_of_mem_leastUnder hmem))
    have hcleared : Store.get? (Store.clearStem map stem limit).2 key = Store.get? map key := by
      refine (KeyMap.get?_filterKeys map _ key).trans (if_pos ?_)
      simpa using hout
    exact (ih _ (h.2 _) n _).trans hcleared
  | layer lift body next ihbody ihnext =>
    rcases Nat.lt_or_ge n Layer.limit.toNat with hn | hn
    · have hbody := ihbody h.1 (n + 1) map
      rw [runSaving_layer hn]
      rcases hr : body.runSaving (n + 1) map with ⟨value | cause | _, changed⟩
      -- unless the layer is kept, what follows starts from the copy
      · rw [hr] at hbody
        exact (ihnext _ (h.2 _) n changed).trans hbody
      · exact ihnext _ (h.2 _) n map
      · exact ihnext _ (h.2 _) n map
    · rw [runSaving_layer_refused hn]
      exact ihnext _ (h.2 _) n map
  | hold lift holder next ihholder ihnext =>
    rcases Nat.lt_or_ge n Layer.limit.toNat with hn | hn
    · have hholder := ihholder h.1 (n + 1) map
      rw [runSaving_hold hn]
      rcases hr : holder.runSaving (n + 1) map with ⟨⟨⟨_ | _⟩ | _⟩ | cause | _, changed⟩
      · rw [hr] at hholder
        exact (ihnext _ (h.2 _) n changed).trans hholder
      · exact ihnext _ (h.2 _) n map
      · exact ihnext _ (h.2 _) n map
      · exact ihnext _ (h.2 _) n map
      · rfl
    · rw [runSaving_hold_refused hn]
      exact ihnext _ (h.2 _) n map

/-- Where every layer is kept, saving a copy makes no difference. -/
theorem runFlat_eq_runSaving [Store σ] {script : Script ε α} {n : Nat} {s : σ}
    (h : script.KeepsLayers n s) : script.runFlat s = script.runSaving n s := by
  induction script generalizing n s with
  | done value => rfl
  | fail cause => rfl
  | abort => rfl
  | get key next ih => exact ih _ h
  | set key value next ih => exact ih h
  | clear key next ih => exact ih h
  | clearStem stem limit next ih => exact ih _ h
  | layer lift body next ihbody ihnext =>
    obtain ⟨hn, hbody, value, changed, hrun, hnext⟩ := h
    have hflat : (layer lift body next).runFlat s = (next (.ok value)).runFlat changed := by
      simp only [runFlat, (ihbody hbody).trans hrun]
    rw [hflat, runSaving_layer hn, hrun]
    exact ihnext _ hnext
  | hold lift holder next ihholder ihnext =>
    obtain ⟨hn, hholder, changed, hrun, hnext⟩ := h
    have hflat : (hold lift holder next).runFlat s = (next (.ok (.ok ()))).runFlat changed := by
      simp only [runFlat, (ihholder hholder).trans hrun]
    rw [hflat, runSaving_hold hn, hrun]
    exact ihnext _ hnext

/-- Without layers a memory and the map of its entries are one and the same store. -/
theorem runFlat_entries (script : Script ε α) (m : Memory) :
    script.runFlat m.entries = ((script.runFlat m).1, (script.runFlat m).2.entries) := by
  -- every operation of a memory does to its entries what it does to a plain map
  induction script generalizing m with
  | done value => rfl
  | fail cause => rfl
  | abort => rfl
  | get key next ih =>
    have hget : Store.get? m.entries key = Store.get? m key := (Memory.get?_eq_entries m key).symm
    simp only [runFlat, hget]
    exact ih _ m
  | set key value next ih =>
    have hset : Store.set m.entries key value = (Store.set m key value).entries :=
      (Memory.entries_set m key value).symm
    simp only [runFlat, hset]
    exact ih _
  | clear key next ih =>
    have hclear : Store.clear m.entries key = (Store.clear m key).entries :=
      (Memory.entries_clear m key).symm
    simp only [runFlat, hclear]
    exact ih _
  | clearStem stem limit next ih =>
    have hclear := Memory.clearStem_entries m stem limit
    simp only [runFlat, hclear]
    exact ih _ _
  | layer lift body next ihbody ihnext =>
    have hbody := ihbody m
    rcases hr : body.runFlat m with ⟨value | cause | _, t⟩ <;> rw [hr] at hbody <;>
      simp only [runFlat, hbody, hr] <;> exact ihnext _ t
  | hold lift holder next ihholder ihnext =>
    have hholder := ihholder m
    rcases hr : holder.runFlat m with ⟨value | cause | _, t⟩ <;> rw [hr] at hholder <;>
      simp only [runFlat, hholder, hr]
    · exact ihnext _ t
    · exact ihnext _ t

/-- Layers refine saved copies. A script that keeps away from the level key, run on a memory in which
fewer layers are open than the limit allows, finds and returns what it does on the plain map of the
entries with a copy saved at every layer, and leaves the entries that it leaves there. If every layer is
kept, that is also what it comes to on the same memory without any layers. -/
theorem layers_refine_saved_copies (script : Script ε α)
    (hreads : script.ReadsOnly (· ≠ Layer.levelKey)) (hwrites : script.WritesOnly (· ≠ Layer.levelKey))
    (m : Memory) (hlevel : Layer.level m < Layer.limit)
    (hzero : Store.get? m Layer.levelKey ≠ some (Codec.u32.encode 0)) :
    script.findings m = script.findingsSaving (Layer.level m).toNat m.entries ∧
    (script.run m).1 = (script.runSaving (Layer.level m).toNat m.entries).1 ∧
    (script.run m).2.entries = (script.runSaving (Layer.level m).toNat m.entries).2 ∧
    (script.KeepsLayers (Layer.level m).toNat m.entries →
      (script.run m).1 = (script.runFlat m).1 ∧
      (script.run m).2.entries = (script.runFlat m).2.entries) := by
  have hn : (Layer.level m).toNat < 255 := UInt32.lt_iff_toNat_lt.mp hlevel
  have hm : Matches m m.entries (Layer.level m).toNat :=
    ⟨Layer.counts_level hzero hlevel, fun key _ => Memory.get?_eq_entries m key⟩
  obtain ⟨hfindings, hending, hstores⟩ := sameRun script hreads hwrites hn.le hm
  have hentries : (script.run m).2.entries =
      (script.runSaving (Layer.level m).toNat m.entries).2 := by
    apply KeyMap.ext
    intro key
    rw [← Memory.get?_eq_entries]
    by_cases hkey : Layer.levelKey = key
    · -- both runs leave the level key as it was, so it still holds the count of the layers around
      have hmap := get?_runSaving hwrites (fun h => h hkey.symm) (Layer.level m).toNat m.entries
      rw [← hkey] at hmap ⊢
      exact (hstores.counts.trans hm.counts.symm).trans
        ((Memory.get?_eq_entries m Layer.levelKey).trans hmap.symm)
    · exact hstores.agree key hkey
  refine ⟨hfindings, hending, hentries, fun hkept => ?_⟩
  -- without layers the memory and its entries agree, and on the entries the copies are never used
  have hflat := (runFlat_entries script m).symm.trans (runFlat_eq_runSaving hkept)
  exact ⟨hending.trans (congrArg Prod.fst hflat).symm, hentries.trans (congrArg Prod.snd hflat).symm⟩

def twoCounted : Memory :=
  Store.set (LayeredStore.openChanges (Store.set Memory.empty [1] [5])) Layer.levelKey [0, 0, 0, 2]

/-- A layer that clears a key and, in a layer held inside, writes another one. -/
def clearAndHold : Script DispatchError (Option Bytes) :=
  .layer id
    (.clear [1] <| .hold id (.set [2] [6] (.done (.close .commit))) fun _ =>
      (.done () : Script DispatchError Unit))
    fun _ => .get [1] .done

theorem clearAndHold_keepsLayers : clearAndHold.KeepsLayers 2 twoCounted.entries :=
  ⟨by decide, ⟨by decide, trivial, _, rfl, trivial⟩, (), _, rfl, trivial⟩

theorem clearAndHold_refines :
    clearAndHold.ReadsOnly (· ≠ Layer.levelKey) ∧ clearAndHold.WritesOnly (· ≠ Layer.levelKey) ∧
    Layer.level twoCounted < Layer.limit ∧
    Store.get? twoCounted Layer.levelKey ≠ some (Codec.u32.encode 0) ∧
    clearAndHold.KeepsLayers (Layer.level twoCounted).toNat twoCounted.entries ∧
    clearAndHold.findings twoCounted = clearAndHold.findingsSaving 2 twoCounted.entries ∧
    (clearAndHold.run twoCounted).1 = .ok none ∧
    (clearAndHold.run twoCounted).2.entries = (clearAndHold.runFlat twoCounted).2.entries := by
  have hreads : clearAndHold.ReadsOnly (· ≠ Layer.levelKey) :=
    ⟨⟨trivial, fun _ => trivial⟩, fun _ => ⟨by decide, fun _ => trivial⟩⟩
  have hwrites : clearAndHold.WritesOnly (· ≠ Layer.levelKey) :=
    ⟨⟨by decide, ⟨by decide, trivial⟩, fun _ => trivial⟩, fun _ _ => trivial⟩
  have hlevel : Layer.level twoCounted = 2 := rfl
  have hlimit : Layer.level twoCounted < Layer.limit := by rw [hlevel]; decide
  have hzero : Store.get? twoCounted Layer.levelKey ≠ some (Codec.u32.encode 0) := by decide
  have hkept : clearAndHold.KeepsLayers (Layer.level twoCounted).toNat twoCounted.entries :=
    clearAndHold_keepsLayers
  obtain ⟨hfindings, -, -, hflat⟩ :=
    layers_refine_saved_copies clearAndHold hreads hwrites twoCounted hlimit hzero
  exact ⟨hreads, hwrites, hlimit, hzero, hkept, hfindings, rfl, (hflat hkept).2⟩

end BlockRuntime.Script

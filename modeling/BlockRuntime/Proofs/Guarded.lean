import BlockRuntime.Proofs.Era.Window
import BlockRuntime.Store.Cell
/-!
Guarded operations. One that goes out of range or divides by zero has no result, and neither has a copy
whose target is not as long as what is copied. The phases and the codes of eras and the stems of items are
what guarded operations make of them, so none of these can go wrong.
-/

namespace UInt64

def checkedMod? (a b : UInt64) : Option UInt64 := if b = 0 then none else some (a % b)

theorem checkedMod?_of_pos (a : UInt64) {b : UInt64} (h : 0 < b.toNat) :
    ∃ c, a.checkedMod? b = some c ∧ c.toNat = a.toNat % b.toNat :=
  ⟨a % b, if_neg (ne_zero_of_toNat_pos h), UInt64.toNat_mod a b⟩

end UInt64

namespace BlockRuntime

namespace MortalEra

variable (e : MortalEra)

def quantumWord (period : UInt64) : UInt64 := (period >>> 12).greatest 1

theorem toNat_quantumWord (period : UInt64) :
    (quantumWord period).toNat = quantum period.toNat := by
  have hshift : (period >>> 12).toNat = period.toNat / 4096 := by
    rw [UInt64.toNat_shiftRight, Nat.shiftRight_eq_div_pow]
    rfl
  unfold quantumWord quantum
  rw [UInt64.toNat_greatest, hshift]
  rfl

theorem quantumWord_pos (period : UInt64) : 0 < (quantumWord period).toNat := by
  rw [toNat_quantumWord]
  exact quantum_pos _

def quanta? : Option UInt64 := e.phase.checkedDiv? (quantumWord e.period)

theorem quanta?_eq : ∃ n, e.quanta? = some n ∧
    e.word = (e.period.toNat.log2 - 1) + 16 * n.toNat := by
  obtain ⟨n, hdiv, hn⟩ := UInt64.checkedDiv?_of_pos e.phase (quantumWord_pos e.period)
  refine ⟨n, hdiv, ?_⟩
  unfold word
  rw [hn, toNat_quantumWord]

end MortalEra

namespace Era

def phaseNear? (period current : UInt64) : Option UInt64 := do
  let passed ← current.checkedMod? period
  let quanta ← passed.checkedDiv? (MortalEra.quantumWord period)
  quanta.checkedMul? (MortalEra.quantumWord period)

/-- For a period the guarded phase is there, and is the phase. -/
theorem phaseNear?_of_isPeriod {period : Nat} (hperiod : MortalEra.IsPeriod period)
    (current : UInt64) : phaseNear? (UInt64.ofNat period) current =
      some (UInt64.ofNat (MortalEra.phaseAt period current.toNat)) := by
  have hword : (UInt64.ofNat period).toNat = period := MortalEra.toNat_ofNat_of_isPeriod hperiod
  have hphase : (UInt64.ofNat (MortalEra.phaseAt period current.toNat)).toNat =
      MortalEra.phaseAt period current.toNat :=
    MortalEra.toNat_ofNat_of_isPhase hperiod (MortalEra.isPhase_phaseAt _ hperiod)
  have hpos := hperiod.pos
  obtain ⟨passed, hmod, hpassed⟩ : ∃ c, current.checkedMod? (UInt64.ofNat period) = some c ∧
      c.toNat = current.toNat % (UInt64.ofNat period).toNat :=
    UInt64.checkedMod?_of_pos current (by omega)
  have hquantum := MortalEra.toNat_quantumWord (UInt64.ofNat period)
  obtain ⟨quanta, hdiv, hquanta⟩ := UInt64.checkedDiv?_of_pos passed
    (MortalEra.quantumWord_pos (UInt64.ofNat period))
  -- whole quanta are no more than what they were cut from
  have hle : quanta.toNat * (MortalEra.quantumWord (UInt64.ofNat period)).toNat ≤ passed.toNat := by
    rw [hquanta]
    exact Nat.div_mul_le_self _ _
  obtain ⟨phase, hmul, hresult⟩ : ∃ c, quanta.checkedMul? (MortalEra.quantumWord (UInt64.ofNat period)) =
      some c ∧ c.toNat = quanta.toNat * (MortalEra.quantumWord (UInt64.ofNat period)).toNat :=
    UInt64.checkedMul?_of_lt (Nat.lt_of_le_of_lt hle passed.toNat_lt)
  have hexact : phase = UInt64.ofNat (MortalEra.phaseAt period current.toNat) := by
    apply UInt64.toNat_inj.mp
    rw [hphase, hresult, hquanta, hpassed, hquantum, hword]
    rfl
  unfold phaseNear?
  simp only [hmod, hdiv, hmul, hexact, Option.bind_eq_bind, Option.bind_some]

/-- The phase of an era that is started comes out of the guarded operations on its period. -/
theorem phaseNear?_eq (wanted current : UInt64) :
    ∃ e, starting wanted current = mortal e ∧ phaseNear? e.period current = some e.phase :=
  ⟨_, rfl, phaseNear?_of_isPeriod (MortalEra.isPeriod_periodFor wanted.toNat) current⟩

end Era

/-- Copies `source` over the places `first` to `last` of `target`, if they are there and `source` is as
long as they are. -/
def overwrite? (target : Bytes) (first last : Nat) (source : Bytes) : Option Bytes :=
  if first ≤ last ∧ last ≤ target.length ∧ source.length = last - first then
    some (target.take first ++ source ++ target.drop last)
  else none

namespace XxHash

def bytes128? (data : Bytes) : Option Bytes := do
  let low ← overwrite? (List.replicate 16 0) 0 8 (littleEndian 8 (hash 0 data).toNat)
  overwrite? low 8 16 (littleEndian 8 (hash 1 data).toNat)

end XxHash

def stemOf? (group item : String) : Option Bytes := do
  let groupHash ← XxHash.bytes128? (utf8 group)
  let itemHash ← XxHash.bytes128? (utf8 item)
  let low ← overwrite? (List.replicate 32 0) 0 16 groupHash
  overwrite? low 16 32 itemHash

/-- Two halves copied over zeros make the whole. -/
theorem overwrite?_halves {n : Nat} {a b : Bytes} (ha : a.length = n) (hb : b.length = n) :
    (do
      let low ← overwrite? (List.replicate (n + n) 0) 0 n a
      overwrite? low n (n + n) b) = some (a ++ b) := by
  have hlow : overwrite? (List.replicate (n + n) 0) 0 n a = some (a ++ List.replicate n 0) := by
    unfold overwrite?
    rw [if_pos ⟨Nat.zero_le _, by simp, by omega⟩]
    simp
  have hlength : (a ++ List.replicate n (0 : UInt8)).length = n + n := by simp [ha]
  have hhigh : overwrite? (a ++ List.replicate n 0) n (n + n) b = some (a ++ b) := by
    unfold overwrite?
    rw [if_pos ⟨Nat.le_add_left _ _, by omega, by omega⟩, List.take_left' ha,
      List.drop_of_length_le (by omega), List.append_nil]
  rw [hlow]
  exact hhigh

theorem XxHash.bytes128?_eq (data : Bytes) : bytes128? data = some (bytes128 data) :=
  overwrite?_halves (length_littleEndian 8 _) (length_littleEndian 8 _)

theorem stemOf?_eq (group item : String) : stemOf? group item = some (stemOf group item) := by
  unfold stemOf?
  rw [XxHash.bytes128?_eq, XxHash.bytes128?_eq]
  exact overwrite?_halves (XxHash.length_bytes128 _) (XxHash.length_bytes128 _)

end BlockRuntime

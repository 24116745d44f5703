import BlockRuntime.Codec.Sequence
import BlockRuntime.Word

namespace BlockRuntime

structure Weight where
  refTime : UInt64
  proofSize : UInt64
  deriving DecidableEq

namespace Weight

def zero : Weight := ⟨0, 0⟩

def maxValue : Weight := ⟨UInt64.maxValue, UInt64.maxValue⟩

instance : Inhabited Weight := ⟨zero⟩

instance : LE Weight := ⟨fun a b => a.refTime ≤ b.refTime ∧ a.proofSize ≤ b.proofSize⟩

instance (a b : Weight) : Decidable (a ≤ b) :=
  inferInstanceAs (Decidable (a.refTime ≤ b.refTime ∧ a.proofSize ≤ b.proofSize))

def isZero (a : Weight) : Bool := a.refTime == 0 && a.proofSize == 0

def saturatingAdd (a b : Weight) : Weight :=
  ⟨a.refTime.saturatingAdd b.refTime, a.proofSize.saturatingAdd b.proofSize⟩

def saturatingSub (a b : Weight) : Weight :=
  ⟨a.refTime.saturatingSub b.refTime, a.proofSize.saturatingSub b.proofSize⟩

def checkedAdd? (a b : Weight) : Option Weight :=
  match a.refTime.checkedAdd? b.refTime, a.proofSize.checkedAdd? b.proofSize with
  | some time, some size => some ⟨time, size⟩
  | _, _ => none

def checkedSub? (a b : Weight) : Option Weight :=
  match a.refTime.checkedSub? b.refTime, a.proofSize.checkedSub? b.proofSize with
  | some time, some size => some ⟨time, size⟩
  | _, _ => none

def least (a b : Weight) : Weight :=
  ⟨a.refTime.least b.refTime, a.proofSize.least b.proofSize⟩

def greatest (a b : Weight) : Weight :=
  ⟨a.refTime.greatest b.refTime, a.proofSize.greatest b.proofSize⟩

/-- Whether some component is greater than in `b`. -/
def exceeds (a b : Weight) : Bool := b.refTime < a.refTime || b.proofSize < a.proofSize

/-- Whether every component is greater than in `b`. -/
def exceedsFully (a b : Weight) : Bool := b.refTime < a.refTime && b.proofSize < a.proofSize

def fits (a b : Weight) : Bool := !a.exceeds b

def codec : Codec Weight :=
  (Codec.varint64.pair Codec.varint64).through
    (fun parts => ⟨parts.1, parts.2⟩) (fun weight => (weight.refTime, weight.proofSize))

@[ext] theorem ext {a b : Weight} (time : a.refTime = b.refTime)
    (size : a.proofSize = b.proofSize) : a = b := by
  cases a; cases b; cases time; cases size; rfl

theorem le_iff {a b : Weight} : a ≤ b ↔ a.refTime ≤ b.refTime ∧ a.proofSize ≤ b.proofSize :=
  Iff.rfl

theorem exceeds_eq_false_iff {a b : Weight} : a.exceeds b = false ↔ a ≤ b := by
  simp [exceeds, le_iff, UInt64.not_lt]

theorem fits_iff {a b : Weight} : a.fits b = true ↔ a ≤ b := by
  simp [fits, exceeds_eq_false_iff]

end Weight

end BlockRuntime

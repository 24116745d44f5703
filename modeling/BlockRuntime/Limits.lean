import BlockRuntime.Dispatch.Class
import BlockRuntime.Weight

namespace BlockRuntime

/-- The given percentage of a number, rounded down. More than a hundred percent is a hundred. -/
def percentOf (value : Nat) (percent : UInt8) : Nat := value * min percent.toNat 100 / 100

theorem percentOf_le (value : Nat) (percent : UInt8) : percentOf value percent ≤ value := by
  unfold percentOf
  have h : value * min percent.toNat 100 ≤ value * 100 :=
    Nat.mul_le_mul_left _ (Nat.min_le_right _ _)
  omega

structure BlockLength where
  max : PerClass UInt32
  deriving DecidableEq

namespace BlockLength

def uniform (limit : UInt32) : BlockLength := ⟨PerClass.ofFn fun _ => limit⟩

def withNormalShare (limit : UInt32) (percent : UInt8) : BlockLength :=
  ⟨⟨UInt32.ofNat (percentOf limit.toNat percent), limit, limit⟩⟩

def standard : BlockLength := withNormalShare (5 * 1024 * 1024) 75

end BlockLength

/-- The weight limits of one class. A limit that is missing does not bind. -/
structure ClassLimits where
  baseExtrinsic : Weight
  maxExtrinsic : Option Weight
  maxTotal : Option Weight
  /-- The part of the total that is held back from the class. -/
  reserved : Option Weight
  deriving DecidableEq

namespace ClassLimits

def unlimited : ClassLimits := ⟨Weight.zero, none, none, none⟩

instance : Inhabited ClassLimits := ⟨unlimited⟩

end ClassLimits

structure BlockWeights where
  baseBlock : Weight
  /-- The weight past which only reserves may still be used. -/
  maxBlock : Weight
  perClass : PerClass ClassLimits
  deriving DecidableEq

namespace BlockWeights

def get (weights : BlockWeights) (c : DispatchClass) : ClassLimits := weights.perClass.get c

def uniform (block : Weight) : BlockWeights where
  baseBlock := Weight.zero
  maxBlock := block
  perClass := PerClass.ofFn fun c =>
    match c with
    | .mandatory => ClassLimits.unlimited
    | _ => { ClassLimits.unlimited with maxTotal := some block }

def share (weight : Weight) (percent : UInt8) : Weight :=
  ⟨UInt64.ofNat (percentOf weight.refTime.toNat percent),
    UInt64.ofNat (percentOf weight.proofSize.toNat percent)⟩

def withNormalShare (block : Weight) (percent : UInt8) : BlockWeights where
  baseBlock := Weight.zero
  maxBlock := block
  perClass := {
    normal :=
      { ClassLimits.unlimited with
        maxExtrinsic := some (share block percent), maxTotal := some (share block percent) }
    operational :=
      { ClassLimits.unlimited with maxExtrinsic := some block, maxTotal := some block }
    mandatory := ClassLimits.unlimited }

def standard : BlockWeights := withNormalShare ⟨2000000000000, 5 * 1024 * 1024⟩ 75

end BlockWeights

end BlockRuntime

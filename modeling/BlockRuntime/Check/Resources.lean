import BlockRuntime.Check.Basic
import BlockRuntime.Limits
import BlockRuntime.Books

namespace BlockRuntime

def BlockLength.charge (limits : BlockLength) (c : DispatchClass) (current : UInt32)
    (length : UInt64) : Except Rejection UInt32 :=
  let next := current.saturatingAdd (UInt32.clamp length.toNat)
  if limits.max.get c < next then .error Rejection.exhausts else .ok next

namespace ClassLimits

def isUnlimited (limits : ClassLimits) : Bool := limits.maxTotal.isNone && limits.reserved.isNone

def chargeFor (limits : ClassLimits) (declared : Weight) : Weight :=
  declared.saturatingAdd limits.baseExtrinsic

end ClassLimits

namespace BlockWeights

def checkCap (weights : BlockWeights) (cost : DeclaredCost) : Except Rejection Unit :=
  match (weights.get cost.cls).maxExtrinsic with
  | some cap => if cost.weight.exceeds cap then .error Rejection.exhausts else .ok ()
  | none => .ok ()

def addCharge (weights : BlockWeights) (ledger : WeightLedger) (cost : DeclaredCost) :
    Except Rejection WeightLedger :=
  let limits := weights.get cost.cls
  let weight := limits.chargeFor cost.weight
  if limits.isUnlimited then .ok (ledger.accrue cost.cls weight)
  else
    -- where an unlimited class is capped at the largest word, one with a limit is refused
    match ledger.checkedAccrue? cost.cls weight with
    | some ledger => .ok ledger
    | none => .error Rejection.exhausts

def withinTotal (limits : ClassLimits) (used : Weight) : Bool :=
  match limits.maxTotal with
  | some total => used.fits (total.saturatingSub (limits.reserved.getD Weight.zero))
  | none => true

/-- Whether the block has room, or the class stays within its reserve. -/
def withinReserve (weights : BlockWeights) (limits : ClassLimits) (ledger : WeightLedger)
    (used : Weight) : Bool :=
  match limits.reserved with
  | some reserve => ledger.total.fits weights.maxBlock || used.fits reserve
  | none => true

def charge (weights : BlockWeights) (ledger : WeightLedger) (cost : DeclaredCost) :
    Except Rejection WeightLedger :=
  match weights.addCharge ledger cost with
  | .error rejection => .error rejection
  | .ok charged =>
    let limits := weights.get cost.cls
    let used := charged.get cost.cls
    if withinTotal limits used && weights.withinReserve limits charged used then .ok charged
    else .error Rejection.exhausts

end BlockWeights

namespace Check

variable {σ : Type} [Store σ]

def chargedLength (limits : BlockLength) (cost : DeclaredCost) (length : UInt64) :
    Program σ Rejection UInt32 := do
  let current ← lookup Books.extrinsicsLength.get
  Program.ofExcept (limits.charge cost.cls current length)

/-- What the pool is told: only the limits that do not depend on the weight of other extrinsics are
looked at. -/
def admitResources (lengths : BlockLength) (weights : BlockWeights) (submission : Submission) :
    Program σ Rejection Admission := do
  let _ ← chargedLength lengths submission.cost submission.length
  Program.ofExcept (weights.checkCap submission.cost)
  pure Admission.neutral

def chargeResources (lengths : BlockLength) (weights : BlockWeights) (submission : Submission) :
    Program σ Rejection Unit := do
  let length ← chargedLength lengths submission.cost submission.length
  Program.ofExcept (weights.checkCap submission.cost)
  let ledger ← lookup Books.blockWeight.get
  let charged ← Program.ofExcept (weights.charge ledger submission.cost)
  -- nothing was written up to here
  Program.update (Books.extrinsicsLength.put length)
  Program.update (Books.blockWeight.put charged)

def refund (settlement : Settlement) : Program σ Rejection Unit :=
  let unspent := settlement.reported.unspent settlement.cost
  if unspent.isZero then pure ()
  else
    (Books.blockWeight.modify fun ledger =>
      (ledger.reduce settlement.cost.cls unspent, ())).mapError fun _ => Rejection.lookupFailed

def resources (lengths : BlockLength) (weights : BlockWeights) : Check σ where
  name := "CheckWeight"
  validate _ submission := admitResources lengths weights submission
  preDispatch _ submission := do
    chargeResources lengths weights submission
    pure Receipt.empty
  validateUnsigned submission := admitResources lengths weights submission
  preDispatchUnsigned submission := chargeResources lengths weights submission
  postDispatch _ settlement := refund settlement

end Check

end BlockRuntime

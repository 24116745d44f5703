import BlockRuntime.Dispatch.Class

namespace BlockRuntime

inductive Fee where
  | paid
  | waived
  deriving DecidableEq

namespace Fee

def both (a b : Fee) : Fee :=
  match a, b with
  | paid, paid => paid
  | _, _ => waived

end Fee

structure DeclaredCost where
  weight : Weight
  cls : DispatchClass
  fee : Fee := .paid
  deriving DecidableEq

structure ReportedCost where
  /-- The weight used, or nothing if the declared weight was used in full. -/
  weight : Option Weight := none
  fee : Fee := .paid
  deriving DecidableEq

namespace ReportedCost

instance : Inhabited ReportedCost := ⟨{}⟩

/-- The weight used, at most the declared one in each component. -/
def actual (reported : ReportedCost) (declared : DeclaredCost) : Weight :=
  match reported.weight with
  | some used => used.least declared.weight
  | none => declared.weight

def unspent (reported : ReportedCost) (declared : DeclaredCost) : Weight :=
  declared.weight.saturatingSub (reported.actual declared)

def finalFee (reported : ReportedCost) (declared : DeclaredCost) : Fee :=
  declared.fee.both reported.fee

end ReportedCost

inductive DispatchError where
  | other (reason : String)
  | cannotLookup
  | badOrigin
  | layerLimitReached
  | noLayer
  deriving DecidableEq

namespace DispatchError

def message : DispatchError → String
  | other reason => reason
  | cannotLookup => "cannot lookup"
  | badOrigin => "bad origin"
  | layerLimitReached => "too many nested transactional layers"
  | noLayer => "storage layer required but none is open"

end DispatchError

structure FailedDispatch where
  cost : ReportedCost
  error : DispatchError
  deriving DecidableEq

namespace FailedDispatch

/-- A failure that reports no cost of its own is charged as declared. -/
def ofError (error : DispatchError) : FailedDispatch := ⟨default, error⟩

def message (failed : FailedDispatch) : String := failed.error.message

end FailedDispatch

abbrev DispatchResult := Except DispatchError Unit

end BlockRuntime

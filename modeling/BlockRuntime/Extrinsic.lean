import BlockRuntime.Check.Chain
import BlockRuntime.Layer
import BlockRuntime.Books
/-!
Extrinsics, from the pool into a block. An extrinsic is applied in a storage layer: its checks run,
then its body in a second layer inside, then the settlement. If it is rejected anywhere on the way the
outer layer is undone, so a rejected extrinsic leaves no trace; if only its body fails, the body alone
is undone and the extrinsic is included at the cost that it reported.
-/

namespace BlockRuntime

inductive ApplyError where
  | rejected (rejection : Rejection)
  | layer (cause : DispatchError)
  deriving DecidableEq

def ApplyError.message : ApplyError → String
  | rejected rejection => rejection.message
  | layer cause => "could not open storage layer: " ++ cause.message

namespace Extrinsic

variable {σ : Type}

def validate (chain : CheckChain σ) (who : Option AccountId) (submission : Submission) :
    Program σ Rejection Admission :=
  -- mandatory work is never submitted as a transaction
  if submission.cost.cls = .mandatory then Program.fail (.invalid .mandatoryDispatch)
  else
    match who with
    | some who => chain.validate who submission
    | none => chain.validateUnsigned submission

def preDispatch (chain : CheckChain σ) (who : Option AccountId) (submission : Submission) :
    Program σ Rejection (Option (List Receipt)) :=
  match who with
  | some who => do pure (some (← chain.preDispatch who submission))
  | none => do
    chain.preDispatchUnsigned submission
    pure none

def reportedCost : Except FailedDispatch ReportedCost → ReportedCost
  | .ok reported => reported
  | .error failed => failed.cost

def dispatchResult : Except FailedDispatch ReportedCost → DispatchResult
  | .ok _ => .ok ()
  | .error failed => .error failed.error

/-- Whether a failed dispatch has to keep its extrinsic out of the block. -/
def isBadMandatory (c : DispatchClass) : DispatchResult → Bool
  | .ok () => false
  | .error _ => c = .mandatory

/-- Runs the checks, then the body in a layer of its own: the receipts of the checks and the outcome of
the body. -/
def checkAndDispatch [LayeredStore σ] (chain : CheckChain σ) (who : Option AccountId)
    (submission : Submission) (dispatch : Program σ FailedDispatch ReportedCost) :
    Program σ ApplyError (Option (List Receipt) × Except FailedDispatch ReportedCost) := do
  let receipts ← (preDispatch chain who submission).mapError ApplyError.rejected
  let outcome ← (Layer.run FailedDispatch.ofError dispatch).result
  pure (receipts, outcome)

def settle [Store σ] (chain : CheckChain σ) (submission : Submission)
    (receipts : Option (List Receipt)) (outcome : Except FailedDispatch ReportedCost) :
    Program σ ApplyError DispatchResult := do
  let result := dispatchResult outcome
  let settlement := ⟨submission.cost, reportedCost outcome, submission.length, result⟩
  (chain.postDispatch receipts settlement).mapError ApplyError.rejected
  -- the checks have already settled by now; the layer around undoes that as well
  if isBadMandatory submission.cost.cls result then
    Program.fail (ApplyError.rejected (.invalid .badMandatory))
  else
    Books.noteApplied.mapError fun _ => ApplyError.rejected Rejection.lookupFailed
    pure result

def apply [LayeredStore σ] (chain : CheckChain σ) (who : Option AccountId)
    (submission : Submission) (dispatch : Program σ FailedDispatch ReportedCost) :
    Program σ ApplyError DispatchResult :=
  Layer.run ApplyError.layer do
    let (receipts, outcome) ← checkAndDispatch chain who submission dispatch
    settle chain submission receipts outcome

end Extrinsic

end BlockRuntime

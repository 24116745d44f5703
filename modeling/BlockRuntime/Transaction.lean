import BlockRuntime.Bytes
import BlockRuntime.Word

namespace BlockRuntime

inductive InvalidReason where
  | call
  | payment
  | future
  | stale
  | badProof
  | ancientBirthBlock
  | exhaustsResources
  | badMandatory
  | mandatoryDispatch
  | badSigner
  | custom (code : UInt8)
  deriving DecidableEq

def InvalidReason.message : InvalidReason → String
  | call => "call cannot be dispatched"
  | payment => "unable to pay fees"
  | future => "transaction not yet valid"
  | stale => "transaction is outdated"
  | badProof => "bad proof"
  | ancientBirthBlock => "birth block is no longer known"
  | exhaustsResources => "transaction would exhaust the block limits"
  | badMandatory => "mandatory dispatch failed"
  | mandatoryDispatch => "mandatory dispatch cannot be submitted as a transaction"
  | badSigner => "invalid signing address"
  | custom code => "custom invalid transaction (" ++ Nat.repr code.toNat ++ ")"

inductive UnknownReason where
  | cannotLookup
  | noUnsignedValidator
  | custom (code : UInt8)
  deriving DecidableEq

def UnknownReason.message : UnknownReason → String
  | cannotLookup => "could not look up required information"
  | noUnsignedValidator => "no validator for unsigned transaction"
  | custom code => "custom unknown transaction (" ++ Nat.repr code.toNat ++ ")"

inductive Rejection where
  | invalid (reason : InvalidReason)
  | unknown (reason : UnknownReason)
  deriving DecidableEq

namespace Rejection

def message : Rejection → String
  | invalid reason => "invalid transaction: " ++ reason.message
  | unknown reason => "unknown transaction validity: " ++ reason.message

def exhaustedResources : Rejection → Bool
  | invalid .exhaustsResources => true
  | _ => false

def wasMandatory : Rejection → Bool
  | invalid .badMandatory => true
  | _ => false

def exhausts : Rejection := invalid .exhaustsResources

def lookupFailed : Rejection := unknown .cannotLookup

end Rejection

structure Admission where
  priority : UInt64 := 0
  requires : List Bytes := []
  provides : List Bytes := []
  longevity : UInt64 := UInt64.maxValue
  propagate : Bool := true
  deriving DecidableEq

namespace Admission

def neutral : Admission := {}

instance : Inhabited Admission := ⟨neutral⟩

/-- Both answers in one: priorities add up, tags are joined, the shorter longevity holds, and both
have to agree to propagate. -/
def combine (a b : Admission) : Admission where
  priority := a.priority.saturatingAdd b.priority
  requires := a.requires ++ b.requires
  provides := a.provides ++ b.provides
  longevity := a.longevity.least b.longevity
  propagate := a.propagate && b.propagate

end Admission

end BlockRuntime

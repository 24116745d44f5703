import BlockRuntime.Account
import BlockRuntime.Dispatch.Outcome
import BlockRuntime.Program
import BlockRuntime.Store.Basic
import BlockRuntime.Transaction
/-!
Checks of transactions. A check takes part in four phases: it may add data that the signer commits
to, it validates for the transaction pool, it runs once more right before the dispatch and leaves a
receipt, and it settles once the actual cost is known. A phase that a check does not name has no
effect and no objection; the phase before the dispatch then validates again.
-/

namespace BlockRuntime

structure Receipt where
  bytes : Bytes
  deriving DecidableEq

namespace Receipt

def empty : Receipt := ⟨[]⟩

def isEmpty (receipt : Receipt) : Bool := receipt.bytes.isEmpty

end Receipt

/-- Data that a signer commits to and that is not sent along. -/
inductive SignedDatum where
  | specVersion (version : UInt32)
  | transactionVersion (version : UInt32)
  | genesisHash (hash : BlockHash)
  | birthBlockHash (hash : BlockHash)
  deriving DecidableEq

def SignedDatum.encode : SignedDatum → Bytes
  | specVersion version => Codec.u32.encode version
  | transactionVersion version => Codec.u32.encode version
  | genesisHash hash => BlockHash.codec.encode hash
  | birthBlockHash hash => BlockHash.codec.encode hash

structure Submission where
  call : Bytes
  cost : DeclaredCost
  length : UInt64
  deriving DecidableEq

structure Settlement where
  cost : DeclaredCost
  reported : ReportedCost
  length : UInt64
  result : DispatchResult

structure Check (σ : Type) where
  name : String
  signedDatum : Program σ Rejection (Option SignedDatum) := pure none
  validate : AccountId → Submission → Program σ Rejection Admission := fun _ _ =>
    pure Admission.neutral
  preDispatch : AccountId → Submission → Program σ Rejection Receipt := fun who submission => do
    let _ ← validate who submission
    pure Receipt.empty
  validateUnsigned : Submission → Program σ Rejection Admission := fun _ =>
    pure Admission.neutral
  preDispatchUnsigned : Submission → Program σ Rejection Unit := fun submission => do
    let _ ← validateUnsigned submission
    pure ()
  /-- Settles a dispatch. The receipt is the one of this check, and none if nobody signed. -/
  postDispatch : Option Receipt → Settlement → Program σ Rejection Unit := fun _ _ => pure ()

namespace Check

variable {σ α : Type}

def lookup (f : σ → Except StoreError α) : Program σ Rejection α :=
  (Program.query f).mapError fun _ => Rejection.lookupFailed

end Check

end BlockRuntime

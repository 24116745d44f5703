import BlockRuntime.Check.Basic

namespace BlockRuntime

structure CheckChain (σ : Type) where
  checks : List (Check σ)

namespace CheckChain

variable {σ : Type}

def length (chain : CheckChain σ) : Nat := chain.checks.length

def isEmpty (chain : CheckChain σ) : Bool := chain.checks.isEmpty

def names (chain : CheckChain σ) : List String := chain.checks.map Check.name

def signedData (chain : CheckChain σ) : Program σ Rejection (List SignedDatum) := do
  let data ← chain.checks.mapM Check.signedDatum
  pure (data.filterMap id)

def signedBytes (chain : CheckChain σ) : Program σ Rejection Bytes := do
  let data ← chain.signedData
  pure (data.flatMap SignedDatum.encode)

def validate (chain : CheckChain σ) (who : AccountId) (submission : Submission) :
    Program σ Rejection Admission :=
  chain.checks.foldlM
    (fun admission check => do pure (admission.combine (← check.validate who submission)))
    Admission.neutral

def validateUnsigned (chain : CheckChain σ) (submission : Submission) :
    Program σ Rejection Admission :=
  chain.checks.foldlM
    (fun admission check => do pure (admission.combine (← check.validateUnsigned submission)))
    Admission.neutral

def preDispatch (chain : CheckChain σ) (who : AccountId) (submission : Submission) :
    Program σ Rejection (List Receipt) :=
  chain.checks.mapM fun check => check.preDispatch who submission

def preDispatchUnsigned (chain : CheckChain σ) (submission : Submission) :
    Program σ Rejection Unit :=
  chain.checks.forM fun check => check.preDispatchUnsigned submission

def postDispatch (chain : CheckChain σ) (receipts : Option (List Receipt))
    (settlement : Settlement) : Program σ Rejection Unit :=
  match receipts with
  | none => chain.checks.forM fun check => check.postDispatch none settlement
  | some receipts =>
    -- any other number of receipts is refused before a check runs
    if receipts.length = chain.checks.length then
      (chain.checks.zip receipts).forM fun (check, receipt) =>
        check.postDispatch (some receipt) settlement
    else Program.fail Rejection.lookupFailed

end CheckChain

end BlockRuntime

import BlockRuntime.Check.Chain
import BlockRuntime.Check.Resources
import BlockRuntime.Era

namespace BlockRuntime

namespace Check

variable {σ : Type}

def nonZeroSender : Check σ where
  name := "CheckNonZeroSender"
  validate who _ :=
    if who.isZero then Program.fail (.invalid .badSigner) else pure Admission.neutral

def specVersion (version : UInt32) : Check σ where
  name := "CheckSpecVersion"
  signedDatum := pure (some (.specVersion version))

def transactionVersion (version : UInt32) : Check σ where
  name := "CheckTxVersion"
  signedDatum := pure (some (.transactionVersion version))

variable [Store σ]

def genesis : Check σ where
  name := "CheckGenesis"
  signedDatum := do
    match ← lookup (Books.blockHash? 0) with
    | some hash => pure (some (.genesisHash hash))
    | none => Program.fail Rejection.lookupFailed

/-- Binds the signature to the hash of the birth block of an era, and lets the transaction live as
long as the era does. -/
def mortality (era : Era) : Check σ where
  name := "CheckMortality"
  signedDatum := do
    let current ← lookup Books.blockNumber
    let birth ← Program.demand (era.birth? current)
    match ← lookup (Books.blockHash? birth) with
    | some hash => pure (some (.birthBlockHash hash))
    | none => Program.fail (.invalid .ancientBirthBlock)
  validate _ _ := do
    let current ← lookup Books.blockNumber
    let death ← Program.demand (era.death? current)
    pure { Admission.neutral with longevity := death.saturatingSub current }

theorem signedDatum_mortality (era : Era) : (mortality era : Check σ).signedDatum = (do
    let current ← lookup Books.blockNumber
    match ← lookup (Books.blockHash? (era.birth current)) with
    | some hash => pure (some (.birthBlockHash hash))
    | none => Program.fail (.invalid .ancientBirthBlock)) := by
  simp only [mortality, Era.birth?_eq, Program.demand_some, pure_bind]

theorem validate_mortality (era : Era) (who : AccountId) (submission : Submission) :
    (mortality era : Check σ).validate who submission = (do
      let current ← lookup Books.blockNumber
      pure { Admission.neutral with longevity := (era.death current).saturatingSub current }) := by
  simp only [mortality, Era.death?_eq, Program.demand_some, pure_bind]

def nonceTag (who : AccountId) (nonce : UInt64) : Bytes :=
  AccountId.codec.encode who ++ Codec.u64.encode nonce

/-- Uses up a nonce, if it is the next one of the account and not the last of all. -/
def spendNonce (record : AccountRecord) (nonce : UInt64) : Except Rejection AccountRecord :=
  if nonce < record.nonce then .error (.invalid .stale)
  else if record.nonce < nonce then .error (.invalid .future)
  else
    match record.nonce.checkedAdd? 1 with
    | none => .error Rejection.exhausts
    | some next => .ok { record with nonce := next }

def nonceAdmission (who : AccountId) (current nonce : UInt64) : Exit Rejection Admission :=
  if nonce < current then .error (.invalid .stale)
  -- the last nonce of all has no successor, so it can never be dispatched
  else if nonce = UInt64.maxValue then .error Rejection.exhausts
  else if current < nonce then
    match nonce.checkedSub? 1 with
    | some previous => .ok {
        requires := [nonceTag who previous]
        provides := [nonceTag who nonce] }
    | none => .aborted
  else .ok { provides := [nonceTag who nonce] }

/-- Admits a transaction with a nonce that is not behind its account, and dispatches it only when the
nonce is the account's next one. -/
def nonce (claimed : UInt64) : Check σ where
  name := "CheckNonce"
  validate who _ := do
    let current ← lookup (Books.nonce who)
    Program.ofExit (nonceAdmission who current claimed)
  preDispatch who _ := do
    let cell := Books.account.cell who
    let record ← lookup cell.get
    let record ← Program.ofExcept (spendNonce record claimed)
    Program.update (cell.put record)
    pure ⟨Codec.u64.encode claimed⟩

end Check

def CheckChain.standard {σ : Type} [Store σ] (parameters : Parameters) (era : Era) (nonce : UInt64) :
    CheckChain σ where
  checks := [
    Check.nonZeroSender,
    Check.specVersion parameters.versions.specVersion,
    Check.transactionVersion parameters.versions.transactionVersion,
    Check.genesis,
    Check.mortality era,
    Check.nonce nonce,
    Check.resources parameters.blockLength parameters.blockWeights]

end BlockRuntime

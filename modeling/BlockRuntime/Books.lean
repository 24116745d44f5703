import BlockRuntime.Account
import BlockRuntime.Config.Basic
import BlockRuntime.Dispatch.Outcome
import BlockRuntime.Dispatch.Class
import BlockRuntime.Store.Cell

namespace BlockRuntime

namespace Books

variable {σ : Type} [Store σ]

def group : String := "System"

def account : CellMap AccountId AccountRecord :=
  .named group "Account" .hashed AccountId.codec AccountRecord.codec AccountRecord.fresh

def blockHashes : CellMap UInt64 BlockHash :=
  .named group "BlockHash" .hashed Codec.u64 BlockHash.codec BlockHash.zero

def number : Cell UInt64 := .named group "Number" Codec.u64 0

def extrinsicsLength : Cell UInt32 := .named group "AllExtrinsicsLen" Codec.u32 0

def blockWeight : Cell WeightLedger :=
  .named group "BlockWeight" WeightLedger.codec WeightLedger.empty

def extrinsicIndex : Cell UInt32 := ⟨utf8 ":extrinsic_index", Codec.u32, 0⟩

def blockNumber (s : σ) : Except StoreError UInt64 := number.get s

def blockHash? (n : UInt64) (s : σ) : Except StoreError (Option BlockHash) :=
  (blockHashes.cell n).get? s

def nonce (who : AccountId) (s : σ) : Except StoreError UInt64 :=
  ((account.cell who).get s).map AccountRecord.nonce

def raiseNonce (who : AccountId) : Program σ StoreError Unit :=
  (account.cell who).modify fun record =>
    ({ record with nonce := record.nonce.saturatingAdd 1 }, ())

def seed (genesis : BlockHash) (s : σ) : σ :=
  (blockHashes.cell 0).put genesis (number.put 0 s)

def startBlock (n : UInt64) (parent : BlockHash) (s : σ) : σ :=
  blockWeight.clear <|
    extrinsicIndex.put 0 <|
      (blockHashes.cell (n.saturatingSub 1)).put parent <|
        number.put n s

def pruned? (n kept : UInt64) : Option UInt64 :=
  let oldest := (n.saturatingSub kept).saturatingSub 1
  -- the hash of block zero is kept for good
  if oldest = 0 then none else some oldest

def finishBlock (kept : UInt64) : Program σ StoreError Unit := do
  let n ← Program.query blockNumber
  Program.update extrinsicsLength.clear
  let _ ← extrinsicIndex.take
  match pruned? n kept with
  | some oldest => Program.update (blockHashes.cell oldest).clear
  | none => pure ()

def charge (weight : Weight) (c : DispatchClass) : Program σ StoreError Unit :=
  blockWeight.modify fun ledger => (ledger.accrue c weight, ())

def noteApplied : Program σ StoreError Unit :=
  extrinsicIndex.modify fun index => (index.saturatingAdd 1, ())

end Books

namespace Block

variable {σ : Type} [Store σ]

def seed (parameters : Parameters) (s : σ) : σ := Books.seed parameters.genesisHash s

def start (parameters : Parameters) (n : UInt64) (parent : BlockHash) :
    Program σ StoreError Unit := do
  Program.update (Books.startBlock n parent)
  let base := parameters.blockWeights.baseBlock
  if base.isZero then pure () else Books.charge base .mandatory

def finish (parameters : Parameters) : Program σ StoreError Unit :=
  Books.finishBlock parameters.blockHashCount

end Block

end BlockRuntime

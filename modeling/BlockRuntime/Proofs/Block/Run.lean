import BlockRuntime.Books
import BlockRuntime.Proofs.Extrinsic.Inclusion

namespace BlockRuntime.Block

structure Request where
  era : Era
  nonce : UInt64
  who : Option AccountId
  submission : Submission
  body : Script FailedDispatch ReportedCost

namespace Request

def chain (parameters : Parameters) (request : Request) : CheckChain Memory :=
  CheckChain.standard parameters request.era request.nonce

def apply (parameters : Parameters) (request : Request) : Program Memory ApplyError DispatchResult :=
  Extrinsic.apply (request.chain parameters) request.who request.submission request.body.run

def reported (parameters : Parameters) (request : Request) (m : Memory) : ReportedCost :=
  Extrinsic.reported (request.chain parameters) request.who request.submission request.body.run m

def Spares (keys : List Key) (request : Request) : Prop := request.body.WritesOnly (· ∉ keys)

end Request

theorem Request.Spares.mono {keys fewer : List Key} {request : Request} (h : request.Spares keys)
    (hsub : ∀ key ∈ fewer, key ∈ keys) : request.Spares fewer :=
  Script.WritesOnly.mono h fun key hkey hmem => hkey (hsub key hmem)

structure Inclusion where
  submission : Submission
  reported : ReportedCost

inductive Step where
  | start (n : UInt64) (parent : BlockHash)
  | apply (request : Request)
  | finish

/-- How far a run has come: its store, and what it has included since it last started a block, the
latest first. -/
structure Progress where
  store : Memory
  included : List Inclusion

def step (parameters : Parameters) (progress : Progress) : Step → Progress
  | .start n parent => ⟨(start parameters n parent progress.store).2, []⟩
  | .apply request =>
    match request.apply parameters progress.store with
    | (.ok _, store) =>
      ⟨store, ⟨request.submission, request.reported parameters progress.store⟩ :: progress.included⟩
    | (_, store) => ⟨store, progress.included⟩
  | .finish => ⟨(finish parameters progress.store).2, progress.included⟩

def run (parameters : Parameters) (steps : List Step) (progress : Progress) : Progress :=
  steps.foldl (step parameters) progress

theorem run_append (parameters : Parameters) (xs ys : List Step) (progress : Progress) :
    run parameters (xs ++ ys) progress = run parameters ys (run parameters xs progress) :=
  List.foldl_append

variable {parameters : Parameters} {progress : Progress} {request : Request} {key : Key}
  {m t : Memory}

section Start

/-- The ledger with which a block starts: its fixed cost, charged to the mandatory class. -/
def openingLedger (weights : BlockWeights) : WeightLedger :=
  WeightLedger.empty.set .mandatory weights.baseBlock

/-- The fixed cost of a block is what its mandatory class starts with. -/
theorem openingLedger_eq_accrue (weights : BlockWeights) :
    openingLedger weights = WeightLedger.empty.accrue .mandatory weights.baseBlock := by
  apply PerClass.ext
  intro c
  unfold openingLedger
  rw [PerClass.get_set, WeightLedger.get_accrue]
  by_cases hc : c = .mandatory
  · rw [if_pos hc, if_pos hc]
    exact (Weight.zero_saturatingAdd _).symm
  · rw [if_neg hc, if_neg hc]

/-- Once the books of a new block are open, its fixed cost is charged, if it has one. -/
theorem start_eq (n : UInt64) (parent : BlockHash) (m : Memory) :
    start parameters n parent m =
      (if parameters.blockWeights.baseBlock.isZero then pure ()
        else Books.charge parameters.blockWeights.baseBlock .mandatory :
          Program Memory StoreError Unit) (Books.startBlock n parent m) := rfl

/-- The fixed cost can always be charged, for the books are opened with an empty ledger. -/
theorem start_ok (n : UInt64) (parent : BlockHash) (m : Memory) :
    (start parameters n parent m).1 = .ok () := by
  have hclear : Books.blockWeight.get (Books.startBlock n parent m) = .ok WeightLedger.empty :=
    Cell.get_clear _ _
  rw [start_eq]
  split
  · rfl
  · exact congrArg Prod.fst (Cell.modify_ok hclear)

/-- Whether the fixed cost of a block is charged or there is none, nothing but the ledger is written. -/
theorem keeps_baseCharge {τ : Type} {view : Memory → τ}
    (hput : ∀ value m, view (Store.set m Books.blockWeight.key value) = view m) :
    (if parameters.blockWeights.baseBlock.isZero then pure ()
      else Books.charge parameters.blockWeights.baseBlock .mandatory :
        Program Memory StoreError Unit).Keeps view := by
  split
  · exact .pure _
  · exact .bind (.query _) fun _ => .bind (.update fun m => hput _ m) fun _ => .pure _

theorem get?_start (n : UInt64) (parent : BlockHash) (h : Books.blockWeight.key ≠ key) (m : Memory) :
    Store.get? (start parameters n parent m).2 key = Store.get? (Books.startBlock n parent m) key := by
  have hput (value : Bytes) (m : Memory) :
      Store.get? (Store.set m Books.blockWeight.key value) key = Store.get? m key :=
    (Memory.get?_set m _ value key).trans (if_neg h)
  exact @keeps_baseCharge parameters _ (Store.at key) hput (Books.startBlock n parent m)

/-- A block that is started has its fixed cost on its ledger. -/
theorem blockWeight_start (n : UInt64) (parent : BlockHash) (m : Memory) :
    Books.blockWeight.get (start parameters n parent m).2 =
      .ok (openingLedger parameters.blockWeights) := by
  have hclear : Books.blockWeight.get (Books.startBlock n parent m) = .ok WeightLedger.empty :=
    Cell.get_clear _ _
  rw [start_eq]
  -- a block without a fixed cost leaves its ledger empty and unwritten
  by_cases hzero : parameters.blockWeights.baseBlock.isZero
  · unfold openingLedger
    rw [if_pos hzero, Weight.eq_zero_of_isZero hzero]
    exact hclear
  · rw [if_neg hzero, openingLedger_eq_accrue]
    unfold Books.charge
    rw [Cell.modify_ok hclear]
    exact Cell.get_put WeightLedger.codec_lawful _ _

/-- A block starts with the index of its first extrinsic. -/
theorem extrinsicIndex_start (n : UInt64) (parent : BlockHash) (m : Memory) :
    Books.extrinsicIndex.get (start parameters n parent m).2 = .ok 0 := by
  have hne := (Books.extrinsicIndex_ne Books.blockWeight_mem_meterKeys).symm
  apply Cell.get_of_encode Codec.u32_lawful
  calc
    Store.get? (start parameters n parent m).2 Books.extrinsicIndex.key =
        Store.get? (Books.startBlock n parent m) Books.extrinsicIndex.key := get?_start n parent hne m
    _ = Store.get? (Books.extrinsicIndex.put 0 _) Books.extrinsicIndex.key :=
      Cell.get?_clear_of_ne hne _
    _ = some (Codec.u32.encode 0) := Cell.get?_put_self _ _ _

theorem number_start (n : UInt64) (parent : BlockHash) (m : Memory) :
    Books.number.get (start parameters n parent m).2 = .ok n := by
  have hne := Books.Item.key_ne .blockWeight .number nofun
  apply Cell.get_of_encode Codec.u64_lawful
  calc
    Store.get? (start parameters n parent m).2 Books.number.key =
        Store.get? (Books.startBlock n parent m) Books.number.key := get?_start n parent hne m
    _ = Store.get? (Books.extrinsicIndex.put 0 _) Books.number.key := Cell.get?_clear_of_ne hne _
    _ = Store.get? ((Books.blockHashes.cell _).put parent _) Books.number.key :=
      Cell.get?_put_of_ne (Books.Item.key_ne .extrinsicIndex .number nofun) _ _
    _ = Store.get? (Books.number.put n m) Books.number.key :=
      Cell.get?_put_of_ne (Books.blockHash_ne Books.number_mem_tallyKeys _) _ _
    _ = some (Codec.u64.encode n) := Cell.get?_put_self _ _ _

/-- A key that is neither the hash of a block nor opened anew with a block outlasts its start. -/
theorem keeps_start (n : UInt64) (parent : BlockHash) (hnumber : Books.number.key ≠ key)
    (hhash : ∀ n, (Books.blockHashes.cell n).key ≠ key) (hindex : Books.extrinsicIndex.key ≠ key)
    (hweight : Books.blockWeight.key ≠ key) :
    (start parameters n parent : Program Memory StoreError Unit).Keeps (Store.at key) := by
  intro m
  calc
    Store.get? (start parameters n parent m).2 key = Store.get? (Books.startBlock n parent m) key :=
      get?_start n parent hweight m
    _ = Store.get? (Books.extrinsicIndex.put 0 _) key := Cell.get?_clear_of_ne hweight _
    _ = Store.get? ((Books.blockHashes.cell _).put parent _) key := Cell.get?_put_of_ne hindex _ _
    _ = Store.get? (Books.number.put n m) key := Cell.get?_put_of_ne (hhash _) _ _
    _ = Store.get? m key := Cell.get?_put_of_ne hnumber _ _

/-- The length of the extrinsics is not opened anew with a block. -/
theorem get?_extrinsicsLength_start (n : UInt64) (parent : BlockHash) (m : Memory) :
    Store.get? (start parameters n parent m).2 Books.extrinsicsLength.key =
      Store.get? m Books.extrinsicsLength.key :=
  keeps_start n parent (Books.Item.key_ne .number .extrinsicsLength nofun)
    (Books.blockHash_ne (Books.mem_tallyKeys Books.extrinsicsLength_mem_meterKeys))
    (Books.extrinsicIndex_ne Books.extrinsicsLength_mem_meterKeys)
    (Books.Item.key_ne .blockWeight .extrinsicsLength nofun) m

end Start

section Finish

def closing (n kept : UInt64) : Program Memory StoreError Unit := do
  let _ ← Books.extrinsicIndex.take
  match Books.pruned? n kept with
  | some oldest => Program.update (Books.blockHashes.cell oldest).clear
  | none => pure ()

theorem finish_eq_closing {n : UInt64} (h : Books.number.get m = .ok n) :
    finish parameters m = closing n parameters.blockHashCount (Books.extrinsicsLength.clear m) :=
  Program.bind_ok (Program.query_ok h)

/-- The end of a block keeps whatever shows neither the index nor the hash that is dropped. -/
theorem keeps_closing {τ : Type} {view : Memory → τ} {n kept : UInt64}
    (hindex : ∀ m, view (Books.extrinsicIndex.clear m) = view m)
    (hhash : ∀ oldest, Books.pruned? n kept = some oldest →
      ∀ m, view ((Books.blockHashes.cell oldest).clear m) = view m) : (closing n kept).Keeps view := by
  refine .bind (Cell.keeps_take hindex) fun _ => ?_
  cases hpruned : Books.pruned? n kept with
  | some oldest => exact .update (hhash oldest hpruned)
  | none => exact .pure _

theorem keeps_finish (hhash : ∀ n, (Books.blockHashes.cell n).key ≠ key)
    (hindex : Books.extrinsicIndex.key ≠ key) (hlength : Books.extrinsicsLength.key ≠ key) :
    (finish parameters : Program Memory StoreError Unit).Keeps (Store.at key) := by
  refine .bind (.query _) fun n => .bind (.update fun m => Cell.get?_clear_of_ne hlength m) fun _ => ?_
  exact keeps_closing (fun m => Cell.get?_clear_of_ne hindex m)
    fun oldest _ m => Cell.get?_clear_of_ne (hhash oldest) m

/-- A number that cannot be read stops the end of the block before it writes. -/
theorem finish_of_number_error {cause : StoreError} (h : Books.number.get m = .error cause) :
    finish parameters m = (.error cause, m) :=
  Program.bind_error (Program.query_error h)

/-- A block that knows its number clears the length of its extrinsics when it is finished. -/
theorem get?_extrinsicsLength_finish {n : UInt64} (h : Books.number.get m = .ok n) :
    Store.get? (finish parameters m).2 Books.extrinsicsLength.key = none := by
  have hhash := Books.blockHash_ne (Books.mem_tallyKeys Books.extrinsicsLength_mem_meterKeys)
  have hindex := Books.extrinsicIndex_ne Books.extrinsicsLength_mem_meterKeys
  have hkeeps : (closing n parameters.blockHashCount).Keeps (Store.at Books.extrinsicsLength.key) :=
    keeps_closing (fun m => Cell.get?_clear_of_ne hindex m)
      fun oldest _ m => Cell.get?_clear_of_ne (hhash oldest) m
  rw [finish_eq_closing h]
  exact (hkeeps _).trans (Cell.get?_clear_self _ _)

/-- Whatever a block knows, at its end the length of its extrinsics is cleared or left alone. -/
theorem get?_extrinsicsLength_finish_cases (m : Memory) :
    Store.get? (finish parameters m).2 Books.extrinsicsLength.key = none ∨
      Store.get? (finish parameters m).2 Books.extrinsicsLength.key =
        Store.get? m Books.extrinsicsLength.key := by
  rcases hnumber : Books.number.get m with cause | n
  · rw [finish_of_number_error hnumber]
    exact Or.inr rfl
  · exact Or.inl (get?_extrinsicsLength_finish hnumber)

end Finish

section Apply

/-- A request is included or it is not. -/
theorem apply_cases (parameters : Parameters) (request : Request) (m : Memory) :
    (∃ result t, request.apply parameters m = (.ok result, t)) ∨
      ∀ result, (request.apply parameters m).1 ≠ .ok result := by
  rcases request.apply parameters m with ⟨result | cause | _, t⟩
  · exact Or.inl ⟨result, t, rfl⟩
  · exact Or.inr fun _ => nofun
  · exact Or.inr fun _ => nofun

theorem step_apply_of_ok {result : DispatchResult}
    (h : request.apply parameters progress.store = (.ok result, t)) :
    step parameters progress (.apply request) =
      ⟨t, ⟨request.submission, request.reported parameters progress.store⟩ :: progress.included⟩ := by
  unfold step
  simp only [h]

/-- A rejected request is not among what a run has included. -/
theorem step_apply_of_not_ok
    (h : ∀ result, (request.apply parameters progress.store).1 ≠ .ok result) :
    step parameters progress (.apply request) =
      ⟨(request.apply parameters progress.store).2, progress.included⟩ := by
  unfold step
  rcases hr : request.apply parameters progress.store with ⟨result | cause | _, t⟩
  · rw [hr] at h
    exact absurd rfl (h result)
  · simp only [hr]
  · simp only [hr]

theorem store_step_apply : (step parameters progress (.apply request)).store =
    (request.apply parameters progress.store).2 := by
  unfold step
  rcases hr : request.apply parameters progress.store with ⟨result | cause | _, t⟩ <;> simp only [hr]

end Apply

section Sample

def cappedParameters : Parameters where
  versions := ⟨"capped", 1, 1⟩
  genesisHash := BlockHash.zero
  blockHashCount := 2
  blockLength := BlockLength.uniform 100
  blockWeights := {
    baseBlock := ⟨5, 0⟩
    maxBlock := ⟨1000, 1000⟩
    perClass := PerClass.ofFn fun _ =>
      ⟨⟨7, 8⟩, some ⟨50, 50⟩, some ⟨100, 100⟩, some ⟨10, 10⟩⟩ }

/-- A request whose body writes a key of its own and uses less time than was declared for it. -/
def refundedRequest (nonce : UInt64) : Request where
  era := .immortal
  nonce := nonce
  who := some ⟨FixedBytes.replicate 32 1⟩
  submission := ⟨[], { weight := ⟨10, 4⟩, cls := .normal }, 3⟩
  body := .set [9] [1] (.done { weight := some ⟨2, 50⟩ })

theorem refundedRequest_spares (nonce : UInt64) : (refundedRequest nonce).Spares Books.tallyKeys :=
  ⟨by decide, trivial⟩

end Sample

end BlockRuntime.Block

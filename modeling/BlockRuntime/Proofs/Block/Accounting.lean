import BlockRuntime.Proofs.Block.Run
import Mathlib.Algebra.BigOperators.Group.List.Basic
/-!
The accounts of a block. Between any two steps of a block, the ledger holds of every limited class the
exact sum of what its included extrinsics take up, the index counts the included extrinsics, and the
length is the exact sum of theirs: no sum on the way to an included extrinsic has come to the largest
word.
-/

namespace BlockRuntime.Block

def Inclusion.cost (weights : BlockWeights) (inclusion : Inclusion) : Nat × Nat :=
  (weights.get inclusion.submission.cost.cls).exactCost inclusion.submission.cost.weight
    inclusion.reported.weight

/-- What a class has taken up in a block, in exact numbers: the fixed cost of the block if the class is
the mandatory one, and what each of its included extrinsics takes up. -/
def classCost (weights : BlockWeights) (included : List Inclusion) (c : DispatchClass) : Nat × Nat :=
  (if c = .mandatory then weights.baseBlock.toNats else 0) +
    ((included.filter fun inclusion => inclusion.submission.cost.cls = c).map
      (Inclusion.cost weights)).sum

def totalLength (included : List Inclusion) : Nat :=
  (included.map fun inclusion => inclusion.submission.length.toNat).sum

/-- The accounts of a block are exact: the weight of every class whose allowance stays below the largest
word, the count up to the largest word, and, if every limit of a length stays below the largest word,
the length. -/
structure Exact (parameters : Parameters) (progress : Progress) : Prop where
  weight : ∃ ledger, Books.blockWeight.get progress.store = .ok ledger ∧
    ∀ c allowed, (parameters.blockWeights.get c).allowed? = some allowed → allowed.Unsaturated →
      (ledger.get c).toNats = classCost parameters.blockWeights progress.included c
  index : ∃ index, Books.extrinsicIndex.get progress.store = .ok index ∧
    index.toNat = min progress.included.length UInt32.maxValue.toNat
  length : ∃ length, Books.extrinsicsLength.get progress.store = .ok length ∧
    ((∀ c, parameters.blockLength.max.get c < UInt32.maxValue) →
      length.toNat = totalLength progress.included)

variable {parameters : Parameters} {progress : Progress} {request : Request}

theorem classCost_cons_self (weights : BlockWeights) (inclusion : Inclusion)
    (included : List Inclusion) :
    classCost weights (inclusion :: included) inclusion.submission.cost.cls =
      classCost weights included inclusion.submission.cost.cls + inclusion.cost weights := by
  unfold classCost
  rw [List.filter_cons_of_pos (by simp), List.map_cons, List.sum_cons, add_assoc,
    add_comm (inclusion.cost weights)]

theorem classCost_cons_of_ne (weights : BlockWeights) {inclusion : Inclusion}
    (included : List Inclusion) {c : DispatchClass} (h : c ≠ inclusion.submission.cost.cls) :
    classCost weights (inclusion :: included) c = classCost weights included c := by
  unfold classCost
  rw [List.filter_cons_of_neg (by simpa using h.symm)]

/-- A block opens with exact accounts, if the length of the last one was cleared. -/
theorem exact_start (n : UInt64) (parent : BlockHash)
    (h : Store.get? progress.store Books.extrinsicsLength.key = none) :
    Exact parameters (step parameters progress (.start n parent)) where
  weight := by
    refine ⟨_, blockWeight_start n parent progress.store, fun c allowed _ _ => ?_⟩
    unfold openingLedger
    rw [PerClass.get_set]
    change _ = (if c = .mandatory then parameters.blockWeights.baseBlock.toNats else 0) + 0
    rw [add_zero]
    by_cases hc : c = .mandatory
    · rw [if_pos hc, if_pos hc]
    · rw [if_neg hc, if_neg hc]
      cases c <;> rfl
  index := ⟨0, extrinsicIndex_start n parent progress.store, rfl⟩
  length := by
    -- a new block does not reset the length; the end of the block before has to have done so
    refine ⟨0, Cell.get_of_none ?_, fun _ => rfl⟩
    exact (get?_extrinsicsLength_start n parent progress.store).trans h

/-- An extrinsic that is not included changes no account. -/
theorem exact_of_get?_eq {store : Memory} (h : Exact parameters progress)
    (hstore : ∀ key ∈ Books.tallyKeys, Store.get? store key = Store.get? progress.store key) :
    Exact parameters ⟨store, progress.included⟩ where
  weight := by
    obtain ⟨ledger, hledger, hexact⟩ := h.weight
    exact ⟨ledger, (Cell.get_congr
      (hstore _ (Books.mem_tallyKeys Books.blockWeight_mem_meterKeys))).trans hledger, hexact⟩
  index := by
    obtain ⟨index, hindex, hexact⟩ := h.index
    exact ⟨index, (Cell.get_congr (hstore _ Books.extrinsicIndex_mem_tallyKeys)).trans hindex, hexact⟩
  length := by
    obtain ⟨length, hlength, hexact⟩ := h.length
    exact ⟨length, (Cell.get_congr
      (hstore _ (Books.mem_tallyKeys Books.extrinsicsLength_mem_meterKeys))).trans hlength, hexact⟩

/-- An extrinsic that is included adds to the accounts what it takes up. -/
theorem exact_included {result : DispatchResult} {t : Memory} (h : Exact parameters progress)
    (hspares : request.Spares Books.tallyKeys)
    (hr : request.apply parameters progress.store = (.ok result, t)) :
    Exact parameters
      ⟨t, ⟨request.submission, request.reported parameters progress.store⟩ :: progress.included⟩ := by
  have hnot (key : Key) (hkey : key ∈ Books.tallyKeys) : ¬ key ∉ Books.tallyKeys := not_not_intro hkey
  obtain ⟨current, next, ledger, charged, hcurrent, hnext, -, hledger, hcharge, hlength, hweight⟩ :=
    Extrinsic.meters_of_apply hspares (fun key hkey => hnot key (Books.mem_tallyKeys hkey)) hr
  obtain ⟨index, hindex, hcounted⟩ :=
    Extrinsic.index_of_apply hspares (hnot _ Books.extrinsicIndex_mem_tallyKeys) hr
  refine ⟨⟨_, hweight, fun c allowed hallowed hroom => ?_⟩, ⟨_, hcounted, ?_⟩,
    ⟨next, hlength, fun hlimits => ?_⟩⟩
  · obtain ⟨ledger', hledger', hexact⟩ := h.weight
    rw [hledger] at hledger'
    cases hledger'
    have hbefore := hexact c allowed hallowed hroom
    -- only the class of the extrinsic is charged, and the refund goes to the same class
    by_cases hc : c = request.submission.cost.cls
    · subst hc
      rw [BlockWeights.toNats_reduce_of_charge hcharge hallowed hroom, hbefore]
      exact (classCost_cons_self parameters.blockWeights ⟨request.submission, _⟩ _).symm
    · obtain ⟨hcharged, -⟩ := BlockWeights.charge_eq_ok_iff.mp hcharge
      rw [WeightLedger.get_reduce, if_neg hc, hcharged, WeightLedger.get_accrue, if_neg hc, hbefore]
      exact (classCost_cons_of_ne _ _ hc).symm
  · obtain ⟨index', hindex', hexact⟩ := h.index
    rw [hindex] at hindex'
    cases hindex'
    have hone : (1 : UInt32).toNat = 1 := rfl
    -- the count stops at the largest word, and so does the number that it is compared with
    rw [UInt32.toNat_saturatingAdd, hexact, hone, List.length_cons, UInt32.toNat_maxValue]
    omega
  · obtain ⟨current', hcurrent', hexact⟩ := h.length
    rw [hcurrent] at hcurrent'
    cases hcurrent'
    rw [BlockLength.toNat_of_charge hnext (hlimits _), hexact hlimits]
    unfold totalLength
    rw [List.map_cons, List.sum_cons, add_comm]

/-- Applying a request keeps the accounts exact, whether it is included or not. -/
theorem exact_apply (h : Exact parameters progress) (hspares : request.Spares Books.tallyKeys) :
    Exact parameters (step parameters progress (.apply request)) := by
  rcases apply_cases parameters request progress.store with ⟨result, t, hr⟩ | hnot
  · rw [step_apply_of_ok hr]
    exact exact_included h hspares hr
  · rw [step_apply_of_not_ok hnot]
    exact exact_of_get?_eq h fun key hkey =>
      Extrinsic.get?_apply_of_not_ok hnot (Books.levelKey_ne hkey)

structure Plan where
  number : UInt64
  parent : BlockHash
  requests : List Request

namespace Plan

def opened (plan : Plan) : List Step :=
  .start plan.number plan.parent :: plan.requests.map .apply

def steps (plan : Plan) : List Step := plan.opened ++ [.finish]

def Spares (keys : List Key) (plan : Plan) : Prop := ∀ request ∈ plan.requests, request.Spares keys

end Plan

/-- A request leaves the number of its block as it is. -/
theorem number_apply (hspares : request.Spares Books.tallyKeys) :
    Books.number.get (step parameters progress (.apply request)).store =
      Books.number.get progress.store := by
  have hmeter : Books.number.key ∉ Books.meterKeys := fun hmem =>
    Books.Item.key_ne_of_not_mem .number (by decide) (Books.map_key_meters ▸ hmem) rfl
  have hkeeps : (request.apply parameters).Keeps (Store.at Books.number.key) :=
    Extrinsic.keeps_at_apply hspares Books.number_mem_tallyKeys
      (not_not_intro Books.number_mem_tallyKeys) hmeter
      (Books.Item.key_ne .extrinsicIndex .number nofun)
  apply Cell.get_congr
  rw [store_step_apply]
  exact hkeeps progress.store

/-- While requests are put to a block, its accounts stay exact and it knows its number. -/
theorem exact_applies {requests : List Request} {n : UInt64} (h : Exact parameters progress)
    (hnumber : Books.number.get progress.store = .ok n)
    (hspares : ∀ request ∈ requests, request.Spares Books.tallyKeys) :
    Exact parameters (run parameters (requests.map .apply) progress) ∧
      Books.number.get (run parameters (requests.map .apply) progress).store = .ok n := by
  induction requests generalizing progress with
  | nil => exact ⟨h, hnumber⟩
  | cons request requests ih =>
    have hrequest := hspares request List.mem_cons_self
    have hrest := fun other hmem => hspares other (List.mem_cons_of_mem _ hmem)
    exact ih (exact_apply h hrequest) ((number_apply hrequest).trans hnumber) hrest

theorem exact_opened {plan : Plan} (hspares : plan.Spares Books.tallyKeys)
    (h : Store.get? progress.store Books.extrinsicsLength.key = none) :
    Exact parameters (run parameters plan.opened progress) ∧
      Books.number.get (run parameters plan.opened progress).store = .ok plan.number :=
  exact_applies (exact_start plan.number plan.parent h)
    (number_start plan.number plan.parent progress.store) hspares

/-- Whole blocks leave no length behind. -/
theorem extrinsicsLength_blocks {blocks : List Plan}
    (hspares : ∀ plan ∈ blocks, plan.Spares Books.tallyKeys)
    (h : Store.get? progress.store Books.extrinsicsLength.key = none) :
    Store.get? (run parameters (blocks.flatMap Plan.steps) progress).store
      Books.extrinsicsLength.key = none := by
  induction blocks generalizing progress with
  | nil => exact h
  | cons plan blocks ih =>
    have hnumber : Books.number.get (run parameters plan.opened progress).store = .ok plan.number :=
      (exact_opened (hspares plan List.mem_cons_self) h).2
    rw [List.flatMap_cons, run_append]
    -- the block has kept its number to its end, so finishing it clears the length
    apply ih fun other hmem => hspares other (List.mem_cons_of_mem _ hmem)
    unfold Plan.steps
    rw [run_append]
    exact get?_extrinsicsLength_finish hnumber

theorem get?_extrinsicsLength_seed (m : Memory) :
    Store.get? (seed parameters m) Books.extrinsicsLength.key =
      Store.get? m Books.extrinsicsLength.key := by
  have hmem := Books.mem_tallyKeys Books.extrinsicsLength_mem_meterKeys
  exact (Cell.get?_put_of_ne (Books.blockHash_ne hmem 0) _ _).trans
    (Cell.get?_put_of_ne (Books.Item.key_ne .number .extrinsicsLength nofun) _ _)

/-- The accounts of a block are exact. On a seeded store without a length, after any number of whole
blocks and any number of requests put to the current one, the ledger, the index and the length are the
exact sums over what the current block has included, provided that the bodies leave the keys of the
tally alone. -/
theorem accounts_exact (parameters : Parameters) (m : Memory)
    (hlength : Store.get? m Books.extrinsicsLength.key = none) (blocks : List Plan) (current : Plan)
    (hblocks : ∀ plan ∈ blocks, plan.Spares Books.tallyKeys)
    (hcurrent : current.Spares Books.tallyKeys) :
    Exact parameters
      (run parameters (blocks.flatMap Plan.steps ++ current.opened) ⟨seed parameters m, []⟩) := by
  have hseed : Store.get? (seed parameters m) Books.extrinsicsLength.key = none :=
    (get?_extrinsicsLength_seed m).trans hlength
  have hbetween : Store.get? (run parameters (blocks.flatMap Plan.steps) ⟨seed parameters m, []⟩).store
      Books.extrinsicsLength.key = none := extrinsicsLength_blocks hblocks hseed
  rw [run_append]
  exact (exact_opened hcurrent hbetween).1

def firstPlan : Plan := ⟨1, BlockHash.zero, [refundedRequest 0]⟩

/-- A block with a request that is stale and one that is not. -/
def secondPlan : Plan := ⟨2, BlockHash.zero, [refundedRequest 0, refundedRequest 1]⟩

theorem firstPlan_spares : ∀ plan ∈ [firstPlan], plan.Spares Books.tallyKeys := by
  intro plan hplan request hrequest
  rw [List.mem_singleton.mp hplan] at hrequest
  rw [List.mem_singleton.mp hrequest]
  exact refundedRequest_spares 0

theorem secondPlan_spares : secondPlan.Spares Books.tallyKeys := by
  intro request hrequest
  rcases List.mem_cons.mp hrequest with rfl | hlast
  · exact refundedRequest_spares 0
  · rw [List.mem_singleton.mp hlast]
    exact refundedRequest_spares 1

theorem secondPlan_accounts_exact :
    let progress := run cappedParameters ([firstPlan].flatMap Plan.steps ++ secondPlan.opened)
      ⟨seed cappedParameters Memory.empty, []⟩
    Store.get? Memory.empty Books.extrinsicsLength.key = none ∧
    (∀ plan ∈ [firstPlan], plan.Spares Books.tallyKeys) ∧ secondPlan.Spares Books.tallyKeys ∧
    progress.included.length = 1 ∧
    classCost cappedParameters.blockWeights progress.included .normal = (9, 12) ∧
    Exact cappedParameters progress := by
  intro progress
  have hlength : Store.get? Memory.empty Books.extrinsicsLength.key = none := rfl
  have hcosts : progress.included.length = 1 ∧
      classCost cappedParameters.blockWeights progress.included .normal = (9, 12) := by decide +kernel
  have hexact : Exact cappedParameters progress :=
    accounts_exact cappedParameters Memory.empty hlength [firstPlan] secondPlan firstPlan_spares
      secondPlan_spares
  exact ⟨hlength, firstPlan_spares, secondPlan_spares, hcosts.1, hcosts.2, hexact⟩

end BlockRuntime.Block

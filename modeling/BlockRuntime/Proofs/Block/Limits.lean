import BlockRuntime.Proofs.Block.Run

namespace BlockRuntime.Block

/-- Every class keeps within its total less its reserve, the mandatory class if the fixed cost of a block
does, and the length keeps within the limit of some class. -/
structure WithinLimits (parameters : Parameters) (m : Memory) : Prop where
  weight : ∃ ledger, Books.blockWeight.get m = .ok ledger ∧
    ∀ c allowed, (parameters.blockWeights.get c).allowed? = some allowed →
      (c = .mandatory → parameters.blockWeights.baseBlock ≤ allowed) → ledger.get c ≤ allowed
  length : ∃ length, Books.extrinsicsLength.get m = .ok length ∧
    ∃ c, length ≤ parameters.blockLength.max.get c

/-- The limits that hold right after an extrinsic has been included: the length keeps within the limit of
its class, the block has room or the class keeps within its reserve, and what the extrinsic declared is
no more than one extrinsic of the class may. -/
structure WithinOwnLimits (parameters : Parameters) (cost : DeclaredCost) (m : Memory) : Prop where
  length : ∃ length, Books.extrinsicsLength.get m = .ok length ∧
    length ≤ parameters.blockLength.max.get cost.cls
  reserve : ∃ ledger, Books.blockWeight.get m = .ok ledger ∧
    ∀ reserve, (parameters.blockWeights.get cost.cls).reserved = some reserve →
      ledger.total ≤ parameters.blockWeights.maxBlock ∨ ledger.get cost.cls ≤ reserve
  cap : ∀ cap, (parameters.blockWeights.get cost.cls).maxExtrinsic = some cap → cost.weight ≤ cap

namespace WithinLimits

variable {parameters : Parameters} {progress : Progress} {request : Request} {m t : Memory}
  {result : DispatchResult}

/-- Within limits depends on the meters alone. -/
theorem of_get?_eq (h : WithinLimits parameters m)
    (hmeters : ∀ key ∈ Books.meterKeys, Store.get? t key = Store.get? m key) :
    WithinLimits parameters t where
  weight := by
    rw [Cell.get_congr (hmeters _ Books.blockWeight_mem_meterKeys)]
    exact h.weight
  length := by
    rw [Cell.get_congr (hmeters _ Books.extrinsicsLength_mem_meterKeys)]
    exact h.length

theorem length_of_none (h : Store.get? m Books.extrinsicsLength.key = none) :
    ∃ length, Books.extrinsicsLength.get m = .ok length ∧
      ∃ c, length ≤ parameters.blockLength.max.get c :=
  ⟨0, Cell.get_of_none h, .normal, UInt32.le_iff_toNat_le.mpr (Nat.zero_le _)⟩

/-- A block that starts is within its limits, if the length that it takes over is. -/
theorem start (n : UInt64) (parent : BlockHash)
    (h : ∃ length, Books.extrinsicsLength.get m = .ok length ∧
      ∃ c, length ≤ parameters.blockLength.max.get c) :
    WithinLimits parameters (Block.start parameters n parent m).2 where
  weight := by
    refine ⟨_, blockWeight_start n parent m, fun c allowed _ hbase => ?_⟩
    unfold openingLedger
    rw [PerClass.get_set]
    by_cases hc : c = .mandatory
    · rw [if_pos hc]
      exact hbase hc
    · -- only the mandatory class starts with anything on its ledger
      rw [if_neg hc]
      rw [WeightLedger.get_empty]
      exact Weight.zero_le allowed
  length := by
    rw [Cell.get_congr (get?_extrinsicsLength_start n parent m)]
    exact h

theorem finish (h : WithinLimits parameters m) : WithinLimits parameters (Block.finish parameters m).2 where
  weight := by
    have hkeeps : (Block.finish parameters : Program Memory StoreError Unit).Keeps
        (Store.at Books.blockWeight.key) :=
      keeps_finish (Books.blockHash_ne (Books.mem_tallyKeys Books.blockWeight_mem_meterKeys))
        (Books.extrinsicIndex_ne Books.blockWeight_mem_meterKeys)
        (Books.Item.key_ne .extrinsicsLength .blockWeight nofun)
    rw [Cell.get_congr (hkeeps m)]
    exact h.weight
  length := by
    rcases get?_extrinsicsLength_finish_cases m with hnone | hsame
    · exact length_of_none hnone
    · rw [Cell.get_congr hsame]
      exact h.length

/-- An extrinsic that is included leaves a block within its limits and has kept to those of its class.
The refund only takes away, so what held of the charge still holds. -/
theorem included (h : WithinLimits parameters m) (hspares : request.Spares Books.meterKeys)
    (hr : request.apply parameters m = (.ok result, t)) :
    WithinLimits parameters t ∧ WithinOwnLimits parameters request.submission.cost t := by
  obtain ⟨current, next, ledger, charged, -, hnext, hcap, hledger, hcharge, hlength, hweight⟩ :=
    Extrinsic.meters_of_apply hspares (fun key hkey => not_not_intro hkey) hr
  obtain ⟨hcharged, -, hallowed, hreserve⟩ := BlockWeights.charge_eq_ok_iff.mp hcharge
  obtain ⟨-, hmax⟩ := BlockLength.charge_eq_ok_iff.mp hnext
  have hrefund (c : DispatchClass) := charged.reduce_le request.submission.cost.cls c
    ((request.reported parameters m).unspent request.submission.cost)
  refine ⟨⟨⟨_, hweight, fun c allowed hc hbase => ?_⟩, ⟨next, hlength, _, hmax⟩⟩,
    ⟨⟨next, hlength, hmax⟩, ⟨_, hweight, fun reserve hreserved => ?_⟩,
      BlockWeights.checkCap_eq_ok_iff.mp hcap⟩⟩
  · by_cases hcls : c = request.submission.cost.cls
    · subst hcls
      exact Weight.le_trans (hrefund _) (hallowed allowed hc)
    · -- a class that was not charged is where the last step left it
      obtain ⟨ledger', hledger', hwithin⟩ := h.weight
      rw [hledger] at hledger'
      cases hledger'
      have hother : charged.get c = ledger.get c := by
        rw [hcharged, WeightLedger.get_accrue, if_neg hcls]
      exact Weight.le_trans (hrefund c) (hother ▸ hwithin c allowed hc hbase)
  · rcases hreserve reserve hreserved with hroom | hwithin
    · exact Or.inl (Weight.le_trans (WeightLedger.total_mono hrefund) hroom)
    · exact Or.inr (Weight.le_trans (hrefund _) hwithin)

/-- Every step keeps within the limits. -/
theorem step (h : WithinLimits parameters progress.store) (next : Step)
    (hspares : ∀ request, next = .apply request → request.Spares Books.meterKeys) :
    WithinLimits parameters (Block.step parameters progress next).store := by
  cases next with
  | start n parent => exact start n parent h.length
  | finish => exact h.finish
  | apply request =>
    rw [store_step_apply]
    rcases apply_cases parameters request progress.store with ⟨result, t, hr⟩ | hnot
    · rw [hr]
      exact (h.included (hspares request rfl) hr).1
    · -- a request that is not included leaves the meters as they were
      apply h.of_get?_eq
      intro key hkey
      exact Extrinsic.get?_apply_of_not_ok hnot (Books.levelKey_ne (Books.mem_tallyKeys hkey))

/-- So does a run, by induction on its steps. -/
theorem run {steps : List Step} (h : WithinLimits parameters progress.store)
    (hspares : ∀ request, .apply request ∈ steps → request.Spares Books.meterKeys) :
    WithinLimits parameters (Block.run parameters steps progress).store := by
  induction steps generalizing progress with
  | nil => exact h
  | cons next steps ih =>
    have hnext : ∀ request, next = .apply request → request.Spares Books.meterKeys :=
      fun request heq => hspares request (heq ▸ List.mem_cons_self)
    exact ih (h.step next hnext) fun request hmem => hspares request (List.mem_cons_of_mem _ hmem)

end WithinLimits

/-- Block limits are never exceeded. In a run that starts with a block on a store without a length, and
then goes on in any order with bodies that leave the meters alone, every store is within the limits of
the block, and one right after an extrinsic was included is within the limits of its class as well. -/
theorem limits_never_exceeded (parameters : Parameters) (m : Memory)
    (hlength : Store.get? m Books.extrinsicsLength.key = none) (n : UInt64) (parent : BlockHash)
    (steps : List Step)
    (hspares : ∀ request, .apply request ∈ steps → request.Spares Books.meterKeys) :
    let store := (run parameters (.start n parent :: steps) ⟨m, []⟩).store
    WithinLimits parameters store ∧
    ∀ (request : Request) (result : DispatchResult) (t : Memory), request.Spares Books.meterKeys →
      request.apply parameters store = (.ok result, t) →
      WithinOwnLimits parameters request.submission.cost t := by
  intro store
  have hstart : WithinLimits parameters (step parameters ⟨m, []⟩ (.start n parent)).store :=
    WithinLimits.start n parent (WithinLimits.length_of_none hlength)
  have hwithin : WithinLimits parameters store := hstart.run hspares
  exact ⟨hwithin, fun request result t hrequest hr => (hwithin.included hrequest hr).2⟩

def unevenSteps : List Step := [.apply (refundedRequest 0), .finish, .finish, .apply (refundedRequest 1)]

theorem unevenSteps_spare (request : Request) (h : .apply request ∈ unevenSteps) :
    request.Spares Books.meterKeys := by
  have hrefunded (nonce : UInt64) : (refundedRequest nonce).Spares Books.meterKeys :=
    (refundedRequest_spares nonce).mono fun _ => Books.mem_tallyKeys
  simp only [unevenSteps, List.mem_cons, Step.apply.injEq, List.not_mem_nil, or_false, reduceCtorEq,
    false_or] at h
  rcases h with rfl | rfl
  · exact hrefunded 0
  · exact hrefunded 1

theorem unevenSteps_within_limits :
    let store := (run cappedParameters (.start 1 BlockHash.zero :: unevenSteps) ⟨Memory.empty, []⟩).store
    Store.get? Memory.empty Books.extrinsicsLength.key = none ∧
    (∀ request, .apply request ∈ unevenSteps → request.Spares Books.meterKeys) ∧
    (refundedRequest 2).Spares Books.meterKeys ∧
    ((refundedRequest 2).apply cappedParameters store).1 = .ok (.ok ()) ∧
    WithinLimits cappedParameters store ∧
    WithinOwnLimits cappedParameters (refundedRequest 2).submission.cost
      ((refundedRequest 2).apply cappedParameters store).2 := by
  intro store
  have hlength : Store.get? Memory.empty Books.extrinsicsLength.key = none := rfl
  have hspares : (refundedRequest 2).Spares Books.meterKeys :=
    (refundedRequest_spares 2).mono fun _ => Books.mem_tallyKeys
  have hok : ((refundedRequest 2).apply cappedParameters store).1 = .ok (.ok ()) := by decide +kernel
  have happly : (refundedRequest 2).apply cappedParameters store =
      (.ok (.ok ()), ((refundedRequest 2).apply cappedParameters store).2) := by
    rw [← hok]
  obtain ⟨hwithin, hown⟩ :=
    limits_never_exceeded cappedParameters Memory.empty hlength 1 BlockHash.zero unevenSteps unevenSteps_spare
  exact ⟨hlength, unevenSteps_spare, hspares, hok, hwithin, hown _ _ _ hspares happly⟩

end BlockRuntime.Block

import BlockRuntime.Proofs.Check.Chain
import BlockRuntime.Proofs.Check.Standard

namespace BlockRuntime

namespace Check

theorem lookup_ok {α : Type} {f : Memory → Except StoreError α} {value : α} (h : f m = .ok value) :
    lookup f m = (.ok value, m) := Program.mapError_ok (Program.query_ok h)

theorem lookup_error {α : Type} {f : Memory → Except StoreError α} {cause : StoreError}
    (h : f m = .error cause) : lookup f m = (.error Rejection.lookupFailed, m) := by
  unfold lookup
  rw [Program.mapError_apply, Program.query_apply, h]
  rfl

section Nonce

variable {who : AccountId} {record : AccountRecord} {m : Memory} (submission : Submission)
  (claimed : UInt64)

theorem toNat_succ_lt {nonce : UInt64} (h : nonce ≠ UInt64.maxValue) :
    nonce.toNat + 1 < UInt64.size := by
  have hne : nonce.toNat ≠ UInt64.maxValue.toNat := fun heq => h (UInt64.toNat_inj.mp heq)
  have hlt := nonce.toNat_lt
  have hsize : UInt64.size = 2 ^ 64 := rfl
  rw [UInt64.toNat_maxValue] at hne
  omega

/-- The nonce before one that is ahead of its account is never out of range. -/
theorem nonceAdmission_eq (who : AccountId) (current nonce : UInt64) :
    nonceAdmission who current nonce =
      if nonce < current then .error (.invalid .stale)
      else if nonce = UInt64.maxValue then .error Rejection.exhausts
      else .ok {
        requires := if current < nonce then [nonceTag who (nonce - 1)] else []
        provides := [nonceTag who nonce] } := by
  unfold nonceAdmission
  by_cases hahead : current < nonce
  · have hone : 1 ≤ nonce := by
      have hlt := UInt64.lt_iff_toNat_lt.mp hahead
      have hword : (1 : UInt64).toNat = 1 := rfl
      rw [UInt64.le_iff_toNat_le]
      omega
    have hprevious : nonce.checkedSub? 1 = some (nonce - 1) := if_pos hone
    rw [if_pos hahead, if_pos hahead, hprevious]
  · rw [if_neg hahead, if_neg hahead]

/-- A claimed nonce is behind its account, ahead of it, the last one of all, or the next one. -/
theorem nonce_orders (who : AccountId) (record : AccountRecord) (claimed : UInt64) :
    (claimed < record.nonce ∧ spendNonce record claimed = .error (.invalid .stale) ∧
      nonceAdmission who record.nonce claimed = .error (.invalid .stale)) ∨
    (record.nonce < claimed ∧ spendNonce record claimed = .error (.invalid .future) ∧
      (nonceAdmission who record.nonce claimed = .error Rejection.exhausts ∨
        nonceAdmission who record.nonce claimed = .ok {
          requires := [nonceTag who (claimed - 1)], provides := [nonceTag who claimed] })) ∨
    (record.nonce = claimed ∧ spendNonce record claimed = .error Rejection.exhausts ∧
      nonceAdmission who record.nonce claimed = .error Rejection.exhausts) ∨
    (record.nonce = claimed ∧ claimed.toNat + 1 < UInt64.size ∧
      spendNonce record claimed = .ok { record with nonce := claimed + 1 } ∧
      nonceAdmission who record.nonce claimed = .ok { provides := [nonceTag who claimed] }) := by
  by_cases hlt : claimed < record.nonce
  · exact Or.inl ⟨hlt, if_pos hlt, if_pos hlt⟩
  right
  by_cases hgt : record.nonce < claimed
  · left
    refine ⟨hgt, ?_, ?_⟩
    · unfold spendNonce
      rw [if_neg hlt, if_pos hgt]
    · rw [nonceAdmission_eq, if_neg hlt, if_pos hgt]
      by_cases hlast : claimed = UInt64.maxValue
      · exact Or.inl (if_pos hlast)
      · exact Or.inr (if_neg hlast)
  right
  have heq : record.nonce = claimed := UInt64.le_antisymm (UInt64.not_lt.mp hlt) (UInt64.not_lt.mp hgt)
  -- the nonce has a successor unless it is the largest word
  by_cases hlast : claimed = UInt64.maxValue
  · have hnone : record.nonce.checkedAdd? 1 = none := by
      rw [heq, hlast]
      rfl
    refine Or.inl ⟨heq, ?_, ?_⟩
    · unfold spendNonce
      rw [if_neg hlt, if_neg hgt, hnone]
    · rw [nonceAdmission_eq, if_neg hlt, if_pos hlast]
  · have hroom := toNat_succ_lt hlast
    have hsome : record.nonce.checkedAdd? 1 = some (claimed + 1) := by
      rw [heq]
      exact if_pos hroom
    refine Or.inr ⟨heq, hroom, ?_, ?_⟩
    · unfold spendNonce
      rw [if_neg hlt, if_neg hgt, hsome]
    · rw [nonceAdmission_eq, if_neg hlt, if_neg hlast, if_neg hgt]

theorem validate_nonce (h : (Books.account.cell who).get m = .ok record) :
    (nonce claimed : Check Memory).validate who submission m =
      (nonceAdmission who record.nonce claimed, m) := by
  have hnonce : Books.nonce who m = .ok record.nonce := by
    unfold Books.nonce
    rw [h]
    rfl
  exact Program.bind_ok (lookup_ok hnonce)

/-- The phase before the dispatch spends the nonce, or leaves the store alone. -/
theorem preDispatch_nonce (h : (Books.account.cell who).get m = .ok record) :
    (nonce claimed : Check Memory).preDispatch who submission m =
      match spendNonce record claimed with
      | .ok next => (.ok ⟨Codec.u64.encode claimed⟩, (Books.account.cell who).put next m)
      | .error cause => (.error cause, m) := by
  apply (Program.bind_ok (lookup_ok h)).trans
  rw [Program.bind_apply, Program.ofExcept_apply]
  cases spendNonce record claimed <;> rfl

/-- An account that cannot be read is refused in both phases alike. -/
theorem nonce_unreadable {cause : StoreError} (h : (Books.account.cell who).get m = .error cause) :
    (nonce claimed : Check Memory).validate who submission m = (.error Rejection.lookupFailed, m) ∧
    (nonce claimed : Check Memory).preDispatch who submission m =
      (.error Rejection.lookupFailed, m) := by
  have hnonce : Books.nonce who m = .error cause := by
    unfold Books.nonce
    rw [h]
    rfl
  exact ⟨Program.bind_error (lookup_error hnonce), Program.bind_error (lookup_error h)⟩

/-- A nonce is admitted for an account that can be read. -/
theorem nonce_admitted {answer : Admission}
    (h : ((nonce claimed : Check Memory).validate who submission m).1 = .ok answer) :
    ∃ record, (Books.account.cell who).get m = .ok record ∧
      nonceAdmission who record.nonce claimed = .ok answer := by
  rcases hget : (Books.account.cell who).get m with cause | record
  · rw [(nonce_unreadable submission claimed hget).1] at h
    exact nomatch h
  · rw [validate_nonce submission claimed hget] at h
    refine ⟨record, rfl, ?_⟩
    exact h

end Nonce

section Resources

def Accepts (weights : BlockWeights) (cost : DeclaredCost) (m : Memory) : Prop :=
  ∃ ledger charged, Books.blockWeight.get m = .ok ledger ∧ weights.charge ledger cost = .ok charged

variable {s t : Memory}

theorem accepts_congr (weights : BlockWeights) (cost : DeclaredCost)
    (h : Store.get? t Books.blockWeight.key = Store.get? s Books.blockWeight.key) :
    Accepts weights cost t ↔ Accepts weights cost s := by
  unfold Accepts
  rw [Cell.get_congr h]

/-- What the length of an extrinsic is charged to depends on the stored length alone. -/
theorem chargedLength_reads (lengths : BlockLength) (cost : DeclaredCost) (length : UInt64)
    (found : Except StoreError UInt32) :
    ∃ verdict, ∀ m : Memory, Books.extrinsicsLength.get m = found →
      chargedLength lengths cost length m = (.ofExcept verdict, m) := by
  rcases found with cause | current
  · exact ⟨.error Rejection.lookupFailed, fun m h => Program.bind_error (lookup_error h)⟩
  · exact ⟨lengths.charge cost.cls current length, fun m h => Program.bind_ok (lookup_ok h)⟩

/-- The admission to the pool and the charge refuse alike what they both look at; what the charge looks
at beyond that is the ledger. Only the length has to be the same in the two stores. -/
theorem resources_cases (lengths : BlockLength) (weights : BlockWeights) (submission : Submission)
    (h : Store.get? t Books.extrinsicsLength.key = Store.get? s Books.extrinsicsLength.key) :
    (∃ cause, admitResources lengths weights submission s = (.error cause, s) ∧
      chargeResources lengths weights submission t = (.error cause, t)) ∨
    (admitResources lengths weights submission s = (.ok Admission.neutral, s) ∧
      ¬ Accepts weights submission.cost t ∧
      ∃ cause, chargeResources lengths weights submission t = (.error cause, t)) ∨
    (admitResources lengths weights submission s = (.ok Admission.neutral, s) ∧
      Accepts weights submission.cost t ∧
      ∃ charged, chargeResources lengths weights submission t = (.ok (), charged)) := by
  have hlength : Books.extrinsicsLength.get t = Books.extrinsicsLength.get s := Cell.get_congr h
  obtain ⟨verdict, hverdict⟩ := chargedLength_reads lengths submission.cost submission.length
    (Books.extrinsicsLength.get s)
  have hs := hverdict s rfl
  have ht := hverdict t hlength
  unfold admitResources chargeResources
  rcases verdict with cause | next
  · exact Or.inl ⟨cause, Program.bind_error hs, Program.bind_error ht⟩
  rw [Program.bind_ok hs, Program.bind_ok ht]
  have hcheck (u : Memory) : Program.ofExcept (weights.checkCap submission.cost) u =
      (.ofExcept (weights.checkCap submission.cost), u) := rfl
  rcases hcap : weights.checkCap submission.cost with cause | ⟨⟩
  · rw [hcap] at hcheck
    exact Or.inl ⟨cause, Program.bind_error (hcheck s), Program.bind_error (hcheck t)⟩
  rw [hcap] at hcheck
  -- the pool is answered here; the charge goes on to the ledger
  right
  have hpool := Program.bind_ok (f := fun _ => pure Admission.neutral) (hcheck s)
  rw [Program.bind_ok (hcheck t)]
  rcases hledger : Books.blockWeight.get t with cause | ledger
  · refine Or.inl ⟨hpool, ?_, _, Program.bind_error (lookup_error hledger)⟩
    rintro ⟨ledger, -, hread, -⟩
    rw [hledger] at hread
    exact nomatch hread
  rw [Program.bind_ok (lookup_ok hledger)]
  rcases hcharge : weights.charge ledger submission.cost with cause | charged
  · refine Or.inl ⟨hpool, ?_, cause, rfl⟩
    rintro ⟨_, charged, hread, haccepted⟩
    rw [hledger] at hread
    cases hread
    rw [hcharge] at haccepted
    exact nomatch haccepted
  · exact Or.inr ⟨hpool, ⟨ledger, charged, hledger, hcharge⟩, _, rfl⟩

/-- The pool is refused or told nothing special, and no store is written for it. -/
theorem admitResources_cases (lengths : BlockLength) (weights : BlockWeights)
    (submission : Submission) (m : Memory) :
    (∃ cause, admitResources lengths weights submission m = (.error cause, m)) ∨
      admitResources lengths weights submission m = (.ok Admission.neutral, m) := by
  rcases resources_cases (s := m) lengths weights submission rfl with
    ⟨cause, hpool, -⟩ | ⟨hpool, -⟩ | ⟨hpool, -⟩
  · exact Or.inl ⟨cause, hpool⟩
  · exact Or.inr hpool
  · exact Or.inr hpool

end Resources

end Check

namespace CheckChain

variable {parameters : Parameters} {era : Era} {nonce : UInt64} {who : AccountId}
  {submission : Submission} {m t : Memory}

def early (parameters : Parameters) (era : Era) : CheckChain Memory where
  checks := [Check.nonZeroSender, Check.specVersion parameters.versions.specVersion,
    Check.transactionVersion parameters.versions.transactionVersion, Check.genesis,
    Check.mortality era]

theorem validate_early_of_isZero (h : who.isZero = true) (m : Memory) :
    (early parameters era).validate who submission m = (.error (.invalid .badSigner), m) := by
  have hsender : (Check.nonZeroSender : Check Memory).validate who submission =
      Program.fail (.invalid .badSigner) := if_pos h
  simp only [validate, early, List.foldlM_cons, hsender, bind_assoc]
  rfl

/-- The checks in front of the nonce check answer with the rest of the window of the era, if the number of
the block can be read. -/
theorem validate_early_of_not_isZero (h : ¬ who.isZero = true) (m : Memory) :
    (early parameters era).validate who submission m =
      match Books.blockNumber m with
      | .ok current => (.ok { Admission.neutral with
          longevity := (era.death current).saturatingSub current }, m)
      | .error _ => (.error Rejection.lookupFailed, m) := by
  have hsender : (Check.nonZeroSender : Check Memory).validate who submission =
      pure Admission.neutral := if_neg h
  simp only [validate, early, List.foldlM_cons, List.foldlM_nil, hsender, Check.specVersion,
    Check.transactionVersion, Check.genesis, Check.validate_mortality, pure_bind,
    Admission.neutral_combine, bind_assoc]
  unfold Check.lookup
  rw [Program.bind_apply, Program.mapError_apply, Program.query_apply]
  cases Books.blockNumber m <;> rfl

/-- The standard chain validates in three parts: the front, the nonce, the limits. -/
theorem validate_standard (parameters : Parameters) (era : Era) (nonce : UInt64) (who : AccountId)
    (submission : Submission) :
    (standard parameters era nonce : CheckChain Memory).validate who submission = (do
      let admission ← (early parameters era).validate who submission
      let own ← (Check.nonce nonce : Check Memory).validate who submission
      let rest ← Check.admitResources parameters.blockLength parameters.blockWeights submission
      pure ((admission.combine own).combine rest) : Program Memory Rejection Admission) := by
  have hcut : (standard parameters era nonce : CheckChain Memory).checks =
      (early parameters era).checks ++ [Check.nonce nonce,
        Check.resources parameters.blockLength parameters.blockWeights] := rfl
  unfold validate
  rw [hcut, List.foldlM_append]
  simp only [List.foldlM_cons, List.foldlM_nil, bind_assoc, pure_bind]
  rfl

/-- Before a dispatch the front only validates again; the nonce is spent and the limits are charged. -/
theorem preDispatch_standard (parameters : Parameters) (era : Era) (nonce : UInt64) (who : AccountId)
    (submission : Submission) :
    (standard parameters era nonce : CheckChain Memory).preDispatch who submission = (do
      let _ ← (early parameters era).validate who submission
      let receipt ← (Check.nonce nonce : Check Memory).preDispatch who submission
      Check.chargeResources parameters.blockLength parameters.blockWeights submission
      pure (List.replicate 5 Receipt.empty ++ [receipt, Receipt.empty]) :
        Program Memory Rejection (List Receipt)) := by
  unfold validate preDispatch
  simp only [standard, early, List.foldlM_cons, List.foldlM_nil, List.mapM_cons, List.mapM_nil,
    Check.nonZeroSender, Check.specVersion, Check.transactionVersion, Check.genesis, Check.mortality,
    Check.resources, bind_assoc, pure_bind]
  rfl

theorem validateUnsigned_standard (parameters : Parameters) (era : Era) (nonce : UInt64)
    (submission : Submission) :
    (standard parameters era nonce : CheckChain Memory).validateUnsigned submission =
      Check.admitResources parameters.blockLength parameters.blockWeights submission := by
  -- nobody but the resource check has anything to say about an unsigned extrinsic
  simp only [validateUnsigned, standard, List.foldlM_cons, List.foldlM_nil, Check.nonZeroSender,
    Check.specVersion, Check.transactionVersion, Check.genesis, Check.mortality, Check.nonce,
    Check.resources, pure_bind, Admission.neutral_combine, bind_pure]

theorem preDispatchUnsigned_standard (parameters : Parameters) (era : Era) (nonce : UInt64)
    (submission : Submission) :
    (standard parameters era nonce : CheckChain Memory).preDispatchUnsigned submission =
      Check.chargeResources parameters.blockLength parameters.blockWeights submission := by
  simp only [preDispatchUnsigned, standard, List.forM_eq_forM, List.forM_cons, List.forM_nil,
    Check.nonZeroSender, Check.specVersion, Check.transactionVersion, Check.genesis, Check.mortality,
    Check.nonce, Check.resources, pure_bind, bind_pure_unit]

/-- A signed extrinsic that is let through has a signer with the claimed nonce, whose next nonce is the
one behind it; from there the resource check has charged it. -/
theorem signed_of_preDispatch {receipts : Option (List Receipt)}
    (h : Extrinsic.preDispatch (standard parameters era nonce) (some who) submission m =
      (.ok receipts, t)) :
    (∃ list, receipts = some list ∧ list.length = 7) ∧ ¬ who.isZero = true ∧
    ∃ record, (Books.account.cell who).get m = .ok record ∧ record.nonce = nonce ∧
      nonce.toNat + 1 < UInt64.size ∧
      Check.chargeResources parameters.blockLength parameters.blockWeights submission
        ((Books.account.cell who).put { record with nonce := nonce + 1 } m) = (.ok (), t) := by
  obtain ⟨list, _, hchecks, hdone⟩ := Program.bind_eq_ok h
  cases hdone
  rw [preDispatch_standard] at hchecks
  obtain ⟨_, _, hearly, h₁⟩ := Program.bind_eq_ok hchecks
  have hzero : ¬ who.isZero = true := by
    intro hzero
    rw [validate_early_of_isZero hzero] at hearly
    cases hearly
  -- the checks in front of the nonce check read only
  rw [validate_early_of_not_isZero hzero] at hearly
  split at hearly <;> cases hearly
  obtain ⟨receipt, spent, hnonce, h₂⟩ := Program.bind_eq_ok h₁
  obtain ⟨⟨⟩, charged, hcharge, hdone⟩ := Program.bind_eq_ok h₂
  cases hdone
  refine ⟨⟨_, rfl, rfl⟩, hzero, ?_⟩
  rcases hget : (Books.account.cell who).get m with cause | record
  · rw [(Check.nonce_unreadable submission nonce hget).2] at hnonce
    cases hnonce
  rw [Check.preDispatch_nonce submission nonce hget] at hnonce
  -- of the four places that a nonce can have, three are refused
  rcases Check.nonce_orders who record nonce with
    ⟨-, hspend, -⟩ | ⟨-, hspend, -⟩ | ⟨-, hspend, -⟩ | ⟨heq, hroom, hspend, -⟩
  all_goals rw [hspend] at hnonce
  all_goals cases hnonce
  exact ⟨record, rfl, heq, hroom, hcharge⟩

theorem unsigned_of_preDispatch {receipts : Option (List Receipt)}
    (h : Extrinsic.preDispatch (standard parameters era nonce) none submission m = (.ok receipts, t)) :
    receipts = none ∧
      Check.chargeResources parameters.blockLength parameters.blockWeights submission m =
        (.ok (), t) := by
  obtain ⟨⟨⟩, _, hchecks, hdone⟩ := Program.bind_eq_ok h
  cases hdone
  rw [preDispatchUnsigned_standard] at hchecks
  exact ⟨rfl, hchecks⟩

/-- If the checks before the dispatch accept, the resource check has charged the extrinsic, and nothing
before it touched the tally. -/
theorem preDispatch_standard_eq_ok {who : Option AccountId} {receipts : Option (List Receipt)}
    (h : Extrinsic.preDispatch (standard parameters era nonce) who submission m = (.ok receipts, t)) :
    ∃ u, (∀ key ∈ Books.tallyKeys, Store.get? u key = Store.get? m key) ∧
      Check.chargeResources parameters.blockLength parameters.blockWeights submission u =
        (.ok (), t) := by
  cases who with
  | some who =>
    obtain ⟨-, -, _, -, -, -, hcharge⟩ := signed_of_preDispatch h
    exact ⟨_, fun key hkey => Cell.get?_put_of_ne (Books.account_ne hkey who) _ m, hcharge⟩
  | none => exact ⟨m, fun _ _ => rfl, (unsigned_of_preDispatch h).2⟩

/-- What the checks before a dispatch have charged, from the store they started in to the one they left:
the nonce of the signer, the length, and the whole of the declared weight. -/
structure Charged (parameters : Parameters) (nonce : UInt64) (who : Option AccountId)
    (submission : Submission) (m t : Memory) : Prop where
  nonce : ∀ id, who = some id → ∃ record, (Books.account.cell id).get m = .ok record ∧
    record.nonce = nonce ∧ nonce.toNat + 1 < UInt64.size ∧
    (Books.account.cell id).get t = .ok { record with nonce := nonce + 1 }
  length : ∃ current next, Books.extrinsicsLength.get m = .ok current ∧
    parameters.blockLength.charge submission.cost.cls current submission.length = .ok next ∧
    Books.extrinsicsLength.get t = .ok next
  weight : ∃ ledger charged, Books.blockWeight.get m = .ok ledger ∧
    parameters.blockWeights.charge ledger submission.cost = .ok charged ∧
    Books.blockWeight.get t = .ok charged

theorem keeps_account_chargeResources (lengths : BlockLength) (weights : BlockWeights)
    (submission : Submission) (id : AccountId) :
    (Check.chargeResources lengths weights submission : Program Memory Rejection Unit).Keeps
      (Store.at (Books.account.cell id).key) := by
  apply Check.keeps_chargeResources
  intro key hkey value m
  have hne := (Books.account_ne (Books.mem_tallyKeys hkey) id).symm
  exact (Memory.get?_set m key value _).trans (if_neg hne)

section Accepted

variable {signer : Option AccountId} {receipts : Option (List Receipt)}

/-- A dispatch that was let in has a receipt of every check. -/
theorem length_receipts
    (h : Extrinsic.preDispatch (standard parameters era nonce) signer submission m =
      (.ok receipts, t)) : ∀ list, receipts = some list → list.length = 7 := by
  intro list hlist
  cases signer with
  | some who =>
    obtain ⟨⟨other, hother, hlength⟩, -⟩ := signed_of_preDispatch h
    cases hother.symm.trans hlist
    exact hlength
  | none => exact nomatch (unsigned_of_preDispatch h).1.symm.trans hlist

/-- Whoever signed, the checks before a dispatch have charged all that is declared once they accept. -/
theorem charged_of_preDispatch
    (h : Extrinsic.preDispatch (standard parameters era nonce) signer submission m =
      (.ok receipts, t)) : Charged parameters nonce signer submission m t := by
  obtain ⟨u, hfront, hcharge⟩ := preDispatch_standard_eq_ok h
  obtain ⟨current, next, ledger, charged, hcurrent, hnext, -, hledger, haccepted, rfl⟩ :=
    Check.chargeResources_eq_ok hcharge
  -- the checks in front leave both meters as they were
  have hlength := hfront _ (Books.mem_tallyKeys Books.extrinsicsLength_mem_meterKeys)
  have hweight := hfront _ (Books.mem_tallyKeys Books.blockWeight_mem_meterKeys)
  rw [Cell.get_congr hlength] at hcurrent
  rw [Cell.get_congr hweight] at hledger
  constructor
  case nonce =>
    intro id hid
    subst hid
    obtain ⟨-, -, record, hrecord, hnonce, hroom, hsigned⟩ := signed_of_preDispatch h
    refine ⟨record, hrecord, hnonce, hroom, Cell.get_of_encode AccountRecord.codec_lawful ?_⟩
    have hkept := (keeps_account_chargeResources _ _ _ id).of_eq hsigned
    exact hkept.trans (Cell.get?_put_self (Books.account.cell id) _ _)
  case length =>
    exact ⟨current, next, hcurrent, hnext, Check.extrinsicsLength_charged next charged u⟩
  case weight =>
    exact ⟨ledger, charged, hledger, haccepted, Cell.get_put WeightLedger.codec_lawful _ _⟩

/-- No account but that of the signer is written. -/
theorem get?_account_preDispatch
    (h : Extrinsic.preDispatch (standard parameters era nonce) signer submission m =
      (.ok receipts, t)) {id : AccountId} (hid : signer ≠ some id) :
    Store.get? t (Books.account.cell id).key = Store.get? m (Books.account.cell id).key := by
  -- the nonce check writes the account of the signer, and no other check writes one
  cases signer with
  | some who =>
    have hne : (Books.account.cell who).key ≠ (Books.account.cell id).key :=
      fun heq => hid (congrArg some (Books.account_key_inj heq))
    obtain ⟨-, -, _, -, -, -, hcharge⟩ := signed_of_preDispatch h
    exact ((keeps_account_chargeResources _ _ _ id).of_eq hcharge).trans
      (Cell.get?_put_of_ne hne _ m)
  | none => exact (keeps_account_chargeResources _ _ _ id).of_eq (unsigned_of_preDispatch h).2

end Accepted

end CheckChain

end BlockRuntime

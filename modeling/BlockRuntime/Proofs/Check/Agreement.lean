import BlockRuntime.Proofs.Check.Phases

namespace BlockRuntime.CheckChain

/-- Whether the nonce check is reached and the nonce that is claimed has not come yet. -/
def Ahead (parameters : Parameters) (era : Era) (nonce : UInt64) (who : AccountId)
    (submission : Submission) (m : Memory) : Prop :=
  (∃ admission, ((early parameters era).validate who submission m).1 = .ok admission) ∧
    ∃ current, Books.nonce who m = .ok current ∧ current < nonce

/-- How the answer to the pool and the checks before the dispatch of a signed extrinsic go together. -/
structure SignedAgreement (tag : Bytes) (accepts ahead : Prop) (admitted : Exit Rejection Admission)
    (dispatched : Exit Rejection (List Receipt)) : Prop where
  dispatched_iff : (∃ receipts, dispatched = .ok receipts) ↔
    (∃ admission, admitted = .ok admission ∧ admission.requires = []) ∧ accepts
  provides : ∀ admission, admitted = .ok admission → admission.provides = [tag]
  waits : ∀ admission, admitted = .ok admission → admission.requires ≠ [] →
    dispatched = .error (.invalid .future)
  same_error : ∀ cause, admitted = .error cause → ¬ ahead → dispatched = .error cause
  ahead_error : ∀ cause, admitted = .error cause → ahead → dispatched = .error (.invalid .future)
  answered : admitted ≠ .aborted ∧ dispatched ≠ .aborted

structure UnsignedAgreement (accepts : Prop) (admitted : Exit Rejection Admission)
    (dispatched : Exit Rejection Unit) : Prop where
  dispatched_iff : dispatched = .ok () ↔ (∃ admission, admitted = .ok admission) ∧ accepts
  same_error : ∀ cause, admitted = .error cause → dispatched = .error cause
  answered : admitted ≠ .aborted ∧ dispatched ≠ .aborted

namespace SignedAgreement

variable {tag : Bytes} {accepts ahead : Prop} {admitted : Exit Rejection Admission}
  {dispatched : Exit Rejection (List Receipt)} {cause : Rejection} {admission : Admission}

/-- Where no nonce is ahead, one error in both phases is agreement. -/
theorem of_error (hahead : ¬ ahead) (hadmitted : admitted = .error cause)
    (hdispatched : dispatched = .error cause) :
    SignedAgreement tag accepts ahead admitted dispatched where
  dispatched_iff := by
    rw [hadmitted, hdispatched]
    constructor
    · rintro ⟨_, h⟩
      exact nomatch h
    · rintro ⟨⟨_, h, -⟩, -⟩
      exact nomatch h
  provides _ h := nomatch hadmitted.symm.trans h
  waits _ h := nomatch hadmitted.symm.trans h
  same_error other h _ := by
    rw [hadmitted] at h
    cases h
    exact hdispatched
  ahead_error _ _ h := absurd h hahead
  answered := by
    rw [hadmitted, hdispatched]
    exact ⟨nofun, nofun⟩

/-- A nonce that has not come yet waits in the pool and is refused by the block. -/
theorem of_ahead (hahead : ahead)
    (hadmitted : (∃ cause, admitted = .error cause) ∨
      ∃ admission, admitted = .ok admission ∧ admission.requires ≠ [] ∧ admission.provides = [tag])
    (hdispatched : dispatched = .error (.invalid .future)) :
    SignedAgreement tag accepts ahead admitted dispatched where
  dispatched_iff := by
    rw [hdispatched]
    constructor
    · rintro ⟨_, h⟩
      exact nomatch h
    · rintro ⟨⟨other, hok, hnone⟩, -⟩
      rcases hadmitted with ⟨_, herror⟩ | ⟨_, hother, hsome, -⟩
      · exact nomatch herror.symm.trans hok
      · cases hother.symm.trans hok
        exact absurd hnone hsome
  provides other hok := by
    rcases hadmitted with ⟨_, herror⟩ | ⟨_, hother, -, htag⟩
    · exact nomatch herror.symm.trans hok
    · cases hother.symm.trans hok
      exact htag
  waits _ _ _ := hdispatched
  same_error _ _ h := absurd hahead h
  ahead_error _ _ _ := hdispatched
  answered := by
    rw [hdispatched]
    refine ⟨fun h => ?_, nofun⟩
    rcases hadmitted with ⟨_, herror⟩ | ⟨_, hother, -⟩
    · exact nomatch herror.symm.trans h
    · exact nomatch hother.symm.trans h

/-- Where the nonce has come, only the charge still decides. -/
theorem of_next (hadmitted : admitted = .ok admission)
    (hrequires : admission.requires = []) (hprovides : admission.provides = [tag])
    (hdispatched : ¬ accepts ∧ (∃ cause, dispatched = .error cause) ∨
      accepts ∧ ∃ receipts, dispatched = .ok receipts) :
    SignedAgreement tag accepts ahead admitted dispatched where
  dispatched_iff := by
    rcases hdispatched with ⟨hrefuses, _, herror⟩ | ⟨haccepts, hok⟩
    · constructor
      · rintro ⟨_, hok⟩
        exact nomatch herror.symm.trans hok
      · exact fun h => absurd h.2 hrefuses
    · exact ⟨fun _ => ⟨⟨admission, hadmitted, hrequires⟩, haccepts⟩, fun _ => hok⟩
  provides other h := by
    cases hadmitted.symm.trans h
    exact hprovides
  waits other h hne := by
    cases hadmitted.symm.trans h
    exact absurd hrequires hne
  same_error _ h := nomatch hadmitted.symm.trans h
  ahead_error _ h := nomatch hadmitted.symm.trans h
  answered := by
    rw [hadmitted]
    refine ⟨nofun, fun h => ?_⟩
    rcases hdispatched with ⟨-, _, herror⟩ | ⟨-, _, hok⟩
    · exact nomatch herror.symm.trans h
    · exact nomatch hok.symm.trans h

end SignedAgreement

variable {parameters : Parameters} {era : Era} {nonce : UInt64} {who : AccountId}
  {submission : Submission} {record : AccountRecord} {m : Memory}

theorem not_ahead_of_le (hget : (Books.account.cell who).get m = .ok record)
    (h : nonce ≤ record.nonce) : ¬ Ahead parameters era nonce who submission m := by
  rintro ⟨-, current, hcurrent, hlt⟩
  unfold Books.nonce at hcurrent
  rw [hget] at hcurrent
  cases hcurrent
  exact absurd hlt (UInt64.not_lt.mpr h)

theorem not_ahead_of_error {cause : StoreError}
    (hget : (Books.account.cell who).get m = .error cause) :
    ¬ Ahead parameters era nonce who submission m := by
  rintro ⟨-, current, hcurrent, -⟩
  unfold Books.nonce at hcurrent
  rw [hget] at hcurrent
  exact nomatch hcurrent

/-- Once the checks in front of the nonce check accept, the two walks agree: they part at the nonce
check, and what they look at behind it they look at in stores that differ in one account. -/
theorem signed_agreement_behind {admission : Admission}
    (hearly : (early parameters era).validate who submission m = (.ok admission, m))
    (hrequires : admission.requires = []) (hprovides : admission.provides = []) :
    SignedAgreement (Check.nonceTag who nonce)
      (Check.Accepts parameters.blockWeights submission.cost m)
      (Ahead parameters era nonce who submission m)
      ((standard parameters era nonce : CheckChain Memory).validate who submission m).1
      ((standard parameters era nonce : CheckChain Memory).preDispatch who submission m).1 := by
  rw [validate_standard, preDispatch_standard, Program.bind_ok hearly, Program.bind_ok hearly]
  rcases hget : (Books.account.cell who).get m with cause | record
  · obtain ⟨hvalidate, hpre⟩ := Check.nonce_unreadable submission nonce hget
    rw [Program.bind_error hvalidate, Program.bind_error hpre]
    exact .of_error (not_ahead_of_error hget) rfl rfl
  have hvalidate := Check.validate_nonce submission nonce hget
  have hpre := Check.preDispatch_nonce submission nonce hget
  rcases Check.nonce_orders who record nonce with
    ⟨hlt, hspend, hpool⟩ | ⟨hgt, hspend, hpool⟩ | ⟨heq, hspend, hpool⟩ | ⟨heq, -, hspend, hpool⟩
  · rw [hpool] at hvalidate
    rw [hspend] at hpre
    rw [Program.bind_error hvalidate, Program.bind_error hpre]
    exact .of_error (not_ahead_of_le hget (UInt64.le_of_lt hlt)) rfl rfl
  · -- ahead of its account: the pool may hold it, the block has to wait for the nonce
    have hahead : Ahead parameters era nonce who submission m := by
      refine ⟨⟨admission, by rw [hearly]⟩, record.nonce, ?_, hgt⟩
      unfold Books.nonce
      rw [hget]
      rfl
    rw [hspend] at hpre
    rw [Program.bind_error hpre]
    refine .of_ahead hahead ?_ rfl
    rcases hpool with hpool | hpool
    · rw [hpool] at hvalidate
      rw [Program.bind_error hvalidate]
      exact Or.inl ⟨_, rfl⟩
    · rw [hpool] at hvalidate
      rw [Program.bind_ok hvalidate]
      rcases Check.admitResources_cases parameters.blockLength parameters.blockWeights submission m with
        ⟨cause, hlimits⟩ | hlimits
      · rw [Program.bind_error hlimits]
        exact Or.inl ⟨cause, rfl⟩
      · rw [Program.bind_ok hlimits]
        refine Or.inr ⟨_, rfl, ?_, ?_⟩
        · rw [Admission.combine_neutral]
          simp only [Admission.combine, hrequires]
          exact List.cons_ne_nil _ _
        · rw [Admission.combine_neutral]
          simp only [Admission.combine, hprovides]
          rfl
  · rw [hpool] at hvalidate
    rw [hspend] at hpre
    rw [Program.bind_error hvalidate, Program.bind_error hpre]
    exact .of_error (not_ahead_of_le hget (heq ▸ UInt64.le_refl _)) rfl rfl
  · -- the next nonce: the account is written before the limits are looked at
    have hle : nonce ≤ record.nonce := heq ▸ UInt64.le_refl record.nonce
    rw [hpool] at hvalidate
    rw [hspend] at hpre
    rw [Program.bind_ok hvalidate, Program.bind_ok hpre]
    have hother (key : Key) (hkey : key ∈ Books.meterKeys) :=
      Cell.get?_put_of_ne (Books.account_ne (Books.mem_tallyKeys hkey) who)
        { record with nonce := nonce + 1 } m
    have hledger := Check.accepts_congr parameters.blockWeights submission.cost
      (hother _ Books.blockWeight_mem_meterKeys)
    rcases Check.resources_cases parameters.blockLength parameters.blockWeights submission
        (hother _ Books.extrinsicsLength_mem_meterKeys) with
      ⟨cause, hadmitted, hcharge⟩ | ⟨hadmitted, hrefuses, cause, hcharge⟩ |
      ⟨hadmitted, haccepts, charged, hcharge⟩
    · rw [Program.bind_error hadmitted, Program.bind_error hcharge]
      exact .of_error (not_ahead_of_le hget hle) rfl rfl
    all_goals
      rw [Program.bind_ok hadmitted, Admission.combine_neutral]
      refine .of_next rfl ?_ ?_ ?_
      · simp only [Admission.combine, hrequires]
        rfl
      · simp only [Admission.combine, hprovides]
        rfl
    · rw [Program.bind_error hcharge]
      exact Or.inl ⟨fun h => hrefuses (hledger.mpr h), cause, rfl⟩
    · rw [Program.bind_ok hcharge]
      exact Or.inr ⟨hledger.mp haccepts, _, rfl⟩

/-- For a signed extrinsic the walk through the front of the chain is the same in both phases, so the
cases are those of the nonce check. -/
theorem signed_agreement (parameters : Parameters) (era : Era) (nonce : UInt64) (who : AccountId)
    (submission : Submission) (m : Memory) :
    SignedAgreement (Check.nonceTag who nonce)
      (Check.Accepts parameters.blockWeights submission.cost m)
      (Ahead parameters era nonce who submission m)
      ((standard parameters era nonce).validate who submission m).1
      ((standard parameters era nonce).preDispatch who submission m).1 := by
  -- a refusal in front of the nonce check ends both walks, and is not for a nonce that is ahead
  have hrefused {cause : Rejection}
      (hearly : (early parameters era).validate who submission m = (.error cause, m)) :
      SignedAgreement (Check.nonceTag who nonce)
        (Check.Accepts parameters.blockWeights submission.cost m)
        (Ahead parameters era nonce who submission m)
        ((standard parameters era nonce).validate who submission m).1
        ((standard parameters era nonce).preDispatch who submission m).1 := by
    rw [validate_standard, preDispatch_standard, Program.bind_error hearly, Program.bind_error hearly]
    refine .of_error ?_ rfl rfl
    rintro ⟨⟨_, h⟩, -⟩
    rw [hearly] at h
    exact nomatch h
  by_cases hzero : who.isZero = true
  · exact hrefused (validate_early_of_isZero hzero m)
  · have hearly : (early parameters era).validate who submission m = _ :=
      validate_early_of_not_isZero hzero m
    rcases hnumber : Books.blockNumber m with cause | current
    · rw [hnumber] at hearly
      exact hrefused hearly
    · rw [hnumber] at hearly
      exact signed_agreement_behind hearly rfl rfl

theorem unsigned_agreement (parameters : Parameters) (era : Era) (nonce : UInt64)
    (submission : Submission) (m : Memory) :
    UnsignedAgreement (Check.Accepts parameters.blockWeights submission.cost m)
      ((standard parameters era nonce).validateUnsigned submission m).1
      ((standard parameters era nonce).preDispatchUnsigned submission m).1 := by
  rw [validateUnsigned_standard, preDispatchUnsigned_standard]
  rcases Check.resources_cases (s := m) parameters.blockLength parameters.blockWeights submission
      rfl with
    ⟨cause, hadmitted, hcharge⟩ | ⟨hadmitted, hrefuses, cause, hcharge⟩ |
    ⟨hadmitted, haccepts, charged, hcharge⟩
  all_goals rw [hadmitted, hcharge]
  · exact ⟨⟨nofun, fun ⟨⟨_, h⟩, _⟩ => nomatch h⟩, fun _ h => by cases h; rfl, nofun, nofun⟩
  · exact ⟨⟨nofun, fun h => absurd h.2 hrefuses⟩, nofun, nofun, nofun⟩
  · exact ⟨⟨fun _ => ⟨⟨_, rfl⟩, haccepts⟩, fun _ => rfl⟩, nofun, nofun, nofun⟩

/-- The pool and the block agree, on every store. The checks before the dispatch let a signed extrinsic
through if and only if the pool admits it without a tag to wait for and the ledger takes its charge; one
that the pool lets wait is refused as coming too early; and one that the pool refuses is refused with
the same error, unless its nonce is ahead and the nonce check was reached, when it comes too early. The
tag that an admitted extrinsic provides is that of its signer and nonce. -/
theorem admission_agrees_with_dispatch (parameters : Parameters) (era : Era) (nonce : UInt64)
    (who : AccountId) (submission : Submission) (m : Memory) :
    SignedAgreement (Check.nonceTag who nonce)
      (Check.Accepts parameters.blockWeights submission.cost m)
      (Ahead parameters era nonce who submission m)
      ((standard parameters era nonce).validate who submission m).1
      ((standard parameters era nonce).preDispatch who submission m).1 ∧
    UnsignedAgreement (Check.Accepts parameters.blockWeights submission.cost m)
      ((standard parameters era nonce).validateUnsigned submission m).1
      ((standard parameters era nonce).preDispatchUnsigned submission m).1 :=
  ⟨signed_agreement parameters era nonce who submission m,
    unsigned_agreement parameters era nonce submission m⟩

end BlockRuntime.CheckChain

import BlockRuntime.Proofs.Extrinsic.Failure
import BlockRuntime.Proofs.Guarded

namespace BlockRuntime

structure Check.Steady (check : Check Memory) : Prop where
  signedDatum : check.signedDatum.NeverAborts
  validate : ∀ who submission, (check.validate who submission).NeverAborts
  preDispatch : ∀ who submission, (check.preDispatch who submission).NeverAborts
  validateUnsigned : ∀ submission, (check.validateUnsigned submission).NeverAborts
  preDispatchUnsigned : ∀ submission, (check.preDispatchUnsigned submission).NeverAborts
  postDispatch : ∀ receipt settlement, (check.postDispatch receipt settlement).NeverAborts

namespace Check

open Program (FailsWith NeverAborts)

theorem lookup_neverAborts {α : Type} (f : Memory → Except StoreError α) :
    (lookup f).NeverAborts :=
  .mapError (.query fun _ => trivial) fun _ h => h

theorem steady_nonZeroSender : (nonZeroSender : Check Memory).Steady := by
  have hvalidate (who : AccountId) (submission : Submission) :
      ((nonZeroSender : Check Memory).validate who submission).NeverAborts := by
    simp only [nonZeroSender]
    split
    · exact .fail trivial
    · exact .pure _
  exact ⟨.pure _, hvalidate, fun who submission => .bind (hvalidate who submission) fun _ => .pure _,
    fun _ => .pure _, fun _ => .bind (.pure _) fun _ => .pure _, fun _ _ => .pure _⟩

theorem steady_of_signedDatum {check : Check Memory} (h : check.signedDatum.NeverAborts)
    (hrest : check = { name := check.name, signedDatum := check.signedDatum }) : check.Steady := by
  rw [hrest]
  exact ⟨h, fun _ _ => .pure _, fun _ _ => .bind (.pure _) fun _ => .pure _, fun _ => .pure _,
    fun _ => .bind (.pure _) fun _ => .pure _, fun _ _ => .pure _⟩

theorem steady_genesis : (genesis : Check Memory).Steady := by
  refine steady_of_signedDatum (.bind (lookup_neverAborts _) fun found => ?_) rfl
  cases found with
  | some hash => exact .pure _
  | none => exact .fail trivial

/-- The windows of an era stay within words, whatever number the store holds. -/
theorem steady_mortality (era : Era) : (mortality era : Check Memory).Steady := by
  have hdatum : (mortality era : Check Memory).signedDatum.NeverAborts := by
    refine .bind (lookup_neverAborts _) fun current => ?_
    refine .bind (.demand (era.isSome_birth? current)) fun _ => ?_
    refine .bind (lookup_neverAborts _) fun found => ?_
    cases found with
    | some hash => exact .pure _
    | none => exact .fail trivial
  have hvalidate (who : AccountId) (submission : Submission) :
      ((mortality era : Check Memory).validate who submission).NeverAborts :=
    .bind (lookup_neverAborts _) fun current => .bind (.demand (era.isSome_death? current)) fun _ =>
      .pure _
  exact ⟨hdatum, hvalidate, fun who submission => .bind (hvalidate who submission) fun _ => .pure _,
    fun _ => .pure _, fun _ => .bind (.pure _) fun _ => .pure _, fun _ _ => .pure _⟩

theorem nonceAdmission_ne_aborted (who : AccountId) (current nonce : UInt64) :
    nonceAdmission who current nonce ≠ .aborted := by
  rw [nonceAdmission_eq]
  split
  · exact nofun
  split <;> exact nofun

theorem steady_nonce (claimed : UInt64) : (nonce claimed : Check Memory).Steady where
  signedDatum := .pure _
  validate who _ := .bind (lookup_neverAborts _) fun current =>
    .ofExit (nonceAdmission_ne_aborted who current claimed) fun _ => trivial
  preDispatch _ _ := .bind (lookup_neverAborts _) fun _ => .bind (.ofExcept fun _ => trivial)
    fun _ => .bind (.update _) fun _ => .pure _
  validateUnsigned _ := .pure _
  preDispatchUnsigned _ := .bind (.pure _) fun _ => .pure _
  postDispatch _ _ := .pure _

theorem modify_neverAborts {α β : Type} (cell : Cell α) (change : α → α × β) :
    (cell.modify change : Program Memory StoreError β).NeverAborts :=
  .bind (.query fun _ => trivial) fun _ => .bind (.update _) fun _ => .pure _

theorem refund_neverAborts (settlement : Settlement) :
    (refund settlement : Program Memory Rejection Unit).NeverAborts := by
  by_cases hzero : (settlement.reported.unspent settlement.cost).isZero
  · simp only [refund, if_pos hzero]
    exact .pure _
  · simp only [refund, if_neg hzero]
    exact .mapError (modify_neverAborts _ _) fun _ h => h

theorem steady_resources (lengths : BlockLength) (weights : BlockWeights) :
    (resources lengths weights : Check Memory).Steady := by
  have hlength (submission : Submission) : (chargedLength lengths submission.cost submission.length :
      Program Memory Rejection UInt32).NeverAborts :=
    .bind (lookup_neverAborts _) fun _ => .ofExcept fun _ => trivial
  have hadmit (submission : Submission) : (admitResources lengths weights submission :
      Program Memory Rejection Admission).NeverAborts :=
    .bind (hlength submission) fun _ => .bind (.ofExcept fun _ => trivial) fun _ => .pure _
  have hcharge (submission : Submission) : (chargeResources lengths weights submission :
      Program Memory Rejection Unit).NeverAborts :=
    .bind (hlength submission) fun _ => .bind (.ofExcept fun _ => trivial) fun _ =>
      .bind (lookup_neverAborts _) fun _ => .bind (.ofExcept fun _ => trivial) fun _ =>
        .bind (.update _) fun _ => .update _
  exact ⟨.pure _, fun _ => hadmit, fun _ submission => .bind (hcharge submission) fun _ => .pure _,
    hadmit, hcharge, fun _ => refund_neverAborts⟩

end Check

namespace CheckChain

variable {chain : CheckChain Memory}

/-- No check of the standard chain ever aborts. -/
theorem steady_standard (parameters : Parameters) (era : Era) (nonce : UInt64) :
    ∀ check ∈ (standard parameters era nonce : CheckChain Memory).checks, check.Steady := by
  intro check hmem
  simp only [standard, List.mem_cons, List.not_mem_nil, or_false] at hmem
  rcases hmem with rfl | rfl | rfl | rfl | rfl | rfl | rfl
  · exact Check.steady_nonZeroSender
  · exact Check.steady_of_signedDatum (.pure _) rfl
  · exact Check.steady_of_signedDatum (.pure _) rfl
  · exact Check.steady_genesis
  · exact Check.steady_mortality era
  · exact Check.steady_nonce nonce
  · exact Check.steady_resources _ _

theorem signedData_neverAborts (h : ∀ check ∈ chain.checks, check.Steady) :
    chain.signedData.NeverAborts :=
  .bind (Program.FailsWith.composes.mapM fun check hmem => (h check hmem).signedDatum) fun _ => .pure _

theorem signedBytes_neverAborts (h : ∀ check ∈ chain.checks, check.Steady) :
    chain.signedBytes.NeverAborts :=
  .bind (signedData_neverAborts h) fun _ => .pure _

theorem postDispatch_neverAborts (h : ∀ check ∈ chain.checks, check.Steady)
    (receipts : Option (List Receipt)) (settlement : Settlement) :
    (chain.postDispatch receipts settlement).NeverAborts := by
  cases receipts with
  | none =>
    exact Program.FailsWith.composes.forM fun check hmem => (h check hmem).postDispatch none settlement
  | some receipts =>
    simp only [postDispatch]
    split
    · apply Program.FailsWith.composes.forM
      intro pair hmem
      exact (h pair.1 (List.of_mem_zip hmem).1).postDispatch (some pair.2) settlement
    · exact .fail trivial

end CheckChain

namespace Block

variable (parameters : Parameters)

theorem start_neverAborts (n : UInt64) (parent : BlockHash) :
    (start parameters n parent : Program Memory StoreError Unit).NeverAborts := by
  refine .bind (.update _) fun _ => ?_
  by_cases hzero : parameters.blockWeights.baseBlock.isZero
  · simp only [if_pos hzero]
    exact .pure _
  · simp only [if_neg hzero]
    exact Check.modify_neverAborts _ _

theorem finish_neverAborts : (finish parameters : Program Memory StoreError Unit).NeverAborts := by
  refine .bind (.query fun _ => trivial) fun n => .bind (.update _) fun _ => .bind ?_ fun _ => ?_
  · exact .bind (.query fun _ => trivial) fun _ => .bind (.update _) fun _ => .pure _
  · split
    · exact .update _
    · exact .pure _

end Block

/-- The level that is read from the store is the limit or more exactly if the level key holds a number of
at least 255, or no number. -/
theorem Layer.limit_le_level_iff (m : Memory) : limit ≤ level m ↔
    (∃ cause, levelCell.get m = .error cause) ∨ ∃ n, levelCell.get m = .ok n ∧ 255 ≤ n.toNat := by
  unfold level
  cases hget : levelCell.get m with
  | error cause => exact ⟨fun _ => Or.inl ⟨cause, rfl⟩, fun _ => UInt32.le_refl _⟩
  | ok n =>
    constructor
    · exact fun h => Or.inr ⟨n, rfl, UInt32.le_iff_toNat_le.mp h⟩
    · rintro (⟨cause, hcause⟩ | ⟨found, hfound, h⟩)
      · exact nomatch hcause
      · cases hfound
        exact UInt32.le_iff_toNat_le.mpr h

namespace Extrinsic

variable {chain : CheckChain Memory} {who : Option AccountId} {submission : Submission}
  {dispatch : Program Memory FailedDispatch ReportedCost} {m s : Memory}

theorem validate_neverAborts (h : ∀ check ∈ chain.checks, check.Steady) (who : Option AccountId)
    (submission : Submission) : (validate chain who submission).NeverAborts := by
  unfold validate
  split
  · exact .fail trivial
  · cases who with
    | none =>
      exact Program.FailsWith.composes.foldlM (fun _ check hmem =>
        .bind ((h check hmem).validateUnsigned submission) fun _ => .pure _) _
    | some who =>
      exact Program.FailsWith.composes.foldlM (fun _ check hmem =>
        .bind ((h check hmem).validate who submission) fun _ => .pure _) _

theorem preDispatch_neverAborts (h : ∀ check ∈ chain.checks, check.Steady) (who : Option AccountId)
    (submission : Submission) : (preDispatch chain who submission).NeverAborts := by
  cases who with
  | none =>
    have hchecks : (chain.preDispatchUnsigned submission).NeverAborts :=
      Program.FailsWith.composes.forM fun check hmem => (h check hmem).preDispatchUnsigned submission
    exact .bind hchecks fun _ => .pure _
  | some who =>
    have hchecks : (chain.preDispatch who submission).NeverAborts :=
      Program.FailsWith.composes.mapM fun check hmem => (h check hmem).preDispatch who submission
    exact .bind hchecks fun _ => .pure _

def IsRejection (cause : ApplyError) : Prop := ∃ rejection, cause = .rejected rejection

/-- Between the opening and the closing of its layer an extrinsic does nothing worse than to be
rejected. -/
theorem inner_failsWith (h : ∀ check ∈ chain.checks, check.Steady)
    (hdispatch : dispatch.Keeps Memory.below) (who : Option AccountId) (submission : Submission) :
    (do
      let (receipts, outcome) ← checkAndDispatch chain who submission dispatch
      settle chain submission receipts outcome :
        Program Memory ApplyError DispatchResult).FailsWith IsRejection := by
  have hlayer : (Layer.run FailedDispatch.ofError dispatch).NeverAborts := by
    intro m
    rcases Layer.run_cases FailedDispatch.ofError hdispatch m with
      ⟨-, hr⟩ | ⟨-, _, _, _, -, hr, -⟩ | ⟨-, -, _, hr⟩ <;> rw [hr] <;> exact ⟨nofun, fun _ _ => trivial⟩
  have hchecks : ((preDispatch chain who submission).mapError ApplyError.rejected).FailsWith
      IsRejection := .mapError (preDispatch_neverAborts h who submission) fun cause _ => ⟨cause, rfl⟩
  refine .bind (.bind hchecks fun _ => .bind (.result hlayer) fun _ => .pure _) fun found => ?_
  have hpost := CheckChain.postDispatch_neverAborts h found.1
    ⟨submission.cost, reportedCost found.2, submission.length, dispatchResult found.2⟩
  refine .bind (.mapError hpost fun cause _ => ⟨cause, rfl⟩) fun _ => ?_
  split
  · exact .fail ⟨_, rfl⟩
  · have hnote : (Books.noteApplied : Program Memory StoreError Unit).NeverAborts :=
      Check.modify_neverAborts _ _
    exact .bind (.mapError hnote fun _ _ => ⟨_, rfl⟩) fun _ => .pure _

/-- An extrinsic fails in its layer exactly if the layer cannot be opened. -/
theorem apply_eq_layer_iff (h : ∀ check ∈ chain.checks, check.Steady)
    (hbelow : chain.Keeps Memory.below) (hdispatch : dispatch.Keeps Memory.below)
    (cause : DispatchError) :
    (apply chain who submission dispatch m).1 = .error (.layer cause) ↔
      cause = .layerLimitReached ∧ Layer.limit ≤ Layer.level m := by
  have hkeeps := keeps_below_inner hbelow hdispatch who submission
  by_cases hlevel : Layer.level m < Layer.limit
  · have hopen : ¬ Layer.limit ≤ Layer.level m := UInt32.not_le.mpr hlevel
    have hnone : (apply chain who submission dispatch m).1 ≠ .error (.layer cause) := by
      obtain ⟨habort, hrejected⟩ := inner_failsWith h hdispatch who submission (Layer.opened m)
      unfold apply
      rcases hinner : (do
        let (receipts, outcome) ← checkAndDispatch chain who submission dispatch
        settle chain submission receipts outcome : Program Memory ApplyError DispatchResult)
          (Layer.opened m) with ⟨value | failed | _, s⟩
      · obtain ⟨_, hrun, -⟩ := Layer.run_ok ApplyError.layer hkeeps hlevel hinner
        rw [hrun]
        exact nofun
      · -- a failure inside the layer is a rejection, and the layer hands it on
        obtain ⟨rejection, rfl⟩ := hrejected failed (congrArg Prod.fst hinner)
        rw [Layer.run_error ApplyError.layer hkeeps hlevel hinner]
        exact nofun
      · exact absurd (congrArg Prod.fst hinner) habort
    exact ⟨fun herror => absurd herror hnone, fun hfull => absurd hfull.2 hopen⟩
  · have hfull : Layer.limit ≤ Layer.level m := UInt32.not_lt.mp hlevel
    have hrefused : apply chain who submission dispatch m =
        (.error (.layer .layerLimitReached), m) := Layer.run_of_le ApplyError.layer hfull
    rw [hrefused]
    constructor
    · intro herror
      cases herror
      exact ⟨rfl, hfull⟩
    · rintro ⟨rfl, -⟩
      rfl

/-- A layer that is opened is closed again, so an extrinsic ends at the depth it started from. -/
theorem apply_neverAborts (hbelow : chain.Keeps Memory.below) (hdispatch : dispatch.Keeps Memory.below) :
    (apply chain who submission dispatch m).1 ≠ .aborted ∧
      (apply chain who submission dispatch m).2.depth = m.depth := by
  have hkeeps := keeps_below_inner hbelow hdispatch who submission
  refine ⟨?_, Memory.depth_eq_of_below (Layer.keeps_below_run ApplyError.layer hkeeps m)⟩
  unfold apply
  rcases Layer.run_cases ApplyError.layer hkeeps m with
    ⟨-, hr⟩ | ⟨-, _, _, _, -, hr, -⟩ | ⟨-, -, _, hr⟩ <;> rw [hr] <;> exact nofun

/-- A body is run behind two layers and the checks. -/
theorem bodyStore?_eq_some (h : bodyStore? chain who submission m = some s) :
    Layer.level m < Layer.limit ∧ ∃ receipts checked,
      preDispatch chain who submission (Layer.opened m) = (.ok receipts, checked) ∧
      Layer.level checked < Layer.limit ∧ s = Layer.opened checked := by
  unfold bodyStore? at h
  by_cases hlevel : Layer.level m < Layer.limit
  · rw [if_pos hlevel] at h
    rcases hpre : preDispatch chain who submission (Layer.opened m) with
      ⟨receipts | cause | _, checked⟩ <;> rw [hpre] at h
    · by_cases hinner : Layer.level checked < Layer.limit
      · simp only [if_pos hinner] at h
        cases h
        exact ⟨hlevel, receipts, checked, rfl, hinner, rfl⟩
      · simp only [if_neg hinner] at h
        exact nomatch h
    · exact nomatch h
    · exact nomatch h
  · rw [if_neg hlevel] at h
    exact nomatch h

section Standard

variable {parameters : Parameters} {era : Era} {nonce : UInt64}

/-- What an extrinsic comes to whose body aborted: a failed dispatch, which a mandatory one must not be. -/
def abortedResult (c : DispatchClass) : Exit ApplyError DispatchResult :=
  if c = .mandatory then .error (.rejected (.invalid .badMandatory))
  else .ok (.error (.other Layer.abortReason))

/-- A failed mandatory dispatch must not be in the block. -/
theorem settle_ofError_mandatory {receipts : Option (List Receipt)} {error : DispatchError}
    {checked : Memory} (hlength : ∀ list, receipts = some list → list.length = 7)
    (hcls : submission.cost.cls = .mandatory) :
    settle (CheckChain.standard parameters era nonce) submission receipts
        (.error (FailedDispatch.ofError error)) checked =
      (.error (.rejected (.invalid .badMandatory)), checked) := by
  have hbad : isBadMandatory submission.cost.cls
      (dispatchResult (.error (FailedDispatch.ofError error))) = true := decide_eq_true hcls
  unfold settle
  rw [CheckChain.postDispatch_standard hlength, Check.refund_of_none rfl, if_pos hbad]
  rfl

/-- An abort of the body shows as a failed dispatch. -/
theorem apply_of_aborted (hdispatch : dispatch.Keeps Memory.below)
    (hstore : bodyStore? (CheckChain.standard parameters era nonce) who submission m = some s)
    (haborted : (dispatch s).1 = .aborted) {index : UInt32}
    (hindex : Books.extrinsicIndex.get m = .ok index) :
    (apply (CheckChain.standard parameters era nonce) who submission dispatch m).1 =
      abortedResult submission.cost.cls := by
  -- the checks have passed and the layer of the body could be opened, or the body had not been run
  obtain ⟨hlevel, receipts, checked, hpre, hinner, rfl⟩ := bodyStore?_eq_some hstore
  have hlength := CheckChain.length_receipts hpre
  have hlayer : Layer.run FailedDispatch.ofError dispatch checked =
      (.ofExcept (.error (FailedDispatch.ofError (.other Layer.abortReason))),
        Layer.lower (Layer.raised checked)) :=
    Layer.run_aborted FailedDispatch.ofError hdispatch hinner (Prod.ext haborted rfl)
  have hchecks : (preDispatch (CheckChain.standard parameters era nonce) who submission).mapError
      ApplyError.rejected (Layer.opened m) = (.ok receipts, checked) := Program.mapError_ok hpre
  have hdispatched : checkAndDispatch (CheckChain.standard parameters era nonce) who submission dispatch
      (Layer.opened m) = (.ok (receipts, .error (FailedDispatch.ofError (.other Layer.abortReason))),
        Layer.lower (Layer.raised checked)) :=
    (Program.bind_ok hchecks).trans (Program.bind_ok (Program.result_ofExcept hlayer))
  have hchain : (CheckChain.standard parameters era nonce).Keeps Memory.below :=
    CheckChain.keeps_below_standard
  have hkeeps := keeps_below_inner hchain hdispatch who submission
  have hsettled := inner_of_checked hdispatched
  unfold apply abortedResult
  by_cases hcls : submission.cost.cls = .mandatory
  · have hrefused := hsettled.trans (settle_ofError_mandatory hlength hcls)
    rw [Layer.run_error ApplyError.layer hkeeps hlevel hrefused, if_pos hcls]
  · -- the layer of the body is undone, so the index is still the one that was there before
    have hkept : Books.extrinsicIndex.get (Layer.lower (Layer.raised checked)) = .ok index := by
      have hback := Layer.get?_lower_raised
        (Books.levelKey_ne Books.extrinsicIndex_mem_tallyKeys) checked
      rw [Cell.get_congr hback, extrinsicIndex_of_preDispatch hpre]
      exact hindex
    obtain ⟨_, hrun, -⟩ := Layer.run_ok ApplyError.layer hkeeps hlevel
      (hsettled.trans (settle_ofError hlength hcls hkept))
    rw [hrun, if_neg hcls]

end Standard

/-- How the driver ends. Its arithmetic on words saturates, is checked, or aborts where it goes out of range,
so an ending that is no abort says that none did. -/
structure Endings (parameters : Parameters) (era : Era) (nonce : UInt64) (who : Option AccountId)
    (submission : Submission) (body : Script FailedDispatch ReportedCost) (m : Memory) : Prop where
  validate : (validate (CheckChain.standard parameters era nonce) who submission m).1 ≠ .aborted
  signedData : ((CheckChain.standard parameters era nonce).signedData m).1 ≠ .aborted
  signedBytes : ((CheckChain.standard parameters era nonce).signedBytes m).1 ≠ .aborted
  start : ∀ n parent,
    ((Block.start parameters n parent : Program Memory StoreError Unit) m).1 ≠ .aborted
  finish : ((Block.finish parameters : Program Memory StoreError Unit) m).1 ≠ .aborted
  apply : (Extrinsic.apply (CheckChain.standard parameters era nonce) who submission body.run m).1 ≠
    .aborted
  depth : (Extrinsic.apply (CheckChain.standard parameters era nonce) who submission body.run m).2.depth =
    m.depth
  layer : ∀ cause,
    (Extrinsic.apply (CheckChain.standard parameters era nonce) who submission body.run m).1 =
        .error (.layer cause) ↔
      cause = .layerLimitReached ∧ ((∃ failure, Layer.levelCell.get m = .error failure) ∨
        ∃ n, Layer.levelCell.get m = .ok n ∧ 255 ≤ n.toNat)
  /-- An abort of a body that is run is a failed dispatch. -/
  aborted : ∀ s index,
    bodyStore? (CheckChain.standard parameters era nonce) who submission m = some s →
    Books.extrinsicIndex.get m = .ok index → (body.run s).1 = .aborted →
    (Extrinsic.apply (CheckChain.standard parameters era nonce) who submission body.run m).1 =
      abortedResult submission.cost.cls

/-- The driver never aborts and never loses a layer, whatever bytes the store holds; and no stem, no era
and no code of an era takes an operation that is out of range. -/
theorem driver_never_aborts :
    (∀ (parameters : Parameters) (era : Era) (nonce : UInt64) (who : Option AccountId)
      (submission : Submission) (body : Script FailedDispatch ReportedCost) (m : Memory),
      Endings parameters era nonce who submission body m) ∧
    (∀ group item, stemOf? group item = some (stemOf group item)) ∧
    (∀ wanted current, ∃ e, Era.starting wanted current = .mortal e ∧
      Era.phaseNear? e.period current = some e.phase) ∧
    ∀ e : MortalEra, ∃ n, e.quanta? = some n ∧ e.word = e.period.toNat.log2 - 1 + 16 * n.toNat := by
  refine ⟨fun parameters era nonce who submission body m => ?_, stemOf?_eq, Era.phaseNear?_eq,
    MortalEra.quanta?_eq⟩
  have hsteady := CheckChain.steady_standard parameters era nonce
  have hbelow : (CheckChain.standard parameters era nonce).Keeps Memory.below :=
    CheckChain.keeps_below_standard
  have hbody : (body.run : Program Memory FailedDispatch ReportedCost).Keeps Memory.below :=
    body.keeps_below_run
  obtain ⟨happly, hdepth⟩ : (apply (CheckChain.standard parameters era nonce) who submission body.run m).1 ≠
      .aborted ∧ (apply (CheckChain.standard parameters era nonce) who submission body.run m).2.depth =
        m.depth := apply_neverAborts hbelow hbody
  constructor
  case validate => exact (validate_neverAborts hsteady who submission m).1
  case signedData => exact (CheckChain.signedData_neverAborts hsteady m).1
  case signedBytes => exact (CheckChain.signedBytes_neverAborts hsteady m).1
  case start => exact fun n parent => (Block.start_neverAborts parameters n parent m).1
  case finish => exact (Block.finish_neverAborts parameters m).1
  case apply => exact happly
  case depth => exact hdepth
  case layer =>
    intro cause
    rw [apply_eq_layer_iff hsteady hbelow hbody, Layer.limit_le_level_iff]
  case aborted => exact fun s index hstore hindex haborted => apply_of_aborted hbody hstore haborted hindex

theorem aborting_body_fails :
    let chain : CheckChain Memory := CheckChain.standard Sample.parameters .immortal 0
    let submission : Submission := ⟨[], ⟨⟨30, 4⟩, .normal, .paid⟩, 9⟩
    let mandatory : Submission := ⟨[], ⟨⟨30, 4⟩, .mandatory, .paid⟩, 9⟩
    let body : Script FailedDispatch ReportedCost := .set [1] [2] .abort
    (∃ s, bodyStore? chain (some (Sample.account 1)) submission Sample.memory = some s ∧
      (body.run s).1 = .aborted) ∧
    (∃ s, bodyStore? chain none mandatory Sample.memory = some s ∧ (body.run s).1 = .aborted) ∧
    Books.extrinsicIndex.get Sample.memory = .ok 0 ∧
    (apply chain (some (Sample.account 1)) submission body.run Sample.memory).1 =
      .ok (.error (.other Layer.abortReason)) ∧
    (apply chain none mandatory body.run Sample.memory).1 =
      .error (.rejected (.invalid .badMandatory)) := by
  intro chain submission mandatory body
  have hindex : Books.extrinsicIndex.get Sample.memory = .ok 0 := by decide +kernel
  have haborted (s : Memory) : (body.run s).1 = .aborted := rfl
  obtain ⟨s, hs⟩ : ∃ s, bodyStore? chain (some (Sample.account 1)) submission Sample.memory = some s :=
    Option.isSome_iff_exists.mp (by decide +kernel)
  obtain ⟨t, ht⟩ : ∃ s, bodyStore? chain none mandatory Sample.memory = some s :=
    Option.isSome_iff_exists.mp (by decide +kernel)
  have hends := driver_never_aborts.1 Sample.parameters .immortal 0
  have hfails := (hends (some (Sample.account 1)) submission body Sample.memory).aborted s 0 hs hindex
    (haborted s)
  have hrejected := (hends none mandatory body Sample.memory).aborted t 0 ht hindex (haborted t)
  exact ⟨⟨s, hs, haborted s⟩, ⟨t, ht, haborted t⟩, hindex, hfails, hrejected⟩

end Extrinsic

end BlockRuntime

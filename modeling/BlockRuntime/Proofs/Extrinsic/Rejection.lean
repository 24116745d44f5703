import BlockRuntime.Extrinsic
import BlockRuntime.Proofs.Script.Frame

namespace BlockRuntime

/-- A check that works on the store through scripts wherever it may write: each of its writing phases
may read, write, open layers, fail and abort, and is free to do anything else with what it is given. -/
structure Check.Scripted (check : Check Memory) : Prop where
  preDispatch : ∀ who submission, ∃ script : Script Rejection Receipt,
    check.preDispatch who submission = script.run
  preDispatchUnsigned : ∀ submission, ∃ script : Script Rejection Unit,
    check.preDispatchUnsigned submission = script.run
  postDispatch : ∀ receipt settlement, ∃ script : Script Rejection Unit,
    check.postDispatch receipt settlement = script.run

structure CheckChain.Keeps {τ : Type} (view : Memory → τ) (chain : CheckChain Memory) : Prop where
  preDispatch : ∀ check ∈ chain.checks, ∀ who submission,
    (check.preDispatch who submission).Keeps view
  preDispatchUnsigned : ∀ check ∈ chain.checks, ∀ submission,
    (check.preDispatchUnsigned submission).Keeps view
  postDispatch : ∀ check ∈ chain.checks, ∀ receipt settlement,
    (check.postDispatch receipt settlement).Keeps view

/-- Scripted checks never reach below the layer that they run in. -/
theorem CheckChain.keeps_below_of_scripted {chain : CheckChain Memory}
    (h : ∀ check ∈ chain.checks, check.Scripted) : chain.Keeps Memory.below where
  preDispatch check hmem who submission := by
    obtain ⟨script, hs⟩ := (h check hmem).preDispatch who submission
    rw [hs]
    exact script.keeps_below_run
  preDispatchUnsigned check hmem submission := by
    obtain ⟨script, hs⟩ := (h check hmem).preDispatchUnsigned submission
    rw [hs]
    exact script.keeps_below_run
  postDispatch check hmem receipt settlement := by
    obtain ⟨script, hs⟩ := (h check hmem).postDispatch receipt settlement
    rw [hs]
    exact script.keeps_below_run

namespace CheckChain

variable {τ : Type} {view : Memory → τ} {chain : CheckChain Memory}

theorem keeps_postDispatch (h : chain.Keeps view) (receipts : Option (List Receipt))
    (settlement : Settlement) : (chain.postDispatch receipts settlement).Keeps view := by
  cases receipts with
  | none =>
    exact Program.Keeps.composes.forM fun check hmem => h.postDispatch check hmem none settlement
  | some receipts =>
    by_cases hlength : receipts.length = chain.checks.length
    · simp only [postDispatch, if_pos hlength]
      apply Program.Keeps.composes.forM
      intro pair hmem
      exact h.postDispatch pair.1 (List.of_mem_zip hmem).1 (some pair.2) settlement
    · simp only [postDispatch, if_neg hlength]
      exact .fail _

end CheckChain

namespace Extrinsic

variable {τ : Type} {view : Memory → τ} {chain : CheckChain Memory}
  {dispatch : Program Memory FailedDispatch ReportedCost}

theorem keeps_preDispatch (h : chain.Keeps view) (who : Option AccountId) (submission : Submission) :
    (preDispatch chain who submission).Keeps view := by
  cases who with
  | none =>
    have hchecks : (chain.preDispatchUnsigned submission).Keeps view :=
      Program.Keeps.composes.forM fun check hmem => h.preDispatchUnsigned check hmem submission
    exact .bind hchecks fun _ => .pure none
  | some who =>
    have hchecks : (chain.preDispatch who submission).Keeps view :=
      Program.Keeps.composes.mapM fun check hmem => h.preDispatch check hmem who submission
    exact .bind hchecks fun receipts => .pure (some receipts)

theorem keeps_checkAndDispatch (h : chain.Keeps view)
    (hlayer : (Layer.run FailedDispatch.ofError dispatch).Keeps view) (who : Option AccountId)
    (submission : Submission) : (checkAndDispatch chain who submission dispatch).Keeps view :=
  .bind (.mapError _ (keeps_preDispatch h who submission)) fun _ =>
    .bind (.result hlayer) fun _ => .pure _

theorem keeps_settle (h : chain.Keeps view)
    (hnote : (Books.noteApplied : Program Memory StoreError Unit).Keeps view)
    (submission : Submission) (receipts : Option (List Receipt))
    (outcome : Except FailedDispatch ReportedCost) :
    (settle chain submission receipts outcome).Keeps view := by
  refine .bind (.mapError _ (CheckChain.keeps_postDispatch h _ _)) fun _ => ?_
  split
  · exact .fail _
  · exact .bind (.mapError _ hnote) fun _ => .pure _

theorem keeps_below_noteApplied :
    (Books.noteApplied : Program Memory StoreError Unit).Keeps Memory.below :=
  .bind (.query _) fun _ => .bind (.update fun m => Cell.below_put _ _ m) fun _ => .pure _

/-- Inside its layer an extrinsic leaves everything below as it was. -/
theorem keeps_below_inner (h : chain.Keeps Memory.below) (hdispatch : dispatch.Keeps Memory.below)
    (who : Option AccountId) (submission : Submission) :
    (do
      let (receipts, outcome) ← checkAndDispatch chain who submission dispatch
      settle chain submission receipts outcome :
        Program Memory ApplyError DispatchResult).Keeps Memory.below :=
  .bind (keeps_checkAndDispatch h (Layer.keeps_below_run _ hdispatch) who submission) fun _ =>
    keeps_settle h keeps_below_noteApplied submission _ _

theorem inner_of_checked {who : Option AccountId} {submission : Submission} {s t : Memory}
    {receipts : Option (List Receipt)} {outcome : Except FailedDispatch ReportedCost}
    (h : checkAndDispatch chain who submission dispatch s = (.ok (receipts, outcome), t)) :
    (do
      let (receipts, outcome) ← checkAndDispatch chain who submission dispatch
      settle chain submission receipts outcome : Program Memory ApplyError DispatchResult) s =
      settle chain submission receipts outcome t := by
  rw [Program.bind_apply, h]

/-- A rejected extrinsic leaves no trace: wherever on the way it was rejected, a reader sees the entries
that were there before, under the same number of open change sets. Applying never aborts, so a check
that aborts is a rejection as well. -/
theorem rejected_leaves_no_trace (chain : CheckChain Memory)
    (hchain : ∀ check ∈ chain.checks, check.Scripted) (who : Option AccountId) (submission : Submission)
    (body : Script FailedDispatch ReportedCost) (m : Memory)
    (hzero : Store.get? m Layer.levelKey ≠ some (Codec.u32.encode 0)) :
    (apply chain who submission body.run m).1 ≠ .aborted ∧
    ∀ cause, (apply chain who submission body.run m).1 = .error cause →
      (apply chain who submission body.run m).2.entries = m.entries ∧
      (apply chain who submission body.run m).2.depth = m.depth := by
  -- everything inside the layer keeps what lies below it, so the layer is undone to where it began
  have hinner := keeps_below_inner (CheckChain.keeps_below_of_scripted hchain)
    body.keeps_below_run who submission
  constructor
  · intro habort
    -- a layer turns the abort of its body into an error, so none of its endings is one
    rcases Layer.run_cases ApplyError.layer hinner m with
      ⟨-, h⟩ | ⟨-, _, _, _, -, h, -⟩ | ⟨-, -, _, h⟩
    all_goals
      have hexit := congrArg Prod.fst h
      change (apply chain who submission body.run m).1 = _ at hexit
      rw [habort] at hexit
      cases hexit
  · intro cause herror
    apply Layer.run_leaves_no_trace hinner hzero
    intro result hok
    change (apply chain who submission body.run m).1 = _ at hok
    rw [herror] at hok
    cases hok

/-- A check that writes over the level key before the dispatch and aborts after it. -/
def writingCheck : Check Memory where
  name := "Writing"
  preDispatch _ _ := (Script.set [1] [7] (.set Layer.levelKey [0] (.done Receipt.empty))).run
  postDispatch _ _ := (Script.clear [2] .abort).run

/-- A memory with one change set open, in which two layers are counted. -/
def miscounted : Memory :=
  Store.set (LayeredStore.openChanges (Store.set Memory.empty [1] [5])) Layer.levelKey [0, 0, 0, 2]

def rejectedRun : Exit ApplyError DispatchResult × Memory :=
  apply ⟨[writingCheck]⟩ (some ⟨FixedBytes.replicate 32 1⟩) ⟨[], ⟨⟨3, 4⟩, .normal, .paid⟩, 9⟩
    (Script.run (.set [2] [8] (.done {}))) miscounted

theorem writingCheck_scripted : ∀ check ∈ [writingCheck], check.Scripted := by
  intro check hmem
  rw [List.mem_singleton.mp hmem]
  exact ⟨fun _ _ => ⟨_, rfl⟩, fun _ => ⟨.done (), rfl⟩, fun _ _ => ⟨_, rfl⟩⟩

theorem writingCheck_leaves_no_trace :
    (∀ check ∈ [writingCheck], check.Scripted) ∧
    Store.get? miscounted Layer.levelKey ≠ some (Codec.u32.encode 0) ∧
    rejectedRun.1 = .error (.layer (.other Layer.abortReason)) ∧
    rejectedRun.2.entries = miscounted.entries ∧ rejectedRun.2.depth = miscounted.depth := by
  have hzero : Store.get? miscounted Layer.levelKey ≠ some (Codec.u32.encode 0) := by decide
  have herror : rejectedRun.1 = .error (.layer (.other Layer.abortReason)) := rfl
  have htrace := (rejected_leaves_no_trace ⟨[writingCheck]⟩ writingCheck_scripted _ _
    (.set [2] [8] (.done {})) miscounted hzero).2 _ herror
  exact ⟨writingCheck_scripted, hzero, herror, htrace⟩

end Extrinsic

end BlockRuntime

import BlockRuntime.Check.Standard
import BlockRuntime.Check.Resources
import BlockRuntime.Proofs.Store.Cell

namespace BlockRuntime

namespace Cell

variable {σ ε α β : Type}

section Stores

variable [Store σ]

theorem allOrNothing_take (c : Cell α) : (c.take : Program σ StoreError α).AllOrNothing :=
  .bind_of_keeps (.query _) fun value => .of_succeeds (.bind (.update _) fun _ => .pure value)

theorem allOrNothing_modify (c : Cell α) (change : α → α × β) :
    (c.modify change : Program σ StoreError β).AllOrNothing :=
  .bind_of_keeps (.query _) fun _ => .of_succeeds (.bind (.update _) fun _ => .pure _)

/-- A change that fails does so between the reading and the writing. -/
theorem allOrNothing_tryModify (c : Cell α) (storeFailure : StoreError → ε)
    (change : α → Except ε (α × β)) :
    (c.tryModify storeFailure change : Program σ ε β).AllOrNothing := by
  refine .bind_of_keeps (.mapError _ (.query _)) fun value => ?_
  refine .bind_of_keeps (.ofExcept _) fun found => ?_
  exact .of_succeeds (.bind (.update _) fun _ => .pure _)

end Stores

/-- What a typed cell does when it cannot be read, or when a change of its value fails. -/
structure FailsClean (c : Cell α) : Prop where
  get? : (Program.query c.get? : Program Memory StoreError (Option α)).AllOrNothing
  get : (Program.query c.get : Program Memory StoreError α).AllOrNothing
  take : (c.take : Program Memory StoreError α).AllOrNothing
  modify {β : Type} (change : α → α × β) : (c.modify change : Program Memory StoreError β).AllOrNothing
  tryModify {ε β : Type} (storeFailure : StoreError → ε) (change : α → Except ε (α × β)) :
    (c.tryModify storeFailure change : Program Memory ε β).AllOrNothing
  /-- A value that cannot be decoded is the end of it, and the end is the same for every change that
  might have been asked. -/
  unasked {m : Memory} {cause : StoreError} : c.get m = .error cause →
    (∀ {β : Type} (change : α → α × β), c.modify change m = (.error cause, m)) ∧
    ∀ {ε β : Type} (storeFailure : StoreError → ε) (change : α → Except ε (α × β)),
      c.tryModify storeFailure change m = (.error (storeFailure cause), m)
  tryModify_fails {ε β : Type} {storeFailure : StoreError → ε} {change : α → Except ε (α × β)}
    {m : Memory} {failure : ε} : (c.tryModify storeFailure change m).1 = .error failure →
      (∃ cause, c.get m = .error cause ∧ failure = storeFailure cause) ∨
        ∃ value, c.get m = .ok value ∧ change value = .error failure
  take_ok_iff (m : Memory) :
    (∃ value, (c.take m).1 = .ok value) ↔ Store.get? (c.take m).2 c.key = none

/-- Every operation of a cell reads before it writes, so a failure comes before the first write. -/
theorem failsClean (c : Cell α) : c.FailsClean where
  get? := .of_keeps (.query _)
  get := .of_keeps (.query _)
  take := c.allOrNothing_take
  modify := c.allOrNothing_modify
  tryModify := c.allOrNothing_tryModify
  unasked h := ⟨modify_of_error h, tryModify_of_error h⟩
  tryModify_fails {ε β storeFailure change m failure} h := by
    rcases hget : c.get m with cause | value
    · rw [tryModify_of_error hget] at h
      cases h
      exact Or.inl ⟨cause, rfl, rfl⟩
    · rw [tryModify_ok hget] at h
      rcases hchange : change value with found | ⟨next, found⟩
      · rw [hchange] at h
        cases h
        exact Or.inr ⟨value, rfl, hchange⟩
      · rw [hchange] at h
        exact nomatch h
  take_ok_iff m := by
    rcases hget : c.get m with cause | value
    · -- an empty cell could have been read, so there is something in it, and it stays there
      rw [take_of_error hget]
      constructor
      · rintro ⟨value, h⟩
        exact nomatch h
      · intro hnone
        rw [get_of_none hnone] at hget
        exact nomatch hget
    · rw [take_ok hget]
      exact ⟨fun _ => get?_clear_self c m, fun _ => ⟨value, rfl⟩⟩

end Cell

namespace Check

variable {σ : Type} [Store σ]

theorem allOrNothing_nonce (claimed : UInt64) (who : AccountId) (submission : Submission) :
    ((nonce claimed : Check σ).preDispatch who submission).AllOrNothing := by
  refine .bind_of_keeps (.mapError _ (.query _)) fun record => ?_
  refine .bind_of_keeps (.ofExcept _) fun spent => ?_
  exact .of_succeeds (.bind (.update _) fun _ => .pure _)

/-- Both meters are checked before the first of them is written. -/
theorem allOrNothing_chargeResources (lengths : BlockLength) (weights : BlockWeights)
    (submission : Submission) :
    (chargeResources lengths weights submission : Program σ Rejection Unit).AllOrNothing := by
  have hlength : (chargedLength lengths submission.cost submission.length :
      Program σ Rejection UInt32).Keeps id :=
    .bind (.mapError _ (.query _)) fun _ => .ofExcept _
  -- the length, the cap and the ledger are all looked at before the first of the two writes
  refine .bind_of_keeps hlength fun length => ?_
  refine .bind_of_keeps (.ofExcept _) fun _ => ?_
  refine .bind_of_keeps (.mapError _ (.query _)) fun ledger => ?_
  refine .bind_of_keeps (.ofExcept _) fun charged => ?_
  exact .of_succeeds (.bind (.update _) fun _ => .update _)

theorem allOrNothing_refund (settlement : Settlement) :
    (refund settlement : Program σ Rejection Unit).AllOrNothing := by
  unfold refund
  simp only
  split
  · exact .of_succeeds (.pure ())
  · exact .mapError _ (Cell.allOrNothing_modify _ _)

end Check

/-- Whatever lies in a memory, what fails on it has left it as it was: every operation of a typed cell, be
it a cell by itself or a member of a family; the entries in the books; and the checks of the nonce and of
the resources. A change of a value that cannot be decoded is not asked for, and a cell is emptied by a
taking exactly if its value is handed over. -/
theorem failures_write_nothing :
    (∀ {α : Type} (c : Cell α), c.FailsClean) ∧
    (∀ who, (Books.raiseNonce who : Program Memory StoreError Unit).AllOrNothing) ∧
    (∀ weight c, (Books.charge weight c : Program Memory StoreError Unit).AllOrNothing) ∧
    (Books.noteApplied : Program Memory StoreError Unit).AllOrNothing ∧
    (∀ claimed who submission,
      ((Check.nonce claimed : Check Memory).preDispatch who submission).AllOrNothing) ∧
    ∀ lengths weights, let check : Check Memory := Check.resources lengths weights
      (∀ who submission, (check.preDispatch who submission).AllOrNothing) ∧
      (∀ submission, (check.preDispatchUnsigned submission).AllOrNothing) ∧
      ∀ receipt settlement, (check.postDispatch receipt settlement).AllOrNothing := by
  refine ⟨Cell.failsClean, ?_, ?_, ?_, ?_, ?_⟩
  · exact fun who => Cell.allOrNothing_modify _ _
  · exact fun weight c => Cell.allOrNothing_modify _ _
  · exact Cell.allOrNothing_modify _ _
  · exact Check.allOrNothing_nonce
  · intro lengths weights check
    refine ⟨?_, ?_, ?_⟩
    · intro who submission
      exact .bind_of_succeeds (Check.allOrNothing_chargeResources lengths weights submission)
        fun _ => .pure _
    · exact Check.allOrNothing_chargeResources lengths weights
    · exact fun _ settlement => Check.allOrNothing_refund settlement

/-- One byte is no word. Under an open change set it outlasts a taking and a change. -/
theorem strayByte_untouched :
    let c : Cell UInt32 := ⟨[1], Codec.u32, 0⟩
    let m := LayeredStore.openChanges (Store.set Memory.empty [1] [9])
    c.get m = .error (.decode [1] .endOfBuffer) ∧
    Store.get? (c.take m).2 [1] = some [9] ∧
    c.modify (fun n => (n + 1, n)) m = (.error (.decode [1] .endOfBuffer), m) := by
  intro c m
  have hget : c.get m = .error (.decode [1] .endOfBuffer) := rfl
  have hclean : c.FailsClean := failures_write_nothing.1 c
  have htaken : (c.take m).2 = m := by
    refine hclean.take m fun value hvalue => ?_
    rw [Cell.take_of_error hget] at hvalue
    exact nomatch hvalue
  refine ⟨hget, ?_, (hclean.unasked hget).1 _⟩
  rw [htaken]
  rfl

end BlockRuntime

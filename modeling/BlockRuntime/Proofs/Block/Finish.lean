import BlockRuntime.Proofs.Block.Ancestry
import BlockRuntime.Proofs.Check.Untouched

namespace BlockRuntime.Block

variable {parameters : Parameters} {m t : Memory} {key : Key}

/-- An index that cannot be read is found only after the length of the extrinsics is cleared. -/
theorem finish_of_index_error {n : UInt64} {cause : StoreError} (hnumber : Books.number.get m = .ok n)
    (hindex : Books.extrinsicIndex.get m = .error cause) :
    finish parameters m = (.error cause, Books.extrinsicsLength.clear m) := by
  have hne := (Books.extrinsicIndex_ne Books.extrinsicsLength_mem_meterKeys).symm
  have hcleared : Books.extrinsicIndex.get (Books.extrinsicsLength.clear m) = .error cause :=
    (Cell.get_congr (Cell.get?_clear_of_ne hne m)).trans hindex
  rw [finish_eq_closing hnumber]
  exact Program.bind_error (Cell.take_of_error hcleared)

/-- The books of a block that has been closed: the length of its extrinsics and their index are gone, and
so is the hash of `dropped`, if that is a block; under every other key lies what lay there before. -/
structure Closed (before : Memory) (dropped : Option UInt64) (after : Memory) : Prop where
  length : Store.get? after Books.extrinsicsLength.key = none
  index : Store.get? after Books.extrinsicIndex.key = none
  hash (block : UInt64) : dropped = some block →
    Store.get? after (Books.blockHashes.cell block).key = none
  rest (key : Key) : Books.extrinsicsLength.key ≠ key → Books.extrinsicIndex.key ≠ key →
    (∀ block, dropped = some block → (Books.blockHashes.cell block).key ≠ key) →
      Store.get? after key = Store.get? before key

/-- A block whose number and index can be read is closed, with nothing else changed. -/
theorem closed_finish {n : UInt64} {index : UInt32} (hnumber : Books.number.get m = .ok n)
    (hindex : Books.extrinsicIndex.get m = .ok index) :
    ∃ t, finish parameters m = (.ok (), t) ∧
      Closed m (Books.pruned? n parameters.blockHashCount) t := by
  refine ⟨_, finish_eq parameters hnumber hindex, ?_⟩
  have hlengthHash := Books.blockHash_ne (Books.mem_tallyKeys Books.extrinsicsLength_mem_meterKeys)
  have hindexHash := Books.blockHash_ne Books.extrinsicIndex_mem_tallyKeys
  have hlengthIndex := Books.extrinsicIndex_ne Books.extrinsicsLength_mem_meterKeys
  -- what the books look like before a hash is dropped
  generalize hcleared : Books.extrinsicIndex.clear (Books.extrinsicsLength.clear m) = cleared
  have hlength : Store.get? cleared Books.extrinsicsLength.key = none := by
    rw [← hcleared, Cell.get?_clear_of_ne hlengthIndex]
    exact Cell.get?_clear_self _ m
  have hindex' : Store.get? cleared Books.extrinsicIndex.key = none := by
    rw [← hcleared]
    exact Cell.get?_clear_self _ _
  have hrest (key : Key) (hl : Books.extrinsicsLength.key ≠ key) (hi : Books.extrinsicIndex.key ≠ key) :
      Store.get? cleared key = Store.get? m key := by
    rw [← hcleared, Cell.get?_clear_of_ne hi, Cell.get?_clear_of_ne hl]
  rcases Books.pruned? n parameters.blockHashCount with _ | oldest
  · exact ⟨hlength, hindex', nofun, fun key hl hi _ => hrest key hl hi⟩
  · refine ⟨?_, ?_, ?_, ?_⟩
    · exact (Cell.get?_clear_of_ne (hlengthHash oldest) cleared).trans hlength
    · exact (Cell.get?_clear_of_ne (hindexHash oldest) cleared).trans hindex'
    · rintro block hblock
      cases hblock
      exact Cell.get?_clear_self _ cleared
    · intro key hl hi hhash
      exact (Cell.get?_clear_of_ne (hhash oldest rfl) cleared).trans (hrest key hl hi)

/-- At most one hash is gone once a block is closed. -/
theorem Closed.gone_unique {dropped : Option UInt64} (h : Closed m dropped t) {a b : UInt64}
    (ha : Store.get? t (Books.blockHashes.cell a).key ≠ Store.get? m (Books.blockHashes.cell a).key)
    (hb : Store.get? t (Books.blockHashes.cell b).key ≠ Store.get? m (Books.blockHashes.cell b).key) :
    a = b := by
  have hdropped {block : UInt64} (hgone : Store.get? t (Books.blockHashes.cell block).key ≠
      Store.get? m (Books.blockHashes.cell block).key) : dropped = some block := by
    by_contra hne
    refine hgone (h.rest _ ?_ ?_ ?_)
    · exact (Books.blockHash_ne (Books.mem_tallyKeys Books.extrinsicsLength_mem_meterKeys) block).symm
    · exact (Books.blockHash_ne Books.extrinsicIndex_mem_tallyKeys block).symm
    · intro other hother heq
      exact hne (Books.blockHash_key_inj heq ▸ hother)
  exact Option.some.inj ((hdropped ha).symm.trans (hdropped hb))

/-- The end of a block. Where it succeeds, the length of the extrinsics and their index are gone and at
most one hash is. Where it fails because the number cannot be read, nothing has changed. Where it fails
because the index cannot be read, the length of the extrinsics is cleared all the same, and that shows in
the entries unless there was none. -/
theorem failed_finish_keeps_iff (parameters : Parameters) (m : Memory) :
    (∀ t, finish parameters m = (.ok (), t) →
      (∃ dropped, Closed m dropped t) ∧
      ∀ a b, Store.get? t (Books.blockHashes.cell a).key ≠
          Store.get? m (Books.blockHashes.cell a).key →
        Store.get? t (Books.blockHashes.cell b).key ≠ Store.get? m (Books.blockHashes.cell b).key →
          a = b) ∧
    ∀ cause t, finish parameters m = (.error cause, t) →
      (Books.number.get m = .error cause ∧ t = m ∨
        (∃ n, Books.number.get m = .ok n) ∧ Books.extrinsicIndex.get m = .error cause ∧
          t = Books.extrinsicsLength.clear m) ∧
      (t.entries = m.entries ↔ (∃ cause, Books.number.get m = .error cause) ∨
        Store.get? m Books.extrinsicsLength.key = none) := by
  rcases hnumber : Books.number.get m with cause | n
  · have hfinish : finish parameters m = (.error cause, m) := finish_of_number_error hnumber
    rw [hfinish]
    refine ⟨nofun, fun _ _ h => ?_⟩
    cases h
    exact ⟨Or.inl ⟨rfl, rfl⟩, fun _ => Or.inl ⟨cause, rfl⟩, fun _ => rfl⟩
  rcases hindex : Books.extrinsicIndex.get m with cause | index
  · have hfinish : finish parameters m = (.error cause, Books.extrinsicsLength.clear m) :=
      finish_of_index_error hnumber hindex
    rw [hfinish]
    refine ⟨nofun, fun _ _ h => ?_⟩
    cases h
    refine ⟨Or.inr ⟨⟨n, rfl⟩, rfl, rfl⟩, ?_⟩
    -- the number could be read, so only the length decides
    rw [Cell.entries_clear_eq_iff]
    exact ⟨Or.inr, fun h => h.resolve_left fun ⟨_, hcause⟩ => nomatch hcause⟩
  · obtain ⟨t, hfinish, hclosed⟩ := closed_finish hnumber hindex
    rw [hfinish]
    refine ⟨fun _ h => ?_, nofun⟩
    cases h
    exact ⟨⟨_, hclosed⟩, fun a b ha hb => hclosed.gone_unique ha hb⟩

/-- A memory with a length of extrinsics, and with one byte where their index should be. -/
def halfIndexed : Memory :=
  Store.set (Books.extrinsicsLength.put 10 Memory.empty) Books.extrinsicIndex.key [1]

theorem number_halfIndexed : Books.number.get halfIndexed = .ok 0 := by
  have hindex : Books.extrinsicIndex.key ≠ Books.number.key :=
    Books.Item.key_ne .extrinsicIndex .number nofun
  have hlength : Books.extrinsicsLength.key ≠ Books.number.key :=
    Books.Item.key_ne .extrinsicsLength .number nofun
  apply Cell.get_of_none
  unfold halfIndexed
  rw [Memory.get?_set, if_neg hindex, Cell.get?_put_of_ne hlength]
  rfl

theorem index_halfIndexed : Books.extrinsicIndex.get halfIndexed =
    .error (.decode Books.extrinsicIndex.key .endOfBuffer) := by
  have hstored : Store.get? halfIndexed Books.extrinsicIndex.key = some [1] := by
    unfold halfIndexed
    rw [Memory.get?_set, if_pos rfl]
  unfold Cell.get Cell.get?
  rw [hstored]
  rfl

theorem length_halfIndexed :
    Store.get? halfIndexed Books.extrinsicsLength.key = some (Codec.u32.encode 10) := by
  have hne := Books.extrinsicIndex_ne Books.extrinsicsLength_mem_meterKeys
  unfold halfIndexed
  rw [Memory.get?_set, if_neg hne]
  exact Cell.get?_put_self _ _ _

/-- One byte where the index should be fails the end of the block, and the length is gone all the same. -/
theorem halfIndexed_half_closed :
    finish cappedParameters halfIndexed = (.error (.decode Books.extrinsicIndex.key .endOfBuffer),
      Books.extrinsicsLength.clear halfIndexed) ∧
    (Books.extrinsicsLength.clear halfIndexed).entries ≠ halfIndexed.entries := by
  have hfinish : finish cappedParameters halfIndexed = _ :=
    finish_of_index_error number_halfIndexed index_halfIndexed
  refine ⟨hfinish, fun hsame => ?_⟩
  have hkeeps := ((failed_finish_keeps_iff cappedParameters halfIndexed).2 _ _ hfinish).2.mp hsame
  rcases hkeeps with ⟨cause, hcause⟩ | hnone
  · rw [number_halfIndexed] at hcause
    exact nomatch hcause
  · rw [length_halfIndexed] at hnone
    exact nomatch hnone

/-- The end of a block can fail and change the entries. -/
theorem failed_finish_can_write :
    ¬ ∀ (parameters : Parameters) (m : Memory) (cause : StoreError) (t : Memory),
      finish parameters m = (.error cause, t) → t.entries = m.entries := by
  intro hkeeps
  have hsame := hkeeps cappedParameters halfIndexed _ _
    (finish_of_index_error number_halfIndexed index_halfIndexed)
  have hnone := (Cell.entries_clear_eq_iff Books.extrinsicsLength halfIndexed).mp hsame
  rw [length_halfIndexed] at hnone
  exact nomatch hnone

end BlockRuntime.Block

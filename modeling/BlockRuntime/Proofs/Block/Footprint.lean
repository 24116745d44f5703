import BlockRuntime.Proofs.Block.Ancestry
import BlockRuntime.Proofs.Books.Items

namespace BlockRuntime

namespace Books

/-- How a memory may differ from another one by changes to the given items: not in the change sets below
the topmost one, and not under the key of anything else. -/
structure ChangesOnly (items : List Item) (m t : Memory) : Prop where
  below : t.below = m.below
  rest : ∀ key, (∀ item ∈ items, item.key ≠ key) → Store.get? t key = Store.get? m key

/-- What a memory shows when the keys of the given items are passed over. -/
def elsewhere (items : List Item) (m : Memory) :
    Option Memory × ({ key : Key // ∀ item ∈ items, item.key ≠ key } → Option Bytes) :=
  (m.below, fun key => Store.get? m key)

section Elsewhere

variable {items : List Item}

/-- What changes only at some items shows the same elsewhere, and the other way round. -/
theorem elsewhere_eq_iff {m t : Memory} :
    elsewhere items t = elsewhere items m ↔ ChangesOnly items m t := by
  constructor
  · intro h
    exact ⟨congrArg Prod.fst h, fun key hkey => congrFun (congrArg Prod.snd h) ⟨key, hkey⟩⟩
  · rintro ⟨hbelow, hrest⟩
    exact Prod.ext hbelow (funext fun key => hrest key.val key.property)

theorem elsewhere_set {key : Key} (h : ∃ item ∈ items, item.key = key) (value : Bytes) (m : Memory) :
    elsewhere items (Store.set m key value) = elsewhere items m := by
  obtain ⟨item, hitem, rfl⟩ := h
  refine elsewhere_eq_iff.mpr ⟨Memory.below_set m _ _, fun other hother => ?_⟩
  exact (Memory.get?_set m _ value other).trans (if_neg (hother item hitem))

theorem elsewhere_clear {key : Key} (h : ∃ item ∈ items, item.key = key) (m : Memory) :
    elsewhere items (Store.clear m key) = elsewhere items m := by
  obtain ⟨item, hitem, rfl⟩ := h
  refine elsewhere_eq_iff.mpr ⟨Memory.below_clear m _, fun other hother => ?_⟩
  exact (Memory.get?_clear m _ other).trans (if_neg (hother item hitem))

end Elsewhere

end Books

open Books (Item ChangesOnly elsewhere elsewhere_eq_iff elsewhere_set elsewhere_clear)

namespace CheckChain

variable {parameters : Parameters} {era : Era} {nonce : UInt64}

theorem elsewhere_meter {items : List Item} (hlength : .extrinsicsLength ∈ items)
    (hweight : .blockWeight ∈ items) {key : Key} (hkey : key ∈ Books.meterKeys) (value : Bytes)
    (m : Memory) : elsewhere items (Store.set m key value) = elsewhere items m := by
  rcases List.mem_pair.mp hkey with rfl | rfl
  · exact elsewhere_set ⟨.extrinsicsLength, hlength, rfl⟩ value m
  · exact elsewhere_set ⟨.blockWeight, hweight, rfl⟩ value m

/-- Before a dispatch the standard chain writes the account of the signer and the meters. -/
theorem changes_preDispatch (who : AccountId) (submission : Submission) (m : Memory) :
    ChangesOnly [.account who, .extrinsicsLength, .blockWeight] m
      ((standard parameters era nonce).preDispatch who submission m).2 := by
  have hchecks : ∀ check ∈ (standard parameters era nonce : CheckChain Memory).checks,
      (check.preDispatch who submission).Keeps
        (elsewhere [.account who, .extrinsicsLength, .blockWeight]) := by
    intro check hmem
    rw [standard_checks] at hmem
    -- the checks in front write at most the account of the signer, and the last one the meters
    rcases List.mem_append.mp hmem with hfront | hlast
    · apply keeps_front_preDispatch _ hfront submission
      intro value m
      exact elsewhere_set ⟨.account who, by simp, rfl⟩ value m
    · rw [List.mem_singleton.mp hlast]
      refine .bind (Check.keeps_chargeResources ?_) fun _ => .pure _
      intro key hkey
      exact elsewhere_meter (by simp) (by simp) hkey
  have hkeeps : ((standard parameters era nonce).preDispatch who submission).Keeps
      (elsewhere [.account who, .extrinsicsLength, .blockWeight]) := Program.Keeps.composes.mapM hchecks
  exact elsewhere_eq_iff.mp (hkeeps m)

theorem changes_preDispatchUnsigned (submission : Submission) (m : Memory) :
    ChangesOnly [.extrinsicsLength, .blockWeight] m
      ((standard parameters era nonce).preDispatchUnsigned submission m).2 := by
  -- without a signer the resource check is all there is
  rw [preDispatchUnsigned_standard]
  apply elsewhere_eq_iff.mp
  refine Check.keeps_chargeResources ?_ m
  intro key hkey
  exact elsewhere_meter (by simp) (by simp) hkey

/-- A settlement writes nothing but the ledger. -/
theorem changes_postDispatch (receipts : Option (List Receipt)) (settlement : Settlement)
    (m : Memory) : ChangesOnly [.blockWeight] m
      ((standard parameters era nonce).postDispatch receipts settlement m).2 := by
  apply elsewhere_eq_iff.mp
  -- a number of receipts that is not that of the checks is refused, and any other settlement is a refund
  rcases @postDispatch_standard_cases parameters era nonce receipts settlement with
    hrefund | hrefused
  · rw [hrefund]
    refine Check.keeps_refund ?_ m
    intro value m
    exact elsewhere_set ⟨.blockWeight, by simp, rfl⟩ value m
  · rw [hrefused]
    rfl

end CheckChain

namespace Block

variable {parameters : Parameters}

def startItems (n : UInt64) : List Item :=
  [.number, .blockHash (n.saturatingSub 1), .extrinsicIndex, .blockWeight]

/-- The items that the end of a block may write: none if the number of the block cannot be read. -/
def finishItems (parameters : Parameters) (m : Memory) : List Item :=
  match Books.number.get m with
  | .ok n => [.extrinsicsLength, .extrinsicIndex,
      .blockHash ((n.saturatingSub parameters.blockHashCount).saturatingSub 1)]
  | .error _ => []

/-- The start of a block writes the books of the new block and the hash of its parent. -/
theorem changes_start (n : UInt64) (parent : BlockHash) (m : Memory) :
    ChangesOnly (startItems n) m (start parameters n parent m).2 := by
  have hopened : elsewhere (startItems n) (Books.startBlock n parent m) =
      elsewhere (startItems n) m :=
    calc
      elsewhere (startItems n) (Books.startBlock n parent m) =
          elsewhere (startItems n) (Books.extrinsicIndex.put 0 _) :=
        elsewhere_clear ⟨.blockWeight, by simp [startItems], rfl⟩ _
      _ = elsewhere (startItems n) ((Books.blockHashes.cell (n.saturatingSub 1)).put parent _) :=
        elsewhere_set ⟨.extrinsicIndex, by simp [startItems], rfl⟩ _ _
      _ = elsewhere (startItems n) (Books.number.put n m) :=
        elsewhere_set ⟨.blockHash (n.saturatingSub 1), by simp [startItems], rfl⟩ _ _
      _ = elsewhere (startItems n) m := elsewhere_set ⟨.number, by simp [startItems], rfl⟩ _ m
  -- once the books are open, the ledger is all that is written
  have hput (value : Bytes) (t : Memory) : elsewhere (startItems n)
      (Store.set t Books.blockWeight.key value) = elsewhere (startItems n) t :=
    elsewhere_set ⟨.blockWeight, by simp [startItems], rfl⟩ value t
  rw [start_eq]
  exact elsewhere_eq_iff.mp ((keeps_baseCharge hput _).trans hopened)

/-- The end of a block writes the books that it closes and the hash that it drops. -/
theorem changes_finish (m : Memory) :
    ChangesOnly (finishItems parameters m) m (finish parameters m).2 := by
  rcases hnumber : Books.number.get m with cause | n
  · rw [finish_of_number_error hnumber]
    exact ⟨rfl, fun _ _ => rfl⟩
  · have hlength : .extrinsicsLength ∈ finishItems parameters m := by simp [finishItems, hnumber]
    have hindex : .extrinsicIndex ∈ finishItems parameters m := by simp [finishItems, hnumber]
    have hclosing : (closing n parameters.blockHashCount).Keeps
        (elsewhere (finishItems parameters m)) := by
      apply keeps_closing
      · intro t
        exact elsewhere_clear ⟨.extrinsicIndex, hindex, rfl⟩ t
      · intro oldest hpruned t
        -- the hash that goes is the one that has fallen out of the kept ones
        have holdest : oldest = (n.saturatingSub parameters.blockHashCount).saturatingSub 1 := by
          apply UInt64.toNat_inj.mp
          rw [(pruned?_eq_some_iff.mp hpruned).1, UInt64.toNat_saturatingSub,
            UInt64.toNat_saturatingSub]
          rfl
        have hhash : .blockHash oldest ∈ finishItems parameters m := by
          simp [finishItems, hnumber, holdest]
        exact elsewhere_clear ⟨.blockHash oldest, hhash, rfl⟩ t
    have hcleared := elsewhere_clear ⟨.extrinsicsLength, hlength, rfl⟩ m
    rw [finish_eq_closing hnumber]
    exact elsewhere_eq_iff.mp ((hclosing _).trans hcleared)

/-- The hash of block zero outlasts the end of every block. -/
theorem get?_firstHash_finish (m : Memory) :
    Store.get? (finish parameters m).2 (Item.blockHash 0).key =
      Store.get? m (Item.blockHash 0).key := by
  have hlength : Item.extrinsicsLength.key ≠ (Item.blockHash 0).key :=
    Item.key_injective.ne nofun
  have hindex : Item.extrinsicIndex.key ≠ (Item.blockHash 0).key := Item.key_injective.ne nofun
  have hkeeps : (finish parameters : Program Memory StoreError Unit).Keeps
      (Store.at (Item.blockHash 0).key) := by
    refine .bind (.query _) fun n => .bind (.update fun t => Cell.get?_clear_of_ne hlength t) fun _ => ?_
    apply keeps_closing
    · intro t
      exact Cell.get?_clear_of_ne hindex t
    · intro oldest hpruned t
      have hpositive : oldest ≠ 0 := by
        rintro rfl
        exact absurd (pruned?_eq_some_iff.mp hpruned).2 (Nat.lt_irrefl 0)
      have hne : (Item.blockHash oldest).key ≠ (Item.blockHash 0).key := by
        apply Item.key_injective.ne
        intro heq
        exact hpositive (Item.blockHash.inj heq)
      exact Cell.get?_clear_of_ne hne t
  exact hkeeps m

/-- Different items lie under different keys, so that a step of a block changes what it is for and nothing
else: its start the number, the hash of the parent, the index and the ledger; its end the length, the index
and the hash that is no longer kept, which is never the one of block zero; the checks of an extrinsic the
account of its signer and the meters; and the settlement the ledger. -/
theorem steps_change_their_items :
    Function.Injective Item.key ∧
    ∀ (parameters : Parameters) (m : Memory),
      (∀ n parent, ChangesOnly (startItems n) m (start parameters n parent m).2) ∧
      ChangesOnly (finishItems parameters m) m (finish parameters m).2 ∧
      Store.get? (finish parameters m).2 (Item.blockHash 0).key =
        Store.get? m (Item.blockHash 0).key ∧
      ∀ era nonce,
        (∀ who submission, ChangesOnly [.account who, .extrinsicsLength, .blockWeight] m
          ((CheckChain.standard parameters era nonce).preDispatch who submission m).2) ∧
        (∀ submission, ChangesOnly [.extrinsicsLength, .blockWeight] m
          ((CheckChain.standard parameters era nonce).preDispatchUnsigned submission m).2) ∧
        ∀ receipts settlement, ChangesOnly [.blockWeight] m
          ((CheckChain.standard parameters era nonce).postDispatch receipts settlement m).2 := by
  refine ⟨Item.key_injective, fun parameters m => ⟨fun n parent => changes_start n parent m,
    changes_finish m, get?_firstHash_finish m, fun era nonce => ⟨?_, ?_, ?_⟩⟩⟩
  · exact fun who submission => CheckChain.changes_preDispatch who submission m
  · exact fun submission => CheckChain.changes_preDispatchUnsigned submission m
  · exact fun receipts settlement => CheckChain.changes_postDispatch receipts settlement m

end Block

end BlockRuntime

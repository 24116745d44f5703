import BlockRuntime.Proofs.Store.KeyMap
import BlockRuntime.Store.Memory
/-!
Change sets over a map. A look-up through the stack of change sets finds what the listed entries hold;
a write shows at its own key only, and reaches no deeper than the innermost change set; merging a
change set changes nothing that a reader sees. `Memory.below` is what a rollback goes back to.
-/

namespace BlockRuntime

def Change.value? : Change → Option Bytes
  | .update value => some value
  | .delete => none

namespace Bindings

variable {τ : Type}

/-- What changes made in key order come to, for any way to make one change that shows at its own key
only. Every key occurs once, so no change undoes an earlier one. -/
theorem get_foldl_change (get : τ → Key → Option Bytes) (make : τ → Key × Change → τ)
    (hmake : ∀ s k c key, get (make s (k, c)) key = if k = key then c.value? else get s key)
    {changes : List (Key × Change)} (hs : Sorted changes) (s : τ) (key : Key) :
    get (changes.foldl make s) key =
      match find? changes key with
      | some c => c.value?
      | none => get s key := by
  induction changes generalizing s with
  | nil => rfl
  | cons head rest ih =>
    obtain ⟨k, c⟩ := head
    have hhead := (List.pairwise_cons.mp hs).1
    rw [List.foldl_cons, ih (List.pairwise_cons.mp hs).2, hmake]
    by_cases hk : k = key
    · -- the keys are sorted, so the rest of the changes says nothing about the first key
      subst hk
      have hnone : find? rest k = none := find?_eq_none hhead
      simp [find?, hnone]
    · simp [find?, hk]

end Bindings

namespace Memory

/-- What lies below the innermost change set. -/
def below (m : Memory) : Option Memory :=
  match m.pending with
  | [] => none
  | _ :: rest => some ⟨m.base, rest⟩

theorem lookup_cons (base : KeyMap Bytes) (key : Key) (changes : ChangeSet) (rest : List ChangeSet) :
    lookup base key (changes :: rest) =
      match changes.get? key with
      | some c => c.value?
      | none => lookup base key rest := by
  rw [lookup]
  cases changes.get? key with
  | none => rfl
  | some c => cases c <;> rfl

theorem get?_applyOne (entries : KeyMap Bytes) (k : Key) (c : Change) (key : Key) :
    (ChangeSet.applyOne entries (k, c)).get? key =
      if k = key then c.value? else entries.get? key := by
  cases c with
  | update value => exact KeyMap.get?_insert entries k key value
  | delete => exact KeyMap.get?_erase entries k key

/-- Looking through the stack of change sets finds what the merged map holds. -/
theorem lookup_eq_entries (base : KeyMap Bytes) (key : Key) (stack : List ChangeSet) :
    lookup base key stack = (entries ⟨base, stack⟩).get? key := by
  induction stack with
  | nil => rfl
  | cons changes rest ih =>
    have happly := Bindings.get_foldl_change KeyMap.get? ChangeSet.applyOne get?_applyOne
      changes.sorted (entries ⟨base, rest⟩) key
    rw [lookup_cons, ih]
    exact happly.symm

/-- A look-up finds what is listed. -/
theorem get?_eq_entries (m : Memory) (key : Key) : Store.get? m key = m.entries.get? key :=
  lookup_eq_entries m.base key m.pending

theorem entries_eq_of_get? {m n : Memory} (h : ∀ key, Store.get? m key = Store.get? n key) :
    m.entries = n.entries := by
  apply KeyMap.ext
  intro key
  rw [← get?_eq_entries, ← get?_eq_entries, h key]

/-- A change shows at its own key only, in whatever change set it is made. -/
theorem get?_change (m : Memory) (k : Key) (c : Change) (key : Key) :
    Store.get? (m.change (k, c)) key = if k = key then c.value? else Store.get? m key := by
  obtain ⟨base, pending⟩ := m
  cases pending with
  -- without an open change set the map itself is changed
  | nil =>
    have happly := get?_applyOne base k c key
    cases c <;> exact happly
  | cons changes rest =>
    have hins : (changes.insert k c).get? key = if k = key then some c else changes.get? key :=
      KeyMap.get?_insert changes k key c
    have hlook : Store.get? (change ⟨base, changes :: rest⟩ (k, c)) key =
        lookup base key (changes.insert k c :: rest) := by cases c <;> rfl
    have hold : Store.get? (⟨base, changes :: rest⟩ : Memory) key =
        lookup base key (changes :: rest) := rfl
    rw [hlook, hold, lookup_cons, lookup_cons, hins]
    by_cases hk : k = key
    · rw [if_pos hk, if_pos hk]
    · rw [if_neg hk, if_neg hk]

theorem get?_set (m : Memory) (key : Key) (value : Bytes) (other : Key) :
    Store.get? (Store.set m key value) other = if key = other then some value else Store.get? m other :=
  get?_change m key (.update value) other

theorem get?_clear (m : Memory) (key other : Key) :
    Store.get? (Store.clear m key) other = if key = other then none else Store.get? m other :=
  get?_change m key .delete other

theorem below_change (m : Memory) (kc : Key × Change) : (m.change kc).below = m.below := by
  obtain ⟨base, pending⟩ := m
  obtain ⟨k, c⟩ := kc
  cases pending <;> cases c <;> rfl

@[simp] theorem below_set (m : Memory) (key : Key) (value : Bytes) :
    (Store.set m key value).below = m.below :=
  below_change m (key, .update value)

@[simp] theorem below_clear (m : Memory) (key : Key) : (Store.clear m key).below = m.below :=
  below_change m (key, .delete)

/-- Clearing many keys clears those and no others. -/
theorem get?_foldl_clear (keys : List Key) (m : Memory) (key : Key) :
    Store.get? (keys.foldl clear m) key = if key ∈ keys then none else Store.get? m key := by
  induction keys generalizing m with
  | nil => simp
  | cons k rest ih =>
    have hclear : Store.get? (clear m k) key = if k = key then none else Store.get? m key :=
      get?_clear m k key
    rw [List.foldl_cons, ih, hclear]
    by_cases hrest : key ∈ rest
    · simp [hrest]
    · by_cases hk : k = key
      · simp [hk]
      · simp [hrest, hk, Ne.symm hk]

theorem below_foldl_clear (keys : List Key) (m : Memory) :
    (keys.foldl clear m).below = m.below := by
  induction keys generalizing m with
  | nil => rfl
  | cons k rest ih => exact (ih (clear m k)).trans (below_clear m k)

theorem clearStem_eq (m : Memory) (stem : Bytes) (limit : Option UInt32) :
    Store.clearStem m stem limit =
      ((m.entries.leastUnder stem limit).length, (m.entries.leastUnder stem limit).foldl clear m) := by
  cases limit <;> rfl

theorem get?_clearStem (m : Memory) (stem : Bytes) (limit : Option UInt32) (key : Key) :
    Store.get? (Store.clearStem m stem limit).2 key =
      if key ∈ m.entries.leastUnder stem limit then none else Store.get? m key := by
  rw [clearStem_eq]
  exact get?_foldl_clear _ m key

theorem get?_clearStem_of_not_prefix (m : Memory) {stem : Bytes} (limit : Option UInt32) {key : Key}
    (h : ¬ stem <+: key) : Store.get? (Store.clearStem m stem limit).2 key = Store.get? m key := by
  rw [get?_clearStem, if_neg fun hmem => h (KeyMap.prefix_of_mem_leastUnder hmem)]

@[simp] theorem below_clearStem (m : Memory) (stem : Bytes) (limit : Option UInt32) :
    (Store.clearStem m stem limit).2.below = m.below := by
  rw [clearStem_eq]
  exact below_foldl_clear _ m

/-- A write shows to a reader as a write to the map. -/
theorem entries_set (m : Memory) (key : Key) (value : Bytes) :
    (Store.set m key value).entries = Store.set m.entries key value := by
  apply KeyMap.ext
  intro other
  have hmap : (Store.set m.entries key value).get? other =
      if key = other then some value else m.entries.get? other :=
    KeyMap.get?_insert m.entries key other value
  rw [← get?_eq_entries, get?_set, hmap, get?_eq_entries]

theorem entries_clear (m : Memory) (key : Key) :
    (Store.clear m key).entries = Store.clear m.entries key := by
  apply KeyMap.ext
  intro other
  have hmap : (Store.clear m.entries key).get? other =
      if key = other then none else m.entries.get? other :=
    KeyMap.get?_erase m.entries key other
  rw [← get?_eq_entries, get?_clear, hmap, get?_eq_entries]

/-- A clearing takes the same keys from a memory as from the map that a reader sees. -/
theorem clearStem_entries (m : Memory) (stem : Bytes) (limit : Option UInt32) :
    Store.clearStem m.entries stem limit =
      ((Store.clearStem m stem limit).1, (Store.clearStem m stem limit).2.entries) := by
  refine Prod.ext (by rw [clearStem_eq]; rfl) (KeyMap.ext fun key => ?_)
  have hmap : (Store.clearStem m.entries stem limit).2.get? key =
      if !(m.entries.leastUnder stem limit).contains key then m.entries.get? key else none :=
    KeyMap.get?_filterKeys m.entries _ key
  rw [hmap, ← get?_eq_entries, ← get?_eq_entries, get?_clearStem]
  by_cases hmem : key ∈ m.entries.leastUnder stem limit
  · simp [hmem]
  · simp [hmem]

@[simp] theorem get?_openChanges (m : Memory) (key : Key) :
    Store.get? (LayeredStore.openChanges m) key = Store.get? m key := rfl

theorem rollbackChanges_of_below {m n : Memory} (h : m.below = some n) :
    LayeredStore.rollbackChanges m = .ok n := by
  obtain ⟨base, pending⟩ := m
  cases pending with
  | nil => exact nomatch h
  | cons changes rest => exact congrArg Except.ok (Option.some.inj h)

/-- Merging the innermost change set leaves every look-up as it was. -/
theorem commitChanges_of_below {m n : Memory} (h : m.below = some n) :
    ∃ merged : Memory, LayeredStore.commitChanges m = .ok merged ∧ merged.below = n.below ∧
      ∀ key, Store.get? merged key = Store.get? m key := by
  obtain ⟨base, pending⟩ := m
  cases pending with
  | nil => exact nomatch h
  | cons changes rest =>
    cases Option.some.inj h
    refine ⟨changes.toList.foldl change ⟨base, rest⟩, rfl, ?_, ?_⟩
    · generalize (⟨base, rest⟩ : Memory) = n
      induction changes.toList generalizing n with
      | nil => rfl
      | cons kc kcs ih => exact (ih (n.change kc)).trans (below_change n kc)
    · -- replaying a change set onto what lies below finds what looking it up first would find
      intro key
      have hfold := Bindings.get_foldl_change (fun (n : Memory) k => Store.get? n k) change
        get?_change changes.sorted ⟨base, rest⟩ key
      exact hfold.trans (lookup_cons base key changes rest).symm

theorem depth_eq (m : Memory) :
    m.depth = match m.below with
      | none => 0
      | some n => n.depth + 1 := by
  obtain ⟨base, pending⟩ := m
  cases pending <;> rfl

theorem depth_eq_of_below {m n : Memory} (h : m.below = n.below) : m.depth = n.depth := by
  rw [depth_eq m, depth_eq n, h]

end Memory

end BlockRuntime

import BlockRuntime.Proofs.Store.Overlay
import BlockRuntime.Store.Call
import BlockRuntime.Store.Snapshots

namespace BlockRuntime

namespace KeyMap

variable {β : Type}

theorem sorted_keys (m : KeyMap β) : m.keys.Pairwise (· < ·) :=
  List.pairwise_map.mpr m.sorted

theorem mem_keys_filter_iff {m : KeyMap β} {stem key : Bytes} :
    key ∈ m.keys.filter stem.isPrefixOf ↔ stem <+: key ∧ (m.get? key).isSome = true := by
  rw [List.mem_filter, mem_keys_iff, List.isPrefixOf_iff_prefix, and_comm]

/-- The least keys are the first ones of those under the stem. -/
theorem leastUnder_eq_take (m : KeyMap Bytes) (stem : Bytes) (limit : Option UInt32) :
    m.leastUnder stem limit = (m.keys.filter stem.isPrefixOf).take
      (match limit with
        | some limit => limit.toNat
        | none => (m.keys.filter stem.isPrefixOf).length) := by
  cases limit with
  | some limit => rfl
  | none => exact (List.take_length).symm

end KeyMap

namespace Memory

/-- A clearing that left `after` and replied `count`: of the visible keys under the stem, listed in
increasing order, it has taken the first ones, as many as the limit allows, and nothing else. -/
def ClearsLeast (before : Memory) (stem : Bytes) (limit : Option UInt32) (count : Nat)
    (after : Memory) : Prop :=
  ∃ cleared kept : List Key,
    (cleared ++ kept).Pairwise (· < ·) ∧
    (∀ key, key ∈ cleared ++ kept ↔ stem <+: key ∧ Store.contains before key = true) ∧
    cleared.length = (match limit with
      | some limit => min limit.toNat (cleared ++ kept).length
      | none => (cleared ++ kept).length) ∧
    count = cleared.length ∧
    ∀ key, Store.get? after key = if key ∈ cleared then none else Store.get? before key

/-- A clearing takes the least visible keys. -/
theorem clearsLeast_clearStem (m : Memory) (stem : Bytes) (limit : Option UInt32) :
    m.ClearsLeast stem limit (Store.clearStem m stem limit).1 (Store.clearStem m stem limit).2 := by
  have hcount : (Store.clearStem m stem limit).1 = (m.entries.leastUnder stem limit).length := by
    rw [clearStem_eq]
  have hafter (key : Key) := get?_clearStem m stem limit key
  have htake := m.entries.leastUnder_eq_take stem limit
  -- the keys under the stem are cut behind the last one that is cleared
  generalize hcut : (match limit with
    | some limit => limit.toNat
    | none => (m.entries.keys.filter stem.isPrefixOf).length) = cut at htake
  rw [htake] at hcount hafter
  refine ⟨_, (m.entries.keys.filter stem.isPrefixOf).drop cut, ?_, ?_, ?_, hcount, hafter⟩
  · rw [List.take_append_drop]
    exact m.entries.sorted_keys.filter _
  · intro key
    have hvisible : Store.contains m key = (m.entries.get? key).isSome := by
      unfold Store.contains
      rw [get?_eq_entries]
    rw [List.take_append_drop, hvisible]
    exact KeyMap.mem_keys_filter_iff
  · rw [List.take_append_drop, List.length_take, ← hcut]
    cases limit with
    | some limit => rfl
    | none => exact Nat.min_self _

theorem saved_snapshots (m : Memory) :
    m.snapshots.saved = match m.below with
      | none => []
      | some n => n.entries :: n.snapshots.saved := by
  obtain ⟨base, pending⟩ := m
  cases pending <;> rfl

theorem snapshots_of_below {m n : Memory} (h : m.below = n.below) :
    m.snapshots = { n.snapshots with current := m.entries } := by
  -- the saved maps are those of what lies below, so a write shows in the map on top alone
  have hsaved : m.snapshots.saved = n.snapshots.saved := by
    rw [saved_snapshots m, saved_snapshots n, h]
  calc
    m.snapshots = ⟨m.entries, m.snapshots.saved⟩ := rfl
    _ = ⟨m.entries, n.snapshots.saved⟩ := by rw [hsaved]

theorem snapshots_set (m : Memory) (key : Key) (value : Bytes) :
    (Store.set m key value).snapshots = Store.set m.snapshots key value := by
  rw [snapshots_of_below (below_set m key value), entries_set]
  rfl

theorem snapshots_clear (m : Memory) (key : Key) :
    (Store.clear m key).snapshots = Store.clear m.snapshots key := by
  rw [snapshots_of_below (below_clear m key), entries_clear]
  rfl

theorem clearStem_snapshots (m : Memory) (stem : Bytes) (limit : Option UInt32) :
    Store.clearStem m.snapshots stem limit =
      ((Store.clearStem m stem limit).1, (Store.clearStem m stem limit).2.snapshots) := by
  have htop : Store.clearStem m.snapshots stem limit =
      ((Store.clearStem m.entries stem limit).1,
        { m.snapshots with current := (Store.clearStem m.entries stem limit).2 }) := rfl
  rw [htop, clearStem_entries, snapshots_of_below (below_clearStem m stem limit)]

theorem length_mapsBelow (base : KeyMap Bytes) (pending : List ChangeSet) :
    (mapsBelow base pending).length = pending.length := by
  induction pending with
  | nil => rfl
  | cons _ rest ih => exact congrArg (· + 1) ih

/-- A memory and its stack of maps are closed alike: both are left alone with the same error, or both
end as a memory and the stack of maps of that memory. -/
theorem close_snapshots (closing : Closing) (m : Memory) :
    StoreCall.close closing m.snapshots =
      ((StoreCall.close closing m).1, (StoreCall.close closing m).2.snapshots) := by
  rcases hbelow : m.below with _ | n
  · -- nothing is open, so nothing is saved either
    obtain ⟨base, pending⟩ := m
    cases pending with
    | nil => cases closing <;> rfl
    | cons changes rest => exact nomatch hbelow
  · have hsaved : m.snapshots.saved = n.entries :: n.snapshots.saved := by
      rw [saved_snapshots, hbelow]
    have hm : m.snapshots = ⟨m.entries, n.entries :: n.snapshots.saved⟩ := by
      rw [← hsaved]
      rfl
    cases closing with
    | commit =>
      obtain ⟨merged, hcommit, hmerged, hget⟩ := commitChanges_of_below hbelow
      have hstack : merged.snapshots = ⟨m.entries, n.snapshots.saved⟩ := by
        rw [snapshots_of_below hmerged, entries_eq_of_get? hget]
      simp only [StoreCall.close, LayeredStore.closeChanges, hcommit, hm, hstack]
      rfl
    | rollback =>
      have hrollback := rollbackChanges_of_below hbelow
      simp only [StoreCall.close, LayeredStore.closeChanges, hrollback, hm]
      rfl

/-- Closing fails only where nothing is open, and writes nothing then. -/
theorem close_eq_error_iff {closing : Closing} {m : Memory} :
    StoreCall.close closing m = (.error (.noOpenTransaction closing), m) ↔ m.depth = 0 := by
  rw [depth_eq]
  rcases hbelow : m.below with _ | n
  · refine ⟨fun _ => rfl, fun _ => ?_⟩
    obtain ⟨base, pending⟩ := m
    cases pending with
    | nil => cases closing <;> rfl
    | cons changes rest => exact nomatch hbelow
  · refine ⟨fun h => ?_, fun h => absurd h (Nat.succ_ne_zero _)⟩
    have hclosed : (StoreCall.close closing m).1 = .ok () := by
      cases closing with
      | commit =>
        obtain ⟨merged, hcommit, -, -⟩ := commitChanges_of_below hbelow
        simp only [StoreCall.close, LayeredStore.closeChanges, hcommit]
      | rollback => simp only [StoreCall.close, LayeredStore.closeChanges, rollbackChanges_of_below hbelow]
    rw [h] at hclosed
    exact nomatch hclosed

end Memory

namespace StoreCall

/-- A call cannot tell change sets from copies of the map. -/
theorem perform_snapshots (call : StoreCall) (m : Memory) :
    call.perform m.snapshots = ((call.perform m).1, (call.perform m).2.snapshots) := by
  have hget (key : Key) : Store.get? m.snapshots key = Store.get? m key :=
    (Memory.get?_eq_entries m key).symm
  cases call with
  | get key => simp only [perform, hget]
  | contains key => simp only [perform, Store.contains, hget]
  | entries => rfl
  | set key value => simp only [perform, Memory.snapshots_set]
  | clear key => simp only [perform, Memory.snapshots_clear]
  | clearStem stem limit => simp only [perform, Memory.clearStem_snapshots]
  | openChanges => rfl
  | closeChanges closing => simp only [perform, Memory.close_snapshots]
  | depth =>
    have hdepth : LayeredStore.depth m.snapshots = LayeredStore.depth m :=
      Memory.length_mapsBelow m.base m.pending
    simp only [perform, hdepth]

theorem performAll_snapshots (calls : List StoreCall) (m : Memory) :
    performAll calls m.snapshots = ((performAll calls m).1, (performAll calls m).2.snapshots) := by
  induction calls generalizing m with
  | nil => rfl
  | cons call calls ih => simp only [performAll, perform_snapshots, ih]

/-- The stack of change sets cannot be told from a stack of whole maps. Whatever calls are made on a
memory, in whatever order, the replies are those of the maps, and the memory that is reached stands for
the stack that is reached. In it a look-up finds what is listed, a change set can be closed unless none
is open, and a clearing takes the least keys under its stem. -/
theorem replies_of_whole_maps (m : Memory) (calls : List StoreCall) :
    (performAll calls m).1 = (performAll calls m.snapshots).1 ∧
    (performAll calls m).2.snapshots = (performAll calls m.snapshots).2 ∧
    (∀ key, Store.get? (performAll calls m).2 key =
      (ListedStore.entries (performAll calls m).2).get? key) ∧
    (∀ closing, close closing (performAll calls m).2 =
        (.error (.noOpenTransaction closing), (performAll calls m).2) ↔
      LayeredStore.depth (performAll calls m).2 = 0) ∧
    ∀ stem limit, (performAll calls m).2.ClearsLeast stem limit
      (Store.clearStem (performAll calls m).2 stem limit).1
      (Store.clearStem (performAll calls m).2 stem limit).2 := by
  have halike := performAll_snapshots calls m
  refine ⟨?_, ?_, ?_, ?_, ?_⟩
  · rw [halike]
  · rw [halike]
  · exact Memory.get?_eq_entries _
  · exact fun closing => Memory.close_eq_error_iff
  · exact Memory.clearsLeast_clearStem _

end StoreCall

end BlockRuntime

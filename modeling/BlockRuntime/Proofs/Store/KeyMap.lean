import BlockRuntime.Store.Snapshots

namespace BlockRuntime

namespace Bindings

variable {β : Type}

/-- The keys are those that are found. -/
theorem mem_keys_iff {bindings : List (Key × β)} {key : Key} :
    key ∈ bindings.map Prod.fst ↔ (find? bindings key).isSome = true := by
  induction bindings with
  | nil => simp [find?]
  | cons head rest ih =>
    obtain ⟨k, v⟩ := head
    rw [List.map_cons, List.mem_cons, ih]
    by_cases hk : k = key
    · simp [find?, hk]
    · simp [find?, hk, Ne.symm hk]

theorem find?_filter (pick : Key → Bool) (bindings : List (Key × β)) (key : Key) :
    find? (bindings.filter fun binding => pick binding.1) key =
      if pick key then find? bindings key else none := by
  induction bindings with
  | nil => simp [find?]
  | cons head rest ih =>
    obtain ⟨k, v⟩ := head
    rw [List.filter_cons]
    by_cases hp : pick k = true
    · by_cases hk : k = key
      · simp [find?, hp, ← hk]
      · simp [find?, hp, hk, ih]
    · have hne : pick key = true → k ≠ key := fun hkey heq => hp (heq ▸ hkey)
      rw [if_neg hp, ih]
      by_cases hkey : pick key = true
      · simp [find?, hkey, hne hkey]
      · simp [hkey]

end Bindings

namespace KeyMap

variable {β : Type}

theorem mem_keys_iff {m : KeyMap β} {key : Key} : key ∈ m.keys ↔ (m.get? key).isSome = true :=
  Bindings.mem_keys_iff

theorem get?_filterKeys (m : KeyMap β) (pick : Key → Bool) (key : Key) :
    (m.filterKeys pick).get? key = if pick key then m.get? key else none :=
  Bindings.find?_filter pick m.toList key

theorem keys_filterKeys (m : KeyMap β) (pick : Key → Bool) :
    (m.filterKeys pick).keys = m.keys.filter pick := by
  simp only [keys, filterKeys, List.filter_map]
  rfl

/-- Maps that agree on a kind of keys list the same keys of it, in the same order. -/
theorem keys_filter_congr {m n : KeyMap β} {pick : Key → Bool}
    (h : ∀ key, pick key = true → m.get? key = n.get? key) :
    m.keys.filter pick = n.keys.filter pick := by
  -- the maps that are left are equal, and with them the orders of their keys
  have heq : m.filterKeys pick = n.filterKeys pick := by
    apply KeyMap.ext
    intro key
    rw [get?_filterKeys, get?_filterKeys]
    by_cases hp : pick key = true
    · rw [if_pos hp, if_pos hp, h key hp]
    · rw [if_neg hp, if_neg hp]
  rw [← keys_filterKeys, heq, keys_filterKeys]

/-- The keys that a clearing chooses lie under its stem. -/
theorem prefix_of_mem_leastUnder {m : KeyMap Bytes} {stem : Bytes} {limit : Option UInt32} {key : Key}
    (h : key ∈ m.leastUnder stem limit) : stem <+: key := by
  have hmem : key ∈ m.keys.filter stem.isPrefixOf := by
    cases limit with
    | none => exact h
    | some limit => exact List.mem_of_mem_take h
  exact List.isPrefixOf_iff_prefix.mp (List.mem_filter.mp hmem).2

theorem leastUnder_congr {m n : KeyMap Bytes} {stem : Bytes}
    (h : ∀ key, stem <+: key → m.get? key = n.get? key) (limit : Option UInt32) :
    m.leastUnder stem limit = n.leastUnder stem limit := by
  have hkeys : m.keys.filter stem.isPrefixOf = n.keys.filter stem.isPrefixOf :=
    keys_filter_congr fun key hp => h key (List.isPrefixOf_iff_prefix.mp hp)
  unfold leastUnder
  rw [hkeys]

end KeyMap

end BlockRuntime

import BlockRuntime.Proofs.Codec.Words
import BlockRuntime.Proofs.Program
import BlockRuntime.Proofs.Store.Overlay
import BlockRuntime.Store.Cell

namespace BlockRuntime

abbrev Store.at (key : Key) {σ : Type} [Store σ] (s : σ) : Option Bytes := Store.get? s key

namespace Cell

variable {σ τ ε α β : Type} {c : Cell α}

section Stores

variable [Store σ] [Store τ]

theorem get_congr {s : σ} {t : τ} (h : Store.get? s c.key = Store.get? t c.key) :
    c.get s = c.get t := by
  unfold Cell.get Cell.get?
  rw [h]

theorem get?_of_none {s : σ} (h : Store.get? s c.key = none) : c.get? s = .ok none := by
  unfold Cell.get?
  rw [h]

theorem get?_of_encode (hc : c.codec.Lawful) {s : σ} {value : α}
    (h : Store.get? s c.key = some (c.codec.encode value)) : c.get? s = .ok (some value) := by
  unfold Cell.get?
  rw [h]
  simp only [hc.decode_encode]

theorem get_of_none {s : σ} (h : Store.get? s c.key = none) : c.get s = .ok c.fallback := by
  unfold Cell.get
  rw [get?_of_none h]

theorem get_of_encode (hc : c.codec.Lawful) {s : σ} {value : α}
    (h : Store.get? s c.key = some (c.codec.encode value)) : c.get s = .ok value := by
  unfold Cell.get
  rw [get?_of_encode hc h]

/-- A value that a cell is read as is the one encoded there, unless the cell is empty. -/
theorem stored_of_get (hc : c.codec.Lawful) {s : σ} {value : α} (h : c.get s = .ok value) :
    Store.get? s c.key = none ∧ value = c.fallback ∨
      Store.get? s c.key = some (c.codec.encode value) := by
  unfold Cell.get Cell.get? at h
  rcases hs : Store.get? s c.key with _ | bytes
  · rw [hs] at h
    cases h
    exact Or.inl ⟨rfl, rfl⟩
  · rw [hs] at h
    rcases hd : c.codec.decode bytes with cause | v
    · simp only [hd] at h
      exact nomatch h
    · simp only [hd] at h
      cases h
      exact Or.inr (congrArg some (hc.eq_of_decode hd))

theorem modify_eq_ok {change : α → α × β} {s t : σ} {found : β}
    (h : c.modify change s = (.ok found, t)) :
    ∃ value, c.get s = .ok value ∧ t = c.put (change value).1 s ∧ found = (change value).2 := by
  unfold Cell.modify at h
  obtain ⟨value, _, hquery, hrest⟩ := Program.bind_eq_ok h
  obtain ⟨hget, rfl⟩ := Program.query_eq_ok hquery
  cases hrest
  exact ⟨value, hget, rfl, rfl⟩

theorem modify_ok {change : α → α × β} {s : σ} {value : α} (h : c.get s = .ok value) :
    c.modify change s = (.ok (change value).2, c.put (change value).1 s) :=
  Program.bind_ok (Program.query_ok h)

theorem modify_of_error {s : σ} {cause : StoreError} (h : c.get s = .error cause)
    (change : α → α × β) : c.modify change s = (.error cause, s) :=
  Program.bind_error (Program.query_error h)

/-- A change that may fail writes only if it does not. -/
theorem tryModify_ok {s : σ} {value : α} (h : c.get s = .ok value) (storeFailure : StoreError → ε)
    (change : α → Except ε (α × β)) :
    c.tryModify storeFailure change s =
      match change value with
      | .ok (next, found) => (.ok found, c.put next s)
      | .error cause => (.error cause, s) := by
  have hquery : (Program.query c.get).mapError storeFailure s = (.ok value, s) :=
    Program.mapError_ok (Program.query_ok h)
  unfold tryModify
  rw [Program.bind_ok hquery]
  rcases hchange : change value with failure | ⟨next, found⟩ <;> rfl

theorem tryModify_of_error {s : σ} {cause : StoreError} (h : c.get s = .error cause)
    (storeFailure : StoreError → ε) (change : α → Except ε (α × β)) :
    c.tryModify storeFailure change s = (.error (storeFailure cause), s) :=
  Program.bind_error (Program.mapError_error (Program.query_error h))

theorem take_ok {s : σ} {value : α} (h : c.get s = .ok value) : c.take s = (.ok value, c.clear s) :=
  Program.bind_ok (Program.query_ok h)

theorem take_of_error {s : σ} {cause : StoreError} (h : c.get s = .error cause) :
    c.take s = (.error cause, s) :=
  Program.bind_error (Program.query_error h)

end Stores

variable {key : Key}

@[simp] theorem get?_put_self (c : Cell α) (value : α) (m : Memory) :
    Store.get? (c.put value m) c.key = some (c.codec.encode value) := by
  unfold Cell.put
  rw [Memory.get?_set, if_pos rfl]

@[simp] theorem get?_clear_self (c : Cell α) (m : Memory) : Store.get? (c.clear m) c.key = none := by
  unfold Cell.clear
  rw [Memory.get?_clear, if_pos rfl]

theorem get?_put_of_ne (h : c.key ≠ key) (value : α) (m : Memory) :
    Store.get? (c.put value m) key = Store.get? m key := by
  unfold Cell.put
  rw [Memory.get?_set, if_neg h]

theorem get?_clear_of_ne (h : c.key ≠ key) (m : Memory) :
    Store.get? (c.clear m) key = Store.get? m key := by
  unfold Cell.clear
  rw [Memory.get?_clear, if_neg h]

theorem get_put (hc : c.codec.Lawful) (value : α) (m : Memory) : c.get (c.put value m) = .ok value :=
  get_of_encode hc (get?_put_self c value m)

theorem get_clear (c : Cell α) (m : Memory) : c.get (c.clear m) = .ok c.fallback :=
  get_of_none (get?_clear_self c m)

/-- Clearing shows unless there was nothing to clear. -/
theorem entries_clear_eq_iff (c : Cell α) (m : Memory) :
    (c.clear m).entries = m.entries ↔ Store.get? m c.key = none := by
  constructor
  · intro h
    have hcleared := get?_clear_self c m
    rwa [Memory.get?_eq_entries, h, ← Memory.get?_eq_entries] at hcleared
  · intro hnone
    apply Memory.entries_eq_of_get?
    intro key
    by_cases hkey : c.key = key
    · rw [← hkey, hnone]
      exact get?_clear_self c m
    · exact get?_clear_of_ne hkey m

@[simp] theorem below_put (c : Cell α) (value : α) (m : Memory) : (c.put value m).below = m.below :=
  Memory.below_set m c.key (c.codec.encode value)

@[simp] theorem below_clear (c : Cell α) (m : Memory) : (c.clear m).below = m.below :=
  Memory.below_clear m c.key

/-- Reading a cell and writing it back touches no other key. -/
theorem keeps_modify (h : c.key ≠ key) (change : α → α × β) :
    (c.modify change : Program Memory StoreError β).Keeps (Store.at key) :=
  .bind (.query _) fun _ => .bind (.update fun m => get?_put_of_ne h _ m) fun _ => .pure _

theorem keeps_take {view : Memory → τ} (h : ∀ m, view (c.clear m) = view m) :
    (c.take : Program Memory StoreError α).Keeps view :=
  .bind (.query _) fun _ => .bind (.update h) fun _ => .pure _

end Cell

end BlockRuntime

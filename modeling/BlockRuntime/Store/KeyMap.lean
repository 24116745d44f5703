import BlockRuntime.Bytes

namespace BlockRuntime

abbrev Key := Bytes

namespace Bindings

variable {β : Type}

abbrev Sorted (bindings : List (Key × β)) : Prop := bindings.Pairwise fun a b => a.1 < b.1

def find? : List (Key × β) → Key → Option β
  | [], _ => none
  | (k, v) :: rest, key => if k = key then some v else find? rest key

def insert (key : Key) (value : β) : List (Key × β) → List (Key × β)
  | [] => [(key, value)]
  | (k, v) :: rest =>
    if key < k then (key, value) :: (k, v) :: rest
    else if k = key then (key, value) :: rest
    else (k, v) :: insert key value rest

def erase (key : Key) (bindings : List (Key × β)) : List (Key × β) :=
  bindings.filter fun binding => binding.1 ≠ key

/-- What changes from one list of bindings in key order to another: the keys bound to another value
with the new one, the keys that are no longer bound with none, in order. -/
def changes [DecidableEq β] : List (Key × β) → List (Key × β) → List (Key × Option β)
  | [], new => new.map fun (key, value) => (key, some value)
  | (k, _) :: old, [] => (k, none) :: changes old []
  | (k, v) :: old, (l, w) :: new =>
    if k < l then (k, none) :: changes old ((l, w) :: new)
    else if l < k then (l, some w) :: changes ((k, v) :: old) new
    else if v = w then changes old new
    else (l, some w) :: changes old new
termination_by old new => old.length + new.length

theorem mem_insert {key : Key} {value : β} {bindings : List (Key × β)} {b : Key × β}
    (h : b ∈ insert key value bindings) : b = (key, value) ∨ b ∈ bindings := by
  induction bindings with
  | nil => exact Or.inl (List.mem_singleton.mp h)
  | cons head rest ih =>
    unfold insert at h
    split at h
    · exact List.mem_cons.mp h
    · split at h
      · exact (List.mem_cons.mp h).imp id (List.mem_cons_of_mem _)
      · rcases List.mem_cons.mp h with h | h
        · exact Or.inr (h ▸ List.mem_cons_self)
        · exact (ih h).imp id (List.mem_cons_of_mem _)

theorem key_lt_of_not_lt {a b : Key} (h : ¬ a < b) (hne : ¬ b = a) : b < a := by
  rcases Decidable.em (b < a) with hb | hb
  · exact hb
  · exact absurd (List.le_antisymm (List.not_lt.mp h) (List.not_lt.mp hb)) hne

/-- A binding is inserted at its place. -/
theorem sorted_insert (key : Key) (value : β) {bindings : List (Key × β)}
    (h : Sorted bindings) : Sorted (insert key value bindings) := by
  induction bindings with
  | nil => exact List.pairwise_singleton _ _
  | cons head rest ih =>
    have hrest := (List.pairwise_cons.mp h).2
    have hhead := (List.pairwise_cons.mp h).1
    unfold insert
    split
    · rename_i hlt
      refine List.pairwise_cons.mpr ⟨fun b hb => ?_, h⟩
      rcases List.mem_cons.mp hb with hb | hb
      · exact hb ▸ hlt
      · exact List.lt_trans hlt (hhead b hb)
    · split
      · rename_i heq
        exact List.pairwise_cons.mpr ⟨fun b hb => heq ▸ hhead b hb, hrest⟩
      · rename_i hlt hne
        refine List.pairwise_cons.mpr ⟨fun b hb => ?_, ih hrest⟩
        rcases mem_insert hb with hb | hb
        · exact hb ▸ key_lt_of_not_lt hlt hne
        · exact hhead b hb

theorem sorted_erase (key : Key) {bindings : List (Key × β)} (h : Sorted bindings) :
    Sorted (erase key bindings) :=
  List.Pairwise.filter _ h

theorem find?_eq_none {bindings : List (Key × β)} {key : Key}
    (h : ∀ b ∈ bindings, key < b.1) : find? bindings key = none := by
  induction bindings with
  | nil => rfl
  | cons head rest ih =>
    have hne : ¬ head.1 = key := by
      intro heq
      exact List.lt_irrefl key (heq ▸ h head List.mem_cons_self)
    unfold find?
    rw [if_neg hne]
    exact ih fun b hb => h b (List.mem_cons_of_mem _ hb)

/-- An inserted key is found, and no other look-up changes. -/
theorem find?_insert (key : Key) (value : β) (bindings : List (Key × β)) (other : Key) :
    find? (insert key value bindings) other =
      if key = other then some value else find? bindings other := by
  induction bindings with
  | nil => rfl
  | cons head rest ih =>
    obtain ⟨k, v⟩ := head
    unfold insert
    split
    · rfl
    · split
      · rename_i heq
        subst heq
        by_cases ho : k = other
        · simp [find?, ho]
        · simp [find?, ho]
      · rename_i hne
        simp only [find?, ih]
        by_cases hk : k = other
        · have : ¬ key = other := fun he => hne (hk.trans he.symm)
          simp [hk, this]
        · simp [hk]

/-- An erased key is gone, and no other look-up changes. -/
theorem find?_erase (key : Key) (bindings : List (Key × β)) (other : Key) :
    find? (erase key bindings) other = if key = other then none else find? bindings other := by
  induction bindings with
  | nil => simp [erase, find?]
  | cons head rest ih =>
    obtain ⟨k, v⟩ := head
    have ih' : find? (List.filter (fun binding => binding.1 ≠ key) rest) other =
        if key = other then none else find? rest other := ih
    by_cases hk : k = key
    · subst hk
      have hf : erase k ((k, v) :: rest) = erase k rest := by simp [erase]
      rw [hf, ih]
      by_cases ho : k = other
      · simp [ho]
      · simp [find?, ho]
    · have hf : erase key ((k, v) :: rest) = (k, v) :: erase key rest := by simp [erase, hk]
      rw [hf]
      unfold find?
      rw [ih]
      by_cases ho : k = other
      · have : ¬ key = other := fun he => hk (ho.trans he.symm)
        simp [ho, this]
      · simp [ho]

/-- Bindings in key order are determined by their look-ups. -/
theorem eq_of_find?_eq {a b : List (Key × β)} (ha : Sorted a) (hb : Sorted b)
    (h : ∀ key, find? a key = find? b key) : a = b := by
  induction a generalizing b with
  | nil =>
    cases b with
    | nil => rfl
    | cons head rest => simpa [find?] using h head.1
  | cons x xs ih =>
    cases b with
    | nil => simpa [find?] using h x.1
    | cons y ys =>
      obtain ⟨kx, vx⟩ := x
      obtain ⟨ky, vy⟩ := y
      have hx := (List.pairwise_cons.mp ha).1
      have hy := (List.pairwise_cons.mp hb).1
      -- the lesser of two different first keys would be bound in one list only
      have hk : kx = ky := by
        rcases Decidable.em (kx < ky) with hlt | hlt
        · have hn : find? ((ky, vy) :: ys) kx = none := find?_eq_none fun c hc => by
            rcases List.mem_cons.mp hc with hc | hc
            · exact hc ▸ hlt
            · exact List.lt_trans hlt (hy c hc)
          have := h kx
          rw [hn] at this
          simp [find?] at this
        · rcases Decidable.em (ky < kx) with hgt | hgt
          · have hn : find? ((kx, vx) :: xs) ky = none := find?_eq_none fun c hc => by
              rcases List.mem_cons.mp hc with hc | hc
              · exact hc ▸ hgt
              · exact List.lt_trans hgt (hx c hc)
            have := h ky
            rw [hn] at this
            simp [find?] at this
          · exact List.le_antisymm (List.not_lt.mp hgt) (List.not_lt.mp hlt)
      subst hk
      have hv : vx = vy := by simpa [find?] using h kx
      subst hv
      have hxs : find? xs kx = none := find?_eq_none hx
      have hys : find? ys kx = none := find?_eq_none hy
      congr 1
      -- behind the first key neither list binds it again, so their rests agree there as well
      refine ih (List.pairwise_cons.mp ha).2 (List.pairwise_cons.mp hb).2 fun key => ?_
      by_cases hkey : kx = key
      · rw [← hkey, hxs, hys]
      · simpa [find?, hkey] using h key

end Bindings

structure KeyMap (β : Type) where
  toList : List (Key × β)
  sorted : Bindings.Sorted toList
  deriving DecidableEq

namespace KeyMap

variable {β : Type}

def empty : KeyMap β := ⟨[], List.Pairwise.nil⟩

instance : Inhabited (KeyMap β) := ⟨empty⟩

def get? (m : KeyMap β) (key : Key) : Option β := Bindings.find? m.toList key

def insert (m : KeyMap β) (key : Key) (value : β) : KeyMap β :=
  ⟨Bindings.insert key value m.toList, Bindings.sorted_insert key value m.sorted⟩

def erase (m : KeyMap β) (key : Key) : KeyMap β :=
  ⟨Bindings.erase key m.toList, Bindings.sorted_erase key m.sorted⟩

def filterKeys (m : KeyMap β) (pick : Key → Bool) : KeyMap β :=
  ⟨m.toList.filter fun binding => pick binding.1, List.Pairwise.filter _ m.sorted⟩

def keys (m : KeyMap β) : List Key := m.toList.map Prod.fst

def changesTo [DecidableEq β] (m n : KeyMap β) : List (Key × Option β) :=
  Bindings.changes m.toList n.toList

theorem get?_insert (m : KeyMap β) (key other : Key) (value : β) :
    (m.insert key value).get? other = if key = other then some value else m.get? other :=
  Bindings.find?_insert key value m.toList other

theorem get?_erase (m : KeyMap β) (key other : Key) :
    (m.erase key).get? other = if key = other then none else m.get? other :=
  Bindings.find?_erase key m.toList other

@[ext] theorem ext {m n : KeyMap β} (h : ∀ key, m.get? key = n.get? key) : m = n := by
  have hl : m.toList = n.toList := Bindings.eq_of_find?_eq m.sorted n.sorted h
  cases m; cases n
  cases hl
  rfl

end KeyMap

end BlockRuntime

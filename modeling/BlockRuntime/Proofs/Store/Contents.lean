import Mathlib.Data.Finmap
import Mathlib.Data.Finset.Preimage
import BlockRuntime.Proofs.Books.Items
import BlockRuntime.Proofs.Store.Cell
import BlockRuntime.Proofs.Store.Snapshots

namespace BlockRuntime

namespace CellMap

variable {κ α : Type}

abbrev Contents (κ α : Type) : Type := Finmap fun _ : κ => α

structure Faithful (f : CellMap κ α) : Prop where
  encode_injective : Function.Injective f.keyCodec.encode
  decode_encode (value : α) : f.codec.decode (f.codec.encode value) = .ok value

section Keys

variable {f : CellMap κ α} {key : Key}

theorem stem_prefix_key (f : CellMap κ α) (k : κ) : f.stem <+: (f.cell k).key := List.prefix_append _ _

theorem cell_key_ne (h : ¬ f.stem <+: key) (k : κ) : (f.cell k).key ≠ key :=
  fun heq => h (heq ▸ f.stem_prefix_key k)

end Keys

section Contents

variable [DecidableEq κ] {f : CellMap κ α} {m n : Memory} {a b : Contents κ α}

/-- A memory holds a map: under the key of each member lies the code of its value, or nothing if it has
none, and nothing else lies under the stem. -/
structure Holds (f : CellMap κ α) (m : Memory) (a : Contents κ α) : Prop where
  lookup (k : κ) : Store.get? m (f.cell k).key = (a.lookup k).map f.codec.encode
  member {key : Key} : f.stem <+: key → Store.get? m key ≠ none → ∃ k, key = (f.cell k).key

/-- A clearing that came from `a` to `b` and replied `count`: it has taken as many members as the limit
allows, whichever they are, and left the others with their values. -/
def Contents.Clears (a : Contents κ α) (limit : Option UInt32) (count : Nat) (b : Contents κ α) : Prop :=
  ∃ gone ⊆ a.keys,
    gone.card = (match limit with
      | some limit => min limit.toNat a.keys.card
      | none => a.keys.card) ∧
    count = gone.card ∧
    ∀ key, b.lookup key = if key ∈ gone then none else a.lookup key

/-- Any values given to finitely many members make a map. -/
theorem exists_contents (members : Finset κ) (value : κ → Option α)
    (h : ∀ k, value k ≠ none → k ∈ members) : ∃ a : Contents κ α, ∀ k, a.lookup k = value k := by
  induction members using Finset.induction_on generalizing value with
  | empty =>
    refine ⟨∅, fun k => ?_⟩
    have hnone : value k = none := by
      by_contra hsome
      exact absurd (h k hsome) (Finset.notMem_empty k)
    rw [Finmap.lookup_empty, hnone]
  | insert first others _ ih =>
    -- the map of the others, to which the first is added if it has a value
    obtain ⟨a, ha⟩ := ih (fun k => if k = first then none else value k) fun k hk => by
      by_cases hfirst : k = first
      · rw [if_pos hfirst] at hk
        exact absurd rfl hk
      · rw [if_neg hfirst] at hk
        exact (Finset.mem_insert.mp (h k hk)).resolve_left hfirst
    cases hvalue : value first with
    | none =>
      refine ⟨a, fun k => ?_⟩
      rw [ha]
      by_cases hfirst : k = first
      · rw [if_pos hfirst, hfirst, hvalue]
      · rw [if_neg hfirst]
    | some v =>
      refine ⟨a.insert first v, fun k => ?_⟩
      by_cases hfirst : k = first
      · rw [hfirst, Finmap.lookup_insert, hvalue]
      · rw [Finmap.lookup_insert_of_ne _ hfirst, ha, if_neg hfirst]

namespace Holds

theorem congr (h : f.Holds m a) (hsame : ∀ key, Store.get? n key = Store.get? m key) :
    f.Holds n a where
  lookup k := (hsame _).trans (h.lookup k)
  member {key} hstem hfound := by
    rw [hsame] at hfound
    exact h.member hstem hfound

/-- The cells of a family read the map that is held. -/
theorem get? (hf : f.Faithful) (h : f.Holds m a) (k : κ) : (f.cell k).get? m = .ok (a.lookup k) := by
  unfold Cell.get?
  rw [h.lookup k]
  cases a.lookup k with
  | none => rfl
  | some value =>
    have hdecode := hf.decode_encode value
    simp only [Option.map_some, cell, hdecode]

theorem get (hf : f.Faithful) (h : f.Holds m a) (k : κ) :
    (f.cell k).get m = .ok ((a.lookup k).getD f.fallback) := by
  unfold Cell.get
  rw [h.get? hf k]
  cases a.lookup k <;> rfl

theorem isSet (h : f.Holds m a) (k : κ) : (f.cell k).isSet m = (a.lookup k).isSome := by
  unfold Cell.isSet Store.contains
  rw [h.lookup k, Option.isSome_map]

/-- What is written under the key of one member changes the map at that member alone. -/
theorem write (hf : f.Faithful) (h : f.Holds m a) {k : κ} {value : Option α}
    (hself : Store.get? n (f.cell k).key = value.map f.codec.encode)
    (hrest : ∀ key, (f.cell k).key ≠ key → Store.get? n key = Store.get? m key)
    (hb : b.lookup k = value) (hothers : ∀ other, other ≠ k → b.lookup other = a.lookup other) :
    f.Holds n b where
  lookup other := by
    by_cases hother : other = k
    · rw [hother, hself, hb]
    · have hne : (f.cell k).key ≠ (f.cell other).key :=
        fun heq => hother (key_injective hf.encode_injective heq).symm
      rw [hrest _ hne, hothers other hother]
      exact h.lookup other
  member {key} hstem hfound := by
    by_cases hkey : (f.cell k).key = key
    · exact ⟨k, hkey.symm⟩
    · rw [hrest key hkey] at hfound
      exact h.member hstem hfound

theorem put (hf : f.Faithful) (h : f.Holds m a) (k : κ) (value : α) :
    f.Holds ((f.cell k).put value m) (a.insert k value) := by
  refine h.write hf (Cell.get?_put_self _ value m) ?_ (Finmap.lookup_insert a) ?_
  · exact fun key hkey => Cell.get?_put_of_ne hkey value m
  · exact fun other hother => Finmap.lookup_insert_of_ne a hother

theorem remove (hf : f.Faithful) (h : f.Holds m a) (k : κ) :
    f.Holds ((f.cell k).clear m) (a.erase k) := by
  refine h.write hf (Cell.get?_clear_self _ m) ?_ (Finmap.lookup_erase k a) ?_
  · exact fun key hkey => Cell.get?_clear_of_ne hkey m
  · exact fun other hother => Finmap.lookup_erase_ne hother

theorem mem_keys_iff (h : f.Holds m a) {k : κ} :
    k ∈ a.keys ↔ Store.contains m (f.cell k).key = true := by
  have hset : Store.contains m (f.cell k).key = (a.lookup k).isSome := h.isSet k
  rw [hset, Finmap.mem_keys, Finmap.lookup_isSome]

/-- Members are as many as the keys under which they lie. -/
theorem card_members (hf : f.Faithful) (h : f.Holds m a) {keys : List Key} (hnodup : keys.Nodup)
    (hkeys : ∀ key ∈ keys, f.stem <+: key ∧ Store.contains m key = true) :
    (a.keys.filter fun k => (f.cell k).key ∈ keys).card = keys.length := by
  have himage : (a.keys.filter fun k => (f.cell k).key ∈ keys).image (fun k => (f.cell k).key) =
      keys.toFinset := by
    ext key
    rw [Finset.mem_image, List.mem_toFinset]
    constructor
    · rintro ⟨k, hk, rfl⟩
      exact (Finset.mem_filter.mp hk).2
    · intro hkey
      obtain ⟨hstem, hfound⟩ := hkeys key hkey
      obtain ⟨k, rfl⟩ := h.member hstem (Option.isSome_iff_ne_none.mp hfound)
      exact ⟨k, Finset.mem_filter.mpr ⟨h.mem_keys_iff.mpr hfound, hkey⟩, rfl⟩
  calc
    _ = ((a.keys.filter fun k => (f.cell k).key ∈ keys).image fun k => (f.cell k).key).card :=
      (Finset.card_image_of_injective _ (key_injective hf.encode_injective)).symm
    _ = keys.toFinset.card := by rw [himage]
    _ = keys.length := List.toFinset_card_of_nodup hnodup

/-- Emptying keys takes the members that lie under them out of the map. -/
theorem of_cleared {cleared : List Key} (h : f.Holds m a)
    (hn : ∀ key, Store.get? n key = if key ∈ cleared then none else Store.get? m key)
    (hb : ∀ k, b.lookup k = if (f.cell k).key ∈ cleared then none else a.lookup k) : f.Holds n b where
  lookup k := by
    rw [hn, hb]
    split
    · rfl
    · exact h.lookup k
  member {key} hstem hfound := by
    rw [hn] at hfound
    split at hfound
    · exact absurd rfl hfound
    · exact h.member hstem hfound

/-- What a clearing leaves in a memory is what a clearing leaves of the map that the memory held. -/
theorem clear (hf : f.Faithful) (h : f.Holds m a) (limit : Option UInt32) :
    ∃ b, f.Holds (f.clear limit m).2 b ∧ a.Clears limit (f.clear limit m).1 b := by
  obtain ⟨cleared, kept, hsorted, hkeys, hlength, hcount, hafter⟩ :=
    m.clearsLeast_clearStem f.stem limit
  have hnodup : (cleared ++ kept).Nodup := by
    refine hsorted.imp fun {key other} hlt heq => ?_
    rw [heq] at hlt
    exact List.lt_irrefl other hlt
  have hcleared (key : Key) (hkey : key ∈ cleared) := (hkeys key).mp (List.mem_append_left kept hkey)
  have hcard : (a.keys.filter fun k => (f.cell k).key ∈ cleared).card = cleared.length :=
    h.card_members hf hnodup.of_append_left hcleared
  have hall : a.keys.card = (cleared ++ kept).length := by
    rw [← h.card_members hf hnodup fun key => (hkeys key).mp, Finset.filter_true_of_mem]
    exact fun k hk => (hkeys _).mpr ⟨f.stem_prefix_key k, h.mem_keys_iff.mp hk⟩
  have hnone {k : κ} (hk : k ∉ a.keys) : a.lookup k = none := by
    rwa [Finmap.mem_keys, ← Finmap.lookup_eq_none] at hk
  obtain ⟨b, hb⟩ := exists_contents a.keys
      (fun k => if (f.cell k).key ∈ cleared then none else a.lookup k) fun k hk => by
    by_contra hmem
    rw [hnone hmem, ite_self] at hk
    exact hk rfl
  refine ⟨b, h.of_cleared hafter hb, a.keys.filter fun k => (f.cell k).key ∈ cleared,
    Finset.filter_subset _ _, ?_, ?_, fun k => ?_⟩
  · rw [hcard, hall]
    exact hlength
  · rw [hcard]
    exact hcount
  · rw [hb]
    by_cases hmem : k ∈ a.keys
    · simp only [Finset.mem_filter, hmem, true_and]
    · rw [hnone hmem, ite_self, ite_self]

end Holds

end Contents

end CellMap

end BlockRuntime

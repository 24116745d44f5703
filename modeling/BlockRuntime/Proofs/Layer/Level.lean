import BlockRuntime.Layer
import BlockRuntime.Proofs.Store.Cell

namespace BlockRuntime.Layer

def raised (m : Memory) : Memory := levelCell.put (level m + 1) m

def opened (m : Memory) : Memory := LayeredStore.openChanges (raised m)

/-- The level key counts `n` layers: it is absent for none, and holds the number otherwise. -/
def Counts (m : Memory) (n : Nat) : Prop :=
  Store.get? m levelKey = if n = 0 then none else some (Codec.u32.encode (UInt32.ofNat n))

section Count

theorem level_of_ok {m : Memory} {n : UInt32} (h : levelCell.get m = .ok n) : level m = n := by
  unfold level
  rw [h]

theorem level_of_error {m : Memory} {cause : StoreError} (h : levelCell.get m = .error cause) :
    level m = limit := by
  unfold level
  rw [h]

theorem level_of_counts {m : Memory} {n : Nat} (h : Counts m n) : level m = UInt32.ofNat n := by
  unfold Counts at h
  by_cases hn : n = 0
  · rw [if_pos hn] at h
    rw [level_of_ok (Cell.get_of_none (c := levelCell) h), hn]
    rfl
  · rw [if_neg hn] at h
    exact level_of_ok (Cell.get_of_encode (c := levelCell) Codec.u32_lawful h)

theorem toNat_level_of_counts {m : Memory} {n : Nat} (h : Counts m n) (hn : n ≤ 255) :
    (level m).toNat = n := by
  rw [level_of_counts h]
  exact UInt32.toNat_ofNat_of_lt' (Nat.lt_of_le_of_lt hn (by decide))

/-- Below the limit the level is read off the level key, and only an encoded zero is no count. -/
theorem counts_level {m : Memory} (hzero : Store.get? m levelKey ≠ some (Codec.u32.encode 0))
    (hlevel : level m < limit) : Counts m (level m).toNat := by
  unfold Counts
  rcases hget : levelCell.get m with cause | n
  · -- bytes that cannot be decoded count as the limit
    rw [level_of_error hget] at hlevel
    exact absurd hlevel (by decide)
  · rw [level_of_ok hget]
    rcases Cell.stored_of_get Codec.u32_lawful hget with ⟨hnone, hn⟩ | hsome
    · have hn0 : n.toNat = 0 := by rw [hn]; rfl
      rw [if_pos hn0]
      exact hnone
    · have hne : n.toNat ≠ 0 := by
        intro h0
        have hn0 : n = 0 := UInt32.toNat_inj.mp h0
        rw [hn0] at hsome
        exact hzero hsome
      rw [if_neg hne, UInt32.ofNat_toNat]
      exact hsome

theorem level_congr {m s : Memory} (hkey : Store.get? s levelKey = Store.get? m levelKey) :
    level s = level m := by
  have hget : levelCell.get s = levelCell.get m := Cell.get_congr hkey
  unfold level
  rw [hget]

theorem level_opened (m : Memory) : level (opened m) = level m + 1 := by
  have hput : levelCell.get (raised m) = .ok (level m + 1) := Cell.get_put Codec.u32_lawful _ _
  have hopen : level (opened m) = level (raised m) :=
    level_congr (Memory.get?_openChanges (raised m) levelKey)
  exact hopen.trans (level_of_ok hput)

theorem counts_congr {m s : Memory} {n : Nat} (h : Counts m n)
    (hkey : Store.get? s levelKey = Store.get? m levelKey) : Counts s n := hkey.trans h

theorem level_lt_limit {m : Memory} {n : Nat} (h : Counts m n) (hn : n < 255) : level m < limit := by
  rw [UInt32.lt_iff_toNat_lt, toNat_level_of_counts h (by omega)]
  exact hn

/-- Opening a layer below the limit counts one more. -/
theorem counts_raised {m : Memory} {n : Nat} (h : Counts m n) (hn : n < 255) :
    Counts (raised m) (n + 1) := by
  have hput : Store.get? (raised m) levelKey = some (Codec.u32.encode (level m + 1)) :=
    Cell.get?_put_self levelCell (level m + 1) m
  have hadd : level m + 1 = UInt32.ofNat (n + 1) := by
    rw [level_of_counts h, UInt32.ofNat_add]
    rfl
  unfold Counts
  rw [hput, hadd, if_neg (by omega)]

theorem counts_opened {m : Memory} {n : Nat} (h : Counts m n) (hn : n < 255) :
    Counts (opened m) (n + 1) :=
  counts_congr (counts_raised h hn) (Memory.get?_openChanges _ _)

/-- Counting a layer down never goes wrong: it does nothing if none is counted, clears the count of the
last one, and writes the number before any other. -/
theorem countDown_cases (m : Memory) :
    (level m = 0 ∧ countDown m = (.ok (), m)) ∨
      (level m = 1 ∧ countDown m = (.ok (), levelCell.clear m)) ∨
      (1 < (level m).toNat ∧ countDown m = (.ok (), levelCell.put (level m - 1) m)) := by
  have hread : countDown m = (if level m = 0 then pure ()
      else if level m = 1 then Program.update levelCell.clear
      else do
        let previous ← Program.demand ((level m).checkedSub? 1)
        Program.update (levelCell.put previous) : Program Memory StoreError Unit) m :=
    Program.bind_ok (Program.read_apply level m)
  by_cases hzero : level m = 0
  · refine Or.inl ⟨hzero, ?_⟩
    rw [hread, if_pos hzero]
    rfl
  by_cases hone : level m = 1
  · refine Or.inr (Or.inl ⟨hone, ?_⟩)
    rw [hread, if_neg hzero, if_pos hone]
    rfl
  · have h0 : (level m).toNat ≠ 0 := fun h => hzero (UInt32.toNat_inj.mp h)
    have h1 : (level m).toNat ≠ 1 := fun h => hone (UInt32.toNat_inj.mp h)
    have hword : (1 : UInt32).toNat = 1 := rfl
    have hle : 1 ≤ level m := UInt32.le_iff_toNat_le.mpr (by omega)
    -- a level that is not zero has one before it
    have hprevious : (level m).checkedSub? 1 = some (level m - 1) := if_pos hle
    refine Or.inr (Or.inr ⟨by omega, ?_⟩)
    rw [hread, if_neg hzero, if_neg hone, hprevious]
    rfl

theorem countDown_apply (m : Memory) : countDown m = (.ok (), lower m) := by
  have hok : (countDown m).1 = .ok () := by
    rcases countDown_cases m with ⟨-, h⟩ | ⟨-, h⟩ | ⟨-, h⟩ <;> rw [h]
  exact Prod.ext hok rfl

/-- A layer is counted down from the stored number, and the key is cleared with the last one. -/
theorem lower_cases (m : Memory) :
    (level m = 0 ∧ lower m = m) ∨ (level m = 1 ∧ lower m = levelCell.clear m) ∨
      (1 < (level m).toNat ∧ lower m = levelCell.put (level m - 1) m) := by
  unfold lower
  rcases countDown_cases m with ⟨hzero, h⟩ | ⟨hone, h⟩ | ⟨hmore, h⟩ <;> rw [h]
  · exact Or.inl ⟨hzero, rfl⟩
  · exact Or.inr (Or.inl ⟨hone, rfl⟩)
  · exact Or.inr (Or.inr ⟨hmore, rfl⟩)

/-- Counting a layer down takes one from the count. -/
theorem counts_lower {m : Memory} {n : Nat} (h : Counts m (n + 1)) (hn : n < 255) :
    Counts (lower m) n := by
  have hl := toNat_level_of_counts h (by omega)
  unfold Counts
  rcases lower_cases m with ⟨hzero, -⟩ | ⟨hone, hlower⟩ | ⟨hmore, hlower⟩
  · rw [hzero] at hl
    exact absurd hl (by simp)
  · rw [hone] at hl
    have hn0 : n = 0 := (Nat.succ.inj hl).symm
    rw [hlower, if_pos hn0]
    exact Cell.get?_clear_self levelCell m
  · have hsub : level m - 1 = UInt32.ofNat n := by
      rw [level_of_counts h, UInt32.ofNat_add]
      exact UInt32.add_sub_cancel _ _
    have hput : Store.get? (levelCell.put (level m - 1) m) levelKey =
        some (Codec.u32.encode (level m - 1)) := Cell.get?_put_self levelCell _ m
    rw [hlower, hput, hsub, if_neg (by omega)]

/-- Whatever the count is read as, one layer less is one less of it. -/
theorem toNat_level_lower (m : Memory) : (level (lower m)).toNat = (level m).toNat - 1 := by
  rcases lower_cases m with ⟨hzero, hlower⟩ | ⟨hone, hlower⟩ | ⟨hmore, hlower⟩
  · rw [hlower, hzero]
    rfl
  · rw [hlower, level_of_ok (Cell.get_clear levelCell m), hone]
    rfl
  · have hle : 1 ≤ level m := UInt32.le_iff_toNat_le.mpr hmore.le
    rw [hlower, level_of_ok (Cell.get_put Codec.u32_lawful _ m)]
    exact UInt32.toNat_sub_of_le _ _ hle

end Count

section Stores

@[simp] theorem below_raised (m : Memory) : (raised m).below = m.below := Cell.below_put _ _ _

@[simp] theorem below_lower (m : Memory) : (lower m).below = m.below := by
  rcases lower_cases m with ⟨-, hlower⟩ | ⟨-, hlower⟩ | ⟨-, hlower⟩ <;> rw [hlower]
  · exact Cell.below_clear _ _
  · exact Cell.below_put _ _ _

variable {key : Key}

theorem get?_opened (hkey : levelKey ≠ key) (m : Memory) :
    Store.get? (opened m) key = Store.get? m key :=
  Cell.get?_put_of_ne (c := levelCell) hkey (level m + 1) m

theorem get?_lower (hkey : levelKey ≠ key) (m : Memory) :
    Store.get? (lower m) key = Store.get? m key := by
  rcases lower_cases m with ⟨-, hlower⟩ | ⟨-, hlower⟩ | ⟨-, hlower⟩ <;> rw [hlower]
  · exact Cell.get?_clear_of_ne (c := levelCell) hkey m
  · exact Cell.get?_put_of_ne (c := levelCell) hkey _ m

theorem get?_lower_raised (hkey : levelKey ≠ key) (m : Memory) :
    Store.get? (lower (raised m)) key = Store.get? m key :=
  (get?_lower hkey (raised m)).trans (get?_opened hkey m)

/-- Counting a layer and counting it down again changes nothing that a reader sees. -/
theorem entries_lower_raised {m : Memory} {n : Nat} (h : Counts m n) (hn : n < 255) :
    (lower (raised m)).entries = m.entries := by
  apply Memory.entries_eq_of_get?
  intro key
  -- the level key is counted up and down again, and no other key is written
  by_cases hkey : levelKey = key
  · have hback := counts_lower (counts_raised h hn) hn
    rw [← hkey]
    exact hback.trans h.symm
  · exact get?_lower_raised hkey m

end Stores

end BlockRuntime.Layer

namespace UInt64

def maxValue : UInt64 := 18446744073709551615

def saturatingAdd (a b : UInt64) : UInt64 :=
  UInt64.ofNat (min (a.toNat + b.toNat) 18446744073709551615)

def saturatingSub (a b : UInt64) : UInt64 :=
  UInt64.ofNat (a.toNat - b.toNat)

def checkedAdd? (a b : UInt64) : Option UInt64 :=
  if a.toNat + b.toNat < UInt64.size then some (a + b) else none

def checkedSub? (a b : UInt64) : Option UInt64 :=
  if b ≤ a then some (a - b) else none

def checkedMul? (a b : UInt64) : Option UInt64 :=
  if a.toNat * b.toNat < UInt64.size then some (a * b) else none

def checkedDiv? (a b : UInt64) : Option UInt64 := if b = 0 then none else some (a / b)

def least (a b : UInt64) : UInt64 := if a ≤ b then a else b

def greatest (a b : UInt64) : UInt64 := if a ≤ b then b else a

@[simp] theorem toNat_maxValue : maxValue.toNat = 18446744073709551615 := rfl

@[simp] theorem toNat_saturatingAdd (a b : UInt64) :
    (a.saturatingAdd b).toNat = min (a.toNat + b.toNat) 18446744073709551615 :=
  UInt64.toNat_ofNat_of_lt' (Nat.lt_of_le_of_lt (Nat.min_le_right _ _) (by decide))

@[simp] theorem toNat_saturatingSub (a b : UInt64) :
    (a.saturatingSub b).toNat = a.toNat - b.toNat :=
  UInt64.toNat_ofNat_of_lt' (Nat.lt_of_le_of_lt (Nat.sub_le _ _) a.toNat_lt)

/-- The checked sum is there just if it is exact. -/
theorem checkedAdd?_eq_some_iff {a b c : UInt64} :
    a.checkedAdd? b = some c ↔ c.toNat = a.toNat + b.toNat := by
  have hc := c.toNat_lt
  unfold checkedAdd?
  by_cases h : a.toNat + b.toNat < UInt64.size
  · have hs : (a + b).toNat = a.toNat + b.toNat := by
      rw [UInt64.toNat_add]; exact Nat.mod_eq_of_lt h
    rw [if_pos h, Option.some.injEq, ← UInt64.toNat_inj, hs, eq_comm]
  · have hs : UInt64.size = 2 ^ 64 := rfl
    rw [if_neg h]
    constructor
    · exact fun hn => nomatch hn
    · intro he; omega

theorem checkedAdd?_of_lt {a b : UInt64} (h : a.toNat + b.toNat < UInt64.size) :
    ∃ c, a.checkedAdd? b = some c ∧ c.toNat = a.toNat + b.toNat := by
  refine ⟨a + b, if_pos h, ?_⟩
  rw [UInt64.toNat_add]
  exact Nat.mod_eq_of_lt h

theorem checkedSub?_of_le {a b : UInt64} (h : b.toNat ≤ a.toNat) :
    ∃ c, a.checkedSub? b = some c ∧ c.toNat = a.toNat - b.toNat := by
  have hle : b ≤ a := UInt64.le_iff_toNat_le.mpr h
  exact ⟨a - b, if_pos hle, UInt64.toNat_sub_of_le _ _ hle⟩

theorem checkedMul?_of_lt {a b : UInt64} (h : a.toNat * b.toNat < UInt64.size) :
    ∃ c, a.checkedMul? b = some c ∧ c.toNat = a.toNat * b.toNat := by
  refine ⟨a * b, if_pos h, ?_⟩
  rw [UInt64.toNat_mul]
  exact Nat.mod_eq_of_lt h

theorem ne_zero_of_toNat_pos {b : UInt64} (h : 0 < b.toNat) : b ≠ 0 := by
  rintro rfl
  exact absurd h (Nat.lt_irrefl 0)

theorem checkedDiv?_of_pos (a : UInt64) {b : UInt64} (h : 0 < b.toNat) :
    ∃ c, a.checkedDiv? b = some c ∧ c.toNat = a.toNat / b.toNat :=
  ⟨a / b, if_neg (ne_zero_of_toNat_pos h), UInt64.toNat_div a b⟩

@[simp] theorem toNat_least (a b : UInt64) : (a.least b).toNat = min a.toNat b.toNat := by
  unfold least
  split <;> rename_i h <;> rw [UInt64.le_iff_toNat_le] at h <;> omega

@[simp] theorem toNat_greatest (a b : UInt64) : (a.greatest b).toNat = max a.toNat b.toNat := by
  unfold greatest
  split <;> rename_i h <;> rw [UInt64.le_iff_toNat_le] at h <;> omega

theorem zero_saturatingAdd (a : UInt64) : saturatingAdd 0 a = a := by
  apply UInt64.toNat_inj.mp
  have hzero : (0 : UInt64).toNat = 0 := rfl
  have hlt := a.toNat_lt
  rw [toNat_saturatingAdd, hzero]
  omega

theorem saturatingAdd_comm (a b : UInt64) : a.saturatingAdd b = b.saturatingAdd a := by
  apply UInt64.toNat_inj.mp
  rw [toNat_saturatingAdd, toNat_saturatingAdd, Nat.add_comm]

theorem saturatingAdd_zero (a : UInt64) : a.saturatingAdd 0 = a :=
  (saturatingAdd_comm a 0).trans (zero_saturatingAdd a)

/-- However a sum is grouped, it is the exact sum of all parts, capped once. -/
theorem saturatingAdd_assoc (a b c : UInt64) :
    (a.saturatingAdd b).saturatingAdd c = a.saturatingAdd (b.saturatingAdd c) := by
  apply UInt64.toNat_inj.mp
  simp only [toNat_saturatingAdd]
  omega

theorem maxValue_least (a : UInt64) : maxValue.least a = a := by
  apply UInt64.toNat_inj.mp
  have hlt := a.toNat_lt
  rw [toNat_least, toNat_maxValue]
  omega

theorem least_comm (a b : UInt64) : a.least b = b.least a := by
  apply UInt64.toNat_inj.mp
  rw [toNat_least, toNat_least, Nat.min_comm]

theorem least_maxValue (a : UInt64) : a.least maxValue = a :=
  (least_comm a maxValue).trans (maxValue_least a)

theorem least_assoc (a b c : UInt64) : (a.least b).least c = a.least (b.least c) := by
  apply UInt64.toNat_inj.mp
  simp only [toNat_least]
  omega

end UInt64

namespace UInt32

def maxValue : UInt32 := 4294967295

def saturatingAdd (a b : UInt32) : UInt32 :=
  UInt32.ofNat (min (a.toNat + b.toNat) 4294967295)

def checkedAdd? (a b : UInt32) : Option UInt32 :=
  if a.toNat + b.toNat < UInt32.size then some (a + b) else none

def checkedSub? (a b : UInt32) : Option UInt32 := if b ≤ a then some (a - b) else none

def clamp (n : Nat) : UInt32 := UInt32.ofNat (min n 4294967295)

@[simp] theorem toNat_maxValue : maxValue.toNat = 4294967295 := rfl

@[simp] theorem toNat_saturatingAdd (a b : UInt32) :
    (a.saturatingAdd b).toNat = min (a.toNat + b.toNat) 4294967295 :=
  UInt32.toNat_ofNat_of_lt' (Nat.lt_of_le_of_lt (Nat.min_le_right _ _) (by decide))

@[simp] theorem toNat_clamp (n : Nat) : (clamp n).toNat = min n 4294967295 :=
  UInt32.toNat_ofNat_of_lt' (Nat.lt_of_le_of_lt (Nat.min_le_right _ _) (by decide))

end UInt32

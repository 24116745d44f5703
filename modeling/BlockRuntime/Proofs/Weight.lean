import BlockRuntime.Dispatch.Outcome
import BlockRuntime.Dispatch.Class
import Mathlib.Algebra.Group.Prod
import Mathlib.Order.Lattice

namespace BlockRuntime

inductive Resource where
  | time
  | proof
  deriving DecidableEq

namespace Weight

def toNats (w : Weight) : Nat × Nat := (w.refTime.toNat, w.proofSize.toNat)

def amount (w : Weight) : Resource → Nat
  | .time => w.refTime.toNat
  | .proof => w.proofSize.toNat

def Unsaturated (w : Weight) : Prop := w.refTime < UInt64.maxValue ∧ w.proofSize < UInt64.maxValue

@[simp] theorem toNats_zero : zero.toNats = (0, 0) := rfl

theorem eq_zero_of_isZero {w : Weight} (h : w.isZero = true) : w = zero := by
  obtain ⟨htime, hsize⟩ := Bool.and_eq_true_iff.mp h
  exact Weight.ext (eq_of_beq htime) (eq_of_beq hsize)

theorem toNats_inj {a b : Weight} (h : a.toNats = b.toNats) : a = b := by
  have htime := congrArg Prod.fst h
  have hsize := congrArg Prod.snd h
  exact Weight.ext (UInt64.toNat_inj.mp htime) (UInt64.toNat_inj.mp hsize)

theorem le_iff_toNats {a b : Weight} : a ≤ b ↔ a.toNats ≤ b.toNats := by
  rw [le_iff, Prod.le_def, UInt64.le_iff_toNat_le, UInt64.le_iff_toNat_le]
  rfl

theorem zero_le (w : Weight) : zero ≤ w := by
  rw [le_iff_toNats, toNats_zero]
  exact ⟨Nat.zero_le _, Nat.zero_le _⟩

theorem le_refl (w : Weight) : w ≤ w := by
  rw [le_iff_toNats]

theorem le_trans {a b c : Weight} (hab : a ≤ b) (hbc : b ≤ c) : a ≤ c := by
  rw [le_iff_toNats] at hab hbc ⊢
  exact hab.trans hbc

theorem Unsaturated.of_le {a b : Weight} (hb : b.Unsaturated) (h : a ≤ b) : a.Unsaturated := by
  obtain ⟨htime, hsize⟩ := hb
  rw [UInt64.lt_iff_toNat_lt] at htime hsize
  rw [le_iff_toNats] at h
  have htime' : a.refTime.toNat ≤ b.refTime.toNat := h.1
  have hsize' : a.proofSize.toNat ≤ b.proofSize.toNat := h.2
  exact ⟨UInt64.lt_iff_toNat_lt.mpr (by omega), UInt64.lt_iff_toNat_lt.mpr (by omega)⟩

/-- A sum that has not come to the largest word is exact. -/
theorem toNats_saturatingAdd {a b : Weight} (h : (a.saturatingAdd b).Unsaturated) :
    (a.saturatingAdd b).toNats = a.toNats + b.toNats := by
  obtain ⟨htime, hsize⟩ := h
  have htime' : (a.refTime.saturatingAdd b.refTime).toNat < UInt64.maxValue.toNat :=
    UInt64.lt_iff_toNat_lt.mp htime
  have hsize' : (a.proofSize.saturatingAdd b.proofSize).toNat < UInt64.maxValue.toNat :=
    UInt64.lt_iff_toNat_lt.mp hsize
  rw [UInt64.toNat_saturatingAdd, UInt64.toNat_maxValue] at htime' hsize'
  apply Prod.ext
  · change (a.refTime.saturatingAdd b.refTime).toNat = a.refTime.toNat + b.refTime.toNat
    rw [UInt64.toNat_saturatingAdd]
    omega
  · change (a.proofSize.saturatingAdd b.proofSize).toNat = a.proofSize.toNat + b.proofSize.toNat
    rw [UInt64.toNat_saturatingAdd]
    omega

theorem toNats_saturatingSub (a b : Weight) :
    (a.saturatingSub b).toNats = a.toNats - b.toNats :=
  Prod.ext (UInt64.toNat_saturatingSub _ _) (UInt64.toNat_saturatingSub _ _)

theorem toNats_least (a b : Weight) : (a.least b).toNats = a.toNats ⊓ b.toNats :=
  Prod.ext (UInt64.toNat_least _ _) (UInt64.toNat_least _ _)

theorem amount_le (w : Weight) (r : Resource) : w.amount r ≤ UInt64.maxValue.toNat := by
  have hword (n : UInt64) : n.toNat ≤ UInt64.maxValue.toNat := Nat.le_of_lt_succ n.toNat_lt
  cases r with
  | time => exact hword w.refTime
  | proof => exact hword w.proofSize

theorem amount_saturatingAdd (a b : Weight) (r : Resource) :
    (a.saturatingAdd b).amount r = min (a.amount r + b.amount r) UInt64.maxValue.toNat := by
  cases r with
  | time => exact UInt64.toNat_saturatingAdd _ _
  | proof => exact UInt64.toNat_saturatingAdd _ _

theorem amount_saturatingSub (a b : Weight) (r : Resource) :
    (a.saturatingSub b).amount r = a.amount r - b.amount r := by
  cases r with
  | time => exact UInt64.toNat_saturatingSub _ _
  | proof => exact UInt64.toNat_saturatingSub _ _

theorem amount_least (a b : Weight) (r : Resource) :
    (a.least b).amount r = min (a.amount r) (b.amount r) := by
  cases r with
  | time => exact UInt64.toNat_least _ _
  | proof => exact UInt64.toNat_least _ _

/-- Weights are compared resource by resource. -/
theorem le_iff_amount {a b : Weight} : a ≤ b ↔ ∀ r, a.amount r ≤ b.amount r := by
  rw [le_iff, UInt64.le_iff_toNat_le, UInt64.le_iff_toNat_le]
  constructor
  · rintro ⟨htime, hproof⟩ (_ | _)
    · exact htime
    · exact hproof
  · intro h
    exact ⟨h .time, h .proof⟩

theorem eq_of_amount {a b : Weight} (h : ∀ r, a.amount r = b.amount r) : a = b :=
  toNats_inj (Prod.ext (h .time) (h .proof))

@[simp] theorem amount_zero (r : Resource) : zero.amount r = 0 := by
  cases r <;> rfl

theorem zero_saturatingAdd (w : Weight) : zero.saturatingAdd w = w := by
  apply eq_of_amount
  intro r
  have hle := w.amount_le r
  rw [amount_saturatingAdd, amount_zero]
  omega

theorem saturatingAdd_zero (w : Weight) : w.saturatingAdd zero = w := by
  apply eq_of_amount
  intro r
  have hle := w.amount_le r
  rw [amount_saturatingAdd, amount_zero]
  omega

theorem saturatingSub_zero (w : Weight) : w.saturatingSub zero = w := by
  apply eq_of_amount
  intro r
  rw [amount_saturatingSub, amount_zero, Nat.sub_zero]

/-- A checked sum is the saturating one, and it is there exactly where no component needs the cap. -/
theorem checkedAdd?_eq_some_iff {a b c : Weight} :
    a.checkedAdd? b = some c ↔
      c = a.saturatingAdd b ∧ ∀ r, a.amount r + b.amount r ≤ UInt64.maxValue.toNat := by
  have hparts : a.checkedAdd? b = some c ↔
      a.refTime.checkedAdd? b.refTime = some c.refTime ∧
        a.proofSize.checkedAdd? b.proofSize = some c.proofSize := by
    unfold checkedAdd?
    rcases a.refTime.checkedAdd? b.refTime with _ | time <;>
      rcases a.proofSize.checkedAdd? b.proofSize with _ | size <;> simp [Weight.ext_iff]
  have hexact : a.checkedAdd? b = some c ↔ ∀ r, c.amount r = a.amount r + b.amount r := by
    rw [hparts, UInt64.checkedAdd?_eq_some_iff, UInt64.checkedAdd?_eq_some_iff]
    constructor
    · rintro ⟨htime, hproof⟩ (_ | _)
      · exact htime
      · exact hproof
    · intro h
      exact ⟨h .time, h .proof⟩
  rw [hexact]
  constructor
  · intro h
    have hword (r : Resource) : a.amount r + b.amount r ≤ UInt64.maxValue.toNat := by
      rw [← h r]
      exact c.amount_le r
    refine ⟨eq_of_amount fun r => ?_, hword⟩
    rw [amount_saturatingAdd, h r, Nat.min_eq_left (hword r)]
  · rintro ⟨rfl, hword⟩ r
    rw [amount_saturatingAdd, Nat.min_eq_left (hword r)]

theorem le_saturatingAdd_right (a b : Weight) : b ≤ a.saturatingAdd b := by
  rw [le_iff_amount]
  intro r
  have hle := b.amount_le r
  rw [amount_saturatingAdd]
  omega

/-- The capped sum grows with both sides. -/
theorem saturatingAdd_mono {a a' b b' : Weight} (ha : a ≤ a') (hb : b ≤ b') :
    a.saturatingAdd b ≤ a'.saturatingAdd b' := by
  rw [le_iff_amount] at ha hb ⊢
  intro r
  have har := ha r
  have hbr := hb r
  rw [amount_saturatingAdd, amount_saturatingAdd]
  omega

theorem saturatingSub_self (a : Weight) : a.saturatingSub a = zero := by
  apply toNats_inj
  rw [toNats_saturatingSub, toNats_zero]
  exact Prod.ext (Nat.sub_self _) (Nat.sub_self _)

theorem saturatingSub_le (a b : Weight) : a.saturatingSub b ≤ a := by
  rw [le_iff_toNats, toNats_saturatingSub]
  exact ⟨Nat.sub_le _ _, Nat.sub_le _ _⟩

end Weight

namespace WeightLedger

theorem get_empty (c : DispatchClass) : empty.get c = Weight.zero := PerClass.get_ofFn _ c

theorem get_accrue (ledger : WeightLedger) (c d : DispatchClass) (w : Weight) :
    (ledger.accrue c w).get d = if d = c then (ledger.get c).saturatingAdd w else ledger.get d :=
  PerClass.get_set ledger c d _

theorem get_reduce (ledger : WeightLedger) (c d : DispatchClass) (w : Weight) :
    (ledger.reduce c w).get d = if d = c then (ledger.get c).saturatingSub w else ledger.get d :=
  PerClass.get_set ledger c d _

theorem reduce_le (ledger : WeightLedger) (c d : DispatchClass) (w : Weight) :
    (ledger.reduce c w).get d ≤ ledger.get d := by
  rw [get_reduce]
  split
  · rename_i h
    rw [h]
    exact Weight.saturatingSub_le _ _
  · exact Weight.le_refl _

theorem reduce_of_isZero {ledger : WeightLedger} {c : DispatchClass} {w : Weight}
    (h : w.isZero = true) : ledger.reduce c w = ledger := by
  apply PerClass.ext
  intro d
  rw [get_reduce]
  split
  · rename_i hd
    rw [hd, Weight.eq_zero_of_isZero h, Weight.saturatingSub_zero]
  · rfl

/-- The checked sum on a ledger is there just if it is exact. -/
theorem checkedAccrue?_eq_some_iff {ledger charged : WeightLedger} {c : DispatchClass} {w : Weight} :
    ledger.checkedAccrue? c w = some charged ↔
      charged = ledger.accrue c w ∧
        ∀ r, (ledger.get c).amount r + w.amount r ≤ UInt64.maxValue.toNat := by
  unfold checkedAccrue? accrue
  simp only [Option.map_eq_some_iff, Weight.checkedAdd?_eq_some_iff]
  constructor
  · rintro ⟨sum, ⟨rfl, hword⟩, rfl⟩
    exact ⟨rfl, hword⟩
  · rintro ⟨rfl, hword⟩
    exact ⟨_, ⟨rfl, hword⟩, rfl⟩

theorem amount_total (ledger : WeightLedger) (r : Resource) :
    ledger.total.amount r = min ((ledger.get .normal).amount r + (ledger.get .operational).amount r +
      (ledger.get .mandatory).amount r) UInt64.maxValue.toNat := by
  have hsum : ledger.total = ((Weight.zero.saturatingAdd (ledger.get .normal)).saturatingAdd
      (ledger.get .operational)).saturatingAdd (ledger.get .mandatory) := rfl
  rw [hsum, Weight.zero_saturatingAdd, Weight.amount_saturatingAdd, Weight.amount_saturatingAdd]
  omega

theorem total_mono {a b : WeightLedger} (h : ∀ c, a.get c ≤ b.get c) : a.total ≤ b.total := by
  have hzero : Weight.zero ≤ Weight.zero := Weight.zero_le _
  exact Weight.saturatingAdd_mono (Weight.saturatingAdd_mono
    (Weight.saturatingAdd_mono hzero (h .normal)) (h .operational)) (h .mandatory)

end WeightLedger

/-- A report lowers the declared weight and never raises it. -/
theorem ReportedCost.toNats_actual (reported : ReportedCost) (declared : DeclaredCost) :
    (reported.actual declared).toNats =
      (reported.weight.getD declared.weight).toNats ⊓ declared.weight.toNats := by
  unfold actual
  rcases reported.weight with _ | used
  · exact inf_idem _ |>.symm
  · exact Weight.toNats_least used declared.weight

theorem ReportedCost.amount_actual (reported : ReportedCost) (declared : DeclaredCost)
    (r : Resource) : (reported.actual declared).amount r =
      min ((reported.weight.getD declared.weight).amount r) (declared.weight.amount r) := by
  unfold actual
  rcases reported.weight with _ | used
  · exact (Nat.min_self _).symm
  · exact Weight.amount_least used declared.weight r

end BlockRuntime

import BlockRuntime.Proofs.Check.Resources
/-!
Charges in exact numbers. As long as the whole block with one extrinsic more still comes to words, nothing
is capped and a charge is accepted exactly where the sums keep to the limits. Past the largest word the
checked sum does not see everything: the overhead and the declared weight are added with a cap before it is
taken, so a class that has used nothing yet is charged the largest word for an extrinsic that costs more.
-/

namespace BlockRuntime

theorem ClassLimits.amount_chargeFor (limits : ClassLimits) (declared : Weight) (r : Resource) :
    (limits.chargeFor declared).amount r =
      min (limits.baseExtrinsic.amount r + declared.amount r) UInt64.maxValue.toNat := by
  unfold chargeFor
  rw [Weight.amount_saturatingAdd, Nat.add_comm]

namespace WeightLedger

def exactTotal (ledger : WeightLedger) (r : Resource) : Nat :=
  (ledger.get .normal).amount r + (ledger.get .operational).amount r +
    (ledger.get .mandatory).amount r

variable (ledger : WeightLedger) (c : DispatchClass) (r : Resource)

theorem amount_le_exactTotal : (ledger.get c).amount r ≤ ledger.exactTotal r := by
  unfold exactTotal
  cases c <;> omega

theorem amount_le_total : (ledger.get c).amount r ≤ ledger.total.amount r := by
  have hword := (ledger.get c).amount_le r
  rw [amount_total]
  cases c <;> omega

variable {ledger c r} in
/-- A class that is charged without need of a cap raises the total by the charge. -/
theorem exactTotal_accrue {w : Weight}
    (h : (ledger.get c).amount r + w.amount r ≤ UInt64.maxValue.toNat) :
    (ledger.accrue c w).exactTotal r = ledger.exactTotal r + w.amount r := by
  have hclass : ((ledger.accrue c w).get c).amount r = (ledger.get c).amount r + w.amount r := by
    rw [get_accrue, if_pos rfl, Weight.amount_saturatingAdd, Nat.min_eq_left h]
  have hother (d : DispatchClass) (hd : d ≠ c) : (ledger.accrue c w).get d = ledger.get d := by
    rw [get_accrue, if_neg hd]
  unfold exactTotal
  cases c with
  | normal =>
    rw [hclass, hother .operational nofun, hother .mandatory nofun]
    omega
  | operational =>
    rw [hclass, hother .normal nofun, hother .mandatory nofun]
    omega
  | mandatory =>
    rw [hclass, hother .normal nofun, hother .operational nofun]
    omega

end WeightLedger

namespace BlockWeights

variable (weights : BlockWeights) (ledger : WeightLedger) (cost : DeclaredCost) (r : Resource)

def classSum : Nat :=
  (ledger.get cost.cls).amount r + (weights.get cost.cls).baseExtrinsic.amount r +
    cost.weight.amount r

def blockSum : Nat :=
  ledger.exactTotal r + (weights.get cost.cls).baseExtrinsic.amount r + cost.weight.amount r

/-- How a sum past the largest word gets by the checked one: the overhead and the declared weight are past
it by themselves, there is nothing to add them to, and no limit is below the largest word. -/
structure Overlooks : Prop where
  unused : (ledger.get cost.cls).amount r = 0
  overpriced : UInt64.maxValue.toNat <
    (weights.get cost.cls).baseExtrinsic.amount r + cost.weight.amount r
  total : ∀ allowed, (weights.get cost.cls).allowed? = some allowed →
    allowed.amount r = UInt64.maxValue.toNat
  reserve : ∀ reserve, (weights.get cost.cls).reserved = some reserve →
    weights.maxBlock.amount r = UInt64.maxValue.toNat ∨ reserve.amount r = UInt64.maxValue.toNat

/-- The limits that an extrinsic has to keep to, in exact numbers: its class stays within its total less
its reserve, and with a reserve either the block or the class stays within what is set for it. -/
structure HasRoom : Prop where
  total : ∀ total, (weights.get cost.cls).maxTotal = some total →
    ∀ r, weights.classSum ledger cost r ≤
      total.amount r - ((weights.get cost.cls).reserved.getD Weight.zero).amount r
  reserve : ∀ reserve, (weights.get cost.cls).reserved = some reserve →
    (∀ r, weights.blockSum ledger cost r ≤ weights.maxBlock.amount r) ∨
      ∀ r, weights.classSum ledger cost r ≤ reserve.amount r

section Overflow

variable {weights ledger cost r} {charged : WeightLedger}

/-- What an accepted charge has written: the sum of the class with a cap, and nothing else. -/
theorem get_of_charge (h : weights.charge ledger cost = .ok charged) :
    (∀ c, c ≠ cost.cls → charged.get c = ledger.get c) ∧
    ∀ r, (charged.get cost.cls).amount r =
      min (weights.classSum ledger cost r) UInt64.maxValue.toNat := by
  obtain ⟨hcharged, -⟩ := charge_eq_ok_iff.mp h
  rw [hcharged]
  constructor
  · intro c hc
    rw [WeightLedger.get_accrue, if_neg hc]
  · intro r
    rw [WeightLedger.get_accrue, if_pos rfl]
    exact ClassLimits.amount_charged _ _ _ r

/-- A limited class accepts a charge past the largest word only if it is overlooked. -/
theorem overlooks_of_charge (hlimited : (weights.get cost.cls).isUnlimited = false)
    (h : weights.charge ledger cost = .ok charged)
    (hover : UInt64.maxValue.toNat < weights.classSum ledger cost r) :
    weights.Overlooks ledger cost r := by
  have hamount : (charged.get cost.cls).amount r = UInt64.maxValue.toNat := by
    rw [(get_of_charge h).2 r, Nat.min_eq_right hover.le]
  obtain ⟨-, hword, htotal, hreserve⟩ := charge_eq_ok_iff.mp h
  -- the checked sum is taken of what is left of the cost under the cap
  have hsum := hword hlimited r
  rw [ClassLimits.amount_chargeFor] at hsum
  unfold classSum at hover
  refine ⟨by omega, by omega, fun allowed hallowed => ?_, fun reserve hreserved => ?_⟩
  -- the class stands at the largest word, so a limit that it keeps to is at the largest word too
  · have hle := Weight.le_iff_amount.mp (htotal allowed hallowed) r
    have hbound := allowed.amount_le r
    omega
  · rcases hreserve reserve hreserved with hblock | hclass
    -- and so does the block with it, which comes to no less than the class
    · have hle := Weight.le_iff_amount.mp hblock r
      have hpart := charged.amount_le_total cost.cls r
      have hbound := weights.maxBlock.amount_le r
      omega
    · have hle := Weight.le_iff_amount.mp hclass r
      have hbound := reserve.amount_le r
      omega

end Overflow

/-- A limited class refuses what would take it past the largest word, unless it overlooks it. What it
accepts is booked in full, but for an extrinsic whose own cost is past the largest word. -/
theorem overflow_refused (hlimited : (weights.get cost.cls).isUnlimited = false) :
    (∀ r, UInt64.maxValue.toNat < weights.classSum ledger cost r →
      weights.charge ledger cost = .error Rejection.exhausts ∨ weights.Overlooks ledger cost r) ∧
    ∀ charged, weights.charge ledger cost = .ok charged →
      (∀ c, c ≠ cost.cls → charged.get c = ledger.get c) ∧
      ∀ r, (charged.get cost.cls).amount r =
          min (weights.classSum ledger cost r) UInt64.maxValue.toNat ∧
        ((charged.get cost.cls).amount r = weights.classSum ledger cost r ↔
          (weights.get cost.cls).baseExtrinsic.amount r + cost.weight.amount r ≤
            UInt64.maxValue.toNat) := by
  constructor
  · intro r hover
    rcases charge_cases weights ledger cost with hrefused | ⟨charged, hcharge⟩
    · exact Or.inl hrefused
    · exact Or.inr (overlooks_of_charge hlimited hcharge hover)
  · intro charged hcharge
    obtain ⟨hothers, hclass⟩ := get_of_charge hcharge
    refine ⟨hothers, fun r => ⟨hclass r, ?_⟩⟩
    rw [hclass r]
    constructor
    · intro hexact
      have hle : weights.classSum ledger cost r ≤ UInt64.maxValue.toNat := by omega
      unfold classSum at hle
      omega
    · intro hfits
      -- a sum that had been capped would have been overlooked
      by_contra hne
      have hover : UInt64.maxValue.toNat < weights.classSum ledger cost r := by omega
      have hlarge := (overlooks_of_charge hlimited hcharge hover).overpriced
      omega

def wideLimits : BlockWeights where
  baseBlock := Weight.zero
  maxBlock := Weight.maxValue
  perClass := PerClass.ofFn fun _ => ⟨⟨1, 0⟩, none, some Weight.maxValue, none⟩

def boundlessCost : DeclaredCost := ⟨⟨UInt64.maxValue, 0⟩, .normal, .paid⟩

/-- It is refused once a unit of normal time is on the ledger, and overlooked on the empty one. -/
theorem boundless_refused_when_started :
    (wideLimits.get boundlessCost.cls).isUnlimited = false ∧
    wideLimits.charge (WeightLedger.empty.accrue .normal ⟨1, 0⟩) boundlessCost =
      .error Rejection.exhausts ∧
    wideLimits.Overlooks WeightLedger.empty boundlessCost .time ∧
    ∃ charged, wideLimits.charge WeightLedger.empty boundlessCost = .ok charged ∧
      (charged.get .normal).amount .time =
        min (wideLimits.classSum WeightLedger.empty boundlessCost .time) UInt64.maxValue.toNat := by
  have hlimited : (wideLimits.get boundlessCost.cls).isUnlimited = false := rfl
  obtain ⟨hstarted, -⟩ :=
    overflow_refused wideLimits (WeightLedger.empty.accrue .normal ⟨1, 0⟩) boundlessCost hlimited
  obtain ⟨hempty, hbooked⟩ := overflow_refused wideLimits WeightLedger.empty boundlessCost hlimited
  refine ⟨hlimited, ?_, ?_, _, rfl, ((hbooked _ rfl).2 .time).1⟩
  · exact (hstarted .time (by decide)).resolve_right fun h => absurd h.unused (by decide)
  · exact (hempty .time (by decide)).resolve_left (by decide)

/-- On the empty ledger it is charged one unit less than it costs, and nothing is refused. -/
theorem overflow_not_always_refused :
    ¬ ∀ (weights : BlockWeights) (ledger : WeightLedger) (cost : DeclaredCost),
      (weights.get cost.cls).isUnlimited = false →
      (∃ r, UInt64.maxValue.toNat < weights.classSum ledger cost r) →
      weights.charge ledger cost = .error Rejection.exhausts := by
  intro h
  have hrefused := h wideLimits WeightLedger.empty boundlessCost rfl ⟨.time, by decide⟩
  exact absurd hrefused (by decide)

section Words

variable {weights ledger cost} (h : ∀ r, weights.blockSum ledger cost r ≤ UInt64.maxValue.toNat)

include h

/-- If the block comes to words, so does the class, and so does the charge by itself. -/
theorem charge_fits (r : Resource) :
    ((weights.get cost.cls).chargeFor cost.weight).amount r =
        (weights.get cost.cls).baseExtrinsic.amount r + cost.weight.amount r ∧
      (ledger.get cost.cls).amount r +
        ((weights.get cost.cls).chargeFor cost.weight).amount r ≤ UInt64.maxValue.toNat := by
  have hblock := h r
  have hpart := ledger.amount_le_exactTotal cost.cls r
  unfold blockSum at hblock
  rw [ClassLimits.amount_chargeFor]
  omega

theorem amount_get_accrue (r : Resource) :
    ((ledger.accrue cost.cls ((weights.get cost.cls).chargeFor cost.weight)).get cost.cls).amount r =
      weights.classSum ledger cost r := by
  obtain ⟨hcharge, hfits⟩ := charge_fits h r
  rw [WeightLedger.get_accrue, if_pos rfl, Weight.amount_saturatingAdd, Nat.min_eq_left hfits, hcharge]
  unfold classSum
  omega

theorem amount_total_accrue (r : Resource) :
    (ledger.accrue cost.cls ((weights.get cost.cls).chargeFor cost.weight)).total.amount r =
      weights.blockSum ledger cost r := by
  obtain ⟨hcharge, hfits⟩ := charge_fits h r
  have htotal := WeightLedger.exactTotal_accrue hfits
  have hblock := h r
  unfold WeightLedger.exactTotal at htotal
  rw [WeightLedger.amount_total, htotal, hcharge]
  unfold blockSum at hblock ⊢
  unfold WeightLedger.exactTotal at hblock ⊢
  omega

/-- Below the largest word, a charge is accepted exactly if there is room, and adds exactly what it is
for. -/
theorem charge_eq_ok_iff_hasRoom {charged : WeightLedger} : weights.charge ledger cost = .ok charged ↔
    charged = ledger.accrue cost.cls ((weights.get cost.cls).chargeFor cost.weight) ∧
      weights.HasRoom ledger cost := by
  rw [charge_eq_ok_iff]
  apply and_congr_right
  rintro rfl
  have hclass := amount_get_accrue h
  have hblock := amount_total_accrue h
  constructor
  · rintro ⟨-, htotal, hreserve⟩
    constructor
    -- what is allowed is the total less the reserve, taken with a floor that is the one of `Nat`
    · intro total hmax r
      have hle := htotal _ (Option.map_eq_some_iff.mpr ⟨total, hmax, rfl⟩)
      rw [Weight.le_iff_amount] at hle
      rw [← hclass, ← Weight.amount_saturatingSub]
      exact hle r
    · intro reserve hreserved
      rcases hreserve reserve hreserved with hle | hle <;> rw [Weight.le_iff_amount] at hle
      · exact Or.inl fun r => hblock r ▸ hle r
      · exact Or.inr fun r => hclass r ▸ hle r
  · rintro ⟨htotal, hreserve⟩
    -- the checked sum cannot fail here, whatever the limits are
    refine ⟨fun _ r => (charge_fits h r).2, fun allowed hallowed => ?_, fun reserve hreserved => ?_⟩
    · obtain ⟨total, hmax, rfl⟩ := Option.map_eq_some_iff.mp hallowed
      rw [Weight.le_iff_amount]
      intro r
      rw [hclass, Weight.amount_saturatingSub]
      exact htotal total hmax r
    · simp only [Weight.le_iff_amount, hclass, hblock]
      exact hreserve reserve hreserved

end Words

/-- While the block comes to words, a charge is accepted exactly where there is room for it, and what it
writes is the exact sum of its class and nothing else. -/
theorem charge_exact (h : ∀ r, weights.blockSum ledger cost r ≤ UInt64.maxValue.toNat) :
    ((∃ charged, weights.charge ledger cost = .ok charged) ↔ weights.HasRoom ledger cost) ∧
    (¬ weights.HasRoom ledger cost → weights.charge ledger cost = .error Rejection.exhausts) ∧
    ∀ charged, weights.charge ledger cost = .ok charged →
      (∀ r, (charged.get cost.cls).amount r = weights.classSum ledger cost r) ∧
      ∀ c, c ≠ cost.cls → charged.get c = ledger.get c := by
  have hiff : (∃ charged, weights.charge ledger cost = .ok charged) ↔
      weights.HasRoom ledger cost := by
    constructor
    · rintro ⟨charged, hcharge⟩
      exact ((charge_eq_ok_iff_hasRoom h).mp hcharge).2
    · intro hroom
      exact ⟨_, (charge_eq_ok_iff_hasRoom h).mpr ⟨rfl, hroom⟩⟩
  refine ⟨hiff, fun hfull => ?_, fun charged hcharge => ⟨fun r => ?_, (get_of_charge hcharge).1⟩⟩
  · rcases charge_cases weights ledger cost with hrefused | haccepted
    · exact hrefused
    · exact absurd (hiff.mp haccepted) hfull
  · obtain ⟨rfl, -⟩ := (charge_eq_ok_iff_hasRoom h).mp hcharge
    exact amount_get_accrue h r

def reservingLimits : BlockWeights where
  baseBlock := Weight.zero
  maxBlock := ⟨1000, 1000⟩
  perClass := PerClass.ofFn fun _ => ⟨⟨1, 0⟩, none, none, some ⟨5, 5⟩⟩

def nearlyFull : WeightLedger := ⟨Weight.zero, ⟨998, 0⟩, Weight.zero⟩

def normalTime (time : UInt64) : DeclaredCost := ⟨⟨time, 0⟩, .normal, .paid⟩

/-- Past the block, four units of normal time still fit into the reserve, and five do not with the
overhead on top of them. -/
theorem nearlyFull_charged :
    (∀ r, reservingLimits.blockSum nearlyFull (normalTime 4) r ≤ UInt64.maxValue.toNat) ∧
    (∀ r, reservingLimits.blockSum nearlyFull (normalTime 5) r ≤ UInt64.maxValue.toNat) ∧
    (∃ charged, reservingLimits.charge nearlyFull (normalTime 4) = .ok charged ∧
      (charged.get .normal).amount .time = 5 ∧ charged.get .operational = ⟨998, 0⟩) ∧
    reservingLimits.charge nearlyFull (normalTime 5) = .error Rejection.exhausts := by
  have hfour : ∀ r, reservingLimits.blockSum nearlyFull (normalTime 4) r ≤
      UInt64.maxValue.toNat := by
    rintro (_ | _) <;> decide
  have hfive : ∀ r, reservingLimits.blockSum nearlyFull (normalTime 5) r ≤
      UInt64.maxValue.toNat := by
    rintro (_ | _) <;> decide
  have hroom : reservingLimits.HasRoom nearlyFull (normalTime 4) := by
    refine ⟨nofun, fun reserve hreserved => ?_⟩
    cases hreserved
    exact Or.inr (by rintro (_ | _) <;> decide)
  have hfull : ¬ reservingLimits.HasRoom nearlyFull (normalTime 5) := by
    intro hroom
    rcases hroom.reserve ⟨5, 5⟩ rfl with hblock | hclass
    · exact absurd (hblock .time) (by decide)
    · exact absurd (hclass .time) (by decide)
  obtain ⟨hiff, -, hbooked⟩ := charge_exact reservingLimits nearlyFull (normalTime 4) hfour
  obtain ⟨charged, hcharge⟩ := hiff.mpr hroom
  obtain ⟨hclass, hothers⟩ := hbooked charged hcharge
  obtain ⟨-, hrefused, -⟩ := charge_exact reservingLimits nearlyFull (normalTime 5) hfive
  exact ⟨hfour, hfive, ⟨charged, hcharge, hclass .time, hothers .operational nofun⟩,
    hrefused hfull⟩

end BlockWeights

end BlockRuntime

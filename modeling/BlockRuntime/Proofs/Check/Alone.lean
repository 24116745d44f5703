import BlockRuntime.Proofs.Check.Charge
import BlockRuntime.Proofs.Check.Room
import BlockRuntime.Proofs.Config.Validate

namespace BlockRuntime

namespace BlockWeights

variable (weights : BlockWeights) (c : DispatchClass) (declared : Weight) (cost : DeclaredCost)

/-- What a class is charged for an extrinsic that declares a weight: the overhead on top of it, capped at
the largest word. -/
def aloneSum (r : Resource) : Nat :=
  min ((weights.get c).baseExtrinsic.amount r + declared.amount r) UInt64.maxValue.toNat

/-- The limits that an extrinsic has to keep to with nothing else in the block. -/
structure HoldsAlone : Prop where
  total : ∀ total, (weights.get c).maxTotal = some total →
    ∀ r, weights.aloneSum c declared r ≤
      total.amount r - ((weights.get c).reserved.getD Weight.zero).amount r
  reserve : ∀ reserve, (weights.get c).reserved = some reserve →
    (∀ r, weights.aloneSum c declared r ≤ weights.maxBlock.amount r) ∨
      ∀ r, weights.aloneSum c declared r ≤ reserve.amount r

def CanHold : Prop := ∃ ledger charged, weights.charge ledger cost = .ok charged

variable {weights c declared cost}

theorem amount_chargeFor (r : Resource) :
    ((weights.get c).chargeFor declared).amount r = weights.aloneSum c declared r :=
  ClassLimits.amount_chargeFor _ _ r

/-- On the empty ledger an extrinsic is accepted exactly where it keeps to the limits by itself. -/
theorem charge_empty_iff : (∃ charged, weights.charge WeightLedger.empty cost = .ok charged) ↔
    weights.HoldsAlone cost.cls cost.weight := by
  have hclass (w : Weight) : (WeightLedger.empty.accrue cost.cls w).get cost.cls = w := by
    rw [WeightLedger.get_accrue, if_pos rfl, WeightLedger.get_empty, Weight.zero_saturatingAdd]
  constructor
  · rintro ⟨charged, hcharge⟩
    obtain ⟨rfl, -, htotal, hreserve⟩ := charge_eq_ok_iff.mp hcharge
    rw [hclass] at htotal
    rw [hclass, Check.total_alone] at hreserve
    constructor
    · intro total hmax r
      have hle := htotal _ (Option.map_eq_some_iff.mpr ⟨total, hmax, rfl⟩)
      rw [← amount_chargeFor, ← Weight.amount_saturatingSub]
      exact Weight.le_iff_amount.mp hle r
    · intro reserve hreserved
      simp only [← amount_chargeFor, ← Weight.le_iff_amount]
      exact hreserve reserve hreserved
  · rintro ⟨htotal, hreserve⟩
    refine ⟨_, charge_eq_ok_iff.mpr ⟨rfl, fun _ r => ?_, fun allowed hallowed => ?_,
      fun reserve hreserved => ?_⟩⟩
    · -- there is nothing on the ledger to add to, so the sum is the charge
      rw [WeightLedger.get_empty, Weight.amount_zero, Nat.zero_add]
      exact Weight.amount_le _ r
    · obtain ⟨total, hmax, rfl⟩ := Option.map_eq_some_iff.mp hallowed
      rw [hclass, Weight.le_iff_amount]
      intro r
      rw [amount_chargeFor, Weight.amount_saturatingSub]
      exact htotal total hmax r
    · rw [hclass, Check.total_alone]
      simp only [Weight.le_iff_amount, amount_chargeFor]
      exact hreserve reserve hreserved

/-- A class can hold an extrinsic just if the empty block can, since no ledger is below the empty one. -/
theorem canHold_iff : weights.CanHold cost ↔ weights.HoldsAlone cost.cls cost.weight := by
  rw [← charge_empty_iff]
  constructor
  · rintro ⟨ledger, charged, hcharge⟩
    -- room is monotone, so no block has more of it than the empty one
    have hself : (⟨[], cost, 0⟩ : Submission).Lighter ⟨[], cost, 0⟩ :=
      ⟨rfl, Weight.le_refl _, UInt64.le_refl _⟩
    obtain ⟨charged', hcharge', -⟩ :=
      charge_mono hself (WeightLedger.empty_within ledger) hcharge
    exact ⟨charged', hcharge'⟩
  · rintro ⟨charged, hcharge⟩
    exact ⟨_, charged, hcharge⟩

theorem aloneSum_mono {lighter : Weight} (h : lighter ≤ declared) (r : Resource) :
    weights.aloneSum c lighter r ≤ weights.aloneSum c declared r := by
  have hamount := Weight.le_iff_amount.mp h r
  unfold aloneSum
  omega

theorem HoldsAlone.lighter (h : weights.HoldsAlone c declared) {lighter : Weight}
    (hle : lighter ≤ declared) : weights.HoldsAlone c lighter where
  total total hmax r := (aloneSum_mono hle r).trans (h.total total hmax r)
  reserve reserve hreserved :=
    (h.reserve reserve hreserved).imp (fun hblock r => (aloneSum_mono hle r).trans (hblock r))
      fun hclass r => (aloneSum_mono hle r).trans (hclass r)

variable (weights c) in
/-- Whether the empty block takes everything that the cap of a class lets through. -/
def TakesCapped : Prop :=
  ∀ cost : DeclaredCost, cost.cls = c → weights.checkCap cost = .ok () →
    ∃ charged, weights.charge WeightLedger.empty cost = .ok charged

section Capped

variable {cap : Weight} (hcap : (weights.get c).maxExtrinsic = some cap)

include hcap

theorem checkCap_cap (fee : Fee) : weights.checkCap ⟨cap, c, fee⟩ = .ok () := by
  rw [checkCap_eq_ok_iff, hcap]
  rintro _ ⟨⟩
  exact Weight.le_refl cap

theorem takesCapped_iff : weights.TakesCapped c ↔ weights.HoldsAlone c cap := by
  constructor
  · intro h
    -- an extrinsic that declares the whole cap is let through itself
    exact charge_empty_iff.mp (h _ rfl (checkCap_cap hcap .paid))
  · rintro h cost rfl hpasses
    -- and whatever else is let through declares no more
    exact charge_empty_iff.mpr (h.lighter (checkCap_eq_ok_iff.mp hpasses cap hcap))

/-- Without overhead and reserve, a sound class takes whatever its cap lets through. -/
theorem holdsAlone_of_sound (hsound : (weights.get c).Sound)
    (hbase : (weights.get c).baseExtrinsic = Weight.zero) (hreserved : (weights.get c).reserved = none) :
    weights.HoldsAlone c cap := by
  constructor
  · intro total hmax r
    -- nothing is added to the cap and nothing taken from the total, so this is what validation compares
    have hle := Weight.le_iff_amount.mp (hsound.cap total hmax cap hcap) r
    have hword := cap.amount_le r
    unfold aloneSum
    rw [hbase, hreserved, Option.getD_none, Weight.amount_zero]
    omega
  · rw [hreserved]
    exact nofun

end Capped

end BlockWeights

namespace Config

variable {config : Config} {parameters : Parameters} {c : DispatchClass} {cap : Weight}

/-- In a validated configuration everything that the cap of a class lets through fits into a block exactly
where the cap does with the overhead on top of it. Validation makes sure of that for a class without
overhead and reserve. Otherwise an extrinsic that declares the whole cap passes, and is refused by every
block. -/
theorem capped_fit_iff (hvalid : config.validate = .ok parameters)
    (hcap : (parameters.blockWeights.get c).maxExtrinsic = some cap) :
    (parameters.blockWeights.TakesCapped c ↔ parameters.blockWeights.HoldsAlone c cap) ∧
    ((parameters.blockWeights.get c).baseExtrinsic = Weight.zero →
      (parameters.blockWeights.get c).reserved = none → parameters.blockWeights.HoldsAlone c cap) ∧
    (parameters.blockWeights.HoldsAlone c cap → ∀ cost : DeclaredCost, cost.cls = c →
      parameters.blockWeights.checkCap cost = .ok () → parameters.blockWeights.CanHold cost) ∧
    (¬ parameters.blockWeights.HoldsAlone c cap → ∀ fee,
      parameters.blockWeights.checkCap ⟨cap, c, fee⟩ = .ok () ∧
      ∀ ledger, parameters.blockWeights.charge ledger ⟨cap, c, fee⟩ = .error Rejection.exhausts) := by
  have hsound : (parameters.blockWeights.get c).Sound := by
    obtain ⟨hsound, hash, -, rfl⟩ := validate_eq_ok_iff.mp hvalid
    exact hsound.weights c
  refine ⟨BlockWeights.takesCapped_iff hcap, BlockWeights.holdsAlone_of_sound hcap hsound,
    fun halone cost hcls hpasses => ?_, fun hover fee => ⟨BlockWeights.checkCap_cap hcap fee, ?_⟩⟩
  · obtain ⟨charged, hcharge⟩ := (BlockWeights.takesCapped_iff hcap).mpr halone cost hcls hpasses
    exact ⟨_, charged, hcharge⟩
  · intro ledger
    rcases BlockWeights.charge_cases parameters.blockWeights ledger ⟨cap, c, fee⟩ with
      hrefused | ⟨charged, hcharge⟩
    · exact hrefused
    · exact absurd (BlockWeights.canHold_iff.mp ⟨ledger, charged, hcharge⟩) hover

def ofClassLimits (block : Weight) (limits : ClassLimits) : Config where
  specName := "sample"
  specVersion := 1
  transactionVersion := 1
  genesisHash := BlockHash.codec.encode Sample.genesisHash
  blockHashCount := 16
  blockLength := BlockLength.uniform 1024
  blockWeights := ⟨Weight.zero, block, PerClass.ofFn fun _ => limits⟩

theorem validate_ofClassLimits (block : Weight) {limits : ClassLimits} (h : limits.Sound) :
    (ofClassLimits block limits).validate =
      .ok ((ofClassLimits block limits).parameters Sample.genesisHash) := by
  refine validate_eq_ok_iff.mpr ⟨⟨?_, fun hcount => ?_, UInt32.le_refl _, fun c => ?_⟩, _, rfl, rfl⟩
  · exact BlockHash.exists_encode_eq_iff.mp ⟨_, rfl⟩
  · exact absurd (show (16 : UInt64) = 0 from hcount) (by decide)
  · have hlimits : (ofClassLimits block limits).blockWeights.get c = limits := PerClass.get_ofFn _ c
    rw [hlimits]
    exact h

/-- A class that lets four of its ten units of time through, holds half of everything back and charges a
unit of time on top of each extrinsic. -/
def reservingClass : ClassLimits := ⟨⟨1, 0⟩, some ⟨4, 5⟩, some ⟨10, 10⟩, some ⟨5, 5⟩⟩

/-- Four units of time come to five, which is what is left of the total. The block is over its limit with
them, and the class is not over its reserve. -/
theorem reservingClass_takes_capped :
    ∃ parameters, (ofClassLimits ⟨3, 3⟩ reservingClass).validate = .ok parameters ∧
      (parameters.blockWeights.get .normal).maxExtrinsic = some ⟨4, 5⟩ ∧
      (parameters.blockWeights.get .normal).maxTotal = some ⟨10, 10⟩ ∧
      parameters.blockWeights.TakesCapped .normal := by
  have hsound : reservingClass.Sound := by
    constructor <;> (rintro _ ⟨⟩ _ ⟨⟩; decide)
  have hvalid := validate_ofClassLimits ⟨3, 3⟩ hsound
  obtain ⟨hiff, -⟩ := @capped_fit_iff _ _ .normal _ hvalid rfl
  refine ⟨_, hvalid, rfl, rfl, hiff.mpr ⟨?_, ?_⟩⟩
  · rintro _ ⟨⟩ (_ | _) <;> decide
  · rintro _ ⟨⟩
    exact Or.inr (by rintro (_ | _) <;> decide)

/-- With the same overhead on a cap that is all of the total, a normal extrinsic passes the cap that the
empty block refuses. -/
theorem capped_not_always_fit :
    ¬ ∀ (config : Config) (parameters : Parameters) (c : DispatchClass) (cap total : Weight),
      config.validate = .ok parameters →
      (parameters.blockWeights.get c).maxExtrinsic = some cap →
      (parameters.blockWeights.get c).maxTotal = some total →
      ∀ cost : DeclaredCost, cost.cls = c → parameters.blockWeights.checkCap cost = .ok () →
        ∃ charged, parameters.blockWeights.charge WeightLedger.empty cost = .ok charged := by
  intro h
  have hsound : ClassLimits.Sound ⟨⟨1, 0⟩, some ⟨10, 10⟩, some ⟨10, 10⟩, none⟩ := by
    constructor
    · rintro _ ⟨⟩
      exact nofun
    · rintro _ ⟨⟩ _ ⟨⟩
      decide
  have hvalid := validate_ofClassLimits ⟨10, 10⟩ hsound
  obtain ⟨charged, hcharge⟩ :=
    h _ _ .normal ⟨10, 10⟩ ⟨10, 10⟩ hvalid rfl rfl ⟨⟨10, 10⟩, .normal, .paid⟩ rfl rfl
  have hrefused : ((ofClassLimits ⟨10, 10⟩ ⟨⟨1, 0⟩, some ⟨10, 10⟩, some ⟨10, 10⟩, none⟩).parameters
      Sample.genesisHash).blockWeights.charge WeightLedger.empty ⟨⟨10, 10⟩, .normal, .paid⟩ =
        .error Rejection.exhausts := rfl
  rw [hrefused] at hcharge
  exact nomatch hcharge

end Config

end BlockRuntime

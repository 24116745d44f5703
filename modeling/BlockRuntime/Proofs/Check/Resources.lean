import BlockRuntime.Check.Resources
import BlockRuntime.Proofs.Books.Items
import BlockRuntime.Proofs.Store.Cell
import BlockRuntime.Proofs.Weight

namespace BlockRuntime

def ClassLimits.allowed? (limits : ClassLimits) : Option Weight :=
  limits.maxTotal.map fun total => total.saturatingSub (limits.reserved.getD Weight.zero)

/-- What an extrinsic of a class takes up in the end, in exact numbers: the overhead of the class and
what was used, each component of it at most as declared. -/
def ClassLimits.exactCost (limits : ClassLimits) (declared : Weight) (used : Option Weight) :
    Nat × Nat :=
  limits.baseExtrinsic.toNats + (used.getD declared).toNats ⊓ declared.toNats

/-- The charge of a class, as the cap on each of its two sums leaves it. -/
theorem ClassLimits.amount_charged (limits : ClassLimits) (before declared : Weight) (r : Resource) :
    (before.saturatingAdd (limits.chargeFor declared)).amount r =
      min (before.amount r + limits.baseExtrinsic.amount r + declared.amount r)
        UInt64.maxValue.toNat := by
  unfold chargeFor
  rw [Weight.amount_saturatingAdd, Weight.amount_saturatingAdd]
  omega

namespace BlockLength

variable {limits : BlockLength} {c : DispatchClass} {current next : UInt32} {length : UInt64}

/-- A length is accepted if the sum keeps to the limit, and then it is the capped sum. -/
theorem charge_eq_ok_iff : limits.charge c current length = .ok next ↔
    next = current.saturatingAdd (UInt32.clamp length.toNat) ∧ next ≤ limits.max.get c := by
  unfold charge
  by_cases hover : limits.max.get c < current.saturatingAdd (UInt32.clamp length.toNat)
  · rw [if_pos hover]
    constructor
    · exact nofun
    · rintro ⟨rfl, hle⟩
      exact absurd hle (UInt32.not_le.mpr hover)
  · rw [if_neg hover]
    constructor
    · intro h
      cases h
      exact ⟨rfl, UInt32.not_lt.mp hover⟩
    · rintro ⟨rfl, -⟩
      rfl

/-- Under a limit below the largest word an accepted length is the exact sum. -/
theorem toNat_of_charge (h : limits.charge c current length = .ok next)
    (hlimit : limits.max.get c < UInt32.maxValue) : next.toNat = current.toNat + length.toNat := by
  obtain ⟨hnext, hle⟩ := charge_eq_ok_iff.mp h
  have hsum : next.toNat = min (current.toNat + min length.toNat 4294967295) 4294967295 := by
    rw [hnext, UInt32.toNat_saturatingAdd, UInt32.toNat_clamp]
  have hmax : (limits.max.get c).toNat < 4294967295 := UInt32.lt_iff_toNat_lt.mp hlimit
  have hroom := UInt32.le_iff_toNat_le.mp hle
  omega

end BlockLength

namespace BlockWeights

variable {weights : BlockWeights} {ledger charged : WeightLedger} {cost : DeclaredCost}

theorem checkCap_eq_ok_iff : weights.checkCap cost = .ok () ↔
    ∀ cap, (weights.get cost.cls).maxExtrinsic = some cap → cost.weight ≤ cap := by
  unfold checkCap
  cases (weights.get cost.cls).maxExtrinsic with
  | none => simp
  | some cap => simp [← Weight.exceeds_eq_false_iff]

/-- A charge that has a limit to keep to must not need the cap. -/
theorem addCharge_eq_ok_iff : weights.addCharge ledger cost = .ok charged ↔
    charged = ledger.accrue cost.cls ((weights.get cost.cls).chargeFor cost.weight) ∧
    ((weights.get cost.cls).isUnlimited = false → ∀ r, (ledger.get cost.cls).amount r +
      ((weights.get cost.cls).chargeFor cost.weight).amount r ≤ UInt64.maxValue.toNat) := by
  unfold addCharge
  cases hunlimited : (weights.get cost.cls).isUnlimited with
  | true =>
    simp only [hunlimited, if_true, Except.ok.injEq, reduceCtorEq, false_implies, and_true]
    exact eq_comm
  | false =>
    simp only [hunlimited, Bool.false_eq_true, if_false, forall_const,
      ← WeightLedger.checkedAccrue?_eq_some_iff]
    rcases ledger.checkedAccrue? cost.cls ((weights.get cost.cls).chargeFor cost.weight) with _ | sum
    · simp
    · simp

theorem withinTotal_iff {limits : ClassLimits} {used : Weight} :
    withinTotal limits used = true ↔ ∀ allowed, limits.allowed? = some allowed → used ≤ allowed := by
  unfold withinTotal ClassLimits.allowed?
  cases limits.maxTotal with
  | none => simp
  | some total => simp [Weight.fits_iff]

/-- A class with a reserve is let in past a full block only as far as the reserve goes. -/
theorem withinReserve_iff {limits : ClassLimits} {used : Weight} :
    weights.withinReserve limits ledger used = true ↔ ∀ reserve, limits.reserved = some reserve →
      ledger.total ≤ weights.maxBlock ∨ used ≤ reserve := by
  unfold withinReserve
  cases limits.reserved with
  | none => simp
  | some reserve => simp [Weight.fits_iff]

/-- A charge is accepted where it adds to its class without need of a cap, or nothing limits the class,
where the class stays within what it may come to, and where either the block has room or the class stays
within its reserve. -/
theorem charge_eq_ok_iff : weights.charge ledger cost = .ok charged ↔
    charged = ledger.accrue cost.cls ((weights.get cost.cls).chargeFor cost.weight) ∧
    ((weights.get cost.cls).isUnlimited = false → ∀ r, (ledger.get cost.cls).amount r +
      ((weights.get cost.cls).chargeFor cost.weight).amount r ≤ UInt64.maxValue.toNat) ∧
    (∀ allowed, (weights.get cost.cls).allowed? = some allowed → charged.get cost.cls ≤ allowed) ∧
    ∀ reserve, (weights.get cost.cls).reserved = some reserve →
      charged.total ≤ weights.maxBlock ∨ charged.get cost.cls ≤ reserve := by
  rw [← withinTotal_iff, ← withinReserve_iff, ← and_assoc, ← addCharge_eq_ok_iff]
  unfold charge
  rcases weights.addCharge ledger cost with rejection | sum
  · simp
  · simp only [Except.ok.injEq]
    by_cases hroom : (withinTotal (weights.get cost.cls) (sum.get cost.cls) &&
        weights.withinReserve (weights.get cost.cls) sum (sum.get cost.cls)) = true
    · rw [if_pos hroom]
      obtain ⟨htotal, hreserve⟩ := Bool.and_eq_true_iff.mp hroom
      constructor
      · intro h
        cases h
        exact ⟨rfl, htotal, hreserve⟩
      · rintro ⟨rfl, -⟩
        rfl
    · rw [if_neg hroom]
      constructor
      · exact nofun
      · rintro ⟨rfl, htotal, hreserve⟩
        exact absurd (Bool.and_eq_true_iff.mpr ⟨htotal, hreserve⟩) hroom

/-- A charge that is not accepted exhausts the limits. -/
theorem charge_cases (weights : BlockWeights) (ledger : WeightLedger) (cost : DeclaredCost) :
    weights.charge ledger cost = .error Rejection.exhausts ∨
      ∃ charged, weights.charge ledger cost = .ok charged := by
  have hadd : weights.addCharge ledger cost = .error Rejection.exhausts ∨
      ∃ charged, weights.addCharge ledger cost = .ok charged := by
    unfold addCharge
    grind
  unfold charge
  rcases hadd with hadd | ⟨charged, hadd⟩ <;> rw [hadd]
  · exact Or.inl rfl
  · dsimp only
    split
    · exact Or.inr ⟨_, rfl⟩
    · exact Or.inl rfl

/-- A class without limits is always charged, with a cap. -/
theorem charge_of_isUnlimited (h : (weights.get cost.cls).isUnlimited = true) :
    weights.charge ledger cost =
      .ok (ledger.accrue cost.cls ((weights.get cost.cls).chargeFor cost.weight)) := by
  obtain ⟨htotal, hreserved⟩ := Bool.and_eq_true_iff.mp h
  rw [Option.isNone_iff_eq_none] at htotal hreserved
  refine charge_eq_ok_iff.mpr ⟨rfl, fun hlimited => ?_, fun allowed hallowed => ?_,
    fun reserve hreserve => ?_⟩
  · rw [h] at hlimited
    exact nomatch hlimited
  · unfold ClassLimits.allowed? at hallowed
    rw [htotal] at hallowed
    exact nomatch hallowed
  · rw [hreserved] at hreserve
    exact nomatch hreserve

/-- Below the largest word, what an extrinsic leaves on the ledger of its class after the refund is what
it takes up in exact numbers. -/
theorem toNats_reduce_of_charge (h : weights.charge ledger cost = .ok charged) {allowed : Weight}
    (hallowed : (weights.get cost.cls).allowed? = some allowed) (hroom : allowed.Unsaturated)
    (reported : ReportedCost) :
    ((charged.reduce cost.cls (reported.unspent cost)).get cost.cls).toNats =
      (ledger.get cost.cls).toNats +
        (weights.get cost.cls).exactCost cost.weight reported.weight := by
  obtain ⟨hcharged, -, hle, -⟩ := charge_eq_ok_iff.mp h
  have hused : charged.get cost.cls = (ledger.get cost.cls).saturatingAdd
      ((weights.get cost.cls).chargeFor cost.weight) := by
    rw [hcharged, WeightLedger.get_accrue, if_pos rfl]
  -- the bound on the class reaches down to the charge, so neither sum has saturated
  have houter : (charged.get cost.cls).Unsaturated := hroom.of_le (hle allowed hallowed)
  rw [hused] at houter
  have hinner : ((weights.get cost.cls).chargeFor cost.weight).Unsaturated :=
    houter.of_le (Weight.le_saturatingAdd_right _ _)
  have hsum : (charged.get cost.cls).toNats = (ledger.get cost.cls).toNats +
      (cost.weight.toNats + (weights.get cost.cls).baseExtrinsic.toNats) := by
    rw [hused, Weight.toNats_saturatingAdd houter]
    exact congrArg _ (Weight.toNats_saturatingAdd hinner)
  rw [WeightLedger.get_reduce, if_pos rfl, Weight.toNats_saturatingSub, hsum]
  unfold ReportedCost.unspent ClassLimits.exactCost
  rw [Weight.toNats_saturatingSub, ReportedCost.toNats_actual]
  apply Prod.ext
  · simp only [Prod.fst_add, Prod.fst_sub, Prod.fst_inf]
    omega
  · simp only [Prod.snd_add, Prod.snd_sub, Prod.snd_inf]
    omega

end BlockWeights

namespace Check

variable {lengths : BlockLength} {weights : BlockWeights} {submission : Submission}
  {settlement : Settlement} {s t : Memory}

theorem lookup_eq_ok {σ α : Type} {f : σ → Except StoreError α} {s t : σ} {a : α}
    (h : lookup f s = (.ok a, t)) : f s = .ok a ∧ t = s :=
  Program.query_eq_ok (Program.mapError_eq_ok h)

theorem chargedLength_eq_ok {cost : DeclaredCost} {length : UInt64} {next : UInt32}
    (h : chargedLength lengths cost length s = (.ok next, t)) :
    (∃ current, Books.extrinsicsLength.get s = .ok current ∧
      lengths.charge cost.cls current length = .ok next) ∧ t = s := by
  unfold chargedLength at h
  obtain ⟨current, _, hlookup, hrest⟩ := Program.bind_eq_ok h
  obtain ⟨hcurrent, rfl⟩ := lookup_eq_ok hlookup
  obtain ⟨hnext, rfl⟩ := Program.ofExcept_eq_ok hrest
  exact ⟨⟨current, hcurrent, hnext⟩, rfl⟩

/-- What the charge of an extrinsic has found within the limits, and what it has written. -/
theorem chargeResources_eq_ok (h : chargeResources lengths weights submission s = (.ok (), t)) :
    ∃ current next ledger charged,
      Books.extrinsicsLength.get s = .ok current ∧
      lengths.charge submission.cost.cls current submission.length = .ok next ∧
      weights.checkCap submission.cost = .ok () ∧
      Books.blockWeight.get s = .ok ledger ∧
      weights.charge ledger submission.cost = .ok charged ∧
      t = Books.blockWeight.put charged (Books.extrinsicsLength.put next s) := by
  unfold chargeResources at h
  obtain ⟨next, _, hlength, h₁⟩ := Program.bind_eq_ok h
  obtain ⟨⟨current, hcurrent, hnext⟩, rfl⟩ := chargedLength_eq_ok hlength
  obtain ⟨⟨⟩, _, hcheck, h₂⟩ := Program.bind_eq_ok h₁
  obtain ⟨hcap, rfl⟩ := Program.ofExcept_eq_ok hcheck
  obtain ⟨ledger, _, hlookup, h₃⟩ := Program.bind_eq_ok h₂
  obtain ⟨hledger, rfl⟩ := lookup_eq_ok hlookup
  obtain ⟨charged, _, hadd, hrest⟩ := Program.bind_eq_ok h₃
  obtain ⟨hcharge, rfl⟩ := Program.ofExcept_eq_ok hadd
  cases hrest
  exact ⟨current, next, ledger, charged, hcurrent, hnext, hcap, hledger, hcharge, rfl⟩

/-- The ledger is written after the length, under another key. -/
theorem extrinsicsLength_charged (next : UInt32) (charged : WeightLedger) (m : Memory) :
    Books.extrinsicsLength.get (Books.blockWeight.put charged (Books.extrinsicsLength.put next m)) =
      .ok next := by
  rw [Cell.get_congr (Cell.get?_put_of_ne (Books.Item.key_ne .blockWeight .extrinsicsLength nofun) _ _)]
  exact Cell.get_put Codec.u32_lawful next m

/-- A charge writes nothing but the meters. -/
theorem keeps_chargeResources {τ : Type} {view : Memory → τ}
    (hput : ∀ key ∈ Books.meterKeys, ∀ value m, view (Store.set m key value) = view m) :
    (chargeResources lengths weights submission : Program Memory Rejection Unit).Keeps view := by
  have hlength : (chargedLength lengths submission.cost submission.length :
      Program Memory Rejection UInt32).Keeps view :=
    .bind (.mapError _ (.query _)) fun _ => .ofExcept _
  -- only the last two steps write
  refine .bind hlength fun next => .bind (.ofExcept _) fun _ => .bind (.mapError _ (.query _))
    fun _ => .bind (.ofExcept _) fun charged => .bind (.update fun m => ?_) fun _ => .update fun m => ?_
  · exact hput _ Books.extrinsicsLength_mem_meterKeys _ m
  · exact hput _ Books.blockWeight_mem_meterKeys _ m

theorem refund_ok {ledger : WeightLedger} (h : Books.blockWeight.get s = .ok ledger) :
    ∃ t, refund settlement s = (.ok (), t) := by
  by_cases hzero : (settlement.reported.unspent settlement.cost).isZero
  · exact ⟨s, by simp only [refund, if_pos hzero]; rfl⟩
  · simp only [refund, if_neg hzero]
    exact ⟨_, Program.mapError_ok (Cell.modify_ok h)⟩

/-- After a refund the ledger holds what was not given back, also when there was nothing to give. -/
theorem refund_eq_ok (h : refund settlement s = (.ok (), t)) {ledger : WeightLedger}
    (hledger : Books.blockWeight.get s = .ok ledger) :
    Books.blockWeight.get t =
      .ok (ledger.reduce settlement.cost.cls (settlement.reported.unspent settlement.cost)) := by
  unfold refund at h
  by_cases hzero : (settlement.reported.unspent settlement.cost).isZero
  · simp only [if_pos hzero] at h
    cases h
    rw [WeightLedger.reduce_of_isZero hzero]
    exact hledger
  · simp only [if_neg hzero] at h
    obtain ⟨found, hfound, rfl, -⟩ := Cell.modify_eq_ok (Program.mapError_eq_ok h)
    rw [hledger] at hfound
    cases hfound
    exact Cell.get_put WeightLedger.codec_lawful _ _

/-- Who reports no weight gets none back. -/
theorem refund_of_none (h : settlement.reported.weight = none) :
    (refund settlement : Program Memory Rejection Unit) = pure () := by
  have hactual : settlement.reported.actual settlement.cost = settlement.cost.weight := by
    unfold ReportedCost.actual
    rw [h]
  have hunspent : settlement.reported.unspent settlement.cost = Weight.zero := by
    unfold ReportedCost.unspent
    rw [hactual, Weight.saturatingSub_self]
  unfold refund
  rw [hunspent]
  exact if_pos rfl

theorem keeps_refund {τ : Type} {view : Memory → τ}
    (hput : ∀ value m, view (Store.set m Books.blockWeight.key value) = view m) :
    (refund settlement : Program Memory Rejection Unit).Keeps view := by
  by_cases hzero : (settlement.reported.unspent settlement.cost).isZero
  · simp only [refund, if_pos hzero]
    exact .pure _
  · simp only [refund, if_neg hzero]
    exact .mapError _ (.bind (.query _) fun _ => .bind (.update fun m => hput _ m) fun _ => .pure _)

theorem keeps_refund_at {key : Key} (h : Books.blockWeight.key ≠ key) :
    (refund settlement : Program Memory Rejection Unit).Keeps (Store.at key) :=
  keeps_refund fun value m => (Memory.get?_set m _ value key).trans (if_neg h)

end Check

end BlockRuntime

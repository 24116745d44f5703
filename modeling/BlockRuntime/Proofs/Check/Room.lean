import BlockRuntime.Proofs.Check.Shares
import BlockRuntime.Sample

namespace BlockRuntime

structure Submission.Lighter (light heavy : Submission) : Prop where
  cls : light.cost.cls = heavy.cost.cls
  weight : light.cost.weight ≤ heavy.cost.weight
  length : light.length ≤ heavy.length

theorem WeightLedger.Within.accrue {ledger ceiling : WeightLedger} {w v : Weight}
    (h : ledger.Within ceiling) (hw : w ≤ v) (c : DispatchClass) :
    (ledger.accrue c w).Within (ceiling.accrue c v) := by
  intro d
  rw [WeightLedger.get_accrue, WeightLedger.get_accrue]
  by_cases hd : d = c
  · rw [if_pos hd, if_pos hd]
    exact Weight.saturatingAdd_mono (h c) hw
  · rw [if_neg hd, if_neg hd]
    exact h d

/-- A shorter extrinsic fits wherever a longer one does. -/
theorem BlockLength.charge_mono {limits : BlockLength} {c : DispatchClass}
    {current current' next : UInt32} {length length' : UInt64} (hcurrent : current' ≤ current)
    (hlength : length' ≤ length) (h : limits.charge c current length = .ok next) :
    ∃ next', limits.charge c current' length' = .ok next' ∧ next' ≤ next := by
  obtain ⟨rfl, hmax⟩ := charge_eq_ok_iff.mp h
  have hle : current'.saturatingAdd (UInt32.clamp length'.toNat) ≤
      current.saturatingAdd (UInt32.clamp length.toNat) := by
    rw [UInt32.le_iff_toNat_le] at hcurrent ⊢
    rw [UInt64.le_iff_toNat_le] at hlength
    simp only [UInt32.toNat_saturatingAdd, UInt32.toNat_clamp]
    omega
  exact ⟨_, charge_eq_ok_iff.mpr ⟨rfl, UInt32.le_trans hle hmax⟩, hle⟩

namespace BlockWeights

variable {weights : BlockWeights} {light heavy : Submission}

theorem checkCap_mono (hlight : light.Lighter heavy) (h : weights.checkCap heavy.cost = .ok ()) :
    weights.checkCap light.cost = .ok () := by
  rw [checkCap_eq_ok_iff] at h ⊢
  intro cap hcap
  rw [hlight.cls] at hcap
  exact Weight.le_trans hlight.weight (h cap hcap)

/-- What is heavier on a fuller ledger bounds what is lighter on an emptier one, limit by limit. -/
theorem charge_mono {ledger ledger' charged : WeightLedger} (hlight : light.Lighter heavy)
    (hledger : ledger'.Within ledger) (h : weights.charge ledger heavy.cost = .ok charged) :
    ∃ charged', weights.charge ledger' light.cost = .ok charged' ∧ charged'.Within charged := by
  obtain ⟨hcharged, hword, htotal, hreserve⟩ := charge_eq_ok_iff.mp h
  have hcost : (weights.get heavy.cost.cls).chargeFor light.cost.weight ≤
      (weights.get heavy.cost.cls).chargeFor heavy.cost.weight :=
    Weight.saturatingAdd_mono hlight.weight (Weight.le_refl _)
  have hwithin : (ledger'.accrue heavy.cost.cls
      ((weights.get heavy.cost.cls).chargeFor light.cost.weight)).Within charged := by
    rw [hcharged]
    exact hledger.accrue hcost _
  refine ⟨_, charge_eq_ok_iff.mpr ⟨rfl, ?_, ?_, ?_⟩, ?_⟩ <;> rw [hlight.cls]
  -- every bound below is on a sum that is no larger than the one that kept to it
  · intro hlimited r
    have hclass := Weight.le_iff_amount.mp (hledger heavy.cost.cls) r
    have hpart := Weight.le_iff_amount.mp hcost r
    have hsum := hword hlimited r
    omega
  · intro allowed hallowed
    exact Weight.le_trans (hwithin heavy.cost.cls) (htotal allowed hallowed)
  · intro reserve hreserved
    -- each of the two bounds is passed on by itself
    rcases hreserve reserve hreserved with hblock | hclass
    · exact Or.inl (Weight.le_trans (WeightLedger.total_mono hwithin) hblock)
    · exact Or.inr (Weight.le_trans (hwithin heavy.cost.cls) hclass)
  · exact hwithin

end BlockWeights

namespace Check

variable {lengths : BlockLength} {weights : BlockWeights} {light heavy : Submission}
  {m m' t : Memory}

/-- Whether what the extrinsics of a block have taken up can be read in two memories, and the first has
it at no more than the second. -/
structure NoFuller (m' m : Memory) : Prop where
  length : ∃ length' length, Books.extrinsicsLength.get m' = .ok length' ∧
    Books.extrinsicsLength.get m = .ok length ∧ length' ≤ length
  weight : ∃ ledger' ledger, Books.blockWeight.get m' = .ok ledger' ∧
    Books.blockWeight.get m = .ok ledger ∧ ledger'.Within ledger

/-- A block that is no fuller takes a lighter extrinsic, and is no fuller afterwards. -/
theorem NoFuller.charge (hroom : NoFuller m' m) (hlight : light.Lighter heavy)
    (h : chargeResources lengths weights heavy m = (.ok (), t)) :
    ∃ t', chargeResources lengths weights light m' = (.ok (), t') ∧ NoFuller t' t := by
  obtain ⟨current, next, ledger, charged, hcurrent, hnext, hcap, hledger, hcharge, rfl⟩ :=
    chargeResources_eq_ok h
  -- what the check has read is what the two memories are compared by
  obtain ⟨current', found, hcurrent', hfound, hcurrentLe⟩ := hroom.length
  rw [hcurrent] at hfound
  cases hfound
  obtain ⟨ledger', found, hledger', hfound, hledgerLe⟩ := hroom.weight
  rw [hledger] at hfound
  cases hfound
  obtain ⟨next', hnext', hnextLe⟩ := BlockLength.charge_mono hcurrentLe hlight.length hnext
  rw [← hlight.cls] at hnext'
  obtain ⟨charged', hcharge', hwithin⟩ := BlockWeights.charge_mono hlight hledgerLe hcharge
  refine ⟨_, chargeResources_ok hcurrent' hnext' (BlockWeights.checkCap_mono hlight hcap) hledger'
    hcharge', ?_, ?_⟩
  · exact ⟨next', next, extrinsicsLength_charged next' charged' m',
      extrinsicsLength_charged next charged m, hnextLe⟩
  · exact ⟨charged', charged, Cell.get_put WeightLedger.codec_lawful _ _,
      Cell.get_put WeightLedger.codec_lawful _ _, hwithin⟩

theorem preDispatch_resources_eq_ok {who : AccountId} {submission : Submission} {receipt : Receipt} :
    (resources lengths weights).preDispatch who submission m = (.ok receipt, t) ↔
      chargeResources lengths weights submission m = (.ok (), t) ∧ receipt = Receipt.empty := by
  constructor
  · intro h
    obtain ⟨⟨⟩, u, hcharge, hrest⟩ := Program.bind_eq_ok h
    cases hrest
    exact ⟨hcharge, rfl⟩
  · rintro ⟨hcharge, rfl⟩
    exact Program.bind_ok hcharge

/-- What the resource check lets in, signed or not, it lets in as well when it is lighter and the block is
no fuller, and the block is no fuller afterwards. -/
theorem room_is_monotone (lengths : BlockLength) (weights : BlockWeights)
    (hlight : light.Lighter heavy) (hroom : NoFuller m' m) :
    (∀ who who' receipt t,
      (resources lengths weights).preDispatch who heavy m = (.ok receipt, t) →
      ∃ t', (resources lengths weights).preDispatch who' light m' = (.ok receipt, t') ∧
        NoFuller t' t) ∧
    ∀ t, (resources lengths weights).preDispatchUnsigned heavy m = (.ok (), t) →
      ∃ t', (resources lengths weights).preDispatchUnsigned light m' = (.ok (), t') ∧
        NoFuller t' t := by
  constructor
  · intro who who' receipt t h
    obtain ⟨hcharge, hreceipt⟩ := preDispatch_resources_eq_ok.mp h
    obtain ⟨t', hcharge', hafter⟩ := hroom.charge hlight hcharge
    exact ⟨t', preDispatch_resources_eq_ok.mpr ⟨hcharge', hreceipt⟩, hafter⟩
  · intro t h
    exact hroom.charge hlight h

def lastNormal : Submission := ⟨[], ⟨⟨700, 700⟩, .normal, .paid⟩, 700⟩

def shorterNormal : Submission := ⟨[], ⟨⟨700, 100⟩, .normal, .waived⟩, 600⟩

def startedBlock : Memory :=
  Books.blockWeight.put ⟨⟨50, 50⟩, Weight.zero, Weight.zero⟩
    (Books.extrinsicsLength.put 68 Memory.empty)

/-- The one that takes all there is left is let in, so the shorter one is let in on an empty memory. -/
theorem shorter_let_in :
    shorterNormal.Lighter lastNormal ∧ NoFuller Memory.empty startedBlock ∧
    (∃ t, (resources Sample.parameters.blockLength Sample.parameters.blockWeights).preDispatch
        (Sample.account 1) lastNormal startedBlock = (.ok Receipt.empty, t) ∧
      ∃ t', (resources Sample.parameters.blockLength Sample.parameters.blockWeights).preDispatch
        (Sample.account 2) shorterNormal Memory.empty = (.ok Receipt.empty, t') ∧ NoFuller t' t) ∧
    ∃ t, (resources Sample.parameters.blockLength Sample.parameters.blockWeights).preDispatchUnsigned
        lastNormal startedBlock = (.ok (), t) ∧
      ∃ t', (resources Sample.parameters.blockLength
        Sample.parameters.blockWeights).preDispatchUnsigned shorterNormal Memory.empty =
          (.ok (), t') ∧ NoFuller t' t := by
  have hlight : shorterNormal.Lighter lastNormal := ⟨rfl, by decide, by decide⟩
  have hlength : Books.extrinsicsLength.get startedBlock = .ok 68 := extrinsicsLength_charged _ _ _
  have hledger : Books.blockWeight.get startedBlock = .ok ⟨⟨50, 50⟩, Weight.zero, Weight.zero⟩ :=
    Cell.get_put WeightLedger.codec_lawful _ _
  have hroom : NoFuller Memory.empty startedBlock := by
    refine ⟨⟨0, 68, Cell.get_of_none rfl, hlength, by decide⟩,
      ⟨WeightLedger.empty, _, Cell.get_of_none rfl, hledger, fun c => ?_⟩⟩
    rw [WeightLedger.get_empty]
    exact Weight.zero_le _
  obtain ⟨t, hcharge⟩ : ∃ t, chargeResources Sample.parameters.blockLength
      Sample.parameters.blockWeights lastNormal startedBlock = (.ok (), t) :=
    ⟨_, chargeResources_ok hlength rfl rfl hledger rfl⟩
  have hsigned : (resources Sample.parameters.blockLength Sample.parameters.blockWeights).preDispatch
      (Sample.account 1) lastNormal startedBlock = (.ok Receipt.empty, t) :=
    preDispatch_resources_eq_ok.mpr ⟨hcharge, rfl⟩
  obtain ⟨hsign, hunsign⟩ := room_is_monotone Sample.parameters.blockLength
    Sample.parameters.blockWeights hlight hroom
  exact ⟨hlight, hroom, ⟨t, hsigned, hsign _ (Sample.account 2) _ t hsigned⟩,
    t, hcharge, hunsign t hcharge⟩

end Check

end BlockRuntime

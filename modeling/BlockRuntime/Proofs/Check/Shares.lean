import BlockRuntime.Proofs.Check.Phases
/-!
What the shares of the classes add up to. The resource check holds each class to a limit of its own, and
looks at the block as a whole only for a class that has a reserve. Without reserves a run of charges and
refunds keeps the block within the sum of the limits of the classes it charges; with a normal share of the
block that is the block and the share on top of it, and a block can be filled up to there.
-/

namespace BlockRuntime

open BlockWeights (withNormalShare share)

namespace WeightLedger

variable {ledger ceiling : WeightLedger}

def Within (ledger ceiling : WeightLedger) : Prop := ∀ c, ledger.get c ≤ ceiling.get c

theorem empty_within (ceiling : WeightLedger) : empty.Within ceiling := by
  intro c
  rw [get_empty]
  exact Weight.zero_le _

theorem Within.reduce (h : ledger.Within ceiling) (c : DispatchClass) (w : Weight) :
    (ledger.reduce c w).Within ceiling :=
  fun d => Weight.le_trans (reduce_le ledger c d w) (h d)

end WeightLedger

namespace Check

/-- A turn of a check in a run: it lets an extrinsic in, signed or not, or settles one. -/
inductive Turn where
  | signed (who : AccountId) (submission : Submission)
  | unsigned (submission : Submission)
  | settle (receipt : Option Receipt) (settlement : Settlement)

namespace Turn

def cls : Turn → DispatchClass
  | signed _ submission => submission.cost.cls
  | unsigned submission => submission.cost.cls
  | settle _ settlement => settlement.cost.cls

/-- The store after a turn, whether or not the check agreed to it. -/
def after (check : Check Memory) (m : Memory) : Turn → Memory
  | signed who submission => (check.preDispatch who submission m).2
  | unsigned submission => (check.preDispatchUnsigned submission m).2
  | settle receipt settlement => (check.postDispatch receipt settlement m).2

def run (check : Check Memory) (turns : List Turn) (m : Memory) : Memory :=
  turns.foldl (after check) m

end Turn

variable {lengths : BlockLength} {weights : BlockWeights} {ceiling : WeightLedger} {m : Memory}

def LedgerWithin (ceiling : WeightLedger) (m : Memory) : Prop :=
  ∃ ledger, Books.blockWeight.get m = .ok ledger ∧ ledger.Within ceiling

/-- Whether the limits hold a class to a ceiling. -/
def HeldTo (weights : BlockWeights) (ceiling : WeightLedger) (c : DispatchClass) : Prop :=
  ∃ allowed, (weights.get c).allowed? = some allowed ∧ allowed ≤ ceiling.get c

/-- A charge keeps a ledger below a ceiling to which the limits hold its class. -/
theorem LedgerWithin.charge (h : LedgerWithin ceiling m) {submission : Submission}
    (hheld : HeldTo weights ceiling submission.cost.cls) :
    LedgerWithin ceiling (chargeResources lengths weights submission m).2 := by
  have hcases : (∃ t, chargeResources lengths weights submission m = (.ok (), t)) ∨
      ∃ cause, chargeResources lengths weights submission m = (.error cause, m) := by
    rcases resources_cases (s := m) lengths weights submission rfl with
      ⟨cause, -, hcharge⟩ | ⟨-, -, cause, hcharge⟩ | ⟨-, -, t, hcharge⟩
    · exact Or.inr ⟨cause, hcharge⟩
    · exact Or.inr ⟨cause, hcharge⟩
    · exact Or.inl ⟨t, hcharge⟩
  rcases hcases with ⟨t, hcharge⟩ | ⟨cause, hcharge⟩ <;> rw [hcharge]
  · obtain ⟨_, next, ledger, charged, -, -, -, hledger, haccepted, rfl⟩ :=
      chargeResources_eq_ok hcharge
    -- the charge was made on the ledger that is within the ceiling
    obtain ⟨ledger', hledger', hwithin⟩ := h
    rw [hledger] at hledger'
    cases hledger'
    obtain ⟨hcharged, -, hallowed, -⟩ := BlockWeights.charge_eq_ok_iff.mp haccepted
    obtain ⟨allowed, hlimit, hle⟩ := hheld
    refine ⟨charged, Cell.get_put WeightLedger.codec_lawful charged _, fun c => ?_⟩
    by_cases hc : c = submission.cost.cls
    · rw [hc]
      exact Weight.le_trans (hallowed allowed hlimit) hle
    · -- the other classes are where they were
      rw [hcharged, WeightLedger.get_accrue, if_neg hc]
      exact hwithin c
  · -- a refusal has written nothing
    exact h

theorem LedgerWithin.refund (h : LedgerWithin ceiling m) (settlement : Settlement) :
    LedgerWithin ceiling (refund settlement m).2 := by
  obtain ⟨ledger, hledger, hwithin⟩ := h
  obtain ⟨t, ht⟩ : ∃ t, Check.refund settlement m = (.ok (), t) := refund_ok hledger
  rw [ht]
  exact ⟨_, refund_eq_ok ht hledger, hwithin.reduce _ _⟩

/-- So does every turn, whether it is refused, charges or gives back. -/
theorem LedgerWithin.turn (h : LedgerWithin ceiling m) {turn : Turn}
    (hheld : HeldTo weights ceiling turn.cls) :
    LedgerWithin ceiling (turn.after (resources lengths weights) m) := by
  cases turn with
  | signed who submission =>
    have hstore : (Turn.signed who submission).after (resources lengths weights) m =
        (chargeResources lengths weights submission m).2 := by
      change ((chargeResources lengths weights submission >>= fun _ => pure Receipt.empty) m).2 = _
      rw [Program.bind_apply]
      cases (chargeResources lengths weights submission m).1 <;> rfl
    rw [hstore]
    exact h.charge hheld
  | unsigned submission => exact h.charge hheld
  | settle receipt settlement => exact h.refund settlement

/-- A run that charges only classes that are held to a ceiling stays below it. -/
theorem LedgerWithin.run {turns : List Turn} (h : LedgerWithin ceiling m)
    (hheld : ∀ turn ∈ turns, HeldTo weights ceiling turn.cls) :
    LedgerWithin ceiling (Turn.run (resources lengths weights) turns m) := by
  induction turns generalizing m with
  | nil => exact h
  | cons turn turns ih =>
    have hturn : LedgerWithin ceiling (turn.after (resources lengths weights) m) :=
      h.turn (hheld turn List.mem_cons_self)
    exact ih hturn fun later hlater => hheld later (List.mem_cons_of_mem _ hlater)

theorem chargeResources_ok {submission : Submission} {current next : UInt32}
    {ledger charged : WeightLedger} (hcurrent : Books.extrinsicsLength.get m = .ok current)
    (hnext : lengths.charge submission.cost.cls current submission.length = .ok next)
    (hcap : weights.checkCap submission.cost = .ok ())
    (hledger : Books.blockWeight.get m = .ok ledger)
    (hcharge : weights.charge ledger submission.cost = .ok charged) :
    chargeResources lengths weights submission m =
      (.ok (), Books.blockWeight.put charged (Books.extrinsicsLength.put next m)) := by
  have hlength : chargedLength lengths submission.cost submission.length m = (.ok next, m) := by
    unfold chargedLength
    rw [Program.bind_ok (lookup_ok hcurrent), hnext]
    rfl
  unfold chargeResources
  rw [Program.bind_ok hlength, hcap]
  apply (Program.bind_ok (lookup_ok hledger)).trans
  rw [hcharge]
  rfl

end Check

namespace BlockWeights

variable (block : Weight) (percent : UInt8)

theorem amount_share (r : Resource) :
    (share block percent).amount r = percentOf (block.amount r) percent := by
  have hword (n : UInt64) : (UInt64.ofNat (percentOf n.toNat percent)).toNat =
      percentOf n.toNat percent :=
    UInt64.toNat_ofNat_of_lt' (Nat.lt_of_le_of_lt (percentOf_le _ _) n.toNat_lt)
  cases r with
  | time => exact hword block.refTime
  | proof => exact hword block.proofSize

theorem share_le : share block percent ≤ block := by
  rw [Weight.le_iff_amount]
  intro r
  rw [amount_share]
  exact percentOf_le _ _

def shareOf (c : DispatchClass) : Weight :=
  match c with
  | .normal => share block percent
  | _ => block

variable {block percent}

theorem shareOf_le (c : DispatchClass) : shareOf block percent c ≤ block := by
  cases c with
  | normal => exact share_le block percent
  | operational => exact Weight.le_refl _
  | mandatory => exact Weight.le_refl _

/-- With a normal share, each class is held to its share. -/
theorem heldTo_shareOf {c : DispatchClass} (hc : c ≠ .mandatory) {ceiling : WeightLedger}
    (h : shareOf block percent c ≤ ceiling.get c) :
    Check.HeldTo (withNormalShare block percent) ceiling c := by
  cases c with
  | normal => exact ⟨_, rfl, Weight.le_trans (Weight.saturatingSub_le _ _) h⟩
  | operational => exact ⟨_, rfl, Weight.le_trans (Weight.saturatingSub_le _ _) h⟩
  | mandatory => exact absurd rfl hc

/-- A class with nothing on its ledger has room for all it may come to in one extrinsic. -/
theorem charge_full {weights : BlockWeights} {c : DispatchClass} {limit : Weight}
    (hlimits : weights.get c = ⟨Weight.zero, some limit, some limit, none⟩) {ledger : WeightLedger}
    (hledger : ledger.get c = Weight.zero) :
    weights.checkCap ⟨limit, c, .paid⟩ = .ok () ∧
      weights.charge ledger ⟨limit, c, .paid⟩ = .ok (ledger.set c limit) := by
  have hcharge : (weights.get c).chargeFor limit = limit := by
    rw [hlimits]
    exact Weight.saturatingAdd_zero limit
  have hset : ledger.set c limit = ledger.accrue c limit := by
    unfold WeightLedger.accrue
    rw [hledger, Weight.zero_saturatingAdd]
  have hused : (ledger.set c limit).get c = limit := PerClass.get_set_self _ _ _
  constructor
  · rw [checkCap_eq_ok_iff, hlimits]
    rintro cap ⟨⟩
    exact Weight.le_refl limit
  · refine charge_eq_ok_iff.mpr ⟨?_, fun _ r => ?_, fun allowed hallowed => ?_,
      fun reserve hreserve => ?_⟩
    · rw [hcharge, hset]
    · rw [hcharge, hledger, Weight.amount_zero, Nat.zero_add]
      exact limit.amount_le r
    · rw [hlimits] at hallowed
      have hlimit : limit.saturatingSub Weight.zero = allowed := Option.some.inj hallowed
      rw [hused, ← hlimit, Weight.saturatingSub_zero]
      exact Weight.le_refl limit
    · rw [hlimits] at hreserve
      exact nomatch hreserve

end BlockWeights

namespace Check

variable (lengths : BlockLength) (block : Weight) (percent : UInt8) (m : Memory)

def takeAll (c : DispatchClass) (limit : Weight) : Turn := .unsigned ⟨[], ⟨limit, c, .paid⟩, 0⟩

/-- The two turns that fill a block: all of the normal share, and then all of the block. -/
def fill : List Turn := [takeAll .normal (share block percent), takeAll .operational block]

variable {lengths m} in
/-- One extrinsic may take all that its class may come to. -/
theorem after_takeAll {weights : BlockWeights} {c : DispatchClass} {limit : Weight}
    (hlimits : weights.get c = ⟨Weight.zero, some limit, some limit, none⟩) {ledger : WeightLedger}
    (hlength : Books.extrinsicsLength.get m = .ok 0) (hledger : Books.blockWeight.get m = .ok ledger)
    (hzero : ledger.get c = Weight.zero) :
    Books.extrinsicsLength.get ((takeAll c limit).after (resources lengths weights) m) = .ok 0 ∧
    Books.blockWeight.get ((takeAll c limit).after (resources lengths weights) m) =
      .ok (ledger.set c limit) := by
  obtain ⟨hcap, hcharge⟩ := BlockWeights.charge_full hlimits hzero
  have hnext : lengths.charge c 0 0 = .ok 0 :=
    BlockLength.charge_eq_ok_iff.mpr ⟨rfl, Nat.zero_le _⟩
  have hstore : (takeAll c limit).after (resources lengths weights) m =
      Books.blockWeight.put (ledger.set c limit) (Books.extrinsicsLength.put 0 m) := by
    have hok : chargeResources lengths weights ⟨[], ⟨limit, c, .paid⟩, 0⟩ m = (.ok (), _) :=
      chargeResources_ok hlength hnext hcap hledger hcharge
    exact congrArg Prod.snd hok
  rw [hstore]
  constructor
  · exact extrinsicsLength_charged 0 _ m
  · exact Cell.get_put WeightLedger.codec_lawful _ _

/-- The turns that fill a block leave all of the normal share and all of the block on the ledger. -/
theorem ledger_fill (hlength : Books.extrinsicsLength.get m = .ok 0)
    (hledger : Books.blockWeight.get m = .ok WeightLedger.empty) :
    Books.blockWeight.get
      (Turn.run (resources lengths (withNormalShare block percent)) (fill block percent) m) =
      .ok ⟨share block percent, block, Weight.zero⟩ := by
  have hnormal : (withNormalShare block percent).get .normal =
      ⟨Weight.zero, some (share block percent), some (share block percent), none⟩ := rfl
  have hoperational : (withNormalShare block percent).get .operational =
      ⟨Weight.zero, some block, some block, none⟩ := rfl
  obtain ⟨hlength', hledger'⟩ := @after_takeAll lengths m _ _ _ hnormal _ hlength hledger rfl
  exact (after_takeAll hoperational hlength' hledger' rfl).2

theorem fill_not_mandatory {turn : Turn} (h : turn ∈ fill block percent) : turn.cls ≠ .mandatory := by
  simp only [fill, List.mem_cons, List.not_mem_nil, or_false] at h
  rcases h with rfl | rfl <;> exact nofun

/-- What a run of charges other than mandatory ones leaves on the ledger, held against the limits. -/
structure LedgerOfShares (block : Weight) (percent : UInt8) (ledger : WeightLedger) : Prop where
  normal : ledger.get .normal ≤ share block percent
  operational : ledger.get .operational ≤ block
  total : ∀ r, ledger.total.amount r ≤ block.amount r + percentOf (block.amount r) percent

variable {lengths block percent m}

theorem LedgerOfShares.of_within {ledger : WeightLedger}
    (h : ledger.Within ⟨share block percent, block, Weight.zero⟩) :
    LedgerOfShares block percent ledger where
  normal := h .normal
  operational := h .operational
  total r := by
    have hle := Weight.le_iff_amount.mp (WeightLedger.total_mono h) r
    rw [WeightLedger.amount_total ⟨share block percent, block, Weight.zero⟩] at hle
    simp only [PerClass.get, BlockWeights.amount_share, Weight.amount_zero] at hle
    omega

theorem ledgerWithin_of_empty (h : Books.blockWeight.get m = .ok WeightLedger.empty)
    (ceiling : WeightLedger) : LedgerWithin ceiling m := ⟨_, h, WeightLedger.empty_within ceiling⟩

section Runs

variable {turns : List Turn} (hturns : ∀ turn ∈ turns, turn.cls ≠ .mandatory)
  (hempty : Books.blockWeight.get m = .ok WeightLedger.empty)

include hturns hempty

/-- Whatever the order of the turns, each class is held to its own limit. -/
theorem run_within_shares : LedgerWithin ⟨share block percent, block, Weight.zero⟩
    (Turn.run (resources lengths (withNormalShare block percent)) turns m) := by
  apply (ledgerWithin_of_empty hempty _).run
  intro turn hturn
  have hcls := hturns turn hturn
  apply BlockWeights.heldTo_shareOf hcls
  cases hc : turn.cls with
  | normal => exact Weight.le_refl _
  | operational => exact Weight.le_refl _
  | mandatory => exact absurd hc hcls

/-- If all turns are of one class, the others stay where they started. -/
theorem run_within_block {c : DispatchClass} (hc : ∀ turn ∈ turns, turn.cls = c) :
    LedgerWithin (WeightLedger.empty.accrue c block)
      (Turn.run (resources lengths (withNormalShare block percent)) turns m) := by
  apply (ledgerWithin_of_empty hempty _).run
  intro turn hturn
  apply BlockWeights.heldTo_shareOf (hturns turn hturn)
  rw [hc turn hturn, WeightLedger.get_accrue, if_pos rfl, WeightLedger.get_empty,
    Weight.zero_saturatingAdd]
  exact BlockWeights.shareOf_le c

end Runs

theorem total_alone (c : DispatchClass) (w : Weight) : (WeightLedger.empty.accrue c w).total = w := by
  apply Weight.eq_of_amount
  intro r
  have hword := w.amount_le r
  rw [WeightLedger.amount_total]
  simp only [WeightLedger.get_accrue, WeightLedger.get_empty, Weight.zero_saturatingAdd]
  cases c <;> simp only [reduceCtorEq, if_true, if_false, Weight.amount_zero] <;> omega

variable (lengths block percent m)

/-- A block with a normal share stays within the whole block and that share on top of it, each class within
what it may come to, and within the block where only one class is charged; and a block can be filled all
the way up. -/
theorem block_within_shares :
    (∀ turns : List Turn, (∀ turn ∈ turns, turn.cls ≠ .mandatory) →
      Books.blockWeight.get m = .ok WeightLedger.empty →
      ∃ ledger, Books.blockWeight.get
          (Turn.run (resources lengths (withNormalShare block percent)) turns m) = .ok ledger ∧
        LedgerOfShares block percent ledger ∧
        ∀ c, (∀ turn ∈ turns, turn.cls = c) → ledger.total ≤ (withNormalShare block percent).maxBlock) ∧
    ∃ turns : List Turn, (∀ turn ∈ turns, turn.cls ≠ .mandatory) ∧
      (Books.blockWeight.get m = .ok WeightLedger.empty → Books.extrinsicsLength.get m = .ok 0 →
        ∃ ledger, Books.blockWeight.get
            (Turn.run (resources lengths (withNormalShare block percent)) turns m) = .ok ledger ∧
          ∀ r, ledger.total.amount r =
            min (block.amount r + percentOf (block.amount r) percent) UInt64.maxValue.toNat) := by
  refine ⟨fun turns hturns hempty => ?_, fill block percent,
    fun turn => fill_not_mandatory block percent, fun hledger hlength =>
      ⟨_, ledger_fill lengths block percent m hlength hledger, fun r => ?_⟩⟩
  · obtain ⟨ledger, hledger, hwithin⟩ := run_within_shares hturns hempty
    refine ⟨ledger, hledger, .of_within hwithin, fun c hc => ?_⟩
    obtain ⟨ledger', hledger', halone⟩ := run_within_block hturns hempty hc
    rw [hledger] at hledger'
    cases hledger'
    have hle := WeightLedger.total_mono halone
    rw [total_alone] at hle
    exact hle
  · rw [WeightLedger.amount_total]
    simp only [PerClass.get, BlockWeights.amount_share, Weight.amount_zero]
    omega

/-- The turns that fill a block of a hundred units of time and forty of proof, on an empty memory. -/
theorem filled_within_shares :
    (∀ turn ∈ fill ⟨100, 40⟩ 75, turn.cls ≠ .mandatory) ∧
    Books.blockWeight.get Memory.empty = .ok WeightLedger.empty ∧
    Books.extrinsicsLength.get Memory.empty = .ok 0 ∧
    (∃ ledger, Books.blockWeight.get (Turn.run (resources BlockLength.standard
        (withNormalShare ⟨100, 40⟩ 75)) (fill ⟨100, 40⟩ 75) Memory.empty) = .ok ledger ∧
      LedgerOfShares ⟨100, 40⟩ 75 ledger) ∧
    ∃ turns ledger, Books.blockWeight.get (Turn.run (resources BlockLength.standard
        (withNormalShare ⟨100, 40⟩ 75)) turns Memory.empty) = .ok ledger ∧
      ledger.total.amount .time = 175 ∧ ledger.total.amount .proof = 70 := by
  have hturns : ∀ turn ∈ fill ⟨100, 40⟩ 75, turn.cls ≠ .mandatory :=
    fun _ => fill_not_mandatory _ _
  have hempty : Books.blockWeight.get Memory.empty = .ok WeightLedger.empty := Cell.get_of_none rfl
  have hlength : Books.extrinsicsLength.get Memory.empty = .ok 0 := Cell.get_of_none rfl
  obtain ⟨hruns, turns, -, hfull⟩ :=
    block_within_shares BlockLength.standard ⟨100, 40⟩ 75 Memory.empty
  obtain ⟨ledger, hledger, hshares, -⟩ := hruns _ hturns hempty
  obtain ⟨full, hrun, htotal⟩ := hfull hempty hlength
  exact ⟨hturns, hempty, hlength, ⟨ledger, hledger, hshares⟩, turns, full, hrun, htotal .time,
    htotal .proof⟩

/-- The limits of the classes do not add up to the block: a normal extrinsic that takes all of its share
leaves room for an operational one that takes all of the block. -/
theorem filled_exceeds_block :
    ¬ ∀ (lengths : BlockLength) (block : Weight) (percent : UInt8) (turns : List Turn),
      (∀ turn ∈ turns, turn.cls ≠ .mandatory) →
      ∀ ledger, Books.blockWeight.get
          (Turn.run (resources lengths (withNormalShare block percent)) turns Memory.empty) =
            .ok ledger → ledger.total ≤ (withNormalShare block percent).maxBlock := by
  intro h
  have hlength : Books.extrinsicsLength.get Memory.empty = .ok 0 := Cell.get_of_none rfl
  have hempty : Books.blockWeight.get Memory.empty = .ok WeightLedger.empty := Cell.get_of_none rfl
  have hfill := ledger_fill BlockLength.standard ⟨100, 40⟩ 75 Memory.empty hlength hempty
  have hle := h BlockLength.standard ⟨100, 40⟩ 75 (fill ⟨100, 40⟩ 75)
    (fun _ => fill_not_mandatory _ _) _ hfill
  exact absurd hle (by decide)

end Check

end BlockRuntime

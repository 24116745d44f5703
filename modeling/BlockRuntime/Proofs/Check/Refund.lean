import BlockRuntime.Proofs.Check.Resources

namespace BlockRuntime

/-- What a class comes to in one resource when nothing of it is lost: what it had, the overhead and what
was used of the declared weight, together no more than a word. -/
def ClassLimits.due (limits : ClassLimits) (before : Weight) (cost : DeclaredCost)
    (reported : ReportedCost) (r : Resource) : Nat :=
  min (before.amount r + limits.baseExtrinsic.amount r +
    min ((reported.weight.getD cost.weight).amount r) (cost.weight.amount r)) UInt64.maxValue.toNat

structure ClassLimits.Settled (limits : ClassLimits) (before : Weight) (cost : DeclaredCost)
    (reported : ReportedCost) (after : Weight) (r : Resource) : Prop where
  amount : after.amount r =
    min (before.amount r + limits.baseExtrinsic.amount r + cost.weight.amount r)
      UInt64.maxValue.toNat - (reported.unspent cost).amount r
  due_iff : after.amount r = limits.due before cost reported r ↔
    (reported.unspent cost).amount r = 0 ∨
      before.amount r + limits.baseExtrinsic.amount r + cost.weight.amount r ≤ UInt64.maxValue.toNat
  lost_iff : after.amount r < before.amount r ↔
    UInt64.maxValue.toNat < before.amount r + (reported.unspent cost).amount r

namespace ReportedCost

/-- What was used, at most as declared, and what was not make up what was declared. -/
theorem amount_used_add_unspent (reported : ReportedCost) (cost : DeclaredCost) (r : Resource) :
    min ((reported.weight.getD cost.weight).amount r) (cost.weight.amount r) +
      (reported.unspent cost).amount r = cost.weight.amount r := by
  unfold unspent
  rw [Weight.amount_saturatingSub, amount_actual]
  omega

end ReportedCost

/-- What a class comes to is worked out for one resource, by where the charge hits the largest word. -/
theorem ClassLimits.settled (limits : ClassLimits) (before : Weight) (cost : DeclaredCost)
    (reported : ReportedCost) (r : Resource) :
    limits.Settled before cost reported
      ((before.saturatingAdd (limits.chargeFor cost.weight)).saturatingSub (reported.unspent cost))
      r := by
  have hsplit := reported.amount_used_add_unspent cost r
  have hbefore := before.amount_le r
  have hdeclared := cost.weight.amount_le r
  have hafter : ((before.saturatingAdd (limits.chargeFor cost.weight)).saturatingSub
      (reported.unspent cost)).amount r =
      min (before.amount r + limits.baseExtrinsic.amount r + cost.weight.amount r)
        UInt64.maxValue.toNat - (reported.unspent cost).amount r := by
    rw [Weight.amount_saturatingSub, limits.amount_charged]
  -- the refund takes back more than was put there only where the cap cut the charge
  refine ⟨hafter, ?_, ?_⟩
  · rw [hafter]
    unfold ClassLimits.due
    omega
  · rw [hafter]
    omega

namespace Check

variable {lengths : BlockLength} {weights : BlockWeights} {settlement : Settlement}

/-- A charge that nothing limits is put on the ledger, and the refund that follows is taken from there. -/
theorem settle_of_isUnlimited (h : (weights.get settlement.cost.cls).isUnlimited = true)
    (ledger : WeightLedger) (receipt : Option Receipt) (m : Memory) :
    ∃ charged t after, weights.charge ledger settlement.cost = .ok charged ∧
      (resources lengths weights).postDispatch receipt settlement (Books.blockWeight.put charged m) =
        (.ok (), t) ∧
      Books.blockWeight.get t = .ok after ∧
      ∀ c, after.get c = if c = settlement.cost.cls then
        ((ledger.get c).saturatingAdd
          ((weights.get settlement.cost.cls).chargeFor settlement.cost.weight)).saturatingSub
            (settlement.reported.unspent settlement.cost)
        else ledger.get c := by
  have hcharge : weights.charge ledger settlement.cost = .ok (ledger.accrue settlement.cost.cls
      ((weights.get settlement.cost.cls).chargeFor settlement.cost.weight)) :=
    BlockWeights.charge_of_isUnlimited h
  generalize hcharged : ledger.accrue settlement.cost.cls
    ((weights.get settlement.cost.cls).chargeFor settlement.cost.weight) = charged at hcharge
  have hput : Books.blockWeight.get (Books.blockWeight.put charged m) = .ok charged :=
    Cell.get_put WeightLedger.codec_lawful charged m
  obtain ⟨t, ht⟩ : ∃ t, refund settlement (Books.blockWeight.put charged m) = (.ok (), t) :=
    refund_ok hput
  have hafter := refund_eq_ok ht hput
  refine ⟨charged, t, _, hcharge, ht, hafter, fun c => ?_⟩
  rw [WeightLedger.get_reduce, ← hcharged, WeightLedger.get_accrue, WeightLedger.get_accrue, if_pos rfl]
  by_cases hc : c = settlement.cost.cls
  · rw [if_pos hc, if_pos hc, hc]
  · rw [if_neg hc, if_neg hc, if_neg hc]

/-- In a class that nothing limits every charge is accepted and every refund goes through, no other class
is touched, and the class comes to what it had, the overhead and the declared weight, capped, less all that
was not used. That is what is due exactly where all was used or the cap did not bind; and the class has
less than before exactly where the unspent weight on top of what it had would not have been a word. -/
theorem unlimited_settled (lengths : BlockLength) (weights : BlockWeights) (ledger : WeightLedger)
    (settlement : Settlement) (receipt : Option Receipt) (m : Memory)
    (h : (weights.get settlement.cost.cls).isUnlimited = true) :
    ∃ charged t after, weights.charge ledger settlement.cost = .ok charged ∧
      (resources lengths weights).postDispatch receipt settlement (Books.blockWeight.put charged m) =
        (.ok (), t) ∧
      Books.blockWeight.get t = .ok after ∧
      (∀ c, c ≠ settlement.cost.cls → after.get c = ledger.get c) ∧
      ∀ r, (weights.get settlement.cost.cls).Settled (ledger.get settlement.cost.cls) settlement.cost
        settlement.reported (after.get settlement.cost.cls) r := by
  obtain ⟨charged, t, after, hcharge, ht, hafter, hget⟩ := settle_of_isUnlimited h ledger receipt m
  refine ⟨charged, t, after, hcharge, ht, hafter, fun c hc => ?_, fun r => ?_⟩
  · rw [hget, if_neg hc]
  · rw [hget, if_pos rfl]
    exact ClassLimits.settled _ _ _ _ r

/-- A mandatory dispatch that declares all the time there is and uses next to none of it. -/
def overdeclared : Settlement where
  cost := ⟨⟨UInt64.maxValue, 0⟩, .mandatory, .paid⟩
  reported := ⟨some ⟨1, 0⟩, .paid⟩
  length := 0
  result := .ok ()

def startedLedger : WeightLedger := WeightLedger.empty.accrue .mandatory ⟨5, 0⟩

theorem overdeclared_settled :
    (BlockWeights.standard.get overdeclared.cost.cls).isUnlimited = true ∧
    ∃ charged t after, BlockWeights.standard.charge startedLedger overdeclared.cost = .ok charged ∧
      (resources BlockLength.standard BlockWeights.standard).postDispatch none overdeclared
        (Books.blockWeight.put charged Memory.empty) = (.ok (), t) ∧
      Books.blockWeight.get t = .ok after ∧
      (∀ c, c ≠ overdeclared.cost.cls → after.get c = startedLedger.get c) ∧
      ∀ r, (BlockWeights.standard.get overdeclared.cost.cls).Settled
        (startedLedger.get overdeclared.cost.cls) overdeclared.cost overdeclared.reported
        (after.get overdeclared.cost.cls) r :=
  have hunlimited : (BlockWeights.standard.get overdeclared.cost.cls).isUnlimited = true := rfl
  ⟨hunlimited, unlimited_settled _ _ _ _ _ _ hunlimited⟩

/-- Six units of time are due after that dispatch, and one is left of the five that there were. -/
theorem overdeclared_erases :
    ∃ charged t after, BlockWeights.standard.charge startedLedger overdeclared.cost = .ok charged ∧
      (resources BlockLength.standard BlockWeights.standard).postDispatch none overdeclared
        (Books.blockWeight.put charged Memory.empty) = (.ok (), t) ∧
      Books.blockWeight.get t = .ok after ∧
      (after.get .mandatory).amount .time = 1 ∧
      (startedLedger.get .mandatory).amount .time = 5 ∧
      (BlockWeights.standard.get .mandatory).due (startedLedger.get .mandatory) overdeclared.cost
        overdeclared.reported .time = 6 := by
  have hunlimited : (BlockWeights.standard.get overdeclared.cost.cls).isUnlimited = true := rfl
  obtain ⟨charged, t, after, hcharge, ht, hafter, hget⟩ :=
    settle_of_isUnlimited hunlimited startedLedger none Memory.empty
  refine ⟨charged, t, after, hcharge, ht, hafter, ?_, by decide, by decide⟩
  rw [hget]
  decide

end Check

end BlockRuntime

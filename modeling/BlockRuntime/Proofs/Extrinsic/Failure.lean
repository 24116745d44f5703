import BlockRuntime.Proofs.Extrinsic.Inclusion
import BlockRuntime.Sample

namespace BlockRuntime.Extrinsic

/-- The store in which the body of an extrinsic starts, if the body is run at all. -/
def bodyStore? (chain : CheckChain Memory) (who : Option AccountId) (submission : Submission)
    (m : Memory) : Option Memory :=
  if Layer.level m < Layer.limit then
    match preDispatch chain who submission (Layer.opened m) with
    | (.ok _, checked) => if Layer.level checked < Layer.limit then some (Layer.opened checked) else none
    | _ => none
  else none

variable {chain : CheckChain Memory} {who : Option AccountId} {submission : Submission}
  {dispatch other : Program Memory FailedDispatch ReportedCost} {m checked : Memory}

/-- A body counts in its extrinsic only through what its layer makes of it. -/
theorem apply_congr
    (h : ∀ receipts checked, Layer.level m < Layer.limit →
      preDispatch chain who submission (Layer.opened m) = (.ok receipts, checked) →
      Layer.run FailedDispatch.ofError dispatch checked = Layer.run FailedDispatch.ofError other checked) :
    apply chain who submission dispatch m = apply chain who submission other m := by
  apply Layer.run_congr
  intro hlevel
  have hbody : checkAndDispatch chain who submission dispatch (Layer.opened m) =
      checkAndDispatch chain who submission other (Layer.opened m) := by
    unfold checkAndDispatch
    rw [Program.bind_apply, Program.bind_apply, Program.mapError_apply]
    rcases hpre : preDispatch chain who submission (Layer.opened m) with ⟨receipts | cause | _, checked⟩
    · -- from where the checks end, both go on with the same result of the inner layer
      have hlayer : (Layer.run FailedDispatch.ofError dispatch).result checked =
          ((Layer.run FailedDispatch.ofError other).result checked :
            Exit ApplyError (Except FailedDispatch ReportedCost) × Memory) := by
        unfold Program.result
        rw [h receipts checked hlevel hpre]
      simp only [Exit.mapError, Program.bind_apply, hlayer]
    · rfl
    · rfl
  rw [Program.bind_apply, Program.bind_apply, hbody]

theorem bodyStore?_of_lt {receipts : Option (List Receipt)} (hlevel : Layer.level m < Layer.limit)
    (hpre : preDispatch chain who submission (Layer.opened m) = (.ok receipts, checked))
    (hinner : Layer.level checked < Layer.limit) :
    bodyStore? chain who submission m = some (Layer.opened checked) := by
  unfold bodyStore?
  rw [if_pos hlevel, hpre]
  exact if_pos hinner

/-- Two bodies that come to the same failure cannot be told apart. -/
theorem apply_failed_congr (failed : FailedDispatch) (hdispatch : dispatch.Keeps Memory.below)
    (hother : other.Keeps Memory.below)
    (h : ∀ s, bodyStore? chain who submission m = some s →
      Layer.failure? FailedDispatch.ofError (dispatch s).1 = some failed ∧
      Layer.failure? FailedDispatch.ofError (other s).1 = some failed) :
    apply chain who submission dispatch m = apply chain who submission other m := by
  apply apply_congr
  intro receipts checked hlevel hpre
  by_cases hinner : Layer.level checked < Layer.limit
  · obtain ⟨hfailed, hfailed'⟩ := h _ (bodyStore?_of_lt hlevel hpre hinner)
    rw [Layer.run_failed _ hdispatch hinner hfailed, Layer.run_failed _ hother hinner hfailed']
  · have hle := UInt32.not_lt.mp hinner
    rw [Layer.run_of_le _ hle, Layer.run_of_le _ hle]

section LastLevel

variable {parameters : Parameters} {era : Era} {nonce : UInt64} {receipts : Option (List Receipt)}

/-- The checks leave the count of the layers alone. -/
theorem level_of_preDispatch
    (hpre : preDispatch (CheckChain.standard parameters era nonce) who submission (Layer.opened m) =
      (.ok receipts, checked)) : Layer.level checked = Layer.level m + 1 := by
  have hchain : (CheckChain.standard parameters era nonce).Keeps (Store.at Layer.levelKey) := by
    apply CheckChain.keeps_standard
    · intro id value n
      exact (Memory.get?_set n _ value _).trans (if_neg (Books.Item.key_ne (.account id) .level nofun))
    · intro key hkey value n
      exact (Memory.get?_set n key value _).trans
        (if_neg (Books.levelKey_ne (Books.mem_tallyKeys hkey)).symm)
  rw [Layer.level_congr ((keeps_preDispatch hchain who submission).of_eq hpre), Layer.level_opened]

theorem full_of_preDispatch (hlevel : Layer.level m = 254)
    (hpre : preDispatch (CheckChain.standard parameters era nonce) who submission (Layer.opened m) =
      (.ok receipts, checked)) : Layer.limit ≤ Layer.level checked := by
  rw [level_of_preDispatch hpre, hlevel]
  decide

theorem extrinsicIndex_of_preDispatch
    (hpre : preDispatch (CheckChain.standard parameters era nonce) who submission (Layer.opened m) =
      (.ok receipts, checked)) : Books.extrinsicIndex.get checked = Books.extrinsicIndex.get m := by
  have hmem := Books.extrinsicIndex_mem_tallyKeys
  have hmeter : Books.extrinsicIndex.key ∉ Books.meterKeys := fun h => Books.extrinsicIndex_ne h rfl
  have hchain : (CheckChain.standard parameters era nonce).Keeps (Store.at Books.extrinsicIndex.key) :=
    CheckChain.keeps_at_standard hmem hmeter
  have hkept := (keeps_preDispatch hchain who submission).of_eq hpre
  exact Cell.get_congr (hkept.trans (Layer.get?_opened (Books.levelKey_ne hmem) m))

/-- With one level left the layer of the extrinsic takes it up, and none is left for the body. -/
theorem bodyStore?_last (hlevel : Layer.level m = 254) :
    bodyStore? (CheckChain.standard parameters era nonce) who submission m = none := by
  have hopen : Layer.level m < Layer.limit := by rw [hlevel]; decide
  unfold bodyStore?
  rw [if_pos hopen]
  rcases hpre : preDispatch (CheckChain.standard parameters era nonce) who submission
    (Layer.opened m) with ⟨receipts | cause | _, checked⟩
  · have hfull := full_of_preDispatch hlevel hpre
    exact if_neg (UInt32.not_lt.mpr hfull)
  · rfl
  · rfl

/-- What was charged is read off the cells alone, so it survives a change of everything else. -/
theorem charged_of_get?_eq {s t : Memory}
    (hs : ∀ key, Layer.levelKey ≠ key → Store.get? s key = Store.get? m key)
    (ht : ∀ key ∈ Books.meterKeys, Store.get? t key = Store.get? checked key)
    (haccount : ∀ id, Store.get? t (Books.account.cell id).key =
      Store.get? checked (Books.account.cell id).key)
    (h : CheckChain.Charged parameters nonce who submission s checked) :
    CheckChain.Charged parameters nonce who submission m t where
  -- what was found in the layer was found in the store around it: the layer writes the level key alone
  nonce id hid := by
    obtain ⟨record, hrecord, hnonce, hroom, hspent⟩ := h.nonce id hid
    have hbefore := hs _ (Books.Item.key_ne .level (.account id) nofun)
    exact ⟨record, (Cell.get_congr hbefore).symm.trans hrecord, hnonce, hroom,
      (Cell.get_congr (haccount id)).trans hspent⟩
  length := by
    obtain ⟨current, next, hcurrent, hnext, hwritten⟩ := h.length
    have hmem := Books.extrinsicsLength_mem_meterKeys
    have hbefore := hs _ (Books.levelKey_ne (Books.mem_tallyKeys hmem))
    exact ⟨current, next, (Cell.get_congr hbefore).symm.trans hcurrent, hnext,
      (Cell.get_congr (ht _ hmem)).trans hwritten⟩
  weight := by
    obtain ⟨ledger, charged, hledger, haccepted, hwritten⟩ := h.weight
    have hmem := Books.blockWeight_mem_meterKeys
    have hbefore := hs _ (Books.levelKey_ne (Books.mem_tallyKeys hmem))
    exact ⟨ledger, charged, (Cell.get_congr hbefore).symm.trans hledger, haccepted,
      (Cell.get_congr (ht _ hmem)).trans hwritten⟩

/-- On the last level the body finds no layer to run in. -/
theorem checkAndDispatch_last (hlevel : Layer.level m = 254)
    (hpre : preDispatch (CheckChain.standard parameters era nonce) who submission (Layer.opened m) =
      (.ok receipts, checked)) :
    checkAndDispatch (CheckChain.standard parameters era nonce) who submission dispatch
        (Layer.opened m) =
      (.ok (receipts, .error (FailedDispatch.ofError .layerLimitReached)), checked) := by
  have hfull := full_of_preDispatch hlevel hpre
  -- the layer of the body is refused, which counts as a failure of the body at no cost of its own
  have hlayer : Layer.run FailedDispatch.ofError dispatch checked =
      (.ofExcept (.error (FailedDispatch.ofError .layerLimitReached)), checked) :=
    Layer.run_of_le _ hfull
  have hchecks : (preDispatch (CheckChain.standard parameters era nonce) who submission).mapError
      ApplyError.rejected (Layer.opened m) = (.ok receipts, checked) := Program.mapError_ok hpre
  exact (Program.bind_ok hchecks).trans (Program.bind_ok (Program.result_ofExcept hlayer))

/-- A failure that reports no cost settles at what was declared. -/
theorem settle_ofError {error : DispatchError} {index : UInt32}
    (hlength : ∀ list, receipts = some list → list.length = 7)
    (hcls : submission.cost.cls ≠ .mandatory)
    (hindex : Books.extrinsicIndex.get checked = .ok index) :
    settle (CheckChain.standard parameters era nonce) submission receipts
        (.error (FailedDispatch.ofError error)) checked =
      (.ok (.error error), Books.extrinsicIndex.put (index.saturatingAdd 1) checked) := by
  have hbad : ¬ isBadMandatory submission.cost.cls
      (dispatchResult (.error (FailedDispatch.ofError error))) = true :=
    fun h => hcls (of_decide_eq_true h)
  have hnote : (Books.noteApplied : Program Memory StoreError Unit) checked =
      (.ok (), Books.extrinsicIndex.put (index.saturatingAdd 1) checked) := Cell.modify_ok hindex
  -- who reports no weight gets nothing back, so all that is left to do is to count the extrinsic
  unfold settle
  rw [CheckChain.postDispatch_standard hlength, Check.refund_of_none rfl, if_neg hbad]
  exact Program.bind_ok (Program.mapError_ok hnote)

/-- With one level left an extrinsic that passes its checks is charged in full and fails, whatever its
body is. -/
theorem apply_last (hlevel : Layer.level m = 254) (hcls : submission.cost.cls ≠ .mandatory)
    (hpre : preDispatch (CheckChain.standard parameters era nonce) who submission (Layer.opened m) =
      (.ok receipts, checked))
    {index : UInt32} (hindex : Books.extrinsicIndex.get m = .ok index) :
    ∃ t, CheckChain.Charged parameters nonce who submission m t ∧
      ∀ dispatch, apply (CheckChain.standard parameters era nonce) who submission dispatch m =
        (.ok (.error .layerLimitReached), t) := by
  have hopen : Layer.level m < Layer.limit := by rw [hlevel]; decide
  -- no body is run, so one that does nothing stands for all of them
  have hsame (dispatch : Program Memory FailedDispatch ReportedCost) :
      apply (CheckChain.standard parameters era nonce) who submission dispatch m =
        apply (CheckChain.standard parameters era nonce) who submission Program.abort m := by
    apply apply_congr
    intro _ left _ hleft
    have hfull := full_of_preDispatch hlevel hleft
    rw [Layer.run_of_le _ hfull, Layer.run_of_le _ hfull]
  have hindexChecked : Books.extrinsicIndex.get checked = .ok index :=
    (extrinsicIndex_of_preDispatch hpre).trans hindex
  have hchecked : checkAndDispatch (CheckChain.standard parameters era nonce) who submission
      Program.abort (Layer.opened m) = _ := checkAndDispatch_last hlevel hpre
  have hinner := (inner_of_checked hchecked).trans
    (settle_ofError (CheckChain.length_receipts hpre) hcls hindexChecked)
  obtain ⟨merged, hrun, -, hmerged⟩ := Layer.run_ok ApplyError.layer
    (keeps_below_inner CheckChain.keeps_below_standard .abort who submission) hopen hinner
  refine ⟨Layer.lower merged, ?_, fun dispatch => (hsame dispatch).trans hrun⟩
  -- after the checks only the count and the level key are written
  have hafter (key : Key) (hne : Layer.levelKey ≠ key) (hindexKey : Books.extrinsicIndex.key ≠ key) :
      Store.get? (Layer.lower merged) key = Store.get? checked key :=
    ((Layer.get?_lower hne merged).trans (hmerged key)).trans (Cell.get?_put_of_ne hindexKey _ _)
  apply charged_of_get?_eq (fun key hkey => Layer.get?_opened hkey m)
  · intro key hkey
    exact hafter key (Books.levelKey_ne (Books.mem_tallyKeys hkey)) (Books.extrinsicIndex_ne hkey)
  · intro id
    exact hafter _ (Books.Item.key_ne .level (.account id) nofun)
      ((Books.account_ne Books.extrinsicIndex_mem_tallyKeys id).symm)
  · exact CheckChain.charged_of_preDispatch hpre

end LastLevel

/-- A failed dispatch shows in nothing but its error and the cost that it reported. Two bodies that fail
alike leave the same store, whatever each of them wrote; a body that aborts is as good as one that fails
at once with the reason of the layer; and with one level left no body runs, but the extrinsic is included
and charged in full. -/
theorem failed_dispatch_shows_only_cost (parameters : Parameters) (era : Era) (nonce : UInt64)
    (who : Option AccountId) (submission : Submission) (m : Memory) :
    (∀ (body other : Script FailedDispatch ReportedCost) (failed : FailedDispatch),
      (∀ s, bodyStore? (CheckChain.standard parameters era nonce) who submission m = some s →
        (body.run s).1 = .error failed ∧ (other.run s).1 = .error failed) →
      apply (CheckChain.standard parameters era nonce) who submission body.run m =
        apply (CheckChain.standard parameters era nonce) who submission other.run m) ∧
    (∀ body : Script FailedDispatch ReportedCost,
      (∀ s, bodyStore? (CheckChain.standard parameters era nonce) who submission m = some s →
        (body.run s).1 = .aborted) →
      apply (CheckChain.standard parameters era nonce) who submission body.run m =
        apply (CheckChain.standard parameters era nonce) who submission
          (Script.fail (FailedDispatch.ofError (.other Layer.abortReason))).run m) ∧
    (Layer.level m = 254 → submission.cost.cls ≠ .mandatory →
      (∃ receipts, (preDispatch (CheckChain.standard parameters era nonce) who submission
        (Layer.opened m)).1 = .ok receipts) →
      (∃ index, Books.extrinsicIndex.get m = .ok index) →
      bodyStore? (CheckChain.standard parameters era nonce) who submission m = none ∧
      ∃ t, CheckChain.Charged parameters nonce who submission m t ∧
        ∀ dispatch, apply (CheckChain.standard parameters era nonce) who submission dispatch m =
          (.ok (.error .layerLimitReached), t)) := by
  refine ⟨fun body other failed h => ?_, fun body h => ?_, ?_⟩
  · apply apply_failed_congr failed body.keeps_below_run other.keeps_below_run
    intro s hs
    obtain ⟨hbody, hother⟩ := h s hs
    rw [hbody, hother]
    exact ⟨rfl, rfl⟩
  · apply apply_failed_congr (FailedDispatch.ofError (.other Layer.abortReason)) body.keeps_below_run
      (Script.keeps_below_run _)
    intro s hs
    rw [h s hs]
    exact ⟨rfl, rfl⟩
  · rintro hlevel hcls ⟨receipts, hpre⟩ ⟨index, hindex⟩
    exact ⟨bodyStore?_last hlevel, apply_last hlevel hcls (Prod.ext hpre rfl) hindex⟩

def oneLevelLeft : Memory := Store.set Sample.memory Layer.levelKey (Codec.u32.encode 254)

/-- A body that writes over the ledger of the block before it fails. The script behind it fails like it at once. -/
def writeThenFail : Script FailedDispatch ReportedCost :=
  .set Books.blockWeight.key [1, 2, 3] (.fail ⟨{ weight := some ⟨5, 0⟩ }, .badOrigin⟩)

def failAtOnce : Script FailedDispatch ReportedCost := .fail ⟨{ weight := some ⟨5, 0⟩ }, .badOrigin⟩

theorem writeThenFail_shows_only_cost :
    let chain : CheckChain Memory := CheckChain.standard Sample.parameters .immortal 0
    let submission : Submission := ⟨[], ⟨⟨30, 4⟩, .normal, .paid⟩, 9⟩
    (bodyStore? chain (some (Sample.account 1)) submission Sample.memory).isSome = true ∧
    (∀ s : Memory, (writeThenFail.run s).1 = .error ⟨{ weight := some ⟨5, 0⟩ }, .badOrigin⟩ ∧
      (failAtOnce.run s).1 = .error ⟨{ weight := some ⟨5, 0⟩ }, .badOrigin⟩) ∧
    apply chain (some (Sample.account 1)) submission writeThenFail.run Sample.memory =
      apply chain (some (Sample.account 1)) submission failAtOnce.run Sample.memory ∧
    Layer.level oneLevelLeft = 254 ∧ submission.cost.cls ≠ .mandatory ∧
    (∃ receipts, (preDispatch chain (some (Sample.account 1)) submission (Layer.opened oneLevelLeft)).1 =
      .ok receipts) ∧
    (∃ index, Books.extrinsicIndex.get oneLevelLeft = .ok index) ∧
    ∃ t, CheckChain.Charged Sample.parameters 0 (some (Sample.account 1)) submission oneLevelLeft t ∧
      apply chain (some (Sample.account 1)) submission writeThenFail.run oneLevelLeft =
        (.ok (.error .layerLimitReached), t) := by
  intro chain submission
  have hstore : (bodyStore? chain (some (Sample.account 1)) submission Sample.memory).isSome = true := by
    decide +kernel
  have hfails (s : Memory) : (writeThenFail.run s).1 = .error ⟨{ weight := some ⟨5, 0⟩ }, .badOrigin⟩ ∧
      (failAtOnce.run s).1 = .error ⟨{ weight := some ⟨5, 0⟩ }, .badOrigin⟩ := ⟨rfl, rfl⟩
  have hlevel : Layer.level oneLevelLeft = 254 := by decide +kernel
  have hcls : submission.cost.cls ≠ .mandatory := by decide
  have hpre : ∃ receipts, (preDispatch chain (some (Sample.account 1)) submission
      (Layer.opened oneLevelLeft)).1 = .ok receipts :=
    ⟨some (List.replicate 5 Receipt.empty ++ [⟨Codec.u64.encode 0⟩, Receipt.empty]),
      by decide +kernel⟩
  have hindex : ∃ index, Books.extrinsicIndex.get oneLevelLeft = .ok index := ⟨0, by decide +kernel⟩
  obtain ⟨hsame, -, -⟩ := failed_dispatch_shows_only_cost Sample.parameters .immortal 0
    (some (Sample.account 1)) submission Sample.memory
  obtain ⟨-, -, hlast⟩ := failed_dispatch_shows_only_cost Sample.parameters .immortal 0
    (some (Sample.account 1)) submission oneLevelLeft
  obtain ⟨-, t, hcharged, hall⟩ := hlast hlevel hcls hpre hindex
  exact ⟨hstore, hfails, hsame writeThenFail failAtOnce _ fun s _ => hfails s, hlevel, hcls, hpre, hindex, t,
    hcharged, hall _⟩

end BlockRuntime.Extrinsic

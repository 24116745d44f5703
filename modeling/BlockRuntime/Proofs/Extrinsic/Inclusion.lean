import BlockRuntime.Proofs.Check.Phases

namespace BlockRuntime.Extrinsic

/-- What the body of an extrinsic reports when the extrinsic is applied: the cost in the outcome that the
body has behind the checks, in the layers of its extrinsic. -/
def reported (chain : CheckChain Memory) (who : Option AccountId) (submission : Submission)
    (dispatch : Program Memory FailedDispatch ReportedCost) (m : Memory) : ReportedCost :=
  match (checkAndDispatch chain who submission dispatch (Layer.opened m)).1 with
  | .ok (_, outcome) => reportedCost outcome
  | _ => default

variable {who : Option AccountId} {submission : Submission} {result : DispatchResult} {m t : Memory}

/-- The steps of an extrinsic that is applied. -/
theorem apply_eq_ok {chain : CheckChain Memory} {dispatch : Program Memory FailedDispatch ReportedCost}
    (hchain : chain.Keeps Memory.below) (hdispatch : dispatch.Keeps Memory.below)
    (h : apply chain who submission dispatch m = (.ok result, t)) :
    ∃ receipts outcome checked ran settled counted,
      preDispatch chain who submission (Layer.opened m) = (.ok receipts, checked) ∧
      Layer.run FailedDispatch.ofError dispatch checked = (.ofExcept outcome, ran) ∧
      chain.postDispatch receipts
        ⟨submission.cost, reported chain who submission dispatch m, submission.length, result⟩ ran =
          (.ok (), settled) ∧
      Books.noteApplied settled = (.ok (), counted) ∧
      ∀ key, Layer.levelKey ≠ key → Store.get? t key = Store.get? counted key := by
  obtain ⟨counted, hinner, hkept⟩ :=
    Layer.run_eq_ok (keeps_below_inner hchain hdispatch who submission) h
  obtain ⟨⟨receipts, outcome⟩, ran, hran, hsettle⟩ := Program.bind_eq_ok hinner
  have hreported : reported chain who submission dispatch m = reportedCost outcome := by
    unfold reported
    rw [hran]
  unfold checkAndDispatch at hran
  obtain ⟨_, checked, hchecked, hrest⟩ := Program.bind_eq_ok hran
  obtain ⟨_, _, houtcome, hdone⟩ := Program.bind_eq_ok hrest
  cases hdone
  unfold settle at hsettle
  obtain ⟨⟨⟩, settled, hpost, hcount⟩ := Program.bind_eq_ok hsettle
  -- a failed mandatory dispatch is rejected before it is counted
  by_cases hbad : isBadMandatory submission.cost.cls (dispatchResult outcome)
  · rw [if_pos hbad] at hcount
    cases hcount
  · rw [if_neg hbad] at hcount
    obtain ⟨⟨⟩, _, hnote, hdone⟩ := Program.bind_eq_ok hcount
    cases hdone
    refine ⟨receipts, outcome, checked, ran, settled, counted, Program.mapError_eq_ok hchecked,
      Program.result_eq_ok houtcome, ?_, Program.mapError_eq_ok hnote, hkept⟩
    rw [hreported]
    exact Program.mapError_eq_ok hpost

section Chain

variable {chain : CheckChain Memory} {body : Script FailedDispatch ReportedCost}
  {allowed : Key → Prop} {key : Key}

/-- An extrinsic that is not applied leaves every key but the level key as it was. -/
theorem get?_apply_of_rejected (hbelow : chain.Keeps Memory.below)
    (h : ∀ result, (apply chain who submission body.run m).1 ≠ .ok result)
    (hkey : Layer.levelKey ≠ key) :
    Store.get? (apply chain who submission body.run m).2 key = Store.get? m key :=
  Layer.get?_run_of_not_ok (keeps_below_inner hbelow body.keeps_below_run who submission) hkey h

/-- An extrinsic leaves alone a key that its checks and its body leave alone, the level key and the index
apart. -/
theorem keeps_at_apply_of_keeps (hbelow : chain.Keeps Memory.below) (hat : chain.Keeps (Store.at key))
    (hbody : body.WritesOnly allowed) (hallowed : ¬ allowed key) (hlevel : Layer.levelKey ≠ key)
    (hindex : Books.extrinsicIndex.key ≠ key) :
    (apply chain who submission body.run : Program Memory ApplyError DispatchResult).Keeps
      (Store.at key) := by
  have hlayer : (Layer.run FailedDispatch.ofError (body.run : Program Memory _ _)).Keeps
      (Store.at key) :=
    Layer.keeps_at_run _ hlevel body.keeps_below_run (body.keeps_at_run hbody hlevel hallowed)
  apply Layer.keeps_at_run _ hlevel
    (keeps_below_inner hbelow body.keeps_below_run who submission)
  exact .bind (keeps_checkAndDispatch hat hlayer who submission) fun _ =>
    keeps_settle hat (Cell.keeps_modify hindex _) submission _ _

/-- Whatever becomes of an extrinsic, an index that could be read before it can be read behind it: it is
left alone if the extrinsic is not applied, and written anew if it is. -/
theorem index_readable_apply (hbelow : chain.Keeps Memory.below) {index : UInt32}
    (hindex : Books.extrinsicIndex.get m = .ok index) :
    ∃ index, Books.extrinsicIndex.get (apply chain who submission body.run m).2 = .ok index := by
  have hlevel := Books.levelKey_ne Books.extrinsicIndex_mem_tallyKeys
  by_cases hok : ∃ result, (apply chain who submission body.run m).1 = .ok result
  · obtain ⟨result, hok⟩ := hok
    have happly : apply chain who submission body.run m =
        (.ok result, (apply chain who submission body.run m).2) := Prod.ext hok rfl
    obtain ⟨-, -, -, -, settled, counted, -, -, -, hnote, hkept⟩ :=
      apply_eq_ok hbelow body.keeps_below_run happly
    obtain ⟨found, -, rfl, -⟩ := Cell.modify_eq_ok hnote
    refine ⟨found.saturatingAdd 1, ?_⟩
    rw [Cell.get_congr (hkept _ hlevel)]
    exact Cell.get_put Codec.u32_lawful _ _
  · have hsame := get?_apply_of_rejected hbelow (fun result h => hok ⟨result, h⟩) hlevel
    exact ⟨index, (Cell.get_congr hsame).trans hindex⟩

end Chain

section Standard

variable {parameters : Parameters} {era : Era} {nonce : UInt64}
  {body : Script FailedDispatch ReportedCost} {allowed : Key → Prop} {key : Key}

theorem get?_apply_of_not_ok
    (h : ∀ result, (apply (CheckChain.standard parameters era nonce) who submission body.run m).1 ≠
      .ok result) (hkey : Layer.levelKey ≠ key) :
    Store.get? (apply (CheckChain.standard parameters era nonce) who submission body.run m).2 key =
      Store.get? m key :=
  get?_apply_of_rejected CheckChain.keeps_below_standard h hkey

/-- An extrinsic leaves alone a key of the tally that its body leaves alone, unless the resource check
or the count of the applied extrinsics writes it. -/
theorem keeps_at_apply (hbody : body.WritesOnly allowed) (hkey : key ∈ Books.tallyKeys)
    (hallowed : ¬ allowed key) (hmeter : key ∉ Books.meterKeys) (hindex : Books.extrinsicIndex.key ≠ key) :
    (apply (CheckChain.standard parameters era nonce) who submission body.run :
      Program Memory ApplyError DispatchResult).Keeps (Store.at key) := by
  have hat : (CheckChain.standard parameters era nonce).Keeps (Store.at key) :=
    CheckChain.keeps_at_standard hkey hmeter
  exact keeps_at_apply_of_keeps CheckChain.keeps_below_standard hat hbody hallowed
    (Books.levelKey_ne hkey) hindex

/-- The steps of an extrinsic that the standard chain lets through, as far as they touch the tally: the
charge, the body, the refund and the count. -/
theorem steps_of_apply (hbody : body.WritesOnly allowed)
    (h : apply (CheckChain.standard parameters era nonce) who submission body.run m =
      (.ok result, t)) :
    ∃ fronted charged ran settled counted : Memory,
      (∀ key ∈ Books.tallyKeys, Store.get? fronted key = Store.get? m key) ∧
      Check.chargeResources parameters.blockLength parameters.blockWeights submission fronted =
        (.ok (), charged) ∧
      (∀ key ∈ Books.tallyKeys, ¬ allowed key → Store.get? ran key = Store.get? charged key) ∧
      Check.refund ⟨submission.cost,
        reported (CheckChain.standard parameters era nonce) who submission body.run m,
        submission.length, result⟩ ran = (.ok (), settled) ∧
      Books.noteApplied settled = (.ok (), counted) ∧
      ∀ key ∈ Books.tallyKeys, Store.get? t key = Store.get? counted key := by
  obtain ⟨receipts, outcome, charged, ran, settled, counted, hpre, hran, hpost, hnote, hkept⟩ :=
    apply_eq_ok CheckChain.keeps_below_standard body.keeps_below_run h
  obtain ⟨fronted, hfront, hcharge⟩ := CheckChain.preDispatch_standard_eq_ok hpre
  -- what the outer layer did before its body and does after it shows under the level key alone
  refine ⟨fronted, charged, ran, settled, counted, fun key hkey => ?_, hcharge,
    fun key hkey hallowed => ?_, CheckChain.postDispatch_standard_eq_ok hpost, hnote,
    fun key hkey => hkept key (Books.levelKey_ne hkey)⟩
  · exact (hfront key hkey).trans (Layer.get?_opened (Books.levelKey_ne hkey) m)
  · have hlevel := Books.levelKey_ne hkey
    have hlayer := Layer.keeps_at_run FailedDispatch.ofError hlevel body.keeps_below_run
      (body.keeps_at_run hbody hlevel hallowed)
    exact hlayer.of_eq hran

/-- What an applied extrinsic has found within the limits, and what it leaves on the meters. -/
theorem meters_of_apply (hbody : body.WritesOnly allowed)
    (hallowed : ∀ key ∈ Books.meterKeys, ¬ allowed key)
    (h : apply (CheckChain.standard parameters era nonce) who submission body.run m =
      (.ok result, t)) :
    ∃ current next ledger charged,
      Books.extrinsicsLength.get m = .ok current ∧
      parameters.blockLength.charge submission.cost.cls current submission.length = .ok next ∧
      parameters.blockWeights.checkCap submission.cost = .ok () ∧
      Books.blockWeight.get m = .ok ledger ∧
      parameters.blockWeights.charge ledger submission.cost = .ok charged ∧
      Books.extrinsicsLength.get t = .ok next ∧
      Books.blockWeight.get t = .ok (charged.reduce submission.cost.cls
        ((reported (CheckChain.standard parameters era nonce) who submission body.run m).unspent
          submission.cost)) := by
  obtain ⟨fronted, _, ran, settled, counted, hfront, hcharge, hran, hrefund, hnote, hkept⟩ :=
    steps_of_apply hbody h
  obtain ⟨current, next, ledger, charged, hcurrent, hnext, hcap, hledger, haccepted, rfl⟩ :=
    Check.chargeResources_eq_ok hcharge
  have hlengthMem := Books.extrinsicsLength_mem_meterKeys
  have hweightMem := Books.blockWeight_mem_meterKeys
  have hafter (key : Key) (hkey : key ∈ Books.meterKeys) :
      Store.get? t key = Store.get? settled key :=
    (hkept key (Books.mem_tallyKeys hkey)).trans
      ((Cell.keeps_modify (Books.extrinsicIndex_ne hkey) _).of_eq hnote)
  refine ⟨current, next, ledger, charged, ?_, hnext, hcap, ?_, haccepted, ?_, ?_⟩
  · rw [← hcurrent]
    exact (Cell.get_congr (hfront _ (Books.mem_tallyKeys hlengthMem))).symm
  · rw [← hledger]
    exact (Cell.get_congr (hfront _ (Books.mem_tallyKeys hweightMem))).symm
  · -- the ledger is written after the length, by the charge and again by the refund
    have hne := Books.Item.key_ne .blockWeight .extrinsicsLength nofun
    have hsettled := (Check.keeps_refund_at hne).of_eq hrefund
    apply Cell.get_of_encode Codec.u32_lawful
    calc
      Store.get? t Books.extrinsicsLength.key = Store.get? ran Books.extrinsicsLength.key :=
        (hafter _ hlengthMem).trans hsettled
      _ = Store.get? (Books.extrinsicsLength.put next fronted) Books.extrinsicsLength.key :=
        (hran _ (Books.mem_tallyKeys hlengthMem) (hallowed _ hlengthMem)).trans
          (Cell.get?_put_of_ne hne _ _)
      _ = some (Codec.u32.encode next) := Cell.get?_put_self _ _ _
  · -- the body spares the ledger, so the refund finds the charge on it
    have hledgerRan : Books.blockWeight.get ran = .ok charged := by
      apply Cell.get_of_encode WeightLedger.codec_lawful
      exact (hran _ (Books.mem_tallyKeys hweightMem) (hallowed _ hweightMem)).trans
        (Cell.get?_put_self _ _ _)
    rw [Cell.get_congr (hafter _ hweightMem)]
    exact Check.refund_eq_ok hrefund hledgerRan

/-- An applied extrinsic is counted, if its body leaves the count alone. -/
theorem index_of_apply (hbody : body.WritesOnly allowed) (hallowed : ¬ allowed Books.extrinsicIndex.key)
    (h : apply (CheckChain.standard parameters era nonce) who submission body.run m =
      (.ok result, t)) :
    ∃ index, Books.extrinsicIndex.get m = .ok index ∧
      Books.extrinsicIndex.get t = .ok (index.saturatingAdd 1) := by
  obtain ⟨fronted, _, ran, settled, counted, hfront, hcharge, hran, hrefund, hnote, hkept⟩ :=
    steps_of_apply hbody h
  obtain ⟨_, next, _, charged, -, -, -, -, -, rfl⟩ := Check.chargeResources_eq_ok hcharge
  have hmem := Books.extrinsicIndex_mem_tallyKeys
  have hlength := (Books.extrinsicIndex_ne Books.extrinsicsLength_mem_meterKeys).symm
  have hweight := (Books.extrinsicIndex_ne Books.blockWeight_mem_meterKeys).symm
  have hsettled : Store.get? settled Books.extrinsicIndex.key =
      Store.get? m Books.extrinsicIndex.key := by
    calc
      Store.get? settled Books.extrinsicIndex.key = Store.get? ran Books.extrinsicIndex.key :=
        (Check.keeps_refund_at hweight).of_eq hrefund
      _ = Store.get? (Books.blockWeight.put charged (Books.extrinsicsLength.put next fronted))
          Books.extrinsicIndex.key := hran _ hmem hallowed
      _ = Store.get? fronted Books.extrinsicIndex.key :=
        (Cell.get?_put_of_ne hweight _ _).trans (Cell.get?_put_of_ne hlength _ _)
      _ = Store.get? m Books.extrinsicIndex.key := hfront _ hmem
  obtain ⟨index, hindex, rfl, -⟩ := Cell.modify_eq_ok hnote
  refine ⟨index, (Cell.get_congr hsettled).symm.trans hindex, ?_⟩
  rw [Cell.get_congr (hkept _ hmem)]
  exact Cell.get_put Codec.u32_lawful _ _

/-- An applied extrinsic has found every account as the checks have left it, if its body leaves the
accounts alone. -/
theorem accounts_of_apply (hbody : body.WritesOnly allowed)
    (hallowed : ∀ id, ¬ allowed (Books.account.cell id).key)
    (h : apply (CheckChain.standard parameters era nonce) who submission body.run m =
      (.ok result, t)) :
    ∃ receipts checked, preDispatch (CheckChain.standard parameters era nonce) who submission
        (Layer.opened m) = (.ok receipts, checked) ∧
      ∀ id, Store.get? t (Books.account.cell id).key =
        Store.get? checked (Books.account.cell id).key := by
  obtain ⟨receipts, outcome, checked, ran, settled, counted, hpre, hran, hpost, hnote, hkept⟩ :=
    apply_eq_ok CheckChain.keeps_below_standard body.keeps_below_run h
  refine ⟨receipts, checked, hpre, fun id => ?_⟩
  have hlevel := Books.Item.key_ne .level (.account id) nofun
  have hweight := (Books.account_ne (Books.mem_tallyKeys Books.blockWeight_mem_meterKeys) id).symm
  have hindex := (Books.account_ne Books.extrinsicIndex_mem_tallyKeys id).symm
  have hlayer := Layer.keeps_at_run FailedDispatch.ofError hlevel body.keeps_below_run
    (body.keeps_at_run hbody hlevel (hallowed id))
  have hrefund := CheckChain.postDispatch_standard_eq_ok hpost
  calc
    Store.get? t (Books.account.cell id).key = Store.get? counted (Books.account.cell id).key :=
      hkept _ hlevel
    _ = Store.get? settled (Books.account.cell id).key := (Cell.keeps_modify hindex _).of_eq hnote
    _ = Store.get? ran (Books.account.cell id).key := (Check.keeps_refund_at hweight).of_eq hrefund
    _ = Store.get? checked (Books.account.cell id).key := hlayer.of_eq hran

/-- The signer of an applied extrinsic has spent the nonce of the extrinsic. -/
theorem signer_of_apply {id : AccountId} (hbody : body.WritesOnly allowed)
    (hallowed : ∀ id, ¬ allowed (Books.account.cell id).key)
    (h : apply (CheckChain.standard parameters era nonce) (some id) submission body.run m =
      (.ok result, t)) :
    ¬ id.isZero = true ∧ ∃ record, (Books.account.cell id).get m = .ok record ∧
      record.nonce = nonce ∧ nonce.toNat + 1 < UInt64.size ∧
      (Books.account.cell id).get t = .ok { record with nonce := nonce + 1 } := by
  obtain ⟨receipts, checked, hpre, hafter⟩ := accounts_of_apply hbody hallowed h
  refine ⟨(CheckChain.signed_of_preDispatch hpre).2.1, ?_⟩
  obtain ⟨record, hrecord, hnonce, hroom, hspent⟩ :=
    (CheckChain.charged_of_preDispatch hpre).nonce id rfl
  have hbefore := Layer.get?_opened (Books.Item.key_ne .level (.account id) nofun) m
  exact ⟨record, (Cell.get_congr hbefore).symm.trans hrecord, hnonce, hroom,
    (Cell.get_congr (hafter id)).trans hspent⟩

/-- An applied extrinsic leaves every account but that of its signer as it was. -/
theorem get?_account_of_apply {id : AccountId} (hbody : body.WritesOnly allowed)
    (hallowed : ∀ id, ¬ allowed (Books.account.cell id).key)
    (h : apply (CheckChain.standard parameters era nonce) who submission body.run m =
      (.ok result, t)) (hid : who ≠ some id) :
    Store.get? t (Books.account.cell id).key = Store.get? m (Books.account.cell id).key := by
  obtain ⟨receipts, checked, hpre, hafter⟩ := accounts_of_apply hbody hallowed h
  calc
    Store.get? t (Books.account.cell id).key = Store.get? checked (Books.account.cell id).key :=
      hafter id
    _ = Store.get? (Layer.opened m) (Books.account.cell id).key :=
      CheckChain.get?_account_preDispatch hpre hid
    _ = Store.get? m (Books.account.cell id).key :=
      Layer.get?_opened (Books.Item.key_ne .level (.account id) nofun) m

end Standard

end BlockRuntime.Extrinsic

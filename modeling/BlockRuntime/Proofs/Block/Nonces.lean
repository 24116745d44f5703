import BlockRuntime.Proofs.Block.Run
import Mathlib.Data.List.Nodup

namespace BlockRuntime.Block

def Request.SparesAccounts (request : Request) : Prop :=
  request.body.WritesOnly fun key => ∀ id, (Books.account.cell id).key ≠ key

def Step.signature? (parameters : Parameters) (m : Memory) : Step → Option (AccountId × UInt64)
  | .apply request =>
    match (request.apply parameters m).1 with
    | .ok _ => request.who.map fun who => (who, request.nonce)
    | _ => none
  | _ => none

def signatures (parameters : Parameters) : List Step → Progress → List (AccountId × UInt64)
  | [], _ => []
  | next :: steps, progress =>
    (next.signature? parameters progress.store).toList ++
      signatures parameters steps (step parameters progress next)

def noncesOf (who : AccountId) (signed : List (AccountId × UInt64)) : List UInt64 :=
  (signed.filter fun pair => pair.1 = who).map Prod.snd

variable {parameters : Parameters} {progress : Progress} {request : Request} {who : AccountId}
  {m t : Memory} {record : AccountRecord}

section Steps

theorem account_start (n : UInt64) (parent : BlockHash) (who : AccountId) (m : Memory) :
    Store.get? (start parameters n parent m).2 (Books.account.cell who).key =
      Store.get? m (Books.account.cell who).key := by
  have hweight := Books.mem_tallyKeys Books.blockWeight_mem_meterKeys
  exact keeps_start n parent ((Books.account_ne Books.number_mem_tallyKeys who).symm)
    (fun n => Books.Item.key_ne (.blockHash n) (.account who) nofun)
    ((Books.account_ne Books.extrinsicIndex_mem_tallyKeys who).symm) ((Books.account_ne hweight who).symm) m

theorem account_finish (who : AccountId) (m : Memory) :
    Store.get? (finish parameters m).2 (Books.account.cell who).key =
      Store.get? m (Books.account.cell who).key := by
  have hlength := Books.mem_tallyKeys Books.extrinsicsLength_mem_meterKeys
  exact keeps_finish (fun n => Books.Item.key_ne (.blockHash n) (.account who) nofun)
    ((Books.account_ne Books.extrinsicIndex_mem_tallyKeys who).symm) ((Books.account_ne hlength who).symm) m

theorem signature?_of_ok {result : DispatchResult} (h : request.apply parameters m = (.ok result, t)) :
    (Step.apply request).signature? parameters m = request.who.map fun who => (who, request.nonce) := by
  unfold Step.signature?
  simp only [h]

theorem signature?_of_not_ok (h : ∀ result, (request.apply parameters m).1 ≠ .ok result) :
    (Step.apply request).signature? parameters m = none := by
  unfold Step.signature?
  rcases hr : (request.apply parameters m).1 with result | cause | _
  · exact absurd hr (h result)
  · simp only [hr]
  · simp only [hr]

/-- A step that an account signs spends the nonce of the account; no other step touches it. -/
theorem step_account (parameters : Parameters) (progress : Progress) (next : Step) (who : AccountId)
    (hspares : ∀ request, next = .apply request → request.SparesAccounts) :
    (¬ who.isZero = true ∧ ∃ record, (Books.account.cell who).get progress.store = .ok record ∧
      next.signature? parameters progress.store = some (who, record.nonce) ∧
      record.nonce.toNat + 1 < UInt64.size ∧
      (Books.account.cell who).get (step parameters progress next).store =
        .ok { record with nonce := record.nonce + 1 }) ∨
    ((∀ nonce, next.signature? parameters progress.store ≠ some (who, nonce)) ∧
      Store.get? (step parameters progress next).store (Books.account.cell who).key =
        Store.get? progress.store (Books.account.cell who).key) := by
  cases next with
  | start n parent => exact Or.inr ⟨fun _ => nofun, account_start n parent who progress.store⟩
  | finish => exact Or.inr ⟨fun _ => nofun, account_finish who progress.store⟩
  | apply request =>
    have hbody : request.SparesAccounts := hspares request rfl
    have hallowed (id : AccountId) :
        ¬ ∀ other, (Books.account.cell other).key ≠ (Books.account.cell id).key :=
      fun h => h id rfl
    rw [store_step_apply]
    rcases apply_cases parameters request progress.store with ⟨result, t, hr⟩ | hnot
    · rw [signature?_of_ok hr, hr]
      by_cases hwho : request.who = some who
      · left
        have happly : Extrinsic.apply (CheckChain.standard parameters request.era request.nonce)
            (some who) request.submission request.body.run progress.store = (.ok result, t) := by
          rw [← hwho]
          exact hr
        obtain ⟨hzero, record, hrecord, hnonce, hroom, hspent⟩ :=
          Extrinsic.signer_of_apply hbody hallowed happly
        refine ⟨hzero, record, hrecord, ?_, ?_, ?_⟩
        · rw [hwho, hnonce]
          rfl
        · rw [hnonce]
          exact hroom
        · rw [hnonce]
          exact hspent
      · -- somebody else has signed it, or nobody has
        right
        refine ⟨fun nonce hsigned => ?_, Extrinsic.get?_account_of_apply hbody hallowed hr hwho⟩
        obtain ⟨signer, hsigner, hpair⟩ := Option.map_eq_some_iff.mp hsigned
        cases hpair
        exact hwho hsigner
    · right
      rw [signature?_of_not_ok hnot]
      have hlevel := Books.Item.key_ne .level (.account who) nofun
      exact ⟨fun _ => nofun, Extrinsic.get?_apply_of_not_ok hnot hlevel⟩

end Steps

section Runs

/-- A run counts an account on from its record: its nonces follow one another, and the record has moved
on by as many, with nothing else in it changed. -/
structure CountsOn (parameters : Parameters) (steps : List Step) (progress : Progress)
    (who : AccountId) (record : AccountRecord) : Prop where
  nonces : (noncesOf who (signatures parameters steps progress)).map UInt64.toNat =
    List.range' record.nonce.toNat (noncesOf who (signatures parameters steps progress)).length
  stored : ∃ last, (Books.account.cell who).get (run parameters steps progress).store = .ok last ∧
    last = { record with nonce := last.nonce } ∧
    last.nonce.toNat =
      record.nonce.toNat + (noncesOf who (signatures parameters steps progress)).length

theorem noncesOf_append (who : AccountId) (signed later : List (AccountId × UInt64)) :
    noncesOf who (signed ++ later) = noncesOf who signed ++ noncesOf who later := by
  unfold noncesOf
  rw [List.filter_append, List.map_append]

theorem noncesOf_eq_nil {signed : List (AccountId × UInt64)} (h : ∀ nonce, (who, nonce) ∉ signed) :
    noncesOf who signed = [] := by
  apply List.map_eq_nil_iff.mpr
  apply List.filter_eq_nil_iff.mpr
  rintro ⟨signer, nonce⟩ hmem heq
  have hsigner : signer = who := of_decide_eq_true heq
  rw [hsigner] at hmem
  exact h nonce hmem

theorem noncesOf_cons_self {next : Step} {nonce : UInt64} (steps : List Step)
    (h : next.signature? parameters progress.store = some (who, nonce)) :
    noncesOf who (signatures parameters (next :: steps) progress) =
      nonce :: noncesOf who (signatures parameters steps (step parameters progress next)) := by
  rw [noncesOf, signatures, h]
  exact congrArg (List.map Prod.snd) (List.filter_cons_of_pos (decide_eq_true rfl))

/-- A step that somebody else signs, or nobody, does not count for an account. -/
theorem noncesOf_cons_of_ne {next : Step} (steps : List Step)
    (h : ∀ nonce, next.signature? parameters progress.store ≠ some (who, nonce)) :
    noncesOf who (signatures parameters (next :: steps) progress) =
      noncesOf who (signatures parameters steps (step parameters progress next)) := by
  have hnone : noncesOf who (next.signature? parameters progress.store).toList = [] :=
    noncesOf_eq_nil fun nonce hmem => h nonce (Option.mem_toList.mp hmem)
  rw [signatures, noncesOf_append, hnone]
  rfl

theorem sparesAccounts_cons {next : Step} {steps : List Step}
    (h : ∀ request, .apply request ∈ next :: steps → request.SparesAccounts) :
    (∀ request, next = .apply request → request.SparesAccounts) ∧
      ∀ request, .apply request ∈ steps → request.SparesAccounts :=
  ⟨fun request heq => h request (heq ▸ List.mem_cons_self),
    fun request hmem => h request (List.mem_cons_of_mem _ hmem)⟩

/-- Along a run each inclusion of an account claims the nonce that its record has come to. -/
theorem countsOn_run {steps : List Step}
    (hspares : ∀ request, .apply request ∈ steps → request.SparesAccounts)
    (hrecord : (Books.account.cell who).get progress.store = .ok record) :
    CountsOn parameters steps progress who record := by
  induction steps generalizing progress record with
  | nil => exact ⟨rfl, record, hrecord, rfl, rfl⟩
  | cons next steps ih =>
    obtain ⟨hnext, hrest⟩ := sparesAccounts_cons hspares
    rcases step_account parameters progress next who hnext with
      ⟨-, found, hfound, hsigned, hroom, hspent⟩ | ⟨hother, hkept⟩
    · rw [hrecord] at hfound
      cases hfound
      obtain ⟨hnonces, last, hlast, hsame, hcount⟩ := ih hrest hspent
      have hcons := noncesOf_cons_self steps hsigned
      -- the next nonce does not wrap, so the rest of the run goes on with the number after it
      have hsucc : (record.nonce + 1).toNat = record.nonce.toNat + 1 := by
        rw [UInt64.toNat_add]
        exact Nat.mod_eq_of_lt hroom
      rw [hsucc] at hnonces hcount
      refine ⟨?_, last, hlast, hsame, ?_⟩
      · rw [hcons, List.map_cons, List.length_cons, List.range'_succ, hnonces]
      · rw [hcons, List.length_cons, hcount]
        omega
    · have hrecord' := (Cell.get_congr hkept).trans hrecord
      obtain ⟨hnonces, hstored⟩ := ih hrest hrecord'
      have hcons := noncesOf_cons_of_ne steps hother
      refine ⟨?_, ?_⟩
      · rw [hcons]
        exact hnonces
      · rw [hcons]
        exact hstored

/-- Whoever signs in a run is not the account of zeros, and had a record that could be read when the run
began. -/
theorem signer_of_mem {steps : List Step}
    (hspares : ∀ request, .apply request ∈ steps → request.SparesAccounts) {nonce : UInt64}
    (h : (who, nonce) ∈ signatures parameters steps progress) :
    ¬ who.isZero = true ∧ ∃ record, (Books.account.cell who).get progress.store = .ok record := by
  induction steps generalizing progress with
  | nil => exact nomatch h
  | cons next steps ih =>
    obtain ⟨hnext, hrest⟩ := sparesAccounts_cons hspares
    rcases step_account parameters progress next who hnext with
      ⟨hzero, record, hrecord, -⟩ | ⟨hother, hkept⟩
    · exact ⟨hzero, record, hrecord⟩
    · rcases List.mem_append.mp h with hhead | hlater
      · exact absurd (Option.mem_toList.mp hhead) (hother nonce)
      · -- the step has left the account alone, so what it can be read as is what it was before
        obtain ⟨hzero, record, hrecord⟩ := ih hrest hlater
        exact ⟨hzero, record, (Cell.get_congr hkept).symm.trans hrecord⟩

/-- Signatures differ if those of each account do. -/
theorem nodup_of_noncesOf {signed : List (AccountId × UInt64)}
    (h : ∀ who, (noncesOf who signed).Nodup) : signed.Nodup := by
  -- how often a signature is in the list is counted among those of its account, by the nonce alone
  apply List.nodup_iff_count_le_one.mpr
  rintro ⟨who, nonce⟩
  calc
    signed.count (who, nonce) = (signed.filter fun pair => pair.1 = who).count (who, nonce) :=
      (List.count_filter (by simp)).symm
    _ ≤ (noncesOf who signed).count nonce := List.count_le_count_map (f := Prod.snd)
    _ ≤ 1 := List.nodup_iff_count_le_one.mp (h who) nonce

/-- Nobody signs twice with one nonce. -/
theorem nodup_signatures {steps : List Step}
    (hspares : ∀ request, .apply request ∈ steps → request.SparesAccounts) :
    (signatures parameters steps progress).Nodup := by
  apply nodup_of_noncesOf
  intro who
  rcases hget : (Books.account.cell who).get progress.store with cause | record
  · -- an account that cannot be read has signed nothing
    have hnone : noncesOf who (signatures parameters steps progress) = [] := by
      apply noncesOf_eq_nil
      intro nonce hmem
      obtain ⟨-, record, hrecord⟩ := signer_of_mem hspares hmem
      rw [hget] at hrecord
      exact nomatch hrecord
    rw [hnone]
    exact List.nodup_nil
  · have hcounts : CountsOn parameters steps progress who record := countsOn_run hspares hget
    have hnodup : ((noncesOf who (signatures parameters steps progress)).map UInt64.toNat).Nodup := by
      rw [hcounts.nonces]
      exact List.nodup_range'
    exact hnodup.of_map

end Runs

/-- No replay and no gap. In any run whose bodies leave the accounts alone, at every point of it, each
account that could be read at the start has signed with consecutive nonces from the one that was kept of
it on, and its record counts them and is otherwise the same; no signature is included twice, and neither
the account of zeros nor one that cannot be read ever signs. -/
theorem nonces_in_order (parameters : Parameters) (m : Memory) (steps : List Step)
    (hspares : ∀ request, .apply request ∈ steps → request.SparesAccounts) :
    (∀ who record, (Books.account.cell who).get m = .ok record → ∀ before, before <+: steps →
      CountsOn parameters before ⟨m, []⟩ who record) ∧
    (signatures parameters steps ⟨m, []⟩).Nodup ∧
    ∀ who nonce, (who, nonce) ∈ signatures parameters steps ⟨m, []⟩ →
      ¬ who.isZero = true ∧ ∃ record, (Books.account.cell who).get m = .ok record := by
  refine ⟨fun who record hrecord before hbefore => ?_, nodup_signatures hspares,
    fun who nonce hmem => signer_of_mem hspares hmem⟩
  exact countsOn_run (fun request hmem => hspares request (hbefore.subset hmem)) hrecord

def failingRequest (nonce : UInt64) : Request :=
  { refundedRequest nonce with body := .set [9] [2] (.fail (FailedDispatch.ofError .badOrigin)) }

/-- The steps of a run that puts requests out of turn among those that are in turn, one of which fails. -/
def crossedSteps : List Step :=
  [.start 1 BlockHash.zero, .apply (refundedRequest 0), .apply (refundedRequest 0),
    .apply (failingRequest 1), .finish, .apply (refundedRequest 3), .apply (refundedRequest 2)]

theorem crossedSteps_spare (request : Request) (h : .apply request ∈ crossedSteps) :
    request.SparesAccounts := by
  have hkey (id : AccountId) : (Books.account.cell id).key ≠ [9] :=
    CellMap.key_ne_of_length rfl (length_stemOf _ _) (by decide) id
  simp only [crossedSteps, List.mem_cons, Step.apply.injEq, List.not_mem_nil, or_false, reduceCtorEq,
    false_or] at h
  rcases h with rfl | rfl | rfl | rfl | rfl <;> exact ⟨hkey, trivial⟩

theorem crossedSteps_in_order :
    let signer : AccountId := ⟨FixedBytes.replicate 32 1⟩
    let signed := signatures cappedParameters crossedSteps ⟨Memory.empty, []⟩
    (∀ request, .apply request ∈ crossedSteps → request.SparesAccounts) ∧
    (Books.account.cell signer).get Memory.empty = .ok AccountRecord.fresh ∧
    signed = [(signer, 0), (signer, 1), (signer, 2)] ∧ signed.Nodup ∧ ¬ signer.isZero = true ∧
    CountsOn cappedParameters crossedSteps ⟨Memory.empty, []⟩ signer AccountRecord.fresh := by
  intro signer signed
  have hfresh : (Books.account.cell signer).get Memory.empty = .ok AccountRecord.fresh := rfl
  have hsigned : signed = [(signer, 0), (signer, 1), (signer, 2)] := by decide +kernel
  obtain ⟨hcounts, hnodup, hsigner⟩ :=
    nonces_in_order cappedParameters Memory.empty crossedSteps crossedSteps_spare
  have hmem : (signer, 0) ∈ signed := hsigned ▸ List.mem_cons_self
  exact ⟨crossedSteps_spare, hfresh, hsigned, hnodup, (hsigner signer 0 hmem).1,
    hcounts signer _ hfresh crossedSteps List.prefix_rfl⟩

end BlockRuntime.Block

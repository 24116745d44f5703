import BlockRuntime.Proofs.Check.Phases
/-!
The order of tags. What the pool is told about the nonces of many transactions is told about one old
store, and dispatching them changes the store as it goes. Tags bridge the two: if every tag that a
transaction requires was provided in front of it, and no nonce is claimed twice, then the claims of each
account follow one another from its stored nonce on, so each of them is the next one when its turn comes.
-/

namespace BlockRuntime.Check

structure NonceClaim where
  who : AccountId
  nonce : UInt64
  submission : Submission

namespace NonceClaim

def identity (claim : NonceClaim) : AccountId × UInt64 := (claim.who, claim.nonce)

def Admitted (m : Memory) (claim : NonceClaim) (answer : Admission) : Prop :=
  ((Check.nonce claim.nonce).validate claim.who claim.submission m).1 = .ok answer

def dispatch (claim : NonceClaim) : Program Memory Rejection Receipt :=
  (Check.nonce claim.nonce).preDispatch claim.who claim.submission

/-- Every tag that a claim requires, when all are validated against one store, is provided by a claim in
front of it. -/
def TagsInOrder (m : Memory) (claims : List NonceClaim) : Prop :=
  ∀ before claim after, claims = before ++ claim :: after → ∀ answer, claim.Admitted m answer →
    ∀ tag ∈ answer.requires, ∃ earlier ∈ before, ∃ given, earlier.Admitted m given ∧
      tag ∈ given.provides

end NonceClaim

section Tags

/-- The tag of an account and a nonce is the tag of no other pair. -/
theorem nonceTag_inj {a b : AccountId} {n k : UInt64} (h : nonceTag a n = nonceTag b k) :
    a = b ∧ n = k := by
  -- the code of the account tells where it ends in the tag
  obtain ⟨hwho, hnonce⟩ := AccountId.codec_lawful.split_unique h
  exact ⟨hwho, Codec.u64_lawful.encode_inj hnonce⟩

variable {who : AccountId} {current nonce : UInt64} {answer : Admission}

/-- A nonce that is admitted is not behind its account and has a successor; it provides its own tag and,
if it is ahead of its account, requires the one before. -/
theorem nonceAdmission_eq_ok (h : nonceAdmission who current nonce = .ok answer) :
    current ≤ nonce ∧ nonce.toNat + 1 < UInt64.size ∧ answer.provides = [nonceTag who nonce] ∧
      (current < nonce → answer.requires = [nonceTag who (nonce - 1)]) := by
  rw [nonceAdmission_eq] at h
  split at h
  · exact nomatch h
  rename_i hbehind
  split at h
  · exact nomatch h
  rename_i hlast
  cases h
  refine ⟨UInt64.not_lt.mp hbehind, toNat_succ_lt hlast, rfl, ?_⟩
  intro hahead
  exact if_pos hahead

/-- The next nonce of an account is spent, if it has a successor. -/
theorem spendNonce_next {record : AccountRecord} (h : record.nonce = nonce)
    (hroom : nonce.toNat + 1 < UInt64.size) :
    spendNonce record nonce = .ok { record with nonce := nonce + 1 } := by
  have hsome : record.nonce.checkedAdd? 1 = some (nonce + 1) := by
    rw [h]
    exact if_pos hroom
  unfold spendNonce
  rw [if_neg (h ▸ UInt64.lt_irrefl _), if_neg (h ▸ UInt64.lt_irrefl _), hsome]

end Tags

namespace NonceClaim

variable {m s t : Memory} {claim : NonceClaim} {claims spent : List NonceClaim} {answer : Admission}

theorem admitted_eq_ok (h : claim.Admitted m answer) :
    ∃ record, (Books.account.cell claim.who).get m = .ok record ∧
      nonceAdmission claim.who record.nonce claim.nonce = .ok answer :=
  nonce_admitted claim.submission claim.nonce h

/-- How far an account has come from its record when some claims have been dispatched: its record counts
those of them that are its own, and their nonces are those that the count has passed. -/
structure Passed (spent : List NonceClaim) (who : AccountId) (record last : AccountRecord) : Prop where
  same : last = { record with nonce := last.nonce }
  count : last.nonce.toNat = record.nonce.toNat + spent.countP fun claim => claim.who = who
  nonces : ∀ nonce : UInt64, (who, nonce) ∈ spent.map identity ↔
    record.nonce.toNat ≤ nonce.toNat ∧ nonce.toNat < last.nonce.toNat

structure Spent (m : Memory) (spent : List NonceClaim) (s : Memory) : Prop where
  passed : ∀ who record, (Books.account.cell who).get m = .ok record →
    ∃ last, (Books.account.cell who).get s = .ok last ∧ Passed spent who record last
  others : ∀ who, (∀ claim ∈ spent, claim.who ≠ who) →
    Store.get? s (Books.account.cell who).key = Store.get? m (Books.account.cell who).key

theorem spent_nil (m : Memory) : Spent m [] m where
  passed who record hrecord := by
    refine ⟨record, hrecord, rfl, rfl, ?_⟩
    intro nonce
    constructor
    · intro hmem
      exact nomatch hmem
    · intro hbetween
      omega
  others who _ := rfl

/-- A claim that is admitted, new, and required to follow claims that have been dispatched is the next one
of its account. -/
theorem nonce_of_spent {record last : AccountRecord}
    (hadmission : nonceAdmission claim.who record.nonce claim.nonce = .ok answer)
    (hpassed : Passed spent claim.who record last) (hnew : claim.identity ∉ spent.map identity)
    (hrequired : ∀ tag ∈ answer.requires, ∃ earlier ∈ spent, tag = nonceTag earlier.who earlier.nonce) :
    last.nonce = claim.nonce := by
  obtain ⟨hbehind, -, -, hahead⟩ := nonceAdmission_eq_ok hadmission
  have hle : record.nonce.toNat ≤ claim.nonce.toNat := UInt64.le_iff_toNat_le.mp hbehind
  have hcount := hpassed.count
  -- the count has not passed the claim, since the claim would be among the earlier ones
  have hlow : last.nonce.toNat ≤ claim.nonce.toNat := by
    by_contra hlt
    exact hnew ((hpassed.nonces claim.nonce).mpr ⟨hle, by omega⟩)
  apply UInt64.toNat_inj.mp
  by_cases hnext : record.nonce.toNat = claim.nonce.toNat
  · omega
  · -- ahead of the stored nonce, the claim requires its predecessor, which the count has passed
    have hlt : record.nonce < claim.nonce := UInt64.lt_iff_toNat_lt.mpr (by omega)
    have hpred : (claim.nonce - 1).toNat = claim.nonce.toNat - 1 := by
      apply UInt64.toNat_sub_of_le
      rw [UInt64.le_iff_toNat_le]
      have hone : (1 : UInt64).toNat = 1 := rfl
      omega
    obtain ⟨earlier, hmem, htag⟩ := hrequired (nonceTag claim.who (claim.nonce - 1)) (by
      rw [hahead hlt]
      exact List.mem_singleton_self _)
    obtain ⟨hwho, hnonce⟩ := nonceTag_inj htag
    have hearlier : (claim.who, claim.nonce - 1) ∈ spent.map identity := by
      rw [hwho, hnonce]
      exact List.mem_map_of_mem hmem
    obtain ⟨-, hpast⟩ := (hpassed.nonces _).mp hearlier
    omega

/-- Dispatching a claim with the next nonce moves its own account on by one. -/
theorem passed_self {record last : AccountRecord} (h : Passed spent claim.who record last)
    (hnext : last.nonce = claim.nonce) (hroom : claim.nonce.toNat + 1 < UInt64.size) :
    Passed (spent ++ [claim]) claim.who record { last with nonce := claim.nonce + 1 } := by
  have hsucc : (claim.nonce + 1).toNat = claim.nonce.toNat + 1 := by
    rw [UInt64.toNat_add]
    exact Nat.mod_eq_of_lt hroom
  have hcount := h.count
  rw [hnext] at hcount
  refine ⟨?_, ?_, ?_⟩
  · rw [h.same]
  · change (claim.nonce + 1).toNat = _
    rw [hsucc, hcount, List.countP_append]
    simp [Nat.add_assoc]
  · intro nonce
    change _ ↔ _ ∧ nonce.toNat < (claim.nonce + 1).toNat
    have hnonces := h.nonces nonce
    rw [hnext] at hnonces
    rw [hsucc, List.map_append, List.mem_append, hnonces]
    constructor
    · rintro (hpast | hself)
      · omega
      · have hself : nonce = claim.nonce := congrArg Prod.snd (List.mem_singleton.mp hself)
        rw [hself]
        omega
    · rintro ⟨hlow, hhigh⟩
      by_cases hself : nonce.toNat = claim.nonce.toNat
      · right
        rw [UInt64.toNat_inj.mp hself]
        exact List.mem_singleton_self _
      · left
        omega

/-- Dispatching a claim of somebody else leaves an account where it was. -/
theorem passed_of_ne {who : AccountId} {record last : AccountRecord} (h : Passed spent who record last)
    (hwho : claim.who ≠ who) : Passed (spent ++ [claim]) who record last := by
  refine ⟨h.same, ?_, ?_⟩
  · rw [List.countP_append, h.count]
    simp [hwho]
  · intro nonce
    rw [← h.nonces nonce, List.map_append, List.mem_append]
    constructor
    · rintro (hmem | hself)
      · exact hmem
      · have hsigner : who = claim.who := congrArg Prod.fst (List.mem_singleton.mp hself)
        exact absurd hsigner.symm hwho
    · intro hmem
      exact Or.inl hmem

/-- The next claim is dispatched and counted. -/
theorem dispatch_next (h : Spent m spent s) (hadmitted : claim.Admitted m answer)
    (hnew : claim.identity ∉ spent.map identity)
    (hrequired : ∀ tag ∈ answer.requires, ∃ earlier ∈ spent, tag = nonceTag earlier.who earlier.nonce) :
    ∃ receipt t, claim.dispatch s = (.ok receipt, t) ∧ Spent m (spent ++ [claim]) t := by
  obtain ⟨record, hrecord, hadmission⟩ := admitted_eq_ok hadmitted
  obtain ⟨last, hlast, hpassed⟩ := h.passed claim.who record hrecord
  have hnext : last.nonce = claim.nonce := nonce_of_spent hadmission hpassed hnew hrequired
  have hroom := (nonceAdmission_eq_ok hadmission).2.1
  let next : AccountRecord := { last with nonce := claim.nonce + 1 }
  have hdispatch : claim.dispatch s = (.ok ⟨Codec.u64.encode claim.nonce⟩,
      (Books.account.cell claim.who).put next s) := by
    have hpre := preDispatch_nonce claim.submission claim.nonce hlast
    rw [spendNonce_next hnext hroom] at hpre
    exact hpre
  have hkept (who : AccountId) (hwho : claim.who ≠ who) :
      Store.get? ((Books.account.cell claim.who).put next s) (Books.account.cell who).key =
        Store.get? s (Books.account.cell who).key :=
    Cell.get?_put_of_ne (fun heq => hwho (Books.account_key_inj heq)) next s
  refine ⟨_, _, hdispatch, ?_, ?_⟩
  · intro who found hfound
    by_cases hwho : claim.who = who
    · subst hwho
      rw [hrecord] at hfound
      cases hfound
      exact ⟨_, Cell.get_put AccountRecord.codec_lawful _ s, passed_self hpassed hnext hroom⟩
    · obtain ⟨other, hother, hpassed⟩ := h.passed who found hfound
      exact ⟨other, (Cell.get_congr (hkept who hwho)).trans hother, passed_of_ne hpassed hwho⟩
  · intro who hnone
    have hwho : claim.who ≠ who := hnone claim (List.mem_append_right _ List.mem_cons_self)
    exact (hkept who hwho).trans
      (h.others who fun other hmem => hnone other (List.mem_append_left _ hmem))

/-- What is left of a list in the order of its tags is dispatched behind what was dispatched before. -/
theorem dispatch_rest {rest : List NonceClaim} (h : Spent m spent s)
    (hdistinct : ((spent ++ rest).map identity).Nodup)
    (hadmitted : ∀ claim ∈ rest, ∃ answer, claim.Admitted m answer)
    (hordered : TagsInOrder m (spent ++ rest)) :
    ∃ receipts t, rest.mapM dispatch s = (.ok receipts, t) ∧ Spent m (spent ++ rest) t := by
  -- each claim goes over to those that were dispatched, so the whole list stays the same
  induction rest generalizing spent s with
  | nil =>
    rw [List.append_nil]
    exact ⟨[], s, rfl, h⟩
  | cons claim rest ih =>
    have hwhole : spent ++ claim :: rest = (spent ++ [claim]) ++ rest := by simp
    obtain ⟨answer, hanswer⟩ := hadmitted claim List.mem_cons_self
    have hnew : claim.identity ∉ spent.map identity := by
      rw [List.map_append, List.map_cons, List.nodup_append] at hdistinct
      intro hmem
      exact hdistinct.2.2 _ hmem _ List.mem_cons_self rfl
    have hrequired : ∀ tag ∈ answer.requires, ∃ earlier ∈ spent,
        tag = nonceTag earlier.who earlier.nonce := by
      intro tag htag
      obtain ⟨earlier, hmem, given, hgiven, hprovided⟩ :=
        hordered spent claim rest rfl answer hanswer tag htag
      obtain ⟨record, -, hadmission⟩ := admitted_eq_ok hgiven
      rw [(nonceAdmission_eq_ok hadmission).2.2.1] at hprovided
      exact ⟨earlier, hmem, List.mem_singleton.mp hprovided⟩
    obtain ⟨receipt, u, hdispatch, hspent⟩ := dispatch_next h hanswer hnew hrequired
    rw [hwhole] at hdistinct hordered ⊢
    obtain ⟨receipts, t, hrest, hall⟩ :=
      ih hspent hdistinct (fun other hmem => hadmitted other (List.mem_cons_of_mem _ hmem)) hordered
    refine ⟨receipt :: receipts, t, ?_, hall⟩
    rw [List.mapM_cons, Program.bind_ok hdispatch, Program.bind_ok hrest]
    rfl

/-- Tag order is dispatch order. If no nonce of an account is claimed twice, all claims are admitted to the
pool over one store, and every tag that a claim requires is provided in front of it, then from that store
all claims are dispatched in their order. The nonce of each account then counts its claims; nothing else
of its record has changed, and an account without a claim was not touched. No two pairs of an account and
a nonce share a tag. -/
theorem tag_order_is_dispatch_order (m : Memory) (claims : List NonceClaim)
    (hdistinct : (claims.map identity).Nodup)
    (hadmitted : ∀ claim ∈ claims, ∃ answer, claim.Admitted m answer)
    (hordered : TagsInOrder m claims) :
    (∃ receipts t, claims.mapM dispatch m = (.ok receipts, t) ∧
      (∀ who record, (Books.account.cell who).get m = .ok record →
        ∃ last, (Books.account.cell who).get t = .ok last ∧
          last = { record with nonce := last.nonce } ∧
          last.nonce.toNat = record.nonce.toNat + claims.countP fun claim => claim.who = who) ∧
      ∀ who, (∀ claim ∈ claims, claim.who ≠ who) →
        Store.get? t (Books.account.cell who).key = Store.get? m (Books.account.cell who).key) ∧
    ∀ a b n k, nonceTag a n = nonceTag b k → a = b ∧ n = k := by
  obtain ⟨receipts, t, hrun, hspent⟩ := dispatch_rest (spent_nil m) hdistinct hadmitted hordered
  refine ⟨⟨receipts, t, hrun, ?_, hspent.others⟩, fun a b n k h => nonceTag_inj h⟩
  intro who record hrecord
  obtain ⟨last, hlast, hpassed⟩ := hspent.passed who record hrecord
  exact ⟨last, hlast, hpassed.same, hpassed.count⟩

def sample (seed : UInt8) (nonce : UInt64) : NonceClaim :=
  ⟨⟨FixedBytes.replicate 32 seed⟩, nonce, ⟨[], { weight := ⟨3, 4⟩, cls := .normal }, 9⟩⟩

/-- The claims of two accounts, one of which has sent seven transactions before. -/
def queue : List NonceClaim := [sample 2 7, sample 1 0, sample 2 8]

def queueStore : Memory := (Books.account.cell (sample 2 7).who).put ⟨7, 1, 0, 0⟩ Memory.empty

def queueAnswer (claim : NonceClaim) : Admission where
  requires := if claim.nonce = 8 then [nonceTag claim.who 7] else []
  provides := [nonceTag claim.who claim.nonce]

theorem queue_admitted (h : claim ∈ queue) : claim.Admitted queueStore (queueAnswer claim) := by
  have hall : queue.map (fun claim =>
      ((Check.nonce claim.nonce).validate claim.who claim.submission queueStore).1) =
        queue.map fun claim => .ok (queueAnswer claim) := by decide +kernel
  exact List.map_inj_left.mp hall claim h

theorem queue_tagsInOrder : TagsInOrder queueStore queue := by
  intro before claim after hsplit answer hanswer tag htag
  have hmem : claim ∈ queue := hsplit ▸ List.mem_append_right _ List.mem_cons_self
  have hgiven := queue_admitted hmem
  unfold Admitted at hanswer hgiven
  rw [hgiven] at hanswer
  cases hanswer
  -- only the last claim of the queue requires anything, and the first one provides it
  rcases before with _ | ⟨first, before⟩
  · cases hsplit
    exact nomatch htag
  · have hfirst : first = sample 2 7 := (List.cons.inj hsplit).1.symm
    refine ⟨first, List.mem_cons_self, _, queue_admitted (hfirst ▸ List.mem_cons_self), ?_⟩
    simp only [queue, List.mem_cons, List.not_mem_nil, or_false] at hmem
    rcases hmem with rfl | rfl | rfl
    · exact nomatch htag
    · exact nomatch htag
    · rw [hfirst]
      exact htag

theorem queue_dispatched :
    (queue.map identity).Nodup ∧
    (∀ claim ∈ queue, ∃ answer, claim.Admitted queueStore answer) ∧
    TagsInOrder queueStore queue ∧
    ∃ receipts t last, queue.mapM dispatch queueStore = (.ok receipts, t) ∧
      (Books.account.cell (sample 2 7).who).get t = .ok last ∧
      last = ⟨last.nonce, 1, 0, 0⟩ ∧ last.nonce.toNat = 7 + 2 := by
  have hdistinct : (queue.map identity).Nodup := by decide
  have hadmitted : ∀ claim ∈ queue, ∃ answer, claim.Admitted queueStore answer :=
    fun claim hmem => ⟨_, queue_admitted hmem⟩
  have hrecord : (Books.account.cell (sample 2 7).who).get queueStore = .ok ⟨7, 1, 0, 0⟩ :=
    Cell.get_put AccountRecord.codec_lawful _ _
  obtain ⟨⟨receipts, t, hrun, hcounted, -⟩, -⟩ :=
    tag_order_is_dispatch_order queueStore queue hdistinct hadmitted queue_tagsInOrder
  obtain ⟨last, hlast, hsame, hcount⟩ := hcounted _ _ hrecord
  exact ⟨hdistinct, hadmitted, queue_tagsInOrder, receipts, t, last, hrun, hlast, hsame, hcount⟩

end NonceClaim

end BlockRuntime.Check

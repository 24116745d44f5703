import BlockRuntime.Proofs.Block.Run
import BlockRuntime.Proofs.Era.Window
/-!
The ancestry of a block. A chain of blocks, each started on the hash of the one before, keeps the hash of
block zero and those of the last blocks, as many as are configured, and no other; so a signature that is
bound to a birth block can be checked while the hash of that block is kept, and through the whole window
of an era that is no longer than what is kept.
-/

namespace BlockRuntime.Block

structure Attempt where
  chain : CheckChain Memory
  who : Option AccountId
  submission : Submission
  body : Script FailedDispatch ReportedCost

namespace Attempt

def apply (attempt : Attempt) : Program Memory ApplyError DispatchResult :=
  Extrinsic.apply attempt.chain attempt.who attempt.submission attempt.body.run

structure SparesAncestry (attempt : Attempt) : Prop where
  below : attempt.chain.Keeps Memory.below
  chain : ∀ key, Books.Ancestral key → attempt.chain.Keeps (Store.at key)
  body : attempt.body.WritesOnly (¬ Books.Ancestral ·)

/-- Under the standard chain it is only the body that could write the ancestry. -/
theorem sparesAncestry_standard {parameters : Parameters} {era : Era} {nonce : UInt64}
    {who : Option AccountId} {submission : Submission} {body : Script FailedDispatch ReportedCost}
    (hbody : body.WritesOnly (¬ Books.Ancestral ·)) :
    SparesAncestry ⟨CheckChain.standard parameters era nonce, who, submission, body⟩ where
  below := CheckChain.keeps_below_standard
  chain _ hkey := by
    refine CheckChain.keeps_at_standard_of_ne
      (fun who => Books.Item.key_ne_ancestral (.account who) hkey nofun nofun) fun _ hmeter => ?_
    rcases List.mem_pair.mp hmeter with rfl | rfl
    · exact Books.Item.key_ne_ancestral .extrinsicsLength hkey nofun nofun
    · exact Books.Item.key_ne_ancestral .blockWeight hkey nofun nofun
  body := hbody

variable {attempt : Attempt} {key : Key}

theorem keeps_apply (h : attempt.SparesAncestry) (hkey : Books.Ancestral key) :
    attempt.apply.Keeps (Store.at key) :=
  Extrinsic.keeps_at_apply_of_keeps h.below (h.chain key hkey) h.body (not_not_intro hkey)
    (Books.Item.key_ne_ancestral .level hkey nofun nofun)
    (Books.Item.key_ne_ancestral .extrinsicIndex hkey nofun nofun)

end Attempt

structure History where
  hash : ℕ → BlockHash
  attempts : ℕ → List Attempt

namespace History

/-- Starts a block on its parent and puts its extrinsics to it, whatever becomes of them. -/
def opened (history : History) (parameters : Parameters) (n : ℕ) : Program Memory StoreError Unit := do
  start parameters (UInt64.ofNat n) (history.hash (n - 1))
  (history.attempts n).forM fun attempt => do
    let _ ← attempt.apply.attempt

def blocks (history : History) (parameters : Parameters) : ℕ → Program Memory StoreError Unit
  | 0 => pure ()
  | n + 1 => do
    history.blocks parameters n
    history.opened parameters (n + 1)
    finish parameters

end History

/-- Whether the hash of a block is kept in block `n`, if it is kept from block `first` on. -/
def Kept (first n : ℕ) (block : UInt64) : Prop :=
  block = 0 ∨ max 1 first ≤ block.toNat ∧ block.toNat ≤ n - 1

instance (first n : ℕ) (block : UInt64) : Decidable (Kept first n block) :=
  inferInstanceAs (Decidable (_ ∨ _))

theorem kept_iff {first n : ℕ} {block : UInt64} :
    Kept first n block ↔
      block.toNat = 0 ∨ max 1 first ≤ block.toNat ∧ block.toNat ≤ n - 1 := by
  have hzero : block = 0 ↔ block.toNat = 0 := UInt64.toNat_inj.symm
  unfold Kept
  rw [hzero]

/-- A store that stands in block `n` and holds, of all hashes of a chain, those that are kept. -/
structure Stands (hash : ℕ → BlockHash) (first n : ℕ) (m : Memory) : Prop where
  number : Books.number.get m = .ok (UInt64.ofNat n)
  hashes : ∀ block, Store.get? m (Books.blockHashes.cell block).key =
    if Kept first n block then some (BlockHash.codec.encode (hash block.toNat)) else none

variable (parameters : Parameters) {history : History} {hash : ℕ → BlockHash} {first n : ℕ}
  {m t : Memory}

section Steps

/-- The start of a block binds the hash of its parent and no other one. -/
theorem blockHash_start (n : UInt64) (parent : BlockHash) (m : Memory) (block : UInt64) :
    Store.get? (start parameters n parent m).2 (Books.blockHashes.cell block).key =
      if block = n.saturatingSub 1 then some (BlockHash.codec.encode parent)
      else Store.get? m (Books.blockHashes.cell block).key := by
  have hancestral := Books.ancestral_blockHash block
  have hweight := Books.Item.key_ne_ancestral .blockWeight hancestral nofun nofun
  have hnumber := (Books.blockHash_ne Books.number_mem_tallyKeys block).symm
  calc
    Store.get? (start parameters n parent m).2 (Books.blockHashes.cell block).key =
        Store.get? (Books.startBlock n parent m) (Books.blockHashes.cell block).key :=
      get?_start n parent hweight m
    _ = Store.get? (Books.extrinsicIndex.put 0 _) (Books.blockHashes.cell block).key :=
      Cell.get?_clear_of_ne hweight _
    _ = Store.get? ((Books.blockHashes.cell (n.saturatingSub 1)).put parent (Books.number.put n m))
        (Books.blockHashes.cell block).key :=
      Cell.get?_put_of_ne (Books.Item.key_ne_ancestral .extrinsicIndex hancestral nofun nofun) _ _
    _ = _ := by
      by_cases hblock : block = n.saturatingSub 1
      · rw [if_pos hblock, hblock]
        exact Cell.get?_put_self _ _ _
      · have hne : (Books.blockHashes.cell (n.saturatingSub 1)).key ≠
            (Books.blockHashes.cell block).key :=
          fun heq => hblock (Books.blockHash_key_inj heq).symm
        rw [if_neg hblock, Cell.get?_put_of_ne hne]
        exact Cell.get?_put_of_ne hnumber _ _

/-- Starting the next block on the hash of the last one keeps all hashes that were kept. -/
theorem stands_start (h : Stands hash first n m) (hfirst : first ≤ n) (hsize : n + 1 < UInt64.size) :
    Stands hash first (n + 1) (start parameters (UInt64.ofNat (n + 1)) (hash n) m).2 := by
  have hword : (UInt64.ofNat (n + 1)).toNat = n + 1 := UInt64.toNat_ofNat_of_lt' hsize
  have hparent : ((UInt64.ofNat (n + 1)).saturatingSub 1).toNat = n := by
    rw [UInt64.toNat_saturatingSub, hword]
    rfl
  refine ⟨number_start _ _ m, fun block => ?_⟩
  rw [blockHash_start, h.hashes]
  by_cases hblock : block = (UInt64.ofNat (n + 1)).saturatingSub 1
  · -- the parent is the block before, which was not known yet unless it is block zero
    have hn : block.toNat = n := by rw [hblock, hparent]
    have hkept : Kept first (n + 1) block := kept_iff.mpr (by omega)
    rw [if_pos hblock, if_pos hkept, hn]
  · have hn : block.toNat ≠ n := by
      intro heq
      exact hblock (UInt64.toNat_inj.mp (heq.trans hparent.symm))
    have hsame : Kept first (n + 1) block ↔ Kept first n block := by
      rw [kept_iff, kept_iff]
      omega
    rw [if_neg hblock]
    simp only [hsame]

/-- Extrinsics that leave the ancestry alone leave a store where it stands, and the index in a state in
which it can be read. -/
theorem stands_attempts {attempts : List Attempt} {index : UInt32} (h : Stands hash first n m)
    (hindex : Books.extrinsicIndex.get m = .ok index)
    (hspares : ∀ attempt ∈ attempts, attempt.SparesAncestry) :
    ∃ t, (attempts.forM fun attempt => do
        let _ ← attempt.apply.attempt : Program Memory StoreError Unit) m = (.ok (), t) ∧
      Stands hash first n t ∧ ∃ index, Books.extrinsicIndex.get t = .ok index := by
  induction attempts generalizing m index with
  | nil => exact ⟨m, rfl, h, index, hindex⟩
  | cons attempt attempts ih =>
    have hattempt := hspares attempt List.mem_cons_self
    have hstands : Stands hash first n (attempt.apply m).2 := by
      refine ⟨?_, fun block => ?_⟩
      · rw [Cell.get_congr (Attempt.keeps_apply hattempt Books.ancestral_number m)]
        exact h.number
      · exact (Attempt.keeps_apply hattempt (Books.ancestral_blockHash block) m).trans (h.hashes block)
    obtain ⟨index', hindex'⟩ : ∃ index, Books.extrinsicIndex.get (attempt.apply m).2 = .ok index :=
      Extrinsic.index_readable_apply hattempt.below hindex
    exact ih hstands hindex' fun other hmem => hspares other (List.mem_cons_of_mem _ hmem)

/-- A block whose number and index can be read closes, and drops the one hash that is too old. -/
theorem finish_eq {n : UInt64} {index : UInt32} (hnumber : Books.number.get m = .ok n)
    (hindex : Books.extrinsicIndex.get m = .ok index) :
    finish parameters m = (.ok (), (Books.pruned? n parameters.blockHashCount).elim id
      (fun oldest => (Books.blockHashes.cell oldest).clear)
      (Books.extrinsicIndex.clear (Books.extrinsicsLength.clear m))) := by
  have hlength := Books.extrinsicIndex_ne Books.extrinsicsLength_mem_meterKeys
  have hcleared : Books.extrinsicIndex.get (Books.extrinsicsLength.clear m) = .ok index :=
    (Cell.get_congr (Cell.get?_clear_of_ne hlength.symm m)).trans hindex
  have htake : Books.extrinsicIndex.take (Books.extrinsicsLength.clear m) =
      (.ok index, Books.extrinsicIndex.clear (Books.extrinsicsLength.clear m)) :=
    Cell.take_ok hcleared
  rw [finish_eq_closing hnumber]
  unfold closing
  rw [Program.bind_ok htake]
  cases Books.pruned? n parameters.blockHashCount <;> rfl

/-- The end of a block drops the hash that is pruned and no other. -/
theorem finish_hashes {n : UInt64} {index : UInt32} (hnumber : Books.number.get m = .ok n)
    (hindex : Books.extrinsicIndex.get m = .ok index) :
    ∃ t, finish parameters m = (.ok (), t) ∧ ∀ block,
      Store.get? t (Books.blockHashes.cell block).key =
        if Books.pruned? n parameters.blockHashCount = some block then none
        else Store.get? m (Books.blockHashes.cell block).key := by
  refine ⟨_, finish_eq parameters hnumber hindex, fun block => ?_⟩
  have hancestral := Books.ancestral_blockHash block
  have hkept : Store.get? (Books.extrinsicIndex.clear (Books.extrinsicsLength.clear m))
      (Books.blockHashes.cell block).key = Store.get? m (Books.blockHashes.cell block).key :=
    (Cell.get?_clear_of_ne (Books.Item.key_ne_ancestral .extrinsicIndex hancestral nofun nofun) _).trans
      (Cell.get?_clear_of_ne
        (Books.Item.key_ne_ancestral .extrinsicsLength hancestral nofun nofun) _)
  rcases Books.pruned? n parameters.blockHashCount with _ | oldest
  · exact hkept.trans (if_neg nofun).symm
  · by_cases hblock : oldest = block
    · rw [if_pos (congrArg some hblock), hblock]
      exact Cell.get?_clear_self _ _
    · have hne : (Books.blockHashes.cell oldest).key ≠ (Books.blockHashes.cell block).key :=
        fun heq => hblock (Books.blockHash_key_inj heq)
      rw [if_neg fun heq => hblock (Option.some.inj heq)]
      exact (Cell.get?_clear_of_ne hne _).trans hkept

/-- The hash that is dropped is the last one in front of those that are kept, and never that of block
zero. -/
theorem pruned?_eq_some_iff {n kept block : UInt64} :
    Books.pruned? n kept = some block ↔
      block.toNat = n.toNat - kept.toNat - 1 ∧ 0 < block.toNat := by
  have holdest : ((n.saturatingSub kept).saturatingSub 1).toNat = n.toNat - kept.toNat - 1 := by
    rw [UInt64.toNat_saturatingSub, UInt64.toNat_saturatingSub]
    rfl
  unfold Books.pruned?
  rw [← holdest]
  by_cases hzero : (n.saturatingSub kept).saturatingSub 1 = 0
  · rw [if_pos hzero, hzero]
    constructor
    · exact nofun
    · rintro ⟨hblock, hpos⟩
      rw [hblock] at hpos
      exact absurd hpos (Nat.lt_irrefl 0)
  · rw [if_neg hzero, Option.some_inj, UInt64.toNat_inj]
    have hpos : 0 < ((n.saturatingSub kept).saturatingSub 1).toNat := by
      apply Nat.pos_of_ne_zero
      exact fun h => hzero (UInt64.toNat_inj.mp h)
    constructor
    · rintro rfl
      exact ⟨rfl, hpos⟩
    · exact fun h => h.1.symm

/-- The end of a block moves the range of the kept hashes on by one. -/
theorem stands_finish {index : UInt32} (hsize : n < UInt64.size)
    (h : Stands hash (n - 1 - parameters.blockHashCount.toNat) n m)
    (hindex : Books.extrinsicIndex.get m = .ok index) :
    ∃ t, finish parameters m = (.ok (), t) ∧
      Stands hash (n - parameters.blockHashCount.toNat) n t := by
  have hword : (UInt64.ofNat n).toNat = n := UInt64.toNat_ofNat_of_lt' hsize
  obtain ⟨t, hfinish, hhashes⟩ := finish_hashes parameters h.number hindex
  have hkeeps : (finish parameters : Program Memory StoreError Unit).Keeps
      (Store.at Books.number.key) :=
    keeps_finish (Books.blockHash_ne Books.number_mem_tallyKeys)
      (Books.Item.key_ne .extrinsicIndex .number nofun) (Books.Item.key_ne .extrinsicsLength .number nofun)
  refine ⟨t, hfinish, (Cell.get_congr (hkeeps.of_eq hfinish)).trans h.number, fun block => ?_⟩
  have hpruned : Books.pruned? (UInt64.ofNat n) parameters.blockHashCount = some block ↔
      block.toNat = n - parameters.blockHashCount.toNat - 1 ∧ 0 < block.toNat := by
    rw [pruned?_eq_some_iff, hword]
  rw [hhashes, h.hashes]
  by_cases hblock : Books.pruned? (UInt64.ofNat n) parameters.blockHashCount = some block
  · have hlost : ¬ Kept (n - parameters.blockHashCount.toNat) n block := by
      have holdest := hpruned.mp hblock
      rw [kept_iff]
      omega
    rw [if_pos hblock, if_neg hlost]
  · -- nothing else lies between the oldest hash that was kept and the oldest that is
    have hsame : Kept (n - parameters.blockHashCount.toNat) n block ↔
        Kept (n - 1 - parameters.blockHashCount.toNat) n block := by
      have hother := mt hpruned.mpr hblock
      rw [kept_iff, kept_iff]
      omega
    rw [if_neg hblock]
    simp only [hsame]

end Steps

section Runs

theorem stands_seed (hgenesis : parameters.genesisHash = hash 0)
    (hempty : ∀ block, Store.get? m (Books.blockHashes.cell block).key = none) :
    Stands hash first 0 (seed parameters m) := by
  have hnumber := Books.blockHash_ne Books.number_mem_tallyKeys 0
  refine ⟨?_, fun block => ?_⟩
  · apply Cell.get_of_encode Codec.u64_lawful
    exact (Cell.get?_put_of_ne hnumber _ _).trans (Cell.get?_put_self _ _ _)
  · by_cases hblock : block = 0
    · have hkept : Kept first 0 block := Or.inl hblock
      rw [if_pos hkept, hblock]
      have hself : Store.get? (seed parameters m) (Books.blockHashes.cell 0).key =
          some (BlockHash.codec.encode parameters.genesisHash) := Cell.get?_put_self _ _ _
      rw [hself, hgenesis]
      rfl
    · have hnone : ¬ Kept first 0 block := by
        have hpos : block.toNat ≠ 0 := fun h => hblock (UInt64.toNat_inj.mp h)
        rw [kept_iff]
        omega
      have hne : (Books.blockHashes.cell 0).key ≠ (Books.blockHashes.cell block).key :=
        fun heq => hblock (Books.blockHash_key_inj heq).symm
      rw [if_neg hnone, ← hempty block]
      exact (Cell.get?_put_of_ne hne _ _).trans
        (Cell.get?_put_of_ne (Books.blockHash_ne Books.number_mem_tallyKeys block).symm _ _)

/-- However its extrinsics end, a block that was started stands, and its index can be read. -/
theorem stands_opened (hspares : ∀ k, ∀ attempt ∈ history.attempts k, attempt.SparesAncestry)
    (h : Stands history.hash first n m) (hfirst : first ≤ n)
    (hsize : n + 1 < UInt64.size) :
    ∃ t, history.opened parameters (n + 1) m = (.ok (), t) ∧
      Stands history.hash first (n + 1) t ∧ ∃ index, Books.extrinsicIndex.get t = .ok index := by
  have hstart : start parameters (UInt64.ofNat (n + 1)) (history.hash n) m =
      (.ok (), (start parameters (UInt64.ofNat (n + 1)) (history.hash n) m).2) :=
    Prod.ext (start_ok _ _ m) rfl
  obtain ⟨t, hattempts, hstands, hindex⟩ := stands_attempts (stands_start parameters h hfirst hsize)
    (extrinsicIndex_start _ _ m) (hspares (n + 1))
  exact ⟨t, (Program.bind_ok hstart).trans hattempts, hstands, hindex⟩

/-- Every whole block leaves the store where the next one can be started. -/
theorem stands_blocks (hspares : ∀ k, ∀ attempt ∈ history.attempts k, attempt.SparesAncestry)
    (h : Stands history.hash 0 0 m) (hsize : n < UInt64.size) :
    ∃ t, history.blocks parameters n m = (.ok (), t) ∧
      Stands history.hash (n - parameters.blockHashCount.toNat) n t := by
  induction n with
  | zero =>
    rw [Nat.zero_sub]
    exact ⟨m, rfl, h⟩
  | succ n ih =>
    obtain ⟨before, hbefore, hstands⟩ := ih (by omega)
    -- the start of the next block drops nothing; its end does
    obtain ⟨opened, hopened, hstands, _, hindex⟩ :=
      stands_opened parameters hspares hstands (Nat.sub_le _ _) hsize
    obtain ⟨t, hfinish, hstands⟩ := stands_finish parameters hsize hstands hindex
    exact ⟨t, (Program.bind_ok hbefore).trans ((Program.bind_ok hopened).trans hfinish), hstands⟩

end Runs

/-- What a store gives of the ancestry of block `n`, if hashes are kept from block `first` on, and what
the checks bind a signature to. -/
structure Binds (hash : ℕ → BlockHash) (kept : UInt64) (first n : ℕ) (m : Memory) : Prop where
  blockHash : ∀ block, Books.blockHash? block m =
    .ok (if Kept first n block then some (hash block.toNat) else none)
  mortality : ∀ era : Era, (Check.mortality era).signedDatum m =
    if Kept first n (era.birth (UInt64.ofNat n)) then
      (.ok (some (.birthBlockHash (hash (era.birth (UInt64.ofNat n)).toNat))), m)
    else (.error (.invalid .ancientBirthBlock), m)
  /-- In the window of an era that is no longer than what is kept, the birth block is one and the same. -/
  window : ∀ (era : MortalEra) (current : UInt64), era.period ≤ kept →
    (Era.mortal era).birth current < UInt64.ofNat n →
    UInt64.ofNat n < (Era.mortal era).death current →
    (Check.mortality (.mortal era)).signedDatum m =
      (.ok (some (.birthBlockHash (hash ((Era.mortal era).birth current).toNat))), m)
  immortal : (Check.mortality .immortal).signedDatum m = (.ok (some (.birthBlockHash (hash 0))), m)
  genesis : Check.genesis.signedDatum m = (.ok (some (.genesisHash (hash 0))), m)

/-- Of all the hashes of a chain a store gives those that are kept. -/
theorem blockHash_of_stands (h : Stands hash first n m) (block : UInt64) :
    Books.blockHash? block m = .ok (if Kept first n block then some (hash block.toNat) else none) := by
  have hget := h.hashes block
  by_cases hkept : Kept first n block
  · rw [if_pos hkept] at hget ⊢
    exact Cell.get?_of_encode BlockHash.codec_lawful hget
  · rw [if_neg hkept] at hget ⊢
    exact Cell.get?_of_none hget

/-- A signature is bound to the birth block of its era as long as the hash of that is kept. -/
theorem mortality_of_stands (h : Stands hash first n m) (era : Era) :
    (Check.mortality era).signedDatum m =
      if Kept first n (era.birth (UInt64.ofNat n)) then
        (.ok (some (.birthBlockHash (hash (era.birth (UInt64.ofNat n)).toNat))), m)
      else (.error (.invalid .ancientBirthBlock), m) := by
  have hnumber : Books.blockNumber m = .ok (UInt64.ofNat n) := h.number
  have hbirth := blockHash_of_stands h (era.birth (UInt64.ofNat n))
  rw [Check.signedDatum_mortality, Program.bind_ok (Check.lookup_ok hnumber),
    Program.bind_ok (Check.lookup_ok hbirth)]
  split <;> rfl

theorem binds_of_stands (hsize : n < UInt64.size) (h : Stands hash first n m)
    (hfirst : first ≤ n - parameters.blockHashCount.toNat) :
    Binds hash parameters.blockHashCount first n m where
  blockHash := blockHash_of_stands h
  mortality := mortality_of_stands h
  window era current hperiod hbirth hdeath := by
    have hsame := Era.birth_eq_of_window hbirth hdeath
    have hwindow := Era.lt_birth_add_period era current _ hdeath
    have hword : (UInt64.ofNat n).toNat = n := UInt64.toNat_ofNat_of_lt' hsize
    have hperiod' := UInt64.le_iff_toNat_le.mp hperiod
    have hbirth' := UInt64.lt_iff_toNat_lt.mp hbirth
    -- the window is no longer than what is kept, so its start has not fallen out
    have hkept : Kept first n ((Era.mortal era).birth current) := by
      rw [hword] at hwindow hbirth'
      rw [kept_iff]
      omega
    rw [mortality_of_stands h, hsame, if_pos hkept]
  immortal := (mortality_of_stands h .immortal).trans (if_pos (Or.inl rfl))
  genesis := by
    have hzero : Books.blockHash? 0 m = .ok (some (hash 0)) :=
      (blockHash_of_stands h 0).trans (congrArg _ (if_pos (Or.inl rfl)))
    exact Program.bind_ok (Check.lookup_ok hzero)

/-- The hashes that a chain keeps bind its signatures. On a seeded store without other hashes, after any
number of whole blocks whose extrinsics leave the ancestry alone, the hash of a block can be found just if
it is that of block zero or of one of the last blocks, as many as are configured; before the end of the
last block there may be one more. -/
theorem History.kept_hashes_bind (history : History) (parameters : Parameters) (m : Memory)
    (hgenesis : parameters.genesisHash = history.hash 0)
    (hempty : ∀ block, Store.get? m (Books.blockHashes.cell block).key = none)
    (hspares : ∀ k, ∀ attempt ∈ history.attempts k, attempt.SparesAncestry)
    (n : ℕ) (hn : 1 ≤ n) (hsize : n < UInt64.size) :
    ∃ opened closed : Memory,
      (do
        history.blocks parameters (n - 1)
        history.opened parameters n : Program Memory StoreError Unit) (seed parameters m) =
          (.ok (), opened) ∧
      history.blocks parameters n (seed parameters m) = (.ok (), closed) ∧
      Binds history.hash parameters.blockHashCount (n - 1 - parameters.blockHashCount.toNat) n opened ∧
      Binds history.hash parameters.blockHashCount (n - parameters.blockHashCount.toNat) n closed := by
  have hseed : Stands history.hash 0 0 (seed parameters m) :=
    stands_seed parameters hgenesis hempty
  obtain ⟨before, hbefore, hstands⟩ :=
    stands_blocks parameters (n := n - 1) hspares hseed (by omega)
  have hnext : n - 1 + 1 = n := by omega
  obtain ⟨opened, hopened, hstanding, -⟩ :=
    stands_opened parameters hspares hstands (Nat.sub_le _ _) (by omega)
  rw [hnext] at hopened hstanding
  obtain ⟨closed, hclosed, hended⟩ := stands_blocks parameters hspares hseed hsize
  refine ⟨opened, closed, (Program.bind_ok hbefore).trans hopened, hclosed, ?_, ?_⟩
  · exact binds_of_stands parameters hsize hstanding (by omega)
  · exact binds_of_stands parameters hsize hended le_rfl

def fromThree : MortalEra := MortalEra.ofNats 4 3 (by decide) (by decide)

/-- A chain whose blocks hold one extrinsic each, all signed for the same era. -/
def sameEraHistory : History where
  hash n := ⟨FixedBytes.replicate 32 (UInt8.ofNat n)⟩
  attempts n := [⟨CheckChain.standard cappedParameters (.mortal fromThree) (UInt64.ofNat (n - 1)),
    some ⟨FixedBytes.replicate 32 1⟩, ⟨[], { weight := ⟨10, 4⟩, cls := .normal }, 3⟩,
    .set [9] [1] (.done {})⟩]

def fourKept : Parameters := { cappedParameters with blockHashCount := 4 }

theorem sameEraHistory_spare (n : ℕ) : ∀ attempt ∈ sameEraHistory.attempts n, attempt.SparesAncestry := by
  intro attempt hmem
  rw [List.mem_singleton.mp hmem]
  refine Attempt.sparesAncestry_standard ⟨?_, trivial⟩
  -- the only key that is written is shorter than any key of the ancestry
  rintro (hnumber | ⟨block, hblock⟩)
  · have hlength : 1 = Books.number.key.length := congrArg List.length hnumber
    rw [Books.number, Cell.named, length_stemOf] at hlength
    omega
  · exact CellMap.key_ne_of_length rfl (length_stemOf _ _) (by decide) block hblock.symm

theorem sameEraHistory_bind :
    fourKept.genesisHash = sameEraHistory.hash 0 ∧
    (∀ block, Store.get? Memory.empty (Books.blockHashes.cell block).key = none) ∧
    (∀ k, ∀ attempt ∈ sameEraHistory.attempts k, attempt.SparesAncestry) ∧
    ∃ opened closed : Memory,
      sameEraHistory.blocks fourKept 6 (seed fourKept Memory.empty) = (.ok (), closed) ∧
      Books.blockHash? 1 opened = .ok (some (sameEraHistory.hash 1)) ∧
      Books.blockHash? 1 closed = .ok none ∧
      (Check.mortality (.mortal fromThree)).signedDatum closed =
        (.ok (some (.birthBlockHash (sameEraHistory.hash 3))), closed) := by
  have hempty (block : UInt64) :
      Store.get? Memory.empty (Books.blockHashes.cell block).key = none := rfl
  have hsize : 6 < UInt64.size := by decide
  obtain ⟨opened, closed, -, hclosed, hopened, hends⟩ :=
    sameEraHistory.kept_hashes_bind fourKept Memory.empty rfl hempty sameEraHistory_spare 6 (by omega) hsize
  refine ⟨rfl, hempty, sameEraHistory_spare, opened, closed, hclosed, ?_, ?_, ?_⟩
  · exact hopened.blockHash 1
  · exact hends.blockHash 1
  · exact hends.window fromThree 6 (by decide) (by decide) (by decide)

end BlockRuntime.Block

import BlockRuntime.Check.Standard
import BlockRuntime.Proofs.Check.Resources
import BlockRuntime.Proofs.Extrinsic.Rejection

namespace BlockRuntime.CheckChain

variable {τ : Type} {view : Memory → τ} {parameters : Parameters} {era : Era} {nonce : UInt64}
  {s t : Memory}

def front (parameters : Parameters) (era : Era) (nonce : UInt64) : List (Check Memory) :=
  [Check.nonZeroSender, Check.specVersion parameters.versions.specVersion,
    Check.transactionVersion parameters.versions.transactionVersion, Check.genesis,
    Check.mortality era, Check.nonce nonce]

theorem standard_checks (parameters : Parameters) (era : Era) (nonce : UInt64) :
    (standard parameters era nonce : CheckChain Memory).checks =
      front parameters era nonce ++ [Check.resources parameters.blockLength parameters.blockWeights] :=
  rfl

/-- Of the checks in front, the nonce check is the only one that writes, and it writes the account of the
signer. -/
theorem keeps_front_preDispatch {who : AccountId}
    (haccount : ∀ value m, view (Store.set m (Books.account.cell who).key value) = view m)
    {check : Check Memory} (hmem : check ∈ front parameters era nonce) (submission : Submission) :
    (check.preDispatch who submission).Keeps view := by
  simp only [front, List.mem_cons, List.not_mem_nil, or_false] at hmem
  rcases hmem with rfl | rfl | rfl | rfl | rfl | rfl
  · have hsender : (Check.nonZeroSender.validate who submission).Keeps view := by
      simp only [Check.nonZeroSender]
      split
      · exact .fail _
      · exact .pure _
    exact .bind hsender fun _ => .pure _
  · exact .bind (.pure _) fun _ => .pure _
  · exact .bind (.pure _) fun _ => .pure _
  · exact .bind (.pure _) fun _ => .pure _
  · exact .bind (.bind (.mapError _ (.query _)) fun _ => .bind (.demand _) fun _ => .pure _)
      fun _ => .pure _
  · exact .bind (.mapError _ (.query _)) fun _ => .bind (.ofExcept _) fun _ =>
      .bind (.update fun m => haccount _ m) fun _ => .pure _

/-- The checks in front of the resource check write nothing but accounts. -/
theorem keeps_front
    (haccount : ∀ who value m, view (Store.set m (Books.account.cell who).key value) = view m) :
    (⟨front parameters era nonce⟩ : CheckChain Memory).Keeps view where
  preDispatch _ hmem who submission := keeps_front_preDispatch (haccount who) hmem submission
  preDispatchUnsigned check hmem submission := by
    simp only [front, List.mem_cons, List.not_mem_nil, or_false] at hmem
    rcases hmem with rfl | rfl | rfl | rfl | rfl | rfl <;>
      exact .bind (.pure _) fun _ => .pure _
  postDispatch check hmem receipt settlement := by
    simp only [front, List.mem_cons, List.not_mem_nil, or_false] at hmem
    rcases hmem with rfl | rfl | rfl | rfl | rfl | rfl <;> exact .pure _

theorem front_settles {check : Check Memory} (h : check ∈ front parameters era nonce)
    (receipt : Option Receipt) (settlement : Settlement) :
    check.postDispatch receipt settlement = pure () := by
  simp only [front, List.mem_cons, List.not_mem_nil, or_false] at h
  rcases h with rfl | rfl | rfl | rfl | rfl | rfl <;> rfl

/-- In every phase the standard chain keeps what account records and the meters do not show in. -/
theorem keeps_standard
    (haccount : ∀ who value m, view (Store.set m (Books.account.cell who).key value) = view m)
    (hmeter : ∀ key ∈ Books.meterKeys, ∀ value m, view (Store.set m key value) = view m) :
    (standard parameters era nonce : CheckChain Memory).Keeps view where
  preDispatch check hmem who submission := by
    rw [standard_checks] at hmem
    rcases List.mem_append.mp hmem with hfront | hlast
    · exact (keeps_front haccount).preDispatch check hfront who submission
    · rw [List.mem_singleton.mp hlast]
      exact .bind (Check.keeps_chargeResources hmeter) fun _ => .pure _
  preDispatchUnsigned check hmem submission := by
    rw [standard_checks] at hmem
    rcases List.mem_append.mp hmem with hfront | hlast
    · exact (keeps_front haccount).preDispatchUnsigned check hfront submission
    · rw [List.mem_singleton.mp hlast]
      exact Check.keeps_chargeResources hmeter
  postDispatch check hmem receipt settlement := by
    rw [standard_checks] at hmem
    rcases List.mem_append.mp hmem with hfront | hlast
    · exact (keeps_front haccount).postDispatch check hfront receipt settlement
    · rw [List.mem_singleton.mp hlast]
      exact Check.keeps_refund (hmeter _ Books.blockWeight_mem_meterKeys)

theorem keeps_below_standard : (standard parameters era nonce).Keeps Memory.below :=
  keeps_standard (fun _ _ m => Memory.below_set m _ _) fun _ _ _ m => Memory.below_set m _ _

/-- The standard chain keeps the bytes under a key that is neither an account nor a meter. -/
theorem keeps_at_standard_of_ne {key : Key} (haccount : ∀ who, (Books.account.cell who).key ≠ key)
    (hmeter : ∀ meter ∈ Books.meterKeys, meter ≠ key) :
    (standard parameters era nonce).Keeps (Store.at key) := by
  apply keeps_standard
  · intro who value m
    exact (Memory.get?_set m _ value key).trans (if_neg (haccount who))
  · intro meter hmem value m
    exact (Memory.get?_set m meter value key).trans (if_neg (hmeter meter hmem))

theorem keeps_at_standard {key : Key} (hkey : key ∈ Books.tallyKeys) (hmeter : key ∉ Books.meterKeys) :
    (standard parameters era nonce).Keeps (Store.at key) :=
  keeps_at_standard_of_ne (Books.account_ne hkey) fun _ hmem heq => hmeter (heq ▸ hmem)

/-- A chain is settled by its last check, if those in front of it settle nothing and there is a receipt
for each check. -/
theorem postDispatch_last {front : List (Check Memory)} {last : Check Memory}
    {receipts : Option (List Receipt)} {settlement : Settlement}
    (hfront : ∀ check ∈ front, ∀ receipt, check.postDispatch receipt settlement = pure ())
    (hlength : ∀ list, receipts = some list → list.length = (front ++ [last]).length) :
    ∃ receipt, postDispatch ⟨front ++ [last]⟩ receipts settlement =
      last.postDispatch receipt settlement := by
  cases receipts with
  | none =>
    refine ⟨none, ?_⟩
    change (front ++ [last]).forM (fun check => check.postDispatch none settlement) = _
    induction front with
    | nil => exact bind_pure_unit
    | cons check front ih =>
      -- a check that settles nothing leaves the store to the ones behind it
      have hcheck := hfront check List.mem_cons_self none
      have hrest := ih (fun check hmem => hfront check (List.mem_cons_of_mem _ hmem)) nofun
      change (check.postDispatch none settlement >>= fun _ =>
        (front ++ [last]).forM fun check => check.postDispatch none settlement) = _
      rw [hcheck, pure_bind, hrest]
  | some receipts =>
    have hmatch := hlength receipts rfl
    simp only [postDispatch, if_pos hmatch]
    clear hlength
    induction front generalizing receipts with
    | nil =>
      obtain ⟨receipt, rfl⟩ := List.length_eq_one_iff.mp hmatch
      exact ⟨some receipt, bind_pure_unit⟩
    | cons check front ih =>
      obtain ⟨receipt, rest, rfl⟩ := List.exists_cons_of_length_eq_add_one hmatch
      have hcheck := hfront check List.mem_cons_self (some receipt)
      obtain ⟨last_receipt, hrest⟩ := ih (fun check hmem => hfront check (List.mem_cons_of_mem _ hmem))
        rest (Nat.succ.inj hmatch)
      refine ⟨last_receipt, ?_⟩
      change (check.postDispatch (some receipt) settlement >>= fun _ =>
        ((front ++ [last]).zip rest).forM fun pair =>
          pair.1.postDispatch (some pair.2) settlement) = _
      rw [hcheck, pure_bind]
      exact hrest

/-- With a receipt for each check the standard chain gives back what was not used, and nothing else. -/
theorem postDispatch_standard {receipts : Option (List Receipt)} {settlement : Settlement}
    (hlength : ∀ list, receipts = some list → list.length = 7) :
    (standard parameters era nonce : CheckChain Memory).postDispatch receipts settlement =
      Check.refund settlement := by
  have hfront : ∀ check ∈ front parameters era nonce, ∀ receipt,
      check.postDispatch receipt settlement = pure () :=
    fun check hmem receipt => front_settles hmem receipt settlement
  have hlast : ∃ receipt, postDispatch ⟨front parameters era nonce ++
      [Check.resources parameters.blockLength parameters.blockWeights]⟩ receipts settlement =
        (Check.resources parameters.blockLength parameters.blockWeights).postDispatch receipt
          settlement := postDispatch_last hfront hlength
  obtain ⟨_, hlast⟩ := hlast
  exact hlast

/-- Any other number of receipts is refused before a check runs. -/
theorem postDispatch_standard_cases (receipts : Option (List Receipt)) (settlement : Settlement) :
    (standard parameters era nonce : CheckChain Memory).postDispatch receipts settlement =
        Check.refund settlement ∨
      (standard parameters era nonce : CheckChain Memory).postDispatch receipts settlement =
        Program.fail Rejection.lookupFailed := by
  by_cases hlength : ∀ list, receipts = some list → list.length = 7
  · exact Or.inl (postDispatch_standard hlength)
  · obtain ⟨list, hlist⟩ := not_forall.mp hlength
    obtain ⟨rfl, hne⟩ := Classical.not_imp.mp hlist
    exact Or.inr (if_neg hne)

/-- A settlement that succeeds is a refund. -/
theorem postDispatch_standard_eq_ok {receipts : Option (List Receipt)} {settlement : Settlement}
    (h : (standard parameters era nonce).postDispatch receipts settlement s = (.ok (), t)) :
    Check.refund settlement s = (.ok (), t) := by
  rcases postDispatch_standard_cases receipts settlement with hrefund | hrefused
  · rw [← hrefund]
    exact h
  · rw [hrefused] at h
    cases h

end BlockRuntime.CheckChain

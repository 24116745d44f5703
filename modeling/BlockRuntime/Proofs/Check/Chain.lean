import BlockRuntime.Check.Chain
import BlockRuntime.Proofs.Program

namespace BlockRuntime

namespace Admission

theorem neutral_combine (a : Admission) : neutral.combine a = a := by
  have hpriority : neutral.priority.saturatingAdd a.priority = a.priority :=
    UInt64.zero_saturatingAdd _
  have hlongevity : neutral.longevity.least a.longevity = a.longevity := UInt64.maxValue_least _
  unfold combine
  rw [hpriority, hlongevity]
  rfl

theorem combine_neutral (a : Admission) : a.combine neutral = a := by
  have hpriority : a.priority.saturatingAdd neutral.priority = a.priority :=
    UInt64.saturatingAdd_zero _
  have hlongevity : a.longevity.least neutral.longevity = a.longevity := UInt64.least_maxValue _
  have hrequires : a.requires ++ neutral.requires = a.requires := List.append_nil _
  have hprovides : a.provides ++ neutral.provides = a.provides := List.append_nil _
  have hpropagate : (a.propagate && neutral.propagate) = a.propagate := Bool.and_true _
  unfold combine
  rw [hpriority, hlongevity, hrequires, hprovides, hpropagate]

theorem combine_assoc (a b c : Admission) : (a.combine b).combine c = a.combine (b.combine c) := by
  unfold combine
  rw [UInt64.saturatingAdd_assoc, UInt64.least_assoc, List.append_assoc, List.append_assoc,
    Bool.and_assoc]

instance : Std.Associative combine := ⟨combine_assoc⟩

instance : Std.LawfulIdentity combine neutral where
  left_id := neutral_combine
  right_id := combine_neutral

end Admission

def Exit.stopped {ε α : Type} : Option ε → Exit ε α
  | some cause => error cause
  | none => aborted

namespace Program

variable {σ ε α β μ : Type} {join : μ → μ → μ} {unit : μ} {f : α → Program σ ε μ} {s t u : σ}
  {why : Option ε}

theorem bind_stopped {p : Program σ ε α} {g : α → Program σ ε β} (h : p s = (.stopped why, t)) :
    (p >>= g) s = (.stopped why, t) := by
  cases why with
  | some cause => exact bind_error h
  | none => exact bind_aborted h

/-- A composed program was stopped in its first part, or behind it. -/
theorem bind_eq_stopped {p : Program σ ε α} {g : α → Program σ ε β}
    (h : (p >>= g) s = (.stopped why, t)) :
    p s = (.stopped why, t) ∨ ∃ a u, p s = (.ok a, u) ∧ g a u = (.stopped why, t) := by
  rcases hp : p s with ⟨a | cause | _, u⟩
  · right
    rw [bind_ok hp] at h
    exact ⟨a, u, rfl, h⟩
  · left
    rw [bind_error hp] at h
    cases why <;> cases h
    rfl
  · left
    rw [bind_aborted hp] at h
    cases why <;> cases h
    rfl

/-- A value that is converted afterwards does not change where a program stops. -/
theorem map_eq_stopped_iff {p : Program σ ε α} {g : α → β} :
    (g <$> p) s = (.stopped why, t) ↔ p s = (.stopped why, t) := by
  rw [map_eq_pure_bind]
  constructor
  · intro h
    rcases bind_eq_stopped h with hp | ⟨a, u, -, hpure⟩
    · exact hp
    · cases why <;> cases hpure
  · exact bind_stopped

def gather (join : μ → μ → μ) (unit : μ) (f : α → Program σ ε μ) : List α → Program σ ε μ
  | [] => pure unit
  | x :: xs => do
    let first ← f x
    let rest ← gather join unit f xs
    pure (join first rest)

theorem gather_singleton [Std.LawfulIdentity join unit] (x : α) : gather join unit f [x] = f x := by
  have hright (a : μ) : join a unit = a := Std.LawfulRightIdentity.right_id a
  unfold gather gather
  simp only [pure_bind, hright, bind_pure]

section Laws

variable [Std.Associative join] [Std.LawfulIdentity join unit]

/-- Gathering over two lists one behind the other joins what the two give. -/
theorem gather_append (xs ys : List α) :
    gather join unit f (xs ++ ys) = (do
      let first ← gather join unit f xs
      let rest ← gather join unit f ys
      pure (join first rest)) := by
  have hleft (a : μ) : join unit a = a := Std.LawfulLeftIdentity.left_id a
  have hassoc (a b c : μ) : join (join a b) c = join a (join b c) := Std.Associative.assoc a b c
  induction xs with
  | nil => simp only [List.nil_append, gather, pure_bind, hleft, bind_pure]
  | cons x xs ih => simp only [List.cons_append, gather, ih, bind_assoc, pure_bind, hassoc]

/-- Collecting from the left, on top of what was there before, is joining from the right. -/
theorem foldlM_eq_gather (xs : List α) (start : μ) :
    xs.foldlM (fun sofar x => do pure (join sofar (← f x))) start =
      join start <$> gather join unit f xs := by
  have hright (a : μ) : join a unit = a := Std.LawfulRightIdentity.right_id a
  have hassoc (a b c : μ) : join (join a b) c = join a (join b c) := Std.Associative.assoc a b c
  induction xs generalizing start with
  | nil => simp only [List.foldlM_nil, gather, map_pure, hright]
  | cons x xs ih =>
    simp only [List.foldlM_cons, gather, ih, map_eq_pure_bind, bind_assoc, pure_bind, hassoc]

end Laws

theorem mapM_eq_gather (g : α → Program σ ε β) (xs : List α) :
    xs.mapM g = gather (· ++ ·) [] (fun x => List.singleton <$> g x) xs := by
  induction xs with
  | nil => rfl
  | cons x xs ih =>
    rw [List.mapM_cons, ih]
    simp only [gather, map_eq_pure_bind, bind_assoc, pure_bind]
    rfl

theorem forM_eq_gather (g : α → Program σ ε Unit) (xs : List α) :
    xs.forM g = gather (fun _ _ => ()) () g xs := by
  induction xs with
  | nil => rfl
  | cons x xs ih =>
    change (g x >>= fun _ => xs.forM g) = _
    rw [ih]
    simp only [gather, bind_pure_unit]

/-- What was stopped was stopped at the first member that stops. -/
theorem gather_eq_stopped {xs : List α} (h : gather join unit f xs s = (.stopped why, t)) :
    ∃ before x after value u, xs = before ++ x :: after ∧
      gather join unit f before s = (.ok value, u) ∧ f x u = (.stopped why, t) := by
  induction xs generalizing s with
  | nil => cases why <;> cases h
  | cons x xs ih =>
    unfold gather at h
    rcases bind_eq_stopped h with hx | ⟨first, v, hx, hrest⟩
    · exact ⟨[], x, xs, unit, s, rfl, rfl, hx⟩
    · -- the first member went through, so the one that stops is among the others
      rcases bind_eq_stopped hrest with hxs | ⟨_, _, _, hpure⟩
      · obtain ⟨before, y, after, value, u, rfl, hbefore, hy⟩ := ih hxs
        refine ⟨x :: before, y, after, join first value, u, rfl, ?_, hy⟩
        exact (bind_ok hx).trans (bind_ok hbefore)
      · cases why <;> cases hpure

/-- Whatever stands behind a member that stops is not run. -/
theorem gather_stopped {before : List α} {x : α} {value : μ}
    (hbefore : gather join unit f before s = (.ok value, u)) (hx : f x u = (.stopped why, t))
    (after : List α) : gather join unit f (before ++ x :: after) s = (.stopped why, t) := by
  induction before generalizing s value with
  | nil =>
    cases hbefore
    exact bind_stopped hx
  | cons y before ih =>
    obtain ⟨first, v, hy, hrest⟩ := bind_eq_ok hbefore
    obtain ⟨rest, w, hbefore, hdone⟩ := bind_eq_ok hrest
    cases hdone
    exact (bind_ok hy).trans (bind_stopped (ih hbefore))

end Program

namespace CheckChain

variable {σ β μ : Type}

/-- A phase of chains that goes through the checks in order. Each check has its own part in the phase, and
what it answers is handed on as a value of the phase; the values are joined. -/
structure InOrder (join : μ → μ → μ) (unit : μ) (part : Check σ → Program σ Rejection β)
    (give : β → μ) (phase : List (Check σ) → Program σ Rejection μ) : Prop where
  empty : phase [] = pure unit
  single : ∀ check, phase [check] = give <$> part check
  append : ∀ a b, phase (a ++ b) = do
    let first ← phase a
    let rest ← phase b
    pure (join first rest)
  /-- A phase that is stopped has gone through the checks in front of one that stops. -/
  first_stop : ∀ checks s why t, phase checks s = (.stopped why, t) →
    ∃ before check after value u, checks = before ++ check :: after ∧
      phase before s = (.ok value, u) ∧ part check u = (.stopped why, t)
  unasked : ∀ before s value u check why t, phase before s = (.ok value, u) →
    part check u = (.stopped why, t) →
      ∀ after, phase (before ++ check :: after) s = (.stopped why, t)

/-- A phase that gathers its answers goes through the checks in order, if joining them is associative and
the empty answer is neutral. -/
theorem InOrder.of_gather {join : μ → μ → μ} {unit : μ} [Std.Associative join]
    [Std.LawfulIdentity join unit] {part : Check σ → Program σ Rejection β} {give : β → μ}
    {phase : List (Check σ) → Program σ Rejection μ}
    (h : ∀ checks, phase checks = Program.gather join unit (fun check => give <$> part check) checks) :
    InOrder join unit part give phase where
  empty := h []
  single check := (h [check]).trans (Program.gather_singleton check)
  append a b := by
    rw [h, h, h]
    exact Program.gather_append a b
  first_stop checks s why t hstop := by
    rw [h] at hstop
    obtain ⟨before, check, after, value, u, hcut, hbefore, hcheck⟩ := Program.gather_eq_stopped hstop
    refine ⟨before, check, after, value, u, hcut, ?_, Program.map_eq_stopped_iff.mp hcheck⟩
    rw [h]
    exact hbefore
  unasked before s value u check why t hbefore hcheck after := by
    rw [h] at hbefore ⊢
    exact Program.gather_stopped hbefore (Program.map_eq_stopped_iff.mpr hcheck) after

variable (who : AccountId) (submission : Submission)

/-- A phase that joins what the checks tell the pool. -/
theorem inOrder_foldlM (part : Check σ → Program σ Rejection Admission) :
    InOrder Admission.combine Admission.neutral part id fun checks =>
      checks.foldlM (fun sofar check => do pure (sofar.combine (← part check))) Admission.neutral := by
  apply InOrder.of_gather
  intro checks
  have hneutral : Admission.neutral.combine = id := funext Admission.neutral_combine
  calc
    _ = Admission.neutral.combine <$>
        Program.gather Admission.combine Admission.neutral part checks :=
      Program.foldlM_eq_gather checks Admission.neutral
    _ = Program.gather Admission.combine Admission.neutral part checks := by rw [hneutral, id_map]
    _ = _ := by simp only [id_map]

theorem inOrder_preDispatch :
    InOrder (· ++ ·) [] (fun check : Check σ => check.preDispatch who submission) List.singleton
      fun checks => preDispatch ⟨checks⟩ who submission := by
  apply InOrder.of_gather
  intro checks
  exact Program.mapM_eq_gather _ checks

theorem inOrder_preDispatchUnsigned :
    InOrder (fun _ _ => ()) () (fun check : Check σ => check.preDispatchUnsigned submission) id
      fun checks => preDispatchUnsigned ⟨checks⟩ submission := by
  -- two answers that tell nothing are joined to one that tells nothing
  have hassoc : Std.Associative fun (_ _ : Unit) => () := ⟨fun _ _ _ => rfl⟩
  have hunit : Std.LawfulIdentity (fun (_ _ : Unit) => ()) () :=
    { left_id := fun _ => rfl, right_id := fun _ => rfl }
  apply InOrder.of_gather
  intro checks
  simp only [id_map]
  exact Program.forM_eq_gather _ checks

section Receipts

variable {who submission} {chain : CheckChain σ} {receipts : List Receipt} {s t : σ}

theorem length_of_preDispatch (h : chain.preDispatch who submission s = (.ok receipts, t)) :
    receipts.length = chain.length := by
  obtain ⟨checks⟩ := chain
  simp only [preDispatch] at h
  induction checks generalizing receipts s with
  | nil =>
    cases h
    rfl
  | cons check checks ih =>
    rw [List.mapM_cons] at h
    obtain ⟨receipt, u, -, hrest⟩ := Program.bind_eq_ok h
    obtain ⟨others, v, hothers, hdone⟩ := Program.bind_eq_ok hrest
    cases hdone
    exact congrArg (· + 1) (ih hothers)

/-- The checks of a chain with the receipts that they gave, each when its turn came. -/
structure Gave (chain : CheckChain σ) (who : AccountId) (submission : Submission) (s : σ)
    (receipts : List Receipt) (given : List (Check σ × Receipt)) : Prop where
  checks : given.map Prod.fst = chain.checks
  receipts : given.map Prod.snd = receipts
  inTurn : ∀ before check receipt after, given = before ++ (check, receipt) :: after →
    ∃ u v, preDispatch ⟨before.map Prod.fst⟩ who submission s = (.ok (before.map Prod.snd), u) ∧
      check.preDispatch who submission u = (.ok receipt, v)

/-- The receipts of a chain are those that its checks gave, each in its turn. -/
theorem gave_of_preDispatch (h : chain.preDispatch who submission s = (.ok receipts, t)) :
    Gave chain who submission s receipts (chain.checks.zip receipts) := by
  have hlength : receipts.length = chain.checks.length := length_of_preDispatch h
  have hchecks : (chain.checks.zip receipts).map Prod.fst = chain.checks :=
    List.map_fst_zip (Nat.le_of_eq hlength.symm)
  have hreceipts : (chain.checks.zip receipts).map Prod.snd = receipts :=
    List.map_snd_zip (Nat.le_of_eq hlength)
  refine ⟨hchecks, hreceipts, ?_⟩
  intro before check receipt after hcut
  rw [hcut, List.map_append, List.map_cons] at hchecks hreceipts
  have hrun : preDispatch ⟨before.map Prod.fst ++ check :: after.map Prod.fst⟩ who submission s =
      (.ok receipts, t) := by
    rw [← h, hchecks]
  rw [(inOrder_preDispatch who submission).append] at hrun
  obtain ⟨first, u, hbefore, hrest⟩ := Program.bind_eq_ok hrun
  obtain ⟨rest, v, hafter, hdone⟩ := Program.bind_eq_ok hrest
  simp only [preDispatch, List.mapM_cons] at hafter
  obtain ⟨own, w, hown, hothers⟩ := Program.bind_eq_ok hafter
  obtain ⟨others, z, -, hjoined⟩ := Program.bind_eq_ok hothers
  cases hjoined
  -- the checks in front gave as many receipts as they are, so the next receipt is the one given here
  have hsplit : before.map Prod.snd ++ receipt :: after.map Prod.snd = first ++ own :: others := by
    cases hdone
    exact hreceipts
  have hfirst : first.length = (before.map Prod.fst).length := length_of_preDispatch hbefore
  obtain ⟨hfront, hback⟩ := List.append_inj hsplit (by simp [hfirst])
  refine ⟨u, w, ?_, ?_⟩
  · rw [hfront]
    exact hbefore
  · rw [(List.cons.inj hback).1]
    exact hown

theorem Gave.zip_eq {given : List (Check σ × Receipt)}
    (h : Gave chain who submission s receipts given) : chain.checks.zip receipts = given := by
  rw [← h.checks, ← h.receipts, List.zip_map', List.map_id']

/-- Afterwards every check gets the receipt back that it gave. -/
theorem postDispatch_of_gave {given : List (Check σ × Receipt)}
    (h : Gave chain who submission s receipts given) (settlement : Settlement) :
    chain.postDispatch (some receipts) settlement =
      given.forM fun pair => pair.1.postDispatch (some pair.2) settlement := by
  have hlength : receipts.length = chain.checks.length := by
    rw [← h.checks, ← h.receipts, List.length_map, List.length_map]
  calc
    chain.postDispatch (some receipts) settlement =
        (chain.checks.zip receipts).forM fun pair => pair.1.postDispatch (some pair.2) settlement :=
      if_pos hlength
    _ = _ := by rw [h.zip_eq]

end Receipts

/-- A chain is a homomorphism from lists of checks. Every phase before the dispatch goes through the checks in
order: what two parts of a chain answer is joined, and the first check that stops a phase ends it, with the
store as that check left it and no check behind it asked. Receipts that a chain gave go back to the checks
that gave them; any other number of receipts is refused with no check asked. Answers to the pool are joined
associatively, and the neutral answer adds nothing on either side. -/
theorem chain_is_homomorphism (who : AccountId) (submission : Submission) :
    InOrder Admission.combine Admission.neutral (fun check : Check σ => check.validate who submission)
      id (fun checks => validate ⟨checks⟩ who submission) ∧
    InOrder Admission.combine Admission.neutral (fun check : Check σ => check.validateUnsigned submission)
      id (fun checks => validateUnsigned ⟨checks⟩ submission) ∧
    InOrder (· ++ ·) [] (fun check : Check σ => check.preDispatch who submission) List.singleton
      (fun checks => preDispatch ⟨checks⟩ who submission) ∧
    InOrder (fun _ _ => ()) () (fun check : Check σ => check.preDispatchUnsigned submission) id
      (fun checks => preDispatchUnsigned ⟨checks⟩ submission) ∧
    (∀ (chain : CheckChain σ) receipts s t, chain.preDispatch who submission s = (.ok receipts, t) →
      ∃ given, Gave chain who submission s receipts given ∧ ∀ settlement,
        chain.postDispatch (some receipts) settlement =
          given.forM fun pair => pair.1.postDispatch (some pair.2) settlement) ∧
    (∀ (chain : CheckChain σ) receipts settlement s, receipts.length ≠ chain.length →
      chain.postDispatch (some receipts) settlement s = (.error Rejection.lookupFailed, s)) ∧
    (∀ a b c : Admission, (a.combine b).combine c = a.combine (b.combine c)) ∧
    ∀ a : Admission, Admission.neutral.combine a = a ∧ a.combine Admission.neutral = a := by
  refine ⟨inOrder_foldlM _, inOrder_foldlM _, inOrder_preDispatch who submission,
    inOrder_preDispatchUnsigned submission, ?_, ?_, Admission.combine_assoc, ?_⟩
  · intro chain receipts s t h
    exact ⟨_, gave_of_preDispatch h, postDispatch_of_gave (gave_of_preDispatch h)⟩
  · intro chain receipts settlement s hlength
    have hrefused : chain.postDispatch (some receipts) settlement =
        Program.fail Rejection.lookupFailed := if_neg hlength
    rw [hrefused]
    rfl
  · intro a
    exact ⟨Admission.neutral_combine a, Admission.combine_neutral a⟩

/-- A check that notes down its number before a dispatch, and afterwards the receipt that it gets. -/
def notingCheck (number : UInt8) : Check (List Bytes) where
  name := "Noting"
  preDispatch _ _ := do
    Program.update ([number] :: ·)
    pure ⟨[number, number]⟩
  postDispatch receipt _ := Program.update fun notes =>
    match receipt with
    | some receipt => receipt.bytes :: notes
    | none => notes

def refusingCheck : Check (List Bytes) where
  name := "Refusing"
  preDispatch _ _ := do
    Program.update ([0] :: ·)
    Program.fail (.invalid .call)

/-- Two checks get back what each of them gave, and nobody is asked behind a check that refuses. -/
theorem notingChecks_in_order :
    let who : AccountId := ⟨FixedBytes.replicate 32 7⟩
    let submission : Submission := ⟨[], ⟨⟨1, 1⟩, .normal, .paid⟩, 1⟩
    let settlement : Settlement := ⟨submission.cost, default, 1, .ok ()⟩
    let chain : CheckChain (List Bytes) := ⟨[notingCheck 1, notingCheck 2]⟩
    chain.preDispatch who submission [] = (.ok [⟨[1, 1]⟩, ⟨[2, 2]⟩], [[2], [1]]) ∧
    chain.postDispatch (some [⟨[1, 1]⟩, ⟨[2, 2]⟩]) settlement [] = (.ok (), [[2, 2], [1, 1]]) ∧
    chain.postDispatch (some []) settlement [] = (.error Rejection.lookupFailed, []) ∧
    ∀ after, preDispatch ⟨[notingCheck 1] ++ refusingCheck :: after⟩ who submission [] =
      (.error (.invalid .call), [[0], [1]]) := by
  intro who submission settlement chain
  obtain ⟨-, -, hpre, -, hreceipts, hrefused, -⟩ :=
    @chain_is_homomorphism (List Bytes) who submission
  obtain ⟨given, hgave, hpost⟩ := hreceipts chain [⟨[1, 1]⟩, ⟨[2, 2]⟩] [] [[2], [1]] rfl
  refine ⟨rfl, ?_, hrefused chain [] settlement [] (by decide), ?_⟩
  · rw [hpost settlement, ← hgave.zip_eq]
    rfl
  · exact hpre.unasked [notingCheck 1] [] _ [[1]] refusingCheck (some (.invalid .call)) _ rfl rfl

end CheckChain

end BlockRuntime

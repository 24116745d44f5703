import BlockRuntime.Program
/-!
How a composed program ends, read backwards from the way it ended, and what a program keeps. A view is
any function of the store; a program that keeps a view leaves it alone on every way out, also when it
fails or aborts, and a composed program keeps what its parts keep. A program that does all that can fail
before it writes writes all or nothing.
-/

namespace BlockRuntime.Program

variable {σ ε ε' α β τ : Type}

/-- A composed program that gives a value has come through its first part with one. -/
theorem bind_eq_ok {p : Program σ ε α} {f : α → Program σ ε β} {s u : σ} {b : β}
    (h : (p >>= f) s = (.ok b, u)) : ∃ a t, p s = (.ok a, t) ∧ f a t = (.ok b, u) := by
  rcases hp : p s with ⟨a | cause | _, t⟩
  · exact ⟨a, t, rfl, (bind_ok hp).symm.trans h⟩
  · rw [bind_error hp] at h
    cases h
  · rw [bind_aborted hp] at h
    cases h

theorem mapError_eq_ok {f : ε → ε'} {p : Program σ ε α} {s t : σ} {a : α}
    (h : p.mapError f s = (.ok a, t)) : p s = (.ok a, t) := by
  rw [mapError_apply] at h
  rcases hp : p s with ⟨b | cause | _, u⟩ <;> rw [hp] at h <;> cases h
  rfl

theorem mapError_ok {f : ε → ε'} {p : Program σ ε α} {s t : σ} {a : α}
    (h : p s = (.ok a, t)) : p.mapError f s = (.ok a, t) := by
  rw [mapError_apply, h]
  rfl

theorem mapError_error {f : ε → ε'} {p : Program σ ε α} {s t : σ} {cause : ε}
    (h : p s = (.error cause, t)) : p.mapError f s = (.error (f cause), t) := by
  rw [mapError_apply, h]
  rfl

theorem query_eq_ok {f : σ → Except ε α} {s t : σ} {a : α} (h : query f s = (.ok a, t)) :
    f s = .ok a ∧ t = s := by
  rw [query_apply] at h
  rcases hf : f s with cause | b <;> rw [hf] at h <;> cases h
  exact ⟨rfl, rfl⟩

theorem query_ok {f : σ → Except ε α} {s : σ} {a : α} (h : f s = .ok a) :
    query f s = (.ok a, s) := by
  rw [query_apply, h]
  rfl

theorem query_error {f : σ → Except ε α} {s : σ} {cause : ε} (h : f s = .error cause) :
    query f s = (.error cause, s) := by
  rw [query_apply, h]
  rfl

theorem ofExcept_eq_ok {result : Except ε α} {s t : σ} {a : α}
    (h : ofExcept result s = (.ok a, t)) : result = .ok a ∧ t = s :=
  query_eq_ok (f := fun _ => result) h

/-- The result of a program is an error or a value, never an abort. -/
theorem result_eq_ok {p : Program σ ε α} {s t : σ} {r : Except ε α}
    (h : (p.result : Program σ ε' (Except ε α)) s = (.ok r, t)) : p s = (.ofExcept r, t) := by
  unfold result at h
  rcases hp : p s with ⟨a | cause | _, u⟩ <;> rw [hp] at h <;> cases h <;> rfl

theorem result_ofExcept {p : Program σ ε α} {s t : σ} {r : Except ε α}
    (h : p s = (.ofExcept r, t)) : (p.result : Program σ ε' (Except ε α)) s = (.ok r, t) := by
  unfold result
  rw [h]
  cases r <;> rfl

theorem snd_result (p : Program σ ε α) (s : σ) :
    ((p.result : Program σ ε' (Except ε α)) s).2 = (p s).2 := by
  unfold result
  rcases p s with ⟨_ | _ | _, _⟩ <;> rfl

theorem result_aborted {p : Program σ ε α} {s t : σ} (h : p s = (.aborted, t)) :
    (p.result : Program σ ε' (Except ε α)) s = (.aborted, t) := by
  unfold result
  rw [h]

/-- A property of programs that passes from the parts of a composed program to the whole. -/
structure Composes (P : {α : Type} → Program σ ε α → Prop) : Prop where
  pure : ∀ {α : Type} (value : α), P (Pure.pure value)
  bind : ∀ {α β : Type} {p : Program σ ε α} {f : α → Program σ ε β}, P p → (∀ a, P (f a)) → P (p >>= f)

namespace Composes

variable {P : {α : Type} → Program σ ε α → Prop}

theorem mapM (hP : Composes P) {f : α → Program σ ε β} {xs : List α} (h : ∀ x ∈ xs, P (f x)) :
    P (xs.mapM f) := by
  induction xs with
  | nil => exact hP.pure []
  | cons x xs ih =>
    rw [List.mapM_cons]
    have hxs := ih fun y hy => h y (List.mem_cons_of_mem _ hy)
    exact hP.bind (h x List.mem_cons_self) fun _ => hP.bind hxs fun _ => hP.pure _

theorem foldlM (hP : Composes P) {f : β → α → Program σ ε β} {xs : List α}
    (h : ∀ b, ∀ x ∈ xs, P (f b x)) (b : β) : P (xs.foldlM f b) := by
  induction xs generalizing b with
  | nil => exact hP.pure b
  | cons x xs ih =>
    have hxs := ih fun b y hy => h b y (List.mem_cons_of_mem _ hy)
    exact hP.bind (h b x List.mem_cons_self) hxs

theorem forM (hP : Composes P) {f : α → Program σ ε PUnit} {xs : List α} (h : ∀ x ∈ xs, P (f x)) :
    P (xs.forM f) := by
  induction xs with
  | nil => exact hP.pure _
  | cons x xs ih =>
    have hxs := ih fun y hy => h y (List.mem_cons_of_mem _ hy)
    exact hP.bind (h x List.mem_cons_self) fun _ => hxs

end Composes

/-- A program keeps a view of the store if the view is the same at its end, however it ends. -/
def Keeps (view : σ → τ) (p : Program σ ε α) : Prop := ∀ s, view (p s).2 = view s

namespace Keeps

variable {view : σ → τ}

theorem of_eq {p : Program σ ε α} (h : p.Keeps view) {s t : σ} {exit : Exit ε α}
    (hp : p s = (exit, t)) : view t = view s := by
  have ht := h s
  rw [hp] at ht
  exact ht

theorem pure (value : α) : (Pure.pure value : Program σ ε α).Keeps view := fun _ => rfl

theorem fail (cause : ε) : (Program.fail cause : Program σ ε α).Keeps view := fun _ => rfl

theorem abort : (Program.abort : Program σ ε α).Keeps view := fun _ => rfl

theorem read (f : σ → α) : (Program.read f : Program σ ε α).Keeps view := fun _ => rfl

theorem query (f : σ → Except ε α) : (Program.query f).Keeps view := fun _ => rfl

theorem ofExcept (result : Except ε α) : (Program.ofExcept result).Keeps view := fun _ => rfl

theorem demand (value? : Option α) : (Program.demand value? : Program σ ε α).Keeps view := by
  cases value? with
  | none => exact abort
  | some value => exact pure value

theorem update {f : σ → σ} (h : ∀ s, view (f s) = view s) :
    (Program.update f : Program σ ε Unit).Keeps view := h

theorem state {f : σ → α × σ} (h : ∀ s, view (f s).2 = view s) :
    (Program.state f : Program σ ε α).Keeps view := h

theorem mapError {p : Program σ ε α} (f : ε → ε') (h : p.Keeps view) :
    (p.mapError f).Keeps view := h

theorem result {p : Program σ ε α} (h : p.Keeps view) :
    (p.result : Program σ ε' (Except ε α)).Keeps view := by
  intro s
  rw [snd_result]
  exact h s

theorem bind {p : Program σ ε α} {f : α → Program σ ε β} (hp : p.Keeps view)
    (hf : ∀ a, (f a).Keeps view) : (p >>= f).Keeps view := by
  intro s
  have hs := hp s
  rw [bind_apply]
  cases (p s).1 with
  | ok value => exact (hf value _).trans hs
  | error cause => exact hs
  | aborted => exact hs

/-- What comes behind a program and writes nothing leaves what the program has left. -/
theorem snd_bind {p : Program σ ε α} {f : α → Program σ ε β} (hf : ∀ a, (f a).Keeps id) (s : σ) :
    ((p >>= f) s).2 = (p s).2 := by
  rw [bind_apply]
  cases (p s).1 with
  | ok value => exact hf value _
  | error cause => rfl
  | aborted => rfl

theorem composes : Composes fun {α : Type} (p : Program σ ε α) => p.Keeps view := ⟨pure, bind⟩

end Keeps

def FailsWith (allowed : ε → Prop) (p : Program σ ε α) : Prop :=
  ∀ s, (p s).1 ≠ .aborted ∧ ∀ cause, (p s).1 = .error cause → allowed cause

def NeverAborts (p : Program σ ε α) : Prop := p.FailsWith fun _ => True

namespace FailsWith

variable {allowed : ε → Prop}

theorem pure (value : α) : (Pure.pure value : Program σ ε α).FailsWith allowed :=
  fun _ => ⟨nofun, nofun⟩

theorem fail {cause : ε} (h : allowed cause) :
    (Program.fail cause : Program σ ε α).FailsWith allowed := by
  intro s
  refine ⟨nofun, fun found hfound => ?_⟩
  cases hfound
  exact h

theorem query {f : σ → Except ε α} (h : ∀ cause, allowed cause) :
    (Program.query f).FailsWith allowed := by
  intro s
  rw [query_apply]
  cases f s with
  | error cause => exact ⟨nofun, fun found _ => h found⟩
  | ok value => exact ⟨nofun, nofun⟩

theorem ofExcept {result : Except ε α} (h : ∀ cause, allowed cause) :
    (Program.ofExcept result : Program σ ε α).FailsWith allowed :=
  query (f := fun _ => result) h

theorem ofExit {exit : Exit ε α} (habort : exit ≠ .aborted) (h : ∀ cause, allowed cause) :
    (Program.ofExit exit : Program σ ε α).FailsWith allowed := fun _ => ⟨habort, fun cause _ => h cause⟩

/-- A value that is there is no cause to abort. -/
theorem demand {value? : Option α} (h : value?.isSome) :
    (Program.demand value? : Program σ ε α).FailsWith allowed := by
  obtain ⟨value, rfl⟩ := Option.isSome_iff_exists.mp h
  exact pure value

theorem update (f : σ → σ) : (Program.update f : Program σ ε Unit).FailsWith allowed :=
  fun _ => ⟨nofun, nofun⟩

theorem mapError {allowed' : ε' → Prop} {p : Program σ ε α} (hp : p.FailsWith allowed) {f : ε → ε'}
    (h : ∀ cause, allowed cause → allowed' (f cause)) : (p.mapError f).FailsWith allowed' := by
  intro s
  obtain ⟨habort, hallowed⟩ := hp s
  rw [mapError_apply]
  cases hexit : (p s).1 with
  | ok value => exact ⟨nofun, nofun⟩
  | error cause =>
    refine ⟨nofun, fun found hfound => ?_⟩
    cases hfound
    exact h cause (hallowed cause hexit)
  | aborted => exact absurd hexit habort

/-- An error that is handed on as a value is no failure any more. -/
theorem result {p : Program σ ε α} (hp : p.NeverAborts) {allowed' : ε' → Prop} :
    (p.result : Program σ ε' (Except ε α)).FailsWith allowed' := by
  intro s
  obtain ⟨habort, -⟩ := hp s
  unfold Program.result
  rcases hexit : p s with ⟨value | cause | _, t⟩
  · exact ⟨nofun, nofun⟩
  · exact ⟨nofun, nofun⟩
  · exact absurd (congrArg Prod.fst hexit) habort

theorem bind {p : Program σ ε α} {f : α → Program σ ε β} (hp : p.FailsWith allowed)
    (hf : ∀ a, (f a).FailsWith allowed) : (p >>= f).FailsWith allowed := by
  intro s
  obtain ⟨habort, hallowed⟩ := hp s
  rw [bind_apply]
  cases hexit : (p s).1 with
  | ok value => exact hf value _
  | error cause =>
    refine ⟨nofun, fun found hfound => ?_⟩
    cases hfound
    exact hallowed cause hexit
  | aborted => exact absurd hexit habort

theorem composes : Composes fun {α : Type} (p : Program σ ε α) => p.FailsWith allowed := ⟨pure, bind⟩

end FailsWith

def Succeeds (p : Program σ ε α) : Prop := ∀ s, ∃ value, (p s).1 = .ok value

namespace Succeeds

theorem pure (value : α) : (Pure.pure value : Program σ ε α).Succeeds := fun _ => ⟨value, rfl⟩

theorem update (f : σ → σ) : (Program.update f : Program σ ε Unit).Succeeds := fun _ => ⟨(), rfl⟩

theorem bind {p : Program σ ε α} {f : α → Program σ ε β} (hp : p.Succeeds)
    (hf : ∀ a, (f a).Succeeds) : (p >>= f).Succeeds := by
  intro s
  obtain ⟨a, ha⟩ := hp s
  rw [bind_apply, ha]
  exact hf a _

end Succeeds

/-- A program that has written nothing, unless it ends with a value. -/
def AllOrNothing (p : Program σ ε α) : Prop :=
  ∀ s, (∀ value, (p s).1 ≠ .ok value) → (p s).2 = s

namespace AllOrNothing

theorem of_keeps {p : Program σ ε α} (h : p.Keeps id) : p.AllOrNothing := fun s _ => h s

theorem of_succeeds {p : Program σ ε α} (h : p.Succeeds) : p.AllOrNothing := by
  intro s hs
  obtain ⟨value, hvalue⟩ := h s
  exact absurd hvalue (hs value)

theorem mapError {p : Program σ ε α} (f : ε → ε') (h : p.AllOrNothing) :
    (p.mapError f).AllOrNothing := by
  intro s hs
  refine h s fun value hvalue => hs value ?_
  rw [mapError_apply, hvalue]
  rfl

/-- What only reads may come first, and may fail as it likes. -/
theorem bind_of_keeps {p : Program σ ε α} {f : α → Program σ ε β} (hp : p.Keeps id)
    (hf : ∀ a, (f a).AllOrNothing) : (p >>= f).AllOrNothing := by
  intro s hs
  have hkept : (p s).2 = s := hp s
  rw [bind_apply, hkept] at hs ⊢
  cases hexit : (p s).1 with
  | ok a =>
    rw [hexit] at hs
    exact hf a s hs
  | error cause => rfl
  | aborted => rfl

/-- Once something may have been written, nothing may fail any more. -/
theorem bind_of_succeeds {p : Program σ ε α} {f : α → Program σ ε β} (hp : p.AllOrNothing)
    (hf : ∀ a, (f a).Succeeds) : (p >>= f).AllOrNothing := by
  intro s hs
  rw [bind_apply] at hs ⊢
  cases hexit : (p s).1 with
  | ok a =>
    obtain ⟨b, hb⟩ := hf a (p s).2
    rw [hexit] at hs
    exact absurd hb (hs b)
  | error cause =>
    refine hp s fun value hvalue => ?_
    rw [hexit] at hvalue
    exact nomatch hvalue
  | aborted =>
    refine hp s fun value hvalue => ?_
    rw [hexit] at hvalue
    exact nomatch hvalue

end AllOrNothing

end BlockRuntime.Program

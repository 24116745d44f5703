/-!
Programs over a store. A program ends with a value, with an error, or by aborting, and however it
ends it leaves a store: what it wrote before it failed is still there unless somebody undoes it.
-/

namespace BlockRuntime

inductive Exit (ε α : Type) where
  | ok (value : α)
  | error (cause : ε)
  | aborted
  deriving DecidableEq

namespace Exit

variable {ε ε' α β : Type}

def map (f : α → β) : Exit ε α → Exit ε β
  | ok value => ok (f value)
  | error cause => error cause
  | aborted => aborted

def mapError (f : ε → ε') : Exit ε α → Exit ε' α
  | ok value => ok value
  | error cause => error (f cause)
  | aborted => aborted

def ofExcept : Except ε α → Exit ε α
  | .ok value => ok value
  | .error cause => error cause

end Exit

def Program (σ ε α : Type) : Type := σ → Exit ε α × σ

namespace Program

variable {σ ε ε' α β : Type}

protected def pure (value : α) : Program σ ε α := fun s => (.ok value, s)

protected def bind (p : Program σ ε α) (f : α → Program σ ε β) : Program σ ε β := fun s =>
  match p s with
  | (.ok value, s) => f value s
  | (.error cause, s) => (.error cause, s)
  | (.aborted, s) => (.aborted, s)

instance : Monad (Program σ ε) where
  pure := Program.pure
  bind := Program.bind

def fail (cause : ε) : Program σ ε α := fun s => (.error cause, s)

def abort : Program σ ε α := fun s => (.aborted, s)

def read (f : σ → α) : Program σ ε α := fun s => (.ok (f s), s)

def query (f : σ → Except ε α) : Program σ ε α := fun s => (.ofExcept (f s), s)

def update (f : σ → σ) : Program σ ε Unit := fun s => (.ok (), f s)

def state (f : σ → α × σ) : Program σ ε α := fun s =>
  match f s with
  | (value, s) => (.ok value, s)

/-- A change of the store that may fail. If it fails, the store is left alone. -/
def replace (f : σ → Except ε σ) : Program σ ε Unit := fun s =>
  match f s with
  | .ok s => (.ok (), s)
  | .error cause => (.error cause, s)

def ofExcept (result : Except ε α) : Program σ ε α := fun s => (.ofExcept result, s)

def ofExit (exit : Exit ε α) : Program σ ε α := fun s => (exit, s)

def demand (value? : Option α) : Program σ ε α :=
  match value? with
  | some value => pure value
  | none => abort

def mapError (f : ε → ε') (p : Program σ ε α) : Program σ ε' α := fun s =>
  match p s with
  | (exit, s) => (exit.mapError f, s)

def attempt (p : Program σ ε α) : Program σ ε' (Exit ε α) := fun s =>
  match p s with
  | (exit, s) => (.ok exit, s)

/-- Runs a program and returns its error, if it has one, as a value. An abort goes on. -/
def result (p : Program σ ε α) : Program σ ε' (Except ε α) := fun s =>
  match p s with
  | (.ok value, s) => (.ok (.ok value), s)
  | (.error cause, s) => (.ok (.error cause), s)
  | (.aborted, s) => (.aborted, s)

def expect (p : Program σ ε α) : Program σ ε' α := fun s =>
  match p s with
  | (.ok value, s) => (.ok value, s)
  | (_, s) => (.aborted, s)

@[simp] theorem read_apply (f : σ → α) (s : σ) :
    (read f : Program σ ε α) s = (.ok (f s), s) := rfl

@[simp] theorem query_apply (f : σ → Except ε α) (s : σ) :
    query f s = (.ofExcept (f s), s) := rfl

@[simp] theorem ofExcept_apply (result : Except ε α) (s : σ) :
    ofExcept result s = (.ofExcept result, s) := rfl

@[simp] theorem demand_some (value : α) : (demand (some value) : Program σ ε α) = pure value := rfl

@[simp] theorem mapError_apply (f : ε → ε') (p : Program σ ε α) (s : σ) :
    p.mapError f s = ((p s).1.mapError f, (p s).2) := rfl

@[simp] theorem attempt_apply (p : Program σ ε α) (s : σ) :
    (p.attempt : Program σ ε' (Exit ε α)) s = (.ok (p s).1, (p s).2) := rfl

/-- A program goes on behind a value only; an error and an abort are handed on. -/
theorem bind_apply (p : Program σ ε α) (f : α → Program σ ε β) (s : σ) :
    (p >>= f) s =
      match (p s).1 with
      | .ok value => f value (p s).2
      | .error cause => (.error cause, (p s).2)
      | .aborted => (.aborted, (p s).2) := by
  change Program.bind p f s = _
  unfold Program.bind
  rcases p s with ⟨_ | _ | _, _⟩ <;> rfl

theorem bind_ok {p : Program σ ε α} {f : α → Program σ ε β} {s t : σ} {value : α}
    (h : p s = (.ok value, t)) : (p >>= f) s = f value t := by
  rw [bind_apply, h]

theorem bind_error {p : Program σ ε α} {f : α → Program σ ε β} {s t : σ} {cause : ε}
    (h : p s = (.error cause, t)) : (p >>= f) s = (.error cause, t) := by
  rw [bind_apply, h]

theorem bind_aborted {p : Program σ ε α} {f : α → Program σ ε β} {s t : σ}
    (h : p s = (.aborted, t)) : (p >>= f) s = (.aborted, t) := by
  rw [bind_apply, h]

instance : LawfulMonad (Program σ ε) :=
  LawfulMonad.mk' (Program σ ε)
    (fun p => by
      funext s
      change (p >>= fun a => pure a) s = p s
      rw [bind_apply]
      rcases hp : p s with ⟨_ | _ | _, _⟩ <;> rfl)
    (fun _ _ => rfl)
    (fun p f g => by
      funext s
      simp only [bind_apply]
      rcases hp : p s with ⟨_ | _ | _, _⟩ <;> rfl)

end Program

end BlockRuntime

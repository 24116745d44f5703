import BlockRuntime.Layer
/-!
Scripts: programs as data. A script works on a store only through the four operations of `Store`, and
it opens change sets only in layers that it also leaves, however it ends. What a script does next may
depend on everything it has found so far.

A script can be run in two ways. `Script.run` runs it on a layered store, with the layers of `Layer`.
`Script.runSaving` runs it on any store by saving a copy of the store at the start of every layer and
going back to it unless the layer is kept.
-/

namespace BlockRuntime

/-- A program that leaves every layer it opens. -/
inductive Script : (ε α : Type) → Type 1 where
  | done {ε α : Type} (value : α) : Script ε α
  | fail {ε α : Type} (cause : ε) : Script ε α
  | abort {ε α : Type} : Script ε α
  | get {ε α : Type} (key : Key) (next : Option Bytes → Script ε α) : Script ε α
  | set {ε α : Type} (key : Key) (value : Bytes) (next : Script ε α) : Script ε α
  | clear {ε α : Type} (key : Key) (next : Script ε α) : Script ε α
  | clearStem {ε α : Type} (stem : Bytes) (limit : Option UInt32) (next : Nat → Script ε α) :
    Script ε α
  | layer {ε α ε' β : Type} (lift : DispatchError → ε') (body : Script ε' β)
    (next : Except ε' β → Script ε α) : Script ε α
  | hold {ε α ε' : Type} (lift : DispatchError → ε') (holder : Script ε' Layer.Release)
    (next : Except ε' (Except StoreError Unit) → Script ε α) : Script ε α

namespace Script

def run {σ : Type} [LayeredStore σ] {ε α : Type} : Script ε α → Program σ ε α
  | done value => pure value
  | fail cause => Program.fail cause
  | abort => Program.abort
  | get key next => do
    let value ← Program.read fun s => Store.get? s key
    (next value).run
  | set key value next => do
    Program.update fun s => Store.set s key value
    next.run
  | clear key next => do
    Program.update fun s => Store.clear s key
    next.run
  | clearStem stem limit next => do
    let n ← Program.state fun s => Store.clearStem s stem limit
    (next n).run
  | layer lift body next => do
    let result ← (Layer.run lift body.run).result
    (next result).run
  | hold lift holder next => do
    let result ← (Layer.hold lift holder.run).result
    (next result).run

section Derived

variable {ε α : Type}

def contains (key : Key) (next : Bool → Script ε α) : Script ε α :=
  get key fun value => next value.isSome

def copyInto (key : Key) (buffer : Bytes) (offset : UInt32)
    (next : Option UInt32 × Bytes → Script ε α) : Script ε α :=
  get key fun value => next (Store.copied value buffer offset)

def append (key : Key) (item : Bytes) (next : Script ε α) : Script ε α :=
  get key fun value => set key (Store.appended value item) next

variable {σ : Type} [LayeredStore σ]

/-- The other calls of a store are scripts as well, and run as the calls do. -/
theorem run_contains (key : Key) (next : Bool → Script ε α) (s : σ) :
    (contains key next).run s = (next (Store.contains s key)).run s := rfl

theorem run_copyInto (key : Key) (buffer : Bytes) (offset : UInt32)
    (next : Option UInt32 × Bytes → Script ε α) (s : σ) :
    (copyInto key buffer offset next).run s = (next (Store.copyInto s key buffer offset)).run s := rfl

theorem run_append (key : Key) (item : Bytes) (next : Script ε α) (s : σ) :
    (append key item next).run s = next.run (Store.append s key item) := rfl

end Derived

/-- Runs a script on a store of which a copy is saved at the start of every layer. `level` layers are
open around the script. -/
def runSaving {σ : Type} [Store σ] {ε α : Type} : Script ε α → (level : Nat) → Program σ ε α
  | done value, _ => pure value
  | fail cause, _ => Program.fail cause
  | abort, _ => Program.abort
  | get key next, level => fun s => (next (Store.get? s key)).runSaving level s
  | set key value next, level => fun s => next.runSaving level (Store.set s key value)
  | clear key next, level => fun s => next.runSaving level (Store.clear s key)
  | clearStem stem limit next, level => fun s =>
    match Store.clearStem s stem limit with
    | (n, s) => (next n).runSaving level s
  | layer lift body next, level => fun s =>
    if Layer.limit.toNat ≤ level then (next (.error (lift .layerLimitReached))).runSaving level s
    else
      match body.runSaving (level + 1) s with
      | (.ok value, changed) => (next (.ok value)).runSaving level changed
      -- the layer is not kept: the copy comes back
      | (.error cause, _) => (next (.error cause)).runSaving level s
      | (.aborted, _) => (next (.error (lift (.other Layer.abortReason)))).runSaving level s
  | hold lift holder next, level => fun s =>
    if Layer.limit.toNat ≤ level then (next (.error (lift .layerLimitReached))).runSaving level s
    else
      match holder.runSaving (level + 1) s with
      | (.ok (.close .commit), changed) => (next (.ok (.ok ()))).runSaving level changed
      | (.ok _, _) => (next (.ok (.ok ()))).runSaving level s
      | (.error cause, _) => (next (.error cause)).runSaving level s
      | (.aborted, _) => (.aborted, s)

def WritesOnly (allowed : Key → Prop) {ε α : Type} : Script ε α → Prop
  | done _ => True
  | fail _ => True
  | abort => True
  | get _ next => ∀ value, (next value).WritesOnly allowed
  | set key _ next => allowed key ∧ next.WritesOnly allowed
  | clear key next => allowed key ∧ next.WritesOnly allowed
  | clearStem stem _ next =>
    (∀ key, stem <+: key → allowed key) ∧ ∀ n, (next n).WritesOnly allowed
  | layer _ body next => body.WritesOnly allowed ∧ ∀ result, (next result).WritesOnly allowed
  | hold _ holder next => holder.WritesOnly allowed ∧ ∀ result, (next result).WritesOnly allowed

def ReadsOnly (allowed : Key → Prop) {ε α : Type} : Script ε α → Prop
  | done _ => True
  | fail _ => True
  | abort => True
  | get key next => allowed key ∧ ∀ value, (next value).ReadsOnly allowed
  | set _ _ next => next.ReadsOnly allowed
  | clear _ next => next.ReadsOnly allowed
  | clearStem _ _ next => ∀ n, (next n).ReadsOnly allowed
  | layer _ body next => body.ReadsOnly allowed ∧ ∀ result, (next result).ReadsOnly allowed
  | hold _ holder next => holder.ReadsOnly allowed ∧ ∀ result, (next result).ReadsOnly allowed

end Script

end BlockRuntime

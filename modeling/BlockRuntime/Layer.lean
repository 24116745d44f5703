import BlockRuntime.Dispatch.Outcome
import BlockRuntime.Codec.Basic
import BlockRuntime.Store.Cell
/-!
Storage layers: a bounded number of change sets, one inside the other. How many are open is kept in
the store itself, under a key of its own, so that it survives between calls that share a store. A
layer is left on every way out: a value keeps its writes, an error or an abort undoes them.
-/

namespace BlockRuntime.Layer

variable {σ ε α : Type}

def levelKey : Key := utf8 ":transaction_level:"

def limit : UInt32 := 255

def levelCell : Cell UInt32 := ⟨levelKey, Codec.u32, 0⟩

def abortReason : String := "transactional closure panicked"

section Level

variable [Store σ]

def level (s : σ) : UInt32 :=
  match levelCell.get s with
  | .ok n => n
  -- a number that cannot be decoded is taken for the limit, so that no layer opens on top of it
  | .error _ => limit

def raise : Program σ DispatchError Unit := do
  let count ← Program.read level
  if limit ≤ count then Program.fail .layerLimitReached
  else
    let next ← Program.demand (count.checkedAdd? 1)
    Program.update (levelCell.put next)

def countDown : Program σ StoreError Unit := do
  let count ← Program.read level
  if count = 0 then pure ()
  -- the last layer leaves nothing under the key, not a zero
  else if count = 1 then Program.update levelCell.clear
  else
    let previous ← Program.demand (count.checkedSub? 1)
    Program.update (levelCell.put previous)

def lower (s : σ) : σ := (countDown s).2

def require (s : σ) : Except DispatchError Unit :=
  if level s = 0 then .error .noLayer else .ok ()

end Level

section Layers

variable [LayeredStore σ]

def enter : Program σ DispatchError Unit := do
  raise
  Program.update LayeredStore.openChanges

def close (closing : Closing) : Program σ StoreError Unit := do
  let closed ← (Program.replace (LayeredStore.closeChanges closing)).result
  -- the layer is no longer counted even if there was no change set to close
  countDown
  Program.ofExcept closed

/-- Leaves a layer whose holder let go of it: it is undone, and a failure to do so is passed over. -/
def abandon : Program σ ε Unit := do
  let _ ← (close .rollback).result
  pure ()

def closingFailure (cause : StoreError) : DispatchError := .other cause.message

def leave (lift : DispatchError → ε) (closing : Closing) : Program σ ε Unit :=
  (close closing).mapError fun cause => lift (closingFailure cause)

/-- Runs a body in a layer of its own. A value keeps what the body wrote; an error or an abort undoes
it. The errors of the layer itself are turned into errors of the body by `lift`. -/
def run (lift : DispatchError → ε) (body : Program σ ε α) : Program σ ε α := do
  enter.mapError lift
  match ← body.attempt with
  | .ok value =>
    leave lift .commit
    pure value
  | .error cause =>
    leave lift .rollback
    Program.fail cause
  -- an abort of the body ends here: to whoever opened the layer it is an error
  | .aborted =>
    leave lift .rollback
    Program.fail (lift (.other abortReason))

inductive Release where
  | close (closing : Closing)
  | drop
  deriving DecidableEq

def hold (lift : DispatchError → ε) (holder : Program σ ε Release) :
    Program σ ε (Except StoreError Unit) := do
  enter.mapError lift
  match ← holder.attempt with
  | .ok (.close closing) => (close closing).result
  | .ok .drop => do
    abandon
    pure (.ok ())
  -- a holder that fails or aborts drops the layer, and its failure or abort goes on
  | .error cause => do
    abandon
    Program.fail cause
  | .aborted => do
    abandon
    Program.abort

end Layers

end BlockRuntime.Layer

import BlockRuntime.Proofs.Store.Contents

namespace BlockRuntime

def Closing.leaves {γ : Type} (closing : Closing) (before within : γ) : γ :=
  match closing with
  | commit => within
  | rollback => before

namespace CellMap

variable {σ κ α β ε : Type}

inductive Call (κ α β ε : Type) where
  | put (key : κ) (value : α)
  | get (key : κ)
  | find (key : κ)
  | contains (key : κ)
  | take (key : κ)
  | remove (key : κ)
  | modify (key : κ) (change : α → α × β)
  | tryModify (key : κ) (change : α → Except ε (α × β))
  | clear (limit : Option UInt32)

inductive Reply (α β : Type) where
  | done
  | value (value : α)
  | found (value : Option α)
  | isSet (isSet : Bool)
  | result (result : β)
  | count (n : Nat)

def Call.perform [Store σ] (f : CellMap κ α) (lift : StoreError → ε) :
    Call κ α β ε → Program σ ε (Reply α β)
  | put key value => do
    Program.update ((f.cell key).put value)
    pure .done
  | get key => do
    let value ← (Program.query (f.cell key).get).mapError lift
    pure (.value value)
  | find key => do
    let found ← (Program.query (f.cell key).get?).mapError lift
    pure (.found found)
  | contains key => do
    let isSet ← Program.read (f.cell key).isSet
    pure (.isSet isSet)
  | take key => do
    let value ← (f.cell key).take.mapError lift
    pure (.value value)
  | remove key => do
    Program.update (f.cell key).clear
    pure .done
  | modify key change => do
    let result ← ((f.cell key).modify change).mapError lift
    pure (.result result)
  | tryModify key change => do
    let result ← (f.cell key).tryModify lift change
    pure (.result result)
  | clear limit => do
    let n ← Program.state (f.clear limit)
    pure (.count n)

/-- Calls, one after the other. Some are made in a change set of their own, which is then closed. -/
inductive Plan (κ α β ε : Type) where
  | done
  | call (call : Call κ α β ε) (next : Plan κ α β ε)
  | layer (closing : Closing) (body next : Plan κ α β ε)

def Plan.run [LayeredStore σ] (f : CellMap κ α) (lift : StoreError → ε) :
    Plan κ α β ε → σ → List (Exit ε (Reply α β) × σ) × σ
  | done, s => ([], s)
  | call c next, s =>
    let left := c.perform f lift s
    let rest := run f lift next left.2
    (left :: rest.1, rest.2)
  | layer closing body next, s =>
    let inner := run f lift body (LayeredStore.openChanges s)
    let rest := run f lift next (StoreCall.close closing inner.2).2
    (inner.1 ++ rest.1, rest.2)

section Contents

variable [DecidableEq κ]

end Contents

def Spares (f : CellMap κ α) (before after : Memory) : Prop :=
  ∀ key, ¬ f.stem <+: key → Store.get? after key = Store.get? before key

theorem Spares.trans {f : CellMap κ α} {k m n : Memory} (h : f.Spares k m) (h' : f.Spares m n) :
    f.Spares k n := fun key hkey => (h' key hkey).trans (h key hkey)

/-- What no call of a family touches: the keys outside the stem, and what lies below the innermost change
set. -/
structure Frame (f : CellMap κ α) (before after : Memory) : Prop where
  spares : f.Spares before after
  below : after.below = before.below

variable {f : CellMap κ α} {m n : Memory}

namespace Frame

theorem refl (f : CellMap κ α) (m : Memory) : f.Frame m m := ⟨fun _ _ => rfl, rfl⟩

theorem trans {k : Memory} (h : f.Frame m n) (h' : f.Frame n k) : f.Frame m k where
  spares := h.spares.trans h'.spares
  below := h'.below.trans h.below

theorem put (f : CellMap κ α) (k : κ) (value : α) (m : Memory) : f.Frame m ((f.cell k).put value m) where
  spares _ hkey := Cell.get?_put_of_ne (cell_key_ne hkey k) value m
  below := Cell.below_put (f.cell k) value m

theorem remove (f : CellMap κ α) (k : κ) (m : Memory) : f.Frame m ((f.cell k).clear m) where
  spares _ hkey := Cell.get?_clear_of_ne (cell_key_ne hkey k) m
  below := Cell.below_clear (f.cell k) m

theorem clear (f : CellMap κ α) (limit : Option UInt32) (m : Memory) :
    f.Frame m (f.clear limit m).2 where
  spares _ hkey := Memory.get?_clearStem_of_not_prefix m limit hkey
  below := Memory.below_clearStem m f.stem limit

end Frame

section Contents

variable [DecidableEq κ] {a b : Contents κ α}

/-- Closing a change set that was opened on `m` leaves `m`, but for the map that it holds. -/
theorem Holds.close {mid : Contents κ α} (hbelow : n.below = some m) (h : f.Holds m a)
    (hmid : f.Holds n mid) (hspares : f.Spares m n) (closing : Closing) :
    f.Holds (StoreCall.close closing n).2 (closing.leaves a mid) ∧
      f.Frame m (StoreCall.close closing n).2 := by
  cases closing with
  | commit =>
    obtain ⟨merged, hcommit, hbelow', hget⟩ := Memory.commitChanges_of_below hbelow
    have hclose : (StoreCall.close .commit n).2 = merged := by
      simp only [StoreCall.close, LayeredStore.closeChanges, hcommit]
    rw [hclose]
    exact ⟨hmid.congr hget, fun key hkey => (hget key).trans (hspares key hkey), hbelow'⟩
  | rollback =>
    have hclose : (StoreCall.close .rollback n).2 = m := by
      simp only [StoreCall.close, LayeredStore.closeChanges, Memory.rollbackChanges_of_below hbelow]
    rw [hclose]
    exact ⟨h, .refl f m⟩

end Contents

end CellMap

end BlockRuntime

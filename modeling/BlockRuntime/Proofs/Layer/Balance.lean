import BlockRuntime.Proofs.Layer.Level
/-!
How a layer ends. A body that keeps what lies below it is closed against the very change set that was
opened for it, so its layer can always be closed, and undoing it goes back to the store in which the
layer was counted. A layer therefore shows nothing but what its body did and kept.
-/

namespace BlockRuntime.Layer

variable {ε α : Type}

section Ends

/-- Below the limit there is a next number of layers. -/
theorem raise_of_lt {m : Memory} (h : level m < limit) : raise m = (.ok (), raised m) := by
  have hlt : (level m).toNat < 255 := UInt32.lt_iff_toNat_lt.mp h
  have hone : (1 : UInt32).toNat = 1 := rfl
  have hsize : UInt32.size = 2 ^ 32 := rfl
  have hnext : (level m).checkedAdd? 1 = some (level m + 1) := if_pos (by omega)
  unfold raise
  rw [Program.bind_ok (Program.read_apply level m), if_neg (UInt32.not_le.mpr h), hnext]
  rfl

theorem raise_of_le {m : Memory} (h : limit ≤ level m) :
    raise m = (.error .layerLimitReached, m) := by
  unfold raise
  rw [Program.bind_ok (Program.read_apply level m), if_pos h]
  rfl

theorem enter_of_lt {m : Memory} (h : level m < limit) : enter m = (.ok (), opened m) :=
  Program.bind_ok (raise_of_lt h)

theorem enter_of_le {m : Memory} (h : limit ≤ level m) :
    enter m = (.error .layerLimitReached, m) := Program.bind_error (raise_of_le h)

/-- A change set that can be closed leaves its layer counted down. -/
theorem close_of_ok {closing : Closing} {m n : Memory}
    (h : LayeredStore.closeChanges closing m = .ok n) : close closing m = (.ok (), lower n) := by
  have hclosed : Program.replace (LayeredStore.closeChanges closing) m = (.ofExcept (.ok ()), n) := by
    unfold Program.replace
    rw [h]
    rfl
  apply (Program.bind_ok (Program.result_ofExcept hclosed)).trans
  exact Program.bind_ok (countDown_apply n)

theorem close_rollback {m n : Memory} (h : m.below = some n) :
    close .rollback m = (.ok (), lower n) := close_of_ok (Memory.rollbackChanges_of_below h)

theorem close_commit {m n : Memory} (h : m.below = some n) :
    ∃ merged : Memory, close .commit m = (.ok (), lower merged) ∧ merged.below = n.below ∧
      ∀ key, Store.get? merged key = Store.get? m key := by
  obtain ⟨merged, hcommit, hbelow, hget⟩ := Memory.commitChanges_of_below h
  exact ⟨merged, close_of_ok hcommit, hbelow, hget⟩

theorem leave_ok {lift : DispatchError → ε} {closing : Closing} {m t : Memory}
    (h : close closing m = (.ok (), t)) : leave lift closing m = (.ok (), t) :=
  Program.mapError_ok h

/-- What runs in a layer and keeps a key leaves it as it was before the layer, once it is merged. -/
theorem get?_lower_of_keeps {β : Type} {p : Program Memory ε β} {exit : Exit ε β} {key : Key}
    (hkey : levelKey ≠ key) (hp : p.Keeps (Store.at key)) {m s merged : Memory}
    (hs : p (opened m) = (exit, s)) (hmerged : Store.get? merged key = Store.get? s key) :
    Store.get? (lower merged) key = Store.get? m key :=
  calc
    Store.get? (lower merged) key = Store.get? s key := (get?_lower hkey merged).trans hmerged
    _ = Store.get? (opened m) key := hp.of_eq hs
    _ = Store.get? m key := get?_opened hkey m

end Ends

section Run

variable (lift : DispatchError → ε) {body : Program Memory ε α} {m s : Memory}

theorem run_of_le (h : limit ≤ level m) :
    run lift body m = (.error (lift .layerLimitReached), m) := by
  exact Program.bind_error (Program.mapError_error (enter_of_le h))

/-- Below the limit a layer is opened, and its body decides how it is closed. -/
theorem run_of_lt (h : level m < limit) :
    run lift body m =
      (match (body (opened m)).1 with
        | .ok value => do
          leave lift .commit
          pure value
        | .error cause => do
          leave lift .rollback
          Program.fail cause
        | .aborted => do
          leave lift .rollback
          Program.fail (lift (.other abortReason)) : Program Memory ε α) (body (opened m)).2 := by
  have henter : (enter.mapError lift : Program Memory ε Unit) m = (.ok (), opened m) :=
    Program.mapError_ok (enter_of_lt h)
  unfold run
  apply (Program.bind_ok henter).trans
  apply (Program.bind_ok (Program.attempt_apply body (opened m))).trans
  cases (body (opened m)).1 <;> rfl

/-- A body that ends with a value keeps what it wrote. -/
theorem run_ok (hbody : body.Keeps Memory.below) (h : level m < limit) {value : α}
    (hs : body (opened m) = (.ok value, s)) :
    ∃ merged : Memory, run lift body m = (.ok value, lower merged) ∧ merged.below = m.below ∧
      ∀ key, Store.get? merged key = Store.get? s key := by
  -- the body ends over the store that its change set was opened on
  have hbelow : s.below = some (raised m) := hbody.of_eq hs
  obtain ⟨merged, hclose, hmerged, hget⟩ := close_commit hbelow
  refine ⟨merged, ?_, hmerged.trans (below_raised m), hget⟩
  rw [run_of_lt lift h, hs]
  exact Program.bind_ok (leave_ok hclose)

theorem run_error (hbody : body.Keeps Memory.below) (h : level m < limit) {cause : ε}
    (hs : body (opened m) = (.error cause, s)) :
    run lift body m = (.error cause, lower (raised m)) := by
  rw [run_of_lt lift h, hs]
  exact Program.bind_ok (leave_ok (close_rollback (hbody.of_eq hs)))

theorem run_aborted (hbody : body.Keeps Memory.below) (h : level m < limit)
    (hs : body (opened m) = (.aborted, s)) :
    run lift body m = (.error (lift (.other abortReason)), lower (raised m)) := by
  rw [run_of_lt lift h, hs]
  exact Program.bind_ok (leave_ok (close_rollback (hbody.of_eq hs)))

/-- What a layer makes of its body lies in what the body does in the store in which it starts. -/
theorem run_congr {other : Program Memory ε α}
    (h : level m < limit → body (opened m) = other (opened m)) : run lift body m = run lift other m := by
  by_cases hlevel : level m < limit
  · rw [run_of_lt lift hlevel, run_of_lt lift hlevel, h hlevel]
  · have hle := UInt32.not_lt.mp hlevel
    rw [run_of_le lift hle, run_of_le lift hle]

def failure? : Exit ε α → Option ε
  | .ok _ => none
  | .error cause => some cause
  | .aborted => some (lift (.other abortReason))

/-- A body that fails shows in its error alone. -/
theorem run_failed (hbody : body.Keeps Memory.below) (h : level m < limit) {cause : ε}
    (hfailed : failure? lift (body (opened m)).1 = some cause) :
    run lift body m = (.error cause, lower (raised m)) := by
  rcases hs : body (opened m) with ⟨value | error | _, s⟩
  all_goals rw [hs] at hfailed
  · exact nomatch hfailed
  · cases hfailed
    exact run_error lift hbody h hs
  · cases hfailed
    exact run_aborted lift hbody h hs

/-- How a layer ends: refused at the limit, kept with its value, or undone with an error. It never
aborts. -/
theorem run_cases (hbody : body.Keeps Memory.below) (m : Memory) :
    (limit ≤ level m ∧ run lift body m = (.error (lift .layerLimitReached), m)) ∨
    (level m < limit ∧ ∃ value s merged, body (opened m) = (.ok value, s) ∧
      run lift body m = (.ok value, lower merged) ∧ merged.below = m.below ∧
      ∀ key, Store.get? merged key = Store.get? s key) ∨
    (level m < limit ∧ (∀ value, (body (opened m)).1 ≠ .ok value) ∧
      ∃ cause, run lift body m = (.error cause, lower (raised m))) := by
  by_cases hlevel : level m < limit
  · right
    rcases hs : body (opened m) with ⟨value | cause | _, s⟩
    · obtain ⟨merged, hrun, hbelow, hget⟩ := run_ok lift hbody hlevel hs
      exact Or.inl ⟨hlevel, value, s, merged, rfl, hrun, hbelow, hget⟩
    · exact Or.inr ⟨hlevel, fun _ => by simp, cause, run_error lift hbody hlevel hs⟩
    · exact Or.inr ⟨hlevel, fun _ => by simp, _, run_aborted lift hbody hlevel hs⟩
  · have hle : limit ≤ level m := UInt32.not_lt.mp hlevel
    exact Or.inl ⟨hle, run_of_le lift hle⟩

/-- A layer reaches no deeper than the change set that it was asked for in. -/
theorem keeps_below_run (hbody : body.Keeps Memory.below) :
    (run lift body).Keeps Memory.below := by
  intro m
  rcases run_cases lift hbody m with ⟨-, h⟩ | ⟨-, _, _, merged, -, h, hbelow, -⟩ | ⟨-, -, _, h⟩
  · rw [h]
  · rw [h]
    exact (below_lower merged).trans hbelow
  · rw [h]
    exact (below_lower (raised m)).trans (below_raised m)

/-- A layer keeps every key that its body keeps, the level key apart. -/
theorem keeps_at_run {key : Key} (hkey : levelKey ≠ key) (hbody : body.Keeps Memory.below)
    (hat : body.Keeps (Store.at key)) : (run lift body).Keeps (Store.at key) := by
  intro m
  rcases run_cases lift hbody m with ⟨-, h⟩ | ⟨-, _, s, merged, hs, h, -, hget⟩ | ⟨-, -, _, h⟩
  · rw [h]
  · calc
      Store.get? (run lift body m).2 key = Store.get? (lower merged) key := by rw [h]
      _ = Store.get? m key := get?_lower_of_keeps hkey hat hs (hget key)
  · rw [h]
    exact get?_lower_raised hkey m

variable {lift}

/-- A layer that does not end with a value leaves every key but the level key as it was, whatever its
body wrote. -/
theorem get?_run_of_not_ok (hbody : body.Keeps Memory.below) {key : Key} (hkey : levelKey ≠ key)
    (h : ∀ value, (run lift body m).1 ≠ .ok value) :
    Store.get? (run lift body m).2 key = Store.get? m key := by
  rcases run_cases lift hbody m with ⟨-, hr⟩ | ⟨-, value, _, _, -, hr, -⟩ | ⟨-, -, _, hr⟩
  · rw [hr]
  · exact absurd (congrArg Prod.fst hr) (h value)
  · rw [hr]
    exact get?_lower_raised hkey m

/-- If the level key counts the open layers, a layer that does not end with a value leaves no trace at
all. -/
theorem run_leaves_no_trace (hbody : body.Keeps Memory.below)
    (hzero : Store.get? m levelKey ≠ some (Codec.u32.encode 0))
    (h : ∀ value, (run lift body m).1 ≠ .ok value) :
    (run lift body m).2.entries = m.entries ∧ (run lift body m).2.depth = m.depth := by
  -- the depth is told by what lies below, and that is kept on every way out
  refine ⟨?_, Memory.depth_eq_of_below (keeps_below_run lift hbody m)⟩
  rcases run_cases lift hbody m with ⟨-, hr⟩ | ⟨-, value, _, _, -, hr, -⟩ | ⟨hlevel, -, _, hr⟩
  · rw [hr]
  · exact absurd (congrArg Prod.fst hr) (h value)
  · rw [hr]
    exact entries_lower_raised (counts_level hzero hlevel) (UInt32.lt_iff_toNat_lt.mp hlevel)

/-- A layer that gives a value has kept what its body wrote. -/
theorem run_eq_ok (hbody : body.Keeps Memory.below) {value : α} {t : Memory}
    (h : run lift body m = (.ok value, t)) :
    ∃ s, body (opened m) = (.ok value, s) ∧
      ∀ key, levelKey ≠ key → Store.get? t key = Store.get? s key := by
  rcases run_cases lift hbody m with ⟨-, hr⟩ | ⟨-, v, s, merged, hs, hr, -, hget⟩ | ⟨-, -, _, hr⟩
  · rw [hr] at h
    cases h
  · rw [hr] at h
    cases h
    exact ⟨s, hs, fun key hkey => (get?_lower hkey merged).trans (hget key)⟩
  · rw [hr] at h
    cases h

end Run

section Hold

variable (lift : DispatchError → ε) {holder : Program Memory ε Release} {m s : Memory}

theorem hold_of_le (h : limit ≤ level m) :
    hold lift holder m = (.error (lift .layerLimitReached), m) := by
  exact Program.bind_error (Program.mapError_error (enter_of_le h))

/-- A held layer is closed in the way that its holder lets go of it. -/
theorem hold_of_lt (h : level m < limit) :
    hold lift holder m =
      (match (holder (opened m)).1 with
        | .ok (.close closing) => (close closing).result
        | .ok .drop => do
          abandon
          pure (.ok ())
        | .error cause => do
          abandon
          Program.fail cause
        | .aborted => do
          abandon
          Program.abort : Program Memory ε (Except StoreError Unit)) (holder (opened m)).2 := by
  have henter : (enter.mapError lift : Program Memory ε Unit) m = (.ok (), opened m) :=
    Program.mapError_ok (enter_of_lt h)
  unfold hold
  apply (Program.bind_ok henter).trans
  apply (Program.bind_ok (Program.attempt_apply holder (opened m))).trans
  rcases (holder (opened m)).1 with ⟨_ | _⟩ | _ | _ <;> rfl

theorem result_close {closing : Closing} {t : Memory} (h : close closing s = (.ok (), t)) :
    ((close closing).result : Program Memory ε (Except StoreError Unit)) s = (.ok (.ok ()), t) :=
  Program.result_ofExcept (r := .ok ()) h

theorem abandon_of_below {n : Memory} (h : s.below = some n) :
    (abandon : Program Memory ε Unit) s = (.ok (), lower n) :=
  Program.bind_ok (result_close (close_rollback h))

/-- A holder that commits keeps what it wrote. -/
theorem hold_commit (hholder : holder.Keeps Memory.below) (h : level m < limit)
    (hs : holder (opened m) = (.ok (.close .commit), s)) :
    ∃ merged : Memory, hold lift holder m = (.ok (.ok ()), lower merged) ∧ merged.below = m.below ∧
      ∀ key, Store.get? merged key = Store.get? s key := by
  have hbelow : s.below = some (raised m) := hholder.of_eq hs
  obtain ⟨merged, hclose, hmerged, hget⟩ := close_commit hbelow
  refine ⟨merged, ?_, hmerged.trans (below_raised m), hget⟩
  rw [hold_of_lt lift h, hs]
  exact result_close hclose

/-- What a layer that is held ends with unless its holder commits. -/
def undoneEnding : Exit ε Release → Exit ε (Except StoreError Unit)
  | .ok _ => .ok (.ok ())
  | .error cause => .error cause
  | .aborted => .aborted

/-- A holder that does not commit leaves nothing of what it wrote, on every way out. -/
theorem hold_undone (hholder : holder.Keeps Memory.below) (h : level m < limit) {exit : Exit ε Release}
    (hs : holder (opened m) = (exit, s)) (hexit : exit ≠ .ok (.close .commit)) :
    hold lift holder m = (undoneEnding exit, lower (raised m)) := by
  have hbelow : s.below = some (raised m) := hholder.of_eq hs
  rw [hold_of_lt lift h, hs]
  -- a rollback closes the change set itself; on the other ways out the layer is dropped
  rcases exit with ⟨⟨_ | _⟩ | _⟩ | cause | _
  · exact absurd rfl hexit
  · exact result_close (close_rollback hbelow)
  · exact Program.bind_ok (abandon_of_below hbelow)
  · exact Program.bind_ok (abandon_of_below hbelow)
  · exact Program.bind_ok (abandon_of_below hbelow)

/-- A held layer is refused, kept, or undone. -/
theorem hold_cases (hholder : holder.Keeps Memory.below) (m : Memory) :
    (limit ≤ level m ∧ hold lift holder m = (.error (lift .layerLimitReached), m)) ∨
    (level m < limit ∧ ∃ s merged, holder (opened m) = (.ok (.close .commit), s) ∧
      hold lift holder m = (.ok (.ok ()), lower merged) ∧ merged.below = m.below ∧
      ∀ key, Store.get? merged key = Store.get? s key) ∨
    (level m < limit ∧ (holder (opened m)).1 ≠ .ok (.close .commit) ∧
      hold lift holder m = (undoneEnding (holder (opened m)).1, lower (raised m))) := by
  by_cases hlevel : level m < limit
  · right
    by_cases hexit : (holder (opened m)).1 = .ok (.close .commit)
    · have hs : holder (opened m) = (.ok (.close .commit), (holder (opened m)).2) :=
        Prod.ext hexit rfl
      obtain ⟨merged, hhold, hbelow, hget⟩ := hold_commit lift hholder hlevel hs
      exact Or.inl ⟨hlevel, _, merged, hs, hhold, hbelow, hget⟩
    · exact Or.inr ⟨hlevel, hexit, hold_undone lift hholder hlevel rfl hexit⟩
  · have hle : limit ≤ level m := UInt32.not_lt.mp hlevel
    exact Or.inl ⟨hle, hold_of_le lift hle⟩

theorem keeps_below_hold (hholder : holder.Keeps Memory.below) :
    (hold lift holder).Keeps Memory.below := by
  intro m
  rcases hold_cases lift hholder m with ⟨-, h⟩ | ⟨-, _, merged, -, h, hbelow, -⟩ | ⟨-, -, h⟩
  · rw [h]
  · rw [h]
    exact (below_lower merged).trans hbelow
  · rw [h]
    exact (below_lower (raised m)).trans (below_raised m)

theorem keeps_at_hold {key : Key} (hkey : levelKey ≠ key) (hholder : holder.Keeps Memory.below)
    (hat : holder.Keeps (Store.at key)) : (hold lift holder).Keeps (Store.at key) := by
  intro m
  rcases hold_cases lift hholder m with ⟨-, h⟩ | ⟨-, s, merged, hs, h, -, hget⟩ | ⟨-, -, h⟩
  · rw [h]
  · calc
      Store.get? (hold lift holder m).2 key = Store.get? (lower merged) key := by rw [h]
      _ = Store.get? m key := get?_lower_of_keeps hkey hat hs (hget key)
  · rw [h]
    exact get?_lower_raised hkey m

end Hold

end BlockRuntime.Layer

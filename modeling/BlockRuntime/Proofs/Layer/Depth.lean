import BlockRuntime.Proofs.Layer.Balance

namespace BlockRuntime.Layer

variable {ε α : Type}

/-- A memory whose level key counts its open change sets, of which there are no more than the limit. -/
structure Counted (m : Memory) : Prop where
  counts : Counts m m.depth
  bound : m.depth ≤ 255

section Memories

variable {m s merged : Memory}

theorem depth_raised (m : Memory) : (raised m).depth = m.depth :=
  Memory.depth_eq_of_below (below_raised m)

theorem depth_lower (m : Memory) : (lower m).depth = m.depth := Memory.depth_eq_of_below (below_lower m)

theorem depth_opened (m : Memory) : (opened m).depth = m.depth + 1 := by
  have hopen : (opened m).depth = (raised m).depth + 1 := rfl
  rw [hopen, depth_raised]

namespace Counted

theorem congr (h : Counted m) (hkey : Store.get? s levelKey = Store.get? m levelKey)
    (hbelow : s.below = m.below) : Counted s := by
  have hdepth : s.depth = m.depth := Memory.depth_eq_of_below hbelow
  refine ⟨?_, ?_⟩
  · rw [hdepth]
    exact counts_congr h.counts hkey
  · rw [hdepth]
    exact h.bound

theorem toNat_level (h : Counted m) : (level m).toNat = m.depth :=
  toNat_level_of_counts h.counts h.bound

theorem level_lt_iff (h : Counted m) : level m < limit ↔ m.depth < 255 := by
  have hlimit : limit.toNat = 255 := rfl
  rw [UInt32.lt_iff_toNat_lt, h.toNat_level, hlimit]

theorem limit_le_iff (h : Counted m) : limit ≤ level m ↔ m.depth = 255 := by
  have hlt := h.level_lt_iff
  have hbound := h.bound
  rw [← UInt32.not_lt, hlt]
  omega

/-- The level key is there just if a change set is open. -/
theorem absent_iff (h : Counted m) : Store.get? m levelKey = none ↔ m.depth = 0 := by
  have hcounts := h.counts
  unfold Counts at hcounts
  rw [hcounts]
  by_cases hzero : m.depth = 0
  · simp [hzero]
  · simp [hzero]

theorem require_iff (h : Counted m) : require m = .ok () ↔ 0 < m.depth := by
  have hlevel := h.toNat_level
  unfold require
  by_cases hzero : level m = 0
  · have hdepth : m.depth = 0 := by
      rw [← hlevel, hzero]
      rfl
    simp [hzero, hdepth]
  · have hdepth : m.depth ≠ 0 := by
      intro h0
      rw [h0] at hlevel
      exact hzero (UInt32.toNat_inj.mp hlevel)
    simp [hzero, Nat.pos_of_ne_zero hdepth]

theorem opened (h : Counted m) (hm : m.depth < 255) : Counted (opened m) := by
  have hdepth := depth_opened m
  refine ⟨?_, by omega⟩
  rw [hdepth]
  exact counts_opened h.counts hm

/-- A layer that is undone leaves the count that it found. -/
theorem undone (h : Counted m) (hm : m.depth < 255) : Counted (lower (raised m)) := by
  have hdepth : (lower (raised m)).depth = m.depth := (depth_lower _).trans (depth_raised m)
  refine ⟨?_, by omega⟩
  rw [hdepth]
  exact counts_lower (counts_raised h.counts hm) hm

/-- A layer that is kept leaves the count that it found, if its body kept the count of its own depth. -/
theorem kept (h : Counted s) (hm : m.depth < 255) (hs : s.depth = m.depth + 1)
    (hbelow : merged.below = m.below) (hget : ∀ key, Store.get? merged key = Store.get? s key) :
    Counted (lower merged) := by
  have hdepth : (lower merged).depth = m.depth :=
    (depth_lower merged).trans (Memory.depth_eq_of_below hbelow)
  have hcounts : Counts merged (m.depth + 1) := by
    rw [← hs]
    exact counts_congr h.counts (hget levelKey)
  refine ⟨?_, by omega⟩
  rw [hdepth]
  exact counts_lower hcounts hm

end Counted

end Memories

section Layers

variable (lift : DispatchError → ε) {body : Program Memory ε α} {holder : Program Memory ε Release}
  {m : Memory}

/-- Behind the body, in the layer that it ran in, the change sets are one more than before. -/
theorem depth_body (hbody : body.Keeps Memory.below) (m : Memory) :
    (body (opened m)).2.depth = m.depth + 1 :=
  (Memory.depth_eq_of_below (hbody (opened m))).trans (depth_opened m)

/-- A layer comes back to a counted memory, if its body ends on one. -/
theorem counted_run (hbody : body.Keeps Memory.below) (h : Counted m)
    (hinside : m.depth < 255 → Counted (body (opened m)).2) : Counted (run lift body m).2 := by
  rcases run_cases lift hbody m with
    ⟨-, hr⟩ | ⟨hlevel, _, s, merged, hs, hr, hbelow, hget⟩ | ⟨hlevel, -, _, hr⟩
  · rw [hr]
    exact h
  · have hm := h.level_lt_iff.mp hlevel
    have hdepth := depth_body hbody m
    have hcounted := hinside hm
    rw [hs] at hdepth hcounted
    rw [hr]
    exact hcounted.kept hm hdepth hbelow hget
  · rw [hr]
    exact h.undone (h.level_lt_iff.mp hlevel)

theorem counted_hold (hholder : holder.Keeps Memory.below) (h : Counted m)
    (hinside : m.depth < 255 → Counted (holder (opened m)).2) : Counted (hold lift holder m).2 := by
  rcases hold_cases lift hholder m with
    ⟨-, hr⟩ | ⟨hlevel, s, merged, hs, hr, hbelow, hget⟩ | ⟨hlevel, -, hr⟩
  · rw [hr]
    exact h
  · have hm := h.level_lt_iff.mp hlevel
    have hdepth := depth_body hholder m
    have hcounted := hinside hm
    rw [hs] at hdepth hcounted
    rw [hr]
    exact hcounted.kept hm hdepth hbelow hget
  · rw [hr]
    exact h.undone (h.level_lt_iff.mp hlevel)

def closingOf : Exit ε α → Closing
  | .ok _ => .commit
  | .error _ => .rollback
  | .aborted => .rollback

def releaseOf : Exit ε Release → Closing
  | .ok (.close closing) => closing
  | .ok .drop => .rollback
  | .error _ => .rollback
  | .aborted => .rollback

/-- There is a change set to close wherever something lies below. -/
theorem close_of_below {closing : Closing} {s n : Memory} (h : s.below = some n) :
    (close closing s).1 = .ok () := by
  cases closing with
  | commit =>
    obtain ⟨merged, hclose, -⟩ := close_commit h
    rw [hclose]
  | rollback => rw [close_rollback h]

/-- The store behind a layer is that of its body, closed by how the body ended. -/
theorem snd_run (h : level m < limit) :
    (run lift body m).2 = (close (closingOf (body (opened m)).1) (body (opened m)).2).2 := by
  rw [run_of_lt lift h]
  rcases (body (opened m)).1 with value | cause | _
  · exact Program.Keeps.snd_bind (fun _ => .pure value) _
  · exact Program.Keeps.snd_bind (fun _ => .fail cause) _
  · exact Program.Keeps.snd_bind (fun _ => .fail _) _

theorem snd_abandon (s : Memory) :
    ((abandon : Program Memory ε Unit) s).2 = (close .rollback s).2 :=
  (Program.Keeps.snd_bind (fun _ => .pure ()) s).trans (Program.snd_result _ s)

theorem snd_hold (h : level m < limit) :
    (hold lift holder m).2 = (close (releaseOf (holder (opened m)).1) (holder (opened m)).2).2 := by
  rw [hold_of_lt lift h]
  rcases (holder (opened m)).1 with ⟨_ | _⟩ | cause | _
  · exact Program.snd_result _ _
  · exact (Program.Keeps.snd_bind (fun _ => .pure _) _).trans (snd_abandon _)
  · exact (Program.Keeps.snd_bind (fun _ => .fail cause) _).trans (snd_abandon _)
  · exact (Program.Keeps.snd_bind (fun _ => .abort) _).trans (snd_abandon _)

/-- Behind its body an open layer is closed without a failure, and with that it has ended. -/
theorem close_run (hbody : body.Keeps Memory.below) (h : level m < limit) :
    close (closingOf (body (opened m)).1) (body (opened m)).2 = (.ok (), (run lift body m).2) :=
  Prod.ext (close_of_below (hbody (opened m))) (snd_run lift h).symm

theorem close_hold (hholder : holder.Keeps Memory.below) (h : level m < limit) :
    close (releaseOf (holder (opened m)).1) (holder (opened m)).2 =
      (.ok (), (hold lift holder m).2) :=
  Prod.ext (close_of_below (hholder (opened m))) (snd_hold lift h).symm

end Layers

end BlockRuntime.Layer

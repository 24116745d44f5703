import BlockRuntime.Proofs.Layer.Depth
import BlockRuntime.Proofs.Script.Frame
/-!
The level at every point of a run. A script that starts with no layer open, and whose writes leave the
level key alone, is never at a point at which the counted layers are not the open change sets. So no more
layers are open than the limit allows, layers are refused there and nowhere else, every layer that was
opened can be closed, and however it ends, the level and the depth are what they were when it was asked
for.
-/

namespace BlockRuntime.Script

open Layer (levelKey)

inductive Moment where
  | between (m : Memory)
  | wrote (before after : Memory)
  | asked (m : Memory)
  /-- No layer was opened, and that has left a memory. -/
  | refused (before after : Memory)
  | closed (way : Closing) (inner after : Memory)
  | ended (before after : Memory)

/-- The moments of a layer that is asked for on `m` and has ended on `t`, from the moments of what runs
inside and how and where that ends. -/
def layerMoments (m t : Memory) (inside : Memory → List Moment) (ending : Memory → Closing × Memory) :
    List Moment :=
  match Layer.enter m with
  | (.ok (), opened) => inside opened ++ [.closed (ending opened).1 (ending opened).2 t, .ended m t]
  -- what was to run inside does not run
  | _ => [.refused m t, .ended m t]

def momentsBehind {ε β : Type} (next : Except ε β → Memory → List Moment) :
    Exit ε β × Memory → List Moment
  | (.ok value, t) => next (.ok value) t
  | (.error cause, t) => next (.error cause) t
  | (.aborted, t) => [.between t]

def moments {ε α : Type} : Script ε α → Memory → List Moment
  | done _, m => [.between m]
  | fail _, m => [.between m]
  | abort, m => [.between m]
  | get key next, m => .between m :: (next (Store.get? m key)).moments m
  | set key value next, m =>
    .between m :: .wrote m (Store.set m key value) :: next.moments (Store.set m key value)
  | clear key next, m => .between m :: .wrote m (Store.clear m key) :: next.moments (Store.clear m key)
  | clearStem stem limit next, m =>
    .between m :: .wrote m (Store.clearStem m stem limit).2 ::
      (next (Store.clearStem m stem limit).1).moments (Store.clearStem m stem limit).2
  | layer lift body next, m =>
    .between m :: .asked m ::
      (layerMoments m (Layer.run lift body.run m).2 body.moments
        (fun opened => (Layer.closingOf (body.run opened).1, (body.run opened).2)) ++
      momentsBehind (fun result t => (next result).moments t) (Layer.run lift body.run m))
  | hold lift holder next, m =>
    .between m :: .asked m ::
      (layerMoments m (Layer.hold lift holder.run m).2 holder.moments
        (fun opened => (Layer.releaseOf (holder.run opened).1, (holder.run opened).2)) ++
      momentsBehind (fun result t => (next result).moments t) (Layer.hold lift holder.run m))

def Spares (key : Key) (moments : List Moment) : Prop :=
  ∀ before after, .wrote before after ∈ moments → Store.get? after key = Store.get? before key

/-- At a point of a run the level is the number of open change sets and within the limit, the level key is
there just if some are open, and only then a layer that is required is found. -/
structure Level (m : Memory) : Prop where
  eq_depth : (Layer.level m).toNat = m.depth
  within : m.depth ≤ 255
  absent_iff : Store.get? m levelKey = none ↔ m.depth = 0
  require_iff : Layer.require m = .ok () ↔ 0 < m.depth

/-- A layer that is asked for is refused just if the limit of them are open; then nothing is written, and
whatever was to run in it does not run. Otherwise one change set more is opened. -/
structure Asked (m : Memory) : Prop where
  refused_iff : Layer.enter m = (.error .layerLimitReached, m) ↔ m.depth = 255
  opened : m.depth < 255 → ∃ t, Layer.enter m = (.ok (), t) ∧ t.depth = m.depth + 1
  run_refused : m.depth = 255 → ∀ (ε α : Type) (lift : DispatchError → ε) (body : Program Memory ε α),
    Layer.run lift body m = (.error (lift .layerLimitReached), m)
  hold_refused : m.depth = 255 → ∀ (ε : Type) (lift : DispatchError → ε)
    (holder : Program Memory ε Layer.Release),
    Layer.hold lift holder m = (.error (lift .layerLimitReached), m)

def Moment.Tracked : Moment → Prop
  | between m => Level m
  | wrote before after => Layer.level after = Layer.level before ∧ after.depth = before.depth
  | asked m => Asked m
  | refused before after => before.depth = 255 ∧ after = before
  | closed way inner after => Layer.close way inner = (.ok (), after)
  | ended before after => Layer.level after = Layer.level before ∧ after.depth = before.depth

section Memories

variable {m t : Memory}

theorem level_of_counted (h : Layer.Counted m) : Level m :=
  ⟨h.toNat_level, h.bound, h.absent_iff, h.require_iff⟩

/-- On a counted memory a layer is refused by the count just if it would be too deep. -/
theorem asked_of_counted (h : Layer.Counted m) : Asked m := by
  have hrefused (hm : m.depth = 255) : Layer.limit ≤ Layer.level m := h.limit_le_iff.mpr hm
  refine ⟨⟨?_, ?_⟩, ?_, ?_, ?_⟩
  · intro henter
    -- below the limit a layer is opened and not refused
    by_contra hm
    have hlevel : Layer.level m < Layer.limit := h.level_lt_iff.mpr (by have := h.bound; omega)
    rw [Layer.enter_of_lt hlevel] at henter
    exact nomatch henter
  · intro hm
    exact Layer.enter_of_le (hrefused hm)
  · intro hm
    exact ⟨_, Layer.enter_of_lt (h.level_lt_iff.mpr hm), Layer.depth_opened m⟩
  · intro hm ε α lift body
    exact Layer.run_of_le lift (hrefused hm)
  · intro hm ε lift holder
    exact Layer.hold_of_le lift (hrefused hm)

theorem level_eq_of_counted (hm : Layer.Counted m) (ht : Layer.Counted t) (hdepth : t.depth = m.depth) :
    Layer.level t = Layer.level m := by
  apply UInt32.toNat_inj.mp
  rw [ht.toNat_level, hm.toNat_level, hdepth]

theorem counted_write (hm : Layer.Counted m) (hbelow : t.below = m.below)
    (hkey : Store.get? t levelKey = Store.get? m levelKey) :
    Layer.Counted t ∧ (Moment.wrote m t).Tracked := by
  have ht : Layer.Counted t := hm.congr hkey hbelow
  have hdepth : t.depth = m.depth := Memory.depth_eq_of_below hbelow
  exact ⟨ht, level_eq_of_counted hm ht hdepth, hdepth⟩

end Memories

section Lists

variable {key : Key} {front back : List Moment}

theorem Spares.mono (h : Spares key back) (hsub : front ⊆ back) : Spares key front :=
  fun before after hmem => h before after (hsub hmem)

theorem spares_wrote {m t : Memory} :
    Spares key (.wrote m t :: front) ↔ Store.get? t key = Store.get? m key ∧ Spares key front := by
  constructor
  · intro h
    exact ⟨h m t List.mem_cons_self, h.mono (List.subset_cons_self _ _)⟩
  · rintro ⟨ht, h⟩ before after hmem
    rcases List.mem_cons.mp hmem with heq | hmem
    · cases heq
      exact ht
    · exact h before after hmem

theorem spares_cons {moment : Moment} (hne : ∀ before after, moment ≠ .wrote before after) :
    Spares key (moment :: front) ↔ Spares key front := by
  constructor
  · exact fun h => h.mono (List.subset_cons_self _ _)
  · intro h before after hmem
    rcases List.mem_cons.mp hmem with heq | hmem
    · exact absurd heq.symm (hne before after)
    · exact h before after hmem

theorem spares_append : Spares key (front ++ back) ↔ Spares key front ∧ Spares key back := by
  constructor
  · exact fun h => ⟨h.mono (List.subset_append_left _ _), h.mono (List.subset_append_right _ _)⟩
  · rintro ⟨hfront, hback⟩ before after hmem
    rcases List.mem_append.mp hmem with hmem | hmem
    · exact hfront before after hmem
    · exact hback before after hmem

end Lists

section Layers

variable {m t : Memory} {inside : Memory → List Moment} {ending : Memory → Closing × Memory}

theorem layerMoments_of_le (h : Layer.limit ≤ Layer.level m) :
    layerMoments m t inside ending = [.refused m t, .ended m t] := by
  unfold layerMoments
  rw [Layer.enter_of_le h]

theorem layerMoments_of_lt (h : Layer.level m < Layer.limit) :
    layerMoments m t inside ending = inside (Layer.opened m) ++
      [.closed (ending (Layer.opened m)).1 (ending (Layer.opened m)).2 t, .ended m t] := by
  unfold layerMoments
  rw [Layer.enter_of_lt h]

/-- The moments of a layer are tracked if those inside are and it ends where it was asked for. -/
theorem tracked_layer (hm : Layer.Counted m) (ht : Layer.Counted t) (hdepth : t.depth = m.depth)
    (hrefused : Layer.limit ≤ Layer.level m → t = m)
    (hinside : Layer.level m < Layer.limit → ∀ moment ∈ inside (Layer.opened m), moment.Tracked)
    (hclosed : Layer.level m < Layer.limit →
      Layer.close (ending (Layer.opened m)).1 (ending (Layer.opened m)).2 = (.ok (), t)) :
    ∀ moment ∈ layerMoments m t inside ending, moment.Tracked := by
  have hended : (Moment.ended m t).Tracked := ⟨level_eq_of_counted hm ht hdepth, hdepth⟩
  by_cases hlevel : Layer.level m < Layer.limit
  · rw [layerMoments_of_lt hlevel, List.forall_mem_append]
    refine ⟨hinside hlevel, ?_⟩
    simpa using ⟨hclosed hlevel, hended⟩
  · have hle := UInt32.not_lt.mp hlevel
    have hat : (Moment.refused m t).Tracked := ⟨hm.limit_le_iff.mp hle, hrefused hle⟩
    rw [layerMoments_of_le hle]
    simpa using ⟨hat, hended⟩

end Layers

section Runs

variable {ε ε' α β : Type} {m : Memory}

/-- A run from a memory that leaves the level key alone ends on a counted memory, and at all its moments
the level was what it promises. -/
def Tracks (script : Script ε α) (m : Memory) : Prop :=
  Spares levelKey (script.moments m) →
    Layer.Counted (script.run m).2 ∧ ∀ moment ∈ script.moments m, moment.Tracked

/-- Behind a layer a run goes on from where the layer ended, or has ended there. -/
theorem behind_cases (layer : Program Memory ε' β) (next : Except ε' β → Script ε α) (m : Memory) :
    (∃ result, momentsBehind (fun result t => (next result).moments t) (layer m) =
        (next result).moments (layer m).2 ∧
      (layer.result >>= fun result => (next result).run) m = (next result).run (layer m).2) ∨
    (momentsBehind (fun result t => (next result).moments t) (layer m) = [.between (layer m).2] ∧
      (layer.result >>= fun result => (next result).run) m = (.aborted, (layer m).2)) := by
  rcases hlayer : layer m with ⟨value | cause | _, t⟩
  · exact Or.inl ⟨.ok value, rfl, Program.bind_ok (Program.result_ofExcept (r := .ok value) hlayer)⟩
  · exact Or.inl
      ⟨.error cause, rfl, Program.bind_ok (Program.result_ofExcept (r := .error cause) hlayer)⟩
  · exact Or.inr ⟨rfl, Program.bind_aborted (Program.result_aborted hlayer)⟩

/-- What runs behind a layer starts on the counted memory that the layer leaves. -/
theorem tracked_behind {layer : Program Memory ε' β} {next : Except ε' β → Script ε α}
    (hnext : ∀ result, Layer.Counted (layer m).2 → (next result).Tracks (layer m).2)
    (ht : Layer.Counted (layer m).2)
    (hspares : Spares levelKey (momentsBehind (fun result t => (next result).moments t) (layer m))) :
    Layer.Counted ((layer.result >>= fun result => (next result).run) m).2 ∧
      ∀ moment ∈ momentsBehind (fun result t => (next result).moments t) (layer m),
        moment.Tracked := by
  rcases behind_cases layer next m with ⟨result, hmoments, hrun⟩ | ⟨hmoments, hrun⟩
  all_goals rw [hmoments] at hspares ⊢
  all_goals rw [hrun]
  · exact hnext result ht hspares
  · exact ⟨ht, List.forall_mem_singleton.mpr (level_of_counted ht)⟩

theorem tracked_between {rest : List Moment} (hm : Layer.Counted m)
    (h : ∀ moment ∈ rest, moment.Tracked) : ∀ moment ∈ .between m :: rest, moment.Tracked :=
  List.forall_mem_cons.mpr ⟨level_of_counted hm, h⟩

theorem tracked_write {next : Script ε α} {t : Memory} (hm : Layer.Counted m)
    (hbelow : t.below = m.below) (hnext : Layer.Counted t → next.Tracks t)
    (hspares : Spares levelKey (.between m :: .wrote m t :: next.moments t)) :
    Layer.Counted (next.run t).2 ∧
      ∀ moment ∈ .between m :: .wrote m t :: next.moments t, moment.Tracked := by
  obtain ⟨hkey, hspares⟩ := spares_wrote.mp ((spares_cons (by simp)).mp hspares)
  obtain ⟨ht, hwrote⟩ := counted_write hm hbelow hkey
  obtain ⟨hend, hrest⟩ := hnext ht hspares
  exact ⟨hend, tracked_between hm (List.forall_mem_cons.mpr ⟨hwrote, hrest⟩)⟩

/-- A layer is tracked if what runs inside it and what goes on behind it are, whichever kind of layer it
is: one that is refused where the limit is reached, and closed behind what ran inside it elsewhere. -/
theorem tracked_asked {ε'' γ : Type} {inner : Script ε'' γ} {layer : Program Memory ε' β}
    {next : Except ε' β → Script ε α} {ending : Memory → Closing × Memory} (hm : Layer.Counted m)
    (hinner : Layer.Counted (Layer.opened m) → inner.Tracks (Layer.opened m))
    (hbelow : layer.Keeps Memory.below)
    (hcounted : (m.depth < 255 → Layer.Counted (inner.run (Layer.opened m)).2) →
      Layer.Counted (layer m).2)
    (hrefused : Layer.limit ≤ Layer.level m → (layer m).2 = m)
    (hclosed : Layer.level m < Layer.limit →
      Layer.close (ending (Layer.opened m)).1 (ending (Layer.opened m)).2 = (.ok (), (layer m).2))
    (hnext : ∀ result, Layer.Counted (layer m).2 → (next result).Tracks (layer m).2)
    (hspares : Spares levelKey (.between m :: .asked m ::
      (layerMoments m (layer m).2 inner.moments ending ++
        momentsBehind (fun result t => (next result).moments t) (layer m)))) :
    Layer.Counted ((layer.result >>= fun result => (next result).run) m).2 ∧
      ∀ moment ∈ .between m :: .asked m :: (layerMoments m (layer m).2 inner.moments ending ++
        momentsBehind (fun result t => (next result).moments t) (layer m)), moment.Tracked := by
  obtain ⟨haround, hbehind⟩ :=
    spares_append.mp ((spares_cons (by simp)).mp ((spares_cons (by simp)).mp hspares))
  -- inside the layer there is one change set more
  have hinside (hlevel : Layer.level m < Layer.limit) :
      Layer.Counted (inner.run (Layer.opened m)).2 ∧
        ∀ moment ∈ inner.moments (Layer.opened m), moment.Tracked := by
    rw [layerMoments_of_lt hlevel] at haround
    exact hinner (hm.opened (hm.level_lt_iff.mp hlevel)) (spares_append.mp haround).1
  have ht : Layer.Counted (layer m).2 :=
    hcounted fun hdepth => (hinside (hm.level_lt_iff.mpr hdepth)).1
  have hlayer := tracked_layer hm ht (Memory.depth_eq_of_below (hbelow m)) hrefused
    (fun hlevel => (hinside hlevel).2) hclosed
  obtain ⟨hend, hrest⟩ := tracked_behind hnext ht hbehind
  refine ⟨hend, tracked_between hm ?_⟩
  exact List.forall_mem_cons.mpr ⟨asked_of_counted hm, List.forall_mem_append.mpr ⟨hlayer, hrest⟩⟩

theorem tracks (script : Script ε α) (hm : Layer.Counted m) : script.Tracks m := by
  -- a memory is counted wherever a step starts, inside a layer and behind it as well
  induction script generalizing m with
  | done value => exact fun _ => ⟨hm, tracked_between hm fun _ h => nomatch h⟩
  | fail cause => exact fun _ => ⟨hm, tracked_between hm fun _ h => nomatch h⟩
  | abort => exact fun _ => ⟨hm, tracked_between hm fun _ h => nomatch h⟩
  | get key next ih =>
    intro hspares
    obtain ⟨hend, hrest⟩ := ih _ hm ((spares_cons (by simp)).mp hspares)
    exact ⟨hend, tracked_between hm hrest⟩
  | set key value next ih => exact tracked_write hm (Memory.below_set m key value) ih
  | clear key next ih => exact tracked_write hm (Memory.below_clear m key) ih
  | clearStem stem limit next ih =>
    exact tracked_write hm (Memory.below_clearStem m stem limit) (ih _)
  | layer lift body next ihbody ihnext =>
    have hbody : (body.run : Program Memory _ _).Keeps Memory.below := keeps_below_run body
    apply tracked_asked hm ihbody (Layer.keeps_below_run lift hbody)
    · exact Layer.counted_run lift hbody hm
    · exact fun hle => congrArg Prod.snd (Layer.run_of_le lift hle)
    · exact fun hlevel => Layer.close_run lift hbody hlevel
    · exact fun result ht => ihnext result ht
  | hold lift holder next ihholder ihnext =>
    have hholder : (holder.run : Program Memory _ _).Keeps Memory.below := keeps_below_run holder
    apply tracked_asked hm ihholder (Layer.keeps_below_hold lift hholder)
    · exact Layer.counted_hold lift hholder hm
    · exact fun hle => congrArg Prod.snd (Layer.hold_of_le lift hle)
    · exact fun hlevel => Layer.close_hold lift hholder hlevel
    · exact fun result ht => ihnext result ht

theorem suffix_behind {layer : Program Memory ε' β} {next : Except ε' β → Script ε α}
    (hnext : ∀ result t, [.between ((next result).run t).2] <:+ (next result).moments t) :
    [.between ((layer.result >>= fun result => (next result).run) m).2] <:+
      momentsBehind (fun result t => (next result).moments t) (layer m) := by
  rcases behind_cases layer next m with ⟨result, hmoments, hrun⟩ | ⟨hmoments, hrun⟩
  · rw [hmoments, hrun]
    exact hnext result _
  · rw [hmoments, hrun]

/-- The last moment of a run is where the run ends. -/
theorem suffix_moments (script : Script ε α) (m : Memory) :
    [.between (script.run m).2] <:+ script.moments m := by
  have hcons {moment last : Moment} {rest : List Moment} (h : [last] <:+ rest) :
      [last] <:+ moment :: rest := h.trans (List.suffix_cons _ _)
  have happend {last : Moment} {front rest : List Moment} (h : [last] <:+ rest) :
      [last] <:+ front ++ rest := h.trans (List.suffix_append _ _)
  induction script generalizing m with
  | done value => exact List.suffix_rfl
  | fail cause => exact List.suffix_rfl
  | abort => exact List.suffix_rfl
  | get key next ih => exact hcons (ih _ m)
  | set key value next ih => exact hcons (hcons (ih _))
  | clear key next ih => exact hcons (hcons (ih _))
  | clearStem stem limit next ih => exact hcons (hcons (ih _ _))
  | layer lift body next ihbody ihnext => exact hcons (hcons (happend (suffix_behind ihnext)))
  | hold lift holder next ihholder ihnext => exact hcons (hcons (happend (suffix_behind ihnext)))

end Runs

section Writes

variable {ε α : Type} {key : Key} {allowed : Key → Prop}

theorem spares_layer {m t : Memory} {inside : Memory → List Moment} {ending : Memory → Closing × Memory}
    (h : ∀ opened, Spares key (inside opened)) : Spares key (layerMoments m t inside ending) := by
  have hends (way : Closing) (inner : Memory) : Spares key [.closed way inner t, .ended m t] := by
    simp [Spares]
  by_cases hlevel : Layer.level m < Layer.limit
  · rw [layerMoments_of_lt hlevel]
    exact spares_append.mpr ⟨h _, hends _ _⟩
  · rw [layerMoments_of_le (UInt32.not_lt.mp hlevel)]
    simp [Spares]

theorem spares_behind {ε' β : Type} {next : Except ε' β → Memory → List Moment} {p : Exit ε' β × Memory}
    (h : ∀ result t, Spares key (next result t)) : Spares key (momentsBehind next p) := by
  rcases p with ⟨value | cause | _, t⟩
  · exact h (.ok value) t
  · exact h (.error cause) t
  · simp [Spares, momentsBehind]

/-- A key that a script does not name for writing is not touched at any moment of its runs. -/
theorem spares_moments {script : Script ε α} (h : script.WritesOnly allowed) (hkey : ¬ allowed key)
    (m : Memory) : Spares key (script.moments m) := by
  have hbetween {m : Memory} {rest : List Moment} (hrest : Spares key rest) :
      Spares key (.between m :: rest) := (spares_cons (by simp)).mpr hrest
  have hasked {m : Memory} {rest : List Moment} (hrest : Spares key rest) :
      Spares key (.asked m :: rest) := (spares_cons (by simp)).mpr hrest
  induction script generalizing m with
  | done value => simp [Spares, moments]
  | fail cause => simp [Spares, moments]
  | abort => simp [Spares, moments]
  | get k next ih => exact hbetween (ih _ (h _) m)
  | set k value next ih =>
    obtain ⟨hk, hnext⟩ := h
    have hne : k ≠ key := fun heq => hkey (heq ▸ hk)
    have hget := (Memory.get?_set m k value key).trans (if_neg hne)
    exact hbetween (spares_wrote.mpr ⟨hget, ih hnext _⟩)
  | clear k next ih =>
    obtain ⟨hk, hnext⟩ := h
    have hne : k ≠ key := fun heq => hkey (heq ▸ hk)
    have hget := (Memory.get?_clear m k key).trans (if_neg hne)
    exact hbetween (spares_wrote.mpr ⟨hget, ih hnext _⟩)
  | clearStem stem limit next ih =>
    obtain ⟨hstem, hnext⟩ := h
    have hout : ¬ stem <+: key := fun hp => hkey (hstem key hp)
    have hget := Memory.get?_clearStem_of_not_prefix m limit hout
    exact hbetween (spares_wrote.mpr ⟨hget, ih _ (hnext _) _⟩)
  | layer lift body next ihbody ihnext =>
    obtain ⟨hbody, hnext⟩ := h
    refine hbetween (hasked (spares_append.mpr ⟨?_, ?_⟩))
    · exact spares_layer (ihbody hbody)
    · exact spares_behind fun result => ihnext result (hnext result)
  | hold lift holder next ihholder ihnext =>
    obtain ⟨hholder, hnext⟩ := h
    refine hbetween (hasked (spares_append.mpr ⟨?_, ?_⟩))
    · exact spares_layer (ihholder hholder)
    · exact spares_behind fun result => ihnext result (hnext result)

end Writes

/-- A run that starts with no layer open, and of which no write touches the level key, has the level
that it should have at every moment, from its start to its end. -/
theorem level_tracks_depth {ε α : Type} (script : Script ε α) (m : Memory) (hdepth : m.depth = 0)
    (hkey : Store.get? m levelKey = none) (hspares : Spares levelKey (script.moments m)) :
    (∀ moment ∈ script.moments m, moment.Tracked) ∧
      (script.moments m).getLast? = some (.between (script.run m).2) := by
  -- no key and no change set: the count is right at the start
  have hcounts : Layer.Counts m m.depth := by
    rw [hdepth]
    exact hkey
  have hcounted : Layer.Counted m := ⟨hcounts, by omega⟩
  obtain ⟨-, htracked⟩ := script.tracks hcounted hspares
  obtain ⟨front, hlast⟩ := script.suffix_moments m
  refine ⟨htracked, ?_⟩
  rw [← hlast]
  exact List.getLast?_concat

/-- A layer that is kept, and in it one that aborts and a held one that is dropped. -/
def crossedLayers : Script DispatchError Unit :=
  .layer id
    (.set [1] [5] <| .layer id (.set [1] [6] .abort : Script DispatchError Unit) fun _ =>
      .hold id (.clear [1] (.done .drop) : Script DispatchError Layer.Release) fun _ =>
        (.done () : Script DispatchError Unit))
    fun _ => .done ()

theorem crossedLayers_tracked :
    Memory.empty.depth = 0 ∧ Store.get? Memory.empty levelKey = none ∧
    Spares levelKey (crossedLayers.moments Memory.empty) ∧
    (∀ moment ∈ crossedLayers.moments Memory.empty, moment.Tracked) ∧
    Store.get? (crossedLayers.run Memory.empty).2 [1] = some [5] := by
  have hwrites : crossedLayers.WritesOnly (· ≠ levelKey) :=
    ⟨⟨by decide, ⟨by decide, trivial⟩, fun _ => ⟨⟨by decide, trivial⟩, fun _ => trivial⟩⟩,
      fun _ => trivial⟩
  have hspares : Spares levelKey (crossedLayers.moments Memory.empty) :=
    spares_moments hwrites (fun hne => hne rfl) _
  obtain ⟨htracked, -⟩ := level_tracks_depth crossedLayers Memory.empty rfl rfl hspares
  exact ⟨rfl, rfl, hspares, htracked, rfl⟩

end BlockRuntime.Script

import BlockRuntime.Proofs.Layer.Balance

namespace BlockRuntime.Layer

/-- A call that reads the count of the layers and may write it. -/
inductive LayerCall : Type 1 where
  | attempt {ε α : Type} (lift : DispatchError → ε) (body : Program Memory ε α)
  | raise
  | lower

namespace LayerCall

def lowers : LayerCall → Bool
  | lower => true
  | _ => false

/-- The store after a call, whether or not it was refused. -/
def after (m : Memory) : LayerCall → Memory
  | attempt lift body => (run lift body m).2
  | raise => (Layer.raise m).2
  | lower => Layer.lower m

/-- Whether a call is turned down at the limit. For a layer this does not depend on the body: it is not run.
A layer that is counted down asks for nothing that could be turned down. -/
def Refused (m : Memory) : LayerCall → Prop
  | @attempt ε α lift _ => enter m = (.error .layerLimitReached, m) ∧
      ∀ body : Program Memory ε α, run lift body m = (.error (lift .layerLimitReached), m)
  | raise => Layer.raise m = (.error .layerLimitReached, m)
  | lower => True

/-- Whether every call of a sequence is turned down in the store that the ones before it leave. -/
def Blocked (m : Memory) : List LayerCall → Prop
  | [] => True
  | call :: rest => call.Refused m ∧ Blocked (call.after m) rest

end LayerCall

open LayerCall (Blocked)

section Levels

variable {m : Memory} {cause : StoreError}

theorem limit_le_of_error (h : levelCell.get m = .error cause) : limit ≤ level m := by
  rw [level_of_error h]
  exact UInt32.le_refl limit

theorem level_lower_lt (h : level m < limit) : level (lower m) < limit := by
  rw [UInt32.lt_iff_toNat_lt] at h ⊢
  rw [toNat_level_lower]
  omega

/-- One layer less of a count that cannot be decoded is a number that can. -/
theorem get_lower_of_error (h : levelCell.get m = .error cause) :
    levelCell.get (lower m) = .ok 254 := by
  have hlimit : level m = limit := level_of_error h
  rcases lower_cases m with ⟨hzero, -⟩ | ⟨hone, -⟩ | ⟨-, hlower⟩
  · exact absurd (hlimit.symm.trans hzero) (by decide)
  · exact absurd (hlimit.symm.trans hone) (by decide)
  · rw [hlower, hlimit]
    exact Cell.get_put Codec.u32_lawful 254 m

end Levels

section Calls

variable {m : Memory} {call : LayerCall} {calls : List LayerCall}

theorem eq_lower_of_lowers (h : call.lowers = true) : call = .lower := by
  cases call with
  | lower => rfl
  | _ => exact nomatch h

theorem refused_of_le (h : limit ≤ level m) (call : LayerCall) : call.Refused m := by
  cases call with
  | attempt lift body => exact ⟨enter_of_le h, fun _ => run_of_le lift h⟩
  | raise => exact raise_of_le h
  | lower => trivial

/-- Below the limit nothing that asks for a layer is turned down. -/
theorem not_refused_of_lt (h : level m < limit) (hasks : call.lowers = false) : ¬ call.Refused m := by
  cases call with
  | attempt lift body =>
    rintro ⟨henter, -⟩
    rw [enter_of_lt h] at henter
    exact nomatch henter
  | raise =>
    intro hrefused
    have hraise : raise m = (.error .layerLimitReached, m) := hrefused
    rw [raise_of_lt h] at hraise
    exact nomatch hraise
  | lower => exact nomatch hasks

theorem after_of_le (h : limit ≤ level m) (hasks : call.lowers = false) : call.after m = m := by
  cases call with
  | attempt lift body => exact congrArg Prod.snd (run_of_le lift h)
  | raise => exact congrArg Prod.snd (raise_of_le h)
  | lower => exact nomatch hasks

/-- Refused layers leave the store as it is, one after the other. -/
theorem foldl_after_of_le (h : limit ≤ level m) (hasks : ∀ call ∈ calls, call.lowers = false) :
    calls.foldl LayerCall.after m = m := by
  induction calls with
  | nil => rfl
  | cons call rest ih =>
    rw [List.forall_mem_cons] at hasks
    rw [List.foldl_cons, after_of_le h hasks.1]
    exact ih hasks.2

theorem blocked_iff_of_lt (h : level m < limit) :
    Blocked m calls ↔ ∀ call ∈ calls, call.lowers = true := by
  -- counting down stays below the limit, so the first call that asks for a layer gets it
  induction calls generalizing m with
  | nil => exact ⟨fun _ _ => nofun, fun _ => trivial⟩
  | cons call rest ih =>
    rw [List.forall_mem_cons]
    cases hlowers : call.lowers with
    | false =>
      constructor
      · intro hblocked
        exact absurd hblocked.1 (not_refused_of_lt h hlowers)
      · intro hall
        exact nomatch hall.1
    | true =>
      obtain rfl := eq_lower_of_lowers hlowers
      have hrest : Blocked (lower m) rest ↔ ∀ call ∈ rest, call.lowers = true :=
        ih (level_lower_lt h)
      constructor
      · intro hblocked
        exact ⟨rfl, hrest.mp hblocked.2⟩
      · intro hall
        exact ⟨trivial, hrest.mpr hall.2⟩

/-- Over a count that cannot be decoded a sequence is refused just if nothing is asked for behind a layer
that is counted down. -/
theorem blocked_iff_of_error {cause : StoreError} (h : levelCell.get m = .error cause) :
    Blocked m calls ↔ calls.Pairwise fun earlier later => earlier.lowers = true → later.lowers = true := by
  induction calls with
  | nil => exact ⟨fun _ => List.Pairwise.nil, fun _ => trivial⟩
  | cons call rest ih =>
    rw [List.pairwise_cons]
    cases hlowers : call.lowers with
    | false =>
      -- the call is turned down and leaves the count that the rest starts from
      have hafter := after_of_le (limit_le_of_error h) hlowers
      constructor
      · intro hblocked
        have hrest := hblocked.2
        rw [hafter] at hrest
        exact ⟨fun _ _ => nofun, ih.mp hrest⟩
      · intro hpairs
        refine ⟨refused_of_le (limit_le_of_error h) call, ?_⟩
        rw [hafter]
        exact ih.mpr hpairs.2
    | true =>
      obtain rfl := eq_lower_of_lowers hlowers
      have hbelow : level (lower m) < limit := by
        rw [level_of_ok (get_lower_of_error h)]
        decide
      -- from here on the count is a number, and nothing in the rest may ask for a layer
      have hrest : Blocked (lower m) rest ↔ ∀ call ∈ rest, call.lowers = true :=
        blocked_iff_of_lt hbelow
      constructor
      · intro hblocked
        have hall := hrest.mp hblocked.2
        refine ⟨fun later hlater _ => hall later hlater, List.pairwise_iff_forall_sublist.mpr ?_⟩
        intro earlier later hpair _
        exact hall later (hpair.subset (by simp))
      · intro hpairs
        exact ⟨trivial, hrest.mpr fun later hlater => hpairs.1 later hlater rfl⟩

end Calls

section Corrupt

variable {ε α : Type} {m : Memory} {cause : StoreError}

/-- A layer that keeps a count which cannot be decoded counts itself down on top of it. -/
theorem run_over_error (lift : DispatchError → ε) {body : Program Memory ε α} {outer : Memory}
    {value : α} (hbody : body.Keeps Memory.below) (hlevel : level outer < limit)
    (hs : body (opened outer) = (.ok value, m)) (h : levelCell.get m = .error cause) :
    ∃ t, run lift body outer = (.ok value, t) ∧ levelCell.get t = .ok 254 := by
  obtain ⟨merged, hrun, -, hget⟩ := run_ok lift hbody hlevel hs
  -- the count that the body left is what the layer is counted down from
  have hmerged : levelCell.get merged = .error cause := (Cell.get_congr (hget levelKey)).trans h
  exact ⟨_, hrun, get_lower_of_error hmerged⟩

/-- A count that cannot be decoded turns every call down that asks for a layer, and stays as it is, until a
layer is counted down. That writes a number below the limit over it, also at the end of the layer that kept
the count, and behind it layers open. -/
theorem corrupt_count_blocks (h : levelCell.get m = .error cause) :
    (∀ calls, Blocked m calls ↔
      calls.Pairwise fun earlier later => earlier.lowers = true → later.lowers = true) ∧
    (∀ calls : List LayerCall, (∀ call ∈ calls, call.lowers = false) →
      calls.foldl LayerCall.after m = m) ∧
    levelCell.get (lower m) = .ok 254 ∧
    ∀ {ε α : Type} (lift : DispatchError → ε) (body : Program Memory ε α) (outer : Memory) (value : α),
      body.Keeps Memory.below → level outer < limit → body (opened outer) = (.ok value, m) →
      ∃ t, run lift body outer = (.ok value, t) ∧ levelCell.get t = .ok 254 ∧
        enter t = (.ok (), opened t) := by
  refine ⟨fun calls => blocked_iff_of_error h, fun calls => foldl_after_of_le (limit_le_of_error h),
    get_lower_of_error h, fun lift body outer value hbody hlevel hs => ?_⟩
  obtain ⟨t, hrun, hcount⟩ := run_over_error lift hbody hlevel hs h
  refine ⟨t, hrun, hcount, enter_of_lt ?_⟩
  rw [level_of_ok hcount]
  decide

def spoiled : Memory := Store.set Memory.empty levelKey [255]

theorem get_spoiled : levelCell.get spoiled = .error (.decode levelKey .endOfBuffer) := rfl

def emptyLayer : LayerCall := .attempt id (pure () : Program Memory DispatchError Unit)

/-- An empty layer is turned down by such a count, and opened once a layer is counted down. -/
theorem spoiled_blocks_until_lowered :
    levelCell.get spoiled = .error (.decode levelKey .endOfBuffer) ∧
    Blocked spoiled [.raise, emptyLayer, .lower] ∧ ¬ Blocked spoiled [.lower, emptyLayer] ∧
    levelCell.get (lower spoiled) = .ok 254 := by
  obtain ⟨hiff, -, hlower, -⟩ := corrupt_count_blocks get_spoiled
  exact ⟨get_spoiled, (hiff _).mpr (by decide), fun hblocked =>
    absurd ((hiff _).mp hblocked) (by decide), hlower⟩

/-- Layers open again on a count that could not be decoded. -/
theorem corrupt_count_not_final :
    ¬ ∀ (m : Memory) (cause : StoreError), levelCell.get m = .error cause →
      ∀ calls, Blocked m calls := by
  intro h
  obtain ⟨-, ⟨hrefused, -⟩, -⟩ := h spoiled _ get_spoiled [.lower, emptyLayer]
  have hopens : enter (lower spoiled) = (.ok (), opened (lower spoiled)) := rfl
  have hclosed : enter (lower spoiled) = (.error .layerLimitReached, lower spoiled) := hrefused
  rw [hopens] at hclosed
  exact nomatch hclosed

end Corrupt

end BlockRuntime.Layer

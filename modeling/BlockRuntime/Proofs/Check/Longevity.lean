import BlockRuntime.Proofs.Check.Phases
import BlockRuntime.Proofs.Era.Window
import BlockRuntime.Sample

namespace BlockRuntime

namespace Program

variable {σ ε α β : Type} {s t : σ}

/-- Two stores that a program does not tell apart, and leaves as they are. -/
def Alike (p : Program σ ε α) (s t : σ) : Prop := ∃ ending, p s = (ending, s) ∧ p t = (ending, t)

namespace Alike

theorem pure (value : α) : (Pure.pure value : Program σ ε α).Alike s t := ⟨_, rfl, rfl⟩

theorem fail (cause : ε) : (Program.fail cause : Program σ ε α).Alike s t := ⟨_, rfl, rfl⟩

theorem query {f : σ → Except ε α} (h : f t = f s) : (Program.query f).Alike s t := by
  refine ⟨.ofExcept (f s), rfl, ?_⟩
  rw [← h]
  rfl

theorem mapError {ε' : Type} {p : Program σ ε α} (f : ε → ε') (h : p.Alike s t) :
    (p.mapError f).Alike s t := by
  obtain ⟨ending, hs, ht⟩ := h
  refine ⟨ending.mapError f, ?_, ?_⟩
  · rw [mapError_apply, hs]
  · rw [mapError_apply, ht]

theorem bind {p : Program σ ε α} {f : α → Program σ ε β} (hp : p.Alike s t)
    (hf : ∀ a, p s = (.ok a, s) → (f a).Alike s t) : (p >>= f).Alike s t := by
  obtain ⟨ending, hs, ht⟩ := hp
  rcases ending with a | cause | _
  · obtain ⟨ending, hfs, hft⟩ := hf a hs
    exact ⟨ending, (bind_ok hs).trans hfs, (bind_ok ht).trans hft⟩
  · exact ⟨_, bind_error hs, bind_error ht⟩
  · exact ⟨_, bind_aborted hs, bind_aborted ht⟩

/-- Values that go on alike need not be the same. -/
theorem behind {p : Program σ ε α} {f : α → Program σ ε β} {a b : α} (hs : p s = (.ok a, s))
    (ht : p t = (.ok b, t)) (hsame : f b = f a) (h : (f a).Alike s t) : (p >>= f).Alike s t := by
  obtain ⟨ending, hfs, hft⟩ := h
  rw [← hsame] at hft
  exact ⟨ending, (bind_ok hs).trans hfs, (bind_ok ht).trans hft⟩

theorem composes : Composes fun {α : Type} (p : Program σ ε α) => p.Alike s t :=
  ⟨pure, fun hp hf => hp.bind fun a _ => hf a⟩

end Alike

end Program

namespace Era

/-- What is left of a window runs to its end, also where the window has not begun. -/
theorem toNat_add_left (era : MortalEra) {n : UInt64}
    (h : ((mortal era).birth n).toNat + era.period.toNat < UInt64.size) :
    n.toNat + (((mortal era).death n).saturatingSub n).toNat =
      ((mortal era).birth n).toNat + era.period.toNat := by
  have hend : ((mortal era).death n).toNat = ((mortal era).birth n).toNat + era.period.toNat := by
    rw [toNat_death, UInt64.toNat_maxValue]
    have hsize : UInt64.size = 2 ^ 64 := rfl
    omega
  have hinside := toNat_lt_birth_add_period era n
  rw [UInt64.toNat_saturatingSub, hend]
  omega

end Era

theorem Check.longevity_of_nonceAdmission {who : AccountId} {current nonce : UInt64} {answer : Admission}
    (h : nonceAdmission who current nonce = .ok answer) : answer.longevity = UInt64.maxValue := by
  rw [nonceAdmission_eq] at h
  split at h
  · exact nomatch h
  split at h
  · exact nomatch h
  cases h
  rfl

namespace CheckChain

variable {parameters : Parameters} {era : Era} {nonce n : UInt64} {who : AccountId}
  {submission : Submission} {answer : Admission} {m t : Memory}

/-- The checks that look at the store for what a signature is bound to look at the hashes of two blocks:
of the first one, and of the one in which the window of the current block starts. -/
theorem signedData_alike {k : UInt64} (hm : Books.blockNumber m = .ok n)
    (ht : Books.blockNumber t = .ok k) (hbirth : era.birth k = era.birth n)
    (hfirst : Books.blockHash? 0 t = Books.blockHash? 0 m)
    (hstart : Books.blockHash? (era.birth n) t = Books.blockHash? (era.birth n) m) :
    (standard parameters era nonce : CheckChain Memory).signedData.Alike m t := by
  have hgenesis : (Check.genesis : Check Memory).signedDatum.Alike m t := by
    refine ((Program.Alike.query hfirst).mapError _).bind fun found _ => ?_
    cases found with
    | some hash => exact .pure _
    | none => exact .fail _
  have hmortality : (Check.mortality era : Check Memory).signedDatum.Alike m t := by
    -- the two stores stand at different blocks, which are forgotten once the birth is taken
    rw [Check.signedDatum_mortality]
    refine .behind (Check.lookup_ok hm) (Check.lookup_ok ht) (by simp only [hbirth]) ?_
    refine ((Program.Alike.query hstart).mapError _).bind fun found _ => ?_
    cases found with
    | some hash => exact .pure _
    | none => exact .fail _
  refine Program.Alike.bind (Program.Alike.composes.mapM ?_) fun _ _ => .pure _
  intro check hcheck
  simp only [standard, List.mem_cons, List.not_mem_nil, or_false] at hcheck
  rcases hcheck with rfl | rfl | rfl | rfl | rfl | rfl | rfl
  case inr.inr.inr.inl => exact hgenesis
  case inr.inr.inr.inr.inl => exact hmortality
  all_goals exact .pure _

/-- Every check but that of the era puts no bound on the answer, so the shortest is the one of the era. -/
theorem longevity_of_validate (hnumber : Books.blockNumber m = .ok n)
    (hvalid : (standard parameters era nonce : CheckChain Memory).validate who submission m =
      (.ok answer, t)) : answer.longevity = (era.death n).saturatingSub n := by
  rw [validate_standard] at hvalid
  obtain ⟨admission, u, hearly, h₁⟩ := Program.bind_eq_ok hvalid
  obtain ⟨own, v, hnonce, h₂⟩ := Program.bind_eq_ok h₁
  obtain ⟨rest, w, hlimits, hdone⟩ := Program.bind_eq_ok h₂
  cases hdone
  have hera : admission.longevity = (era.death n).saturatingSub n := by
    by_cases hzero : who.isZero = true
    · rw [validate_early_of_isZero hzero] at hearly
      cases hearly
    · rw [validate_early_of_not_isZero hzero, hnumber] at hearly
      cases hearly
      rfl
  -- the nonce check and the resource check leave the longevity at the largest word
  have hown : own.longevity = UInt64.maxValue := by
    obtain ⟨record, -, hadmission⟩ := Check.nonce_admitted submission nonce (congrArg Prod.fst hnonce)
    exact Check.longevity_of_nonceAdmission hadmission
  have hrest : rest.longevity = UInt64.maxValue := by
    rcases Check.admitResources_cases parameters.blockLength parameters.blockWeights submission v with
      ⟨cause, hrefused⟩ | hadmitted
    · cases hrefused.symm.trans hlimits
    · cases hadmitted.symm.trans hlimits
      rfl
  calc
    _ = (admission.longevity.least own.longevity).least rest.longevity := rfl
    _ = (era.death n).saturatingSub n := by
      rw [hera, hown, hrest, UInt64.least_maxValue, UInt64.least_maxValue]

/-- How long the signed data stay as they are in a store at block `n`. -/
structure PayloadLife (parameters : Parameters) (era : Era) (nonce : UInt64) (m : Memory)
    (n longevity : UInt64) : Prop where
  fits : n.toNat + longevity.toNat < UInt64.size
  birth : ∀ k, n ≤ k → k < n + longevity → era.birth k = era.birth n
  payload : ∀ k t, n ≤ k → k < n + longevity → Books.blockNumber t = .ok k →
    Books.blockHash? 0 t = Books.blockHash? 0 m →
    Books.blockHash? (era.birth n) t = Books.blockHash? (era.birth n) m →
      ((standard parameters era nonce : CheckChain Memory).signedData t).1 =
        ((standard parameters era nonce : CheckChain Memory).signedData m).1
  ends : era.birth (n + longevity) ≠ era.birth n

/-- The birth block stays the same up to the death of the era, and no longer. -/
theorem payloadLife {mortal : MortalEra} (hnumber : Books.blockNumber m = .ok n)
    (hfits : ((Era.mortal mortal).birth n).toNat + mortal.period.toNat < UInt64.size) :
    PayloadLife parameters (.mortal mortal) nonce m n
      (((Era.mortal mortal).death n).saturatingSub n) := by
  have hleft := Era.toNat_add_left mortal hfits
  have hend : (n + ((Era.mortal mortal).death n).saturatingSub n).toNat =
      ((Era.mortal mortal).birth n).toNat + mortal.period.toNat := by
    rw [UInt64.toNat_add, hleft]
    exact Nat.mod_eq_of_lt hfits
  have hbirth (k : UInt64) (hfrom : n ≤ k)
      (hto : k < n + ((Era.mortal mortal).death n).saturatingSub n) :
      (Era.mortal mortal).birth k = (Era.mortal mortal).birth n := by
    have hwithin := UInt64.lt_iff_toNat_lt.mp hto
    rw [hend] at hwithin
    exact ((Era.birth_eq_birth_iff mortal hfrom).mpr hwithin).symm
  refine ⟨hleft ▸ hfits, hbirth, ?_, ?_⟩
  · intro k t hfrom hto ht hfirst hstart
    have halike : (standard parameters (.mortal mortal) nonce : CheckChain Memory).signedData.Alike
        m t := signedData_alike hnumber ht (hbirth k hfrom hto) hfirst hstart
    obtain ⟨ending, hm, ht⟩ := halike
    rw [hm, ht]
  · intro heq
    have hlater : n ≤ n + ((Era.mortal mortal).death n).saturatingSub n := by
      rw [UInt64.le_iff_toNat_le, hend, ← hleft]
      exact Nat.le_add_right _ _
    have hwithin := (Era.birth_eq_birth_iff mortal hlater).mp heq.symm
    rw [hend] at hwithin
    exact absurd hwithin (Nat.lt_irrefl _)

/-- An admission to the pool holds for as long as the data that were signed stay the same. Its longevity
is the one that the era check gives; while it lasts every block has the birth of the current one, and with
the same hashes the same data to sign, and the block behind it has another birth. Under the immortal era
it lasts for all blocks that are left. -/
theorem longevity_is_payload_life (parameters : Parameters) (era : Era) (nonce : UInt64)
    (who : AccountId) (submission : Submission) (m : Memory) (n : UInt64) (answer : Admission)
    (hnumber : Books.blockNumber m = .ok n)
    (hvalid : ((standard parameters era nonce).validate who submission m).1 = .ok answer) :
    (∃ own, (Check.mortality era).validate who submission m = (.ok own, m) ∧
      answer.longevity = own.longevity) ∧
    (era = .immortal → answer.longevity = UInt64.maxValue - n) ∧
    ∀ mortal, era = .mortal mortal →
      (era.birth n).toNat + mortal.period.toNat < UInt64.size →
        PayloadLife parameters era nonce m n answer.longevity := by
  have hlongevity : answer.longevity = (era.death n).saturatingSub n :=
    longevity_of_validate hnumber (Prod.ext hvalid rfl)
  refine ⟨?_, ?_, ?_⟩
  · rw [Check.validate_mortality]
    exact ⟨_, Program.bind_ok (Check.lookup_ok hnumber), hlongevity⟩
  · rintro rfl
    have hle : n ≤ UInt64.maxValue := by
      rw [UInt64.le_iff_toNat_le, UInt64.toNat_maxValue]
      have hlt := n.toNat_lt
      omega
    rw [hlongevity]
    apply UInt64.toNat_inj.mp
    rw [UInt64.toNat_saturatingSub, UInt64.toNat_sub_of_le _ _ hle]
    rfl
  · rintro mortal rfl hfits
    rw [hlongevity]
    exact payloadLife hnumber hfits

/-- At block ten the window of sixty-four blocks at phase forty-two has not begun. What is admitted there
lasts for ninety-six blocks, up to the end of that window. -/
theorem unbornWindow_payload_life :
    let era : MortalEra := ⟨64, 42, by decide, by decide⟩
    let submission : Submission := ⟨[], ⟨⟨1, 1⟩, .normal, .paid⟩, 1⟩
    let m : Memory := Books.number.put 10 Memory.empty
    ∃ answer, ((standard Sample.parameters (.mortal era) 0).validate (Sample.account 1) submission
        m).1 = .ok answer ∧ answer.longevity = 96 ∧ (Era.mortal era).birth 105 = 42 ∧
      (Era.mortal era).birth 106 ≠ 42 := by
  intro era submission m
  have hvalid : ((standard Sample.parameters (.mortal era) 0).validate (Sample.account 1) submission
      m).1 = .ok { provides := [Check.nonceTag (Sample.account 1) 0], longevity := 96 } := by
    decide +kernel
  have hlife := (longevity_is_payload_life Sample.parameters (.mortal era) 0 (Sample.account 1)
    submission m 10 _ (by decide +kernel) hvalid).2.2 era rfl (by decide)
  have hborn : (Era.mortal era).birth 10 = 42 := by decide
  have hlast := hlife.birth 105 (by decide) (by decide)
  have hnext := hlife.ends
  rw [hborn] at hlast hnext
  exact ⟨_, hvalid, rfl, hlast, hnext⟩

end CheckChain

end BlockRuntime

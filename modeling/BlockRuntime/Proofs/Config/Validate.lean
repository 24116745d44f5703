import BlockRuntime.Config.Basic
import BlockRuntime.Proofs.Codec.Words

namespace BlockRuntime

namespace ClassLimits

/-- Whether neither the reserve nor the cap of a class exceeds its total. A class without a total may
have any. -/
structure Sound (limits : ClassLimits) : Prop where
  reserved : ∀ total, limits.maxTotal = some total →
    ∀ reserve, limits.reserved = some reserve → reserve ≤ total
  cap : ∀ total, limits.maxTotal = some total →
    ∀ cap, limits.maxExtrinsic = some cap → cap ≤ total

theorem limitExceeds_eq_false_iff {limit : Option Weight} {weight : Weight} :
    limitExceeds limit weight = false ↔ ∀ w, limit = some w → w ≤ weight := by
  unfold limitExceeds
  rcases limit with _ | limit
  · exact ⟨fun _ => nofun, fun _ => rfl⟩
  · rw [Option.any_some, Weight.exceeds_eq_false_iff]
    constructor
    · rintro h w ⟨⟩
      exact h
    · exact fun h => h limit rfl

/-- The checks of a class pass it exactly if it is sound. -/
theorem validate_eq_ok_iff {limits : ClassLimits} {c : DispatchClass} :
    limits.validate c = .ok () ↔ limits.Sound := by
  unfold validate
  cases htotal : limits.maxTotal with
  | none =>
    have hsound : limits.Sound := by constructor <;> (rw [htotal]; exact nofun)
    exact ⟨fun _ => hsound, fun _ => rfl⟩
  | some total =>
    have hsound : limits.Sound ↔ limitExceeds limits.reserved total = false ∧
        limitExceeds limits.maxExtrinsic total = false := by
      rw [limitExceeds_eq_false_iff, limitExceeds_eq_false_iff]
      constructor
      · intro h
        exact ⟨h.reserved total htotal, h.cap total htotal⟩
      · rintro ⟨hreserved, hcap⟩
        constructor <;> (rw [htotal]; rintro _ ⟨⟩)
        · exact hreserved
        · exact hcap
    rw [hsound]
    dsimp only
    cases limitExceeds limits.reserved total with
    | true => simp
    | false => cases limitExceeds limits.maxExtrinsic total <;> simp

end ClassLimits

/-- A list of checks passes if each of them does. -/
theorem forM_eq_ok_iff {ε α : Type} {check : α → Except ε Unit} {xs : List α} :
    xs.forM check = .ok () ↔ ∀ x ∈ xs, check x = .ok () := by
  induction xs with
  | nil => exact ⟨fun _ _ => nofun, fun _ => rfl⟩
  | cons x xs ih =>
    have hstep : (x :: xs).forM check = check x >>= fun _ => xs.forM check := rfl
    rw [hstep, List.forall_mem_cons, ← ih]
    cases check x with
    | error cause => exact ⟨nofun, fun h => nomatch h.1⟩
    | ok _ => exact ⟨fun h => ⟨rfl, h⟩, fun h => h.2⟩

theorem BlockWeights.validate_eq_ok_iff {weights : BlockWeights} :
    weights.validate = .ok () ↔ ∀ c, (weights.get c).Sound := by
  have hclass (c : DispatchClass) : (weights.get c).validate c = .ok () ↔ (weights.get c).Sound :=
    ClassLimits.validate_eq_ok_iff
  unfold validate
  simp only [forM_eq_ok_iff, hclass]
  exact ⟨fun h c => h c (DispatchClass.mem_all c), fun h c _ => h c⟩

theorem BlockHash.exists_encode_eq_iff {bytes : Bytes} :
    (∃ hash, BlockHash.codec.encode hash = bytes) ↔ bytes.length = 32 := by
  constructor
  · rintro ⟨hash, rfl⟩
    exact hash.bytes.length_toBytes
  · exact fun h => ⟨⟨⟨bytes, h⟩⟩, rfl⟩

namespace Config

structure Sound (config : Config) : Prop where
  genesis : config.genesisHash.length = 32
  count : config.blockHashCount ≠ 0
  lengths : config.blockLength.max.normal ≤ config.blockLength.max.operational
  weights : ∀ c, (config.blockWeights.get c).Sound

def parameters (config : Config) (genesisHash : BlockHash) : Parameters where
  versions := ⟨config.specName, config.specVersion, config.transactionVersion⟩
  genesisHash := genesisHash
  blockHashCount := config.blockHashCount
  blockLength := config.blockLength
  blockWeights := config.blockWeights

/-- Validation passes exactly the sound configurations, and carries everything over. -/
theorem validate_eq_ok_iff {config : Config} {parameters : Parameters} :
    config.validate = .ok parameters ↔
      config.Sound ∧ ∃ hash, BlockHash.codec.encode hash = config.genesisHash ∧
        parameters = config.parameters hash := by
  unfold validate
  constructor
  · intro h
    split at h
    · exact nomatch h
    rename_i hash hdecode
    have hbytes := BlockHash.codec_lawful.eq_of_decode hdecode
    dsimp only at h
    split at h
    · exact nomatch h
    rename_i hcount
    split at h
    · exact nomatch h
    rename_i hlengths
    split at h
    · exact nomatch h
    rename_i hweights
    cases h
    refine ⟨⟨?_, hcount, UInt32.not_lt.mp hlengths, BlockWeights.validate_eq_ok_iff.mp hweights⟩,
      hash, hbytes.symm, rfl⟩
    exact BlockHash.exists_encode_eq_iff.mp ⟨hash, hbytes.symm⟩
  · rintro ⟨hsound, hash, hbytes, rfl⟩
    rw [← hbytes, BlockHash.codec_lawful.decode_encode]
    dsimp only
    rw [if_neg hsound.count, if_neg (UInt32.not_lt.mpr hsound.lengths),
      BlockWeights.validate_eq_ok_iff.mpr hsound.weights]
    rfl

end Config

end BlockRuntime

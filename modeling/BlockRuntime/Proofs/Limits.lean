import BlockRuntime.Proofs.Check.Shares
import BlockRuntime.Proofs.Config.Validate

namespace BitVec

variable {w : Nat}

def checkedMul? (a b : BitVec w) : Option (BitVec w) :=
  if a.toNat * b.toNat < 2 ^ w then some (a * b) else none

def narrow? (v : Nat) (a : BitVec w) : Option (BitVec v) :=
  if a.toNat < 2 ^ v then some (a.setWidth v) else none

theorem checkedMul?_of_lt {a b : BitVec w} (h : a.toNat * b.toNat < 2 ^ w) :
    ∃ c, a.checkedMul? b = some c ∧ c.toNat = a.toNat * b.toNat := by
  refine ⟨a * b, if_pos h, ?_⟩
  rw [BitVec.toNat_mul]
  exact Nat.mod_eq_of_lt h

theorem narrow?_of_lt {v : Nat} {a : BitVec w} (h : a.toNat < 2 ^ v) :
    ∃ c, a.narrow? v = some c ∧ c.toNat = a.toNat := by
  refine ⟨a.setWidth v, if_pos h, ?_⟩
  rw [BitVec.toNat_setWidth]
  exact Nat.mod_eq_of_lt h

end BitVec

namespace BlockRuntime

theorem percentOf_mono {value value' : Nat} {percent percent' : UInt8} (hvalue : value ≤ value')
    (hpercent : percent ≤ percent') : percentOf value percent ≤ percentOf value' percent' := by
  rw [UInt8.le_iff_toNat_le] at hpercent
  have hhundredths : min percent.toNat 100 ≤ min percent'.toNat 100 := by omega
  exact Nat.div_le_div_right (Nat.mul_le_mul hvalue hhundredths)

/-- The given percentage of a word, with a product of 128 bits that is divided and put back into 64. There
is none where the product or the quotient does not fit. -/
def percentWord? (value : UInt64) (percent : UInt8) : Option UInt64 := do
  let hundredths := if percent ≤ 100 then percent else 100
  let product ← (value.toBitVec.setWidth 128).checkedMul? (hundredths.toBitVec.setWidth 128)
  let share ← (product / 100#128).narrow? 64
  some ⟨share⟩

/-- The product fits into 128 bits and the quotient into 64, so the share is exact. -/
theorem percentWord?_eq (value : UInt64) (percent : UInt8) :
    ∃ share, percentWord? value percent = some share ∧
      share.toNat = percentOf value.toNat percent := by
  have hvalue : (value.toBitVec.setWidth 128).toNat = value.toNat :=
    BitVec.toNat_setWidth_of_le (by decide)
  have hhundredths : ((if percent ≤ 100 then percent else 100).toBitVec.setWidth 128).toNat =
      min percent.toNat 100 := by
    rw [BitVec.toNat_setWidth_of_le (by decide)]
    by_cases h : percent ≤ 100
    · rw [if_pos h]
      exact (Nat.min_eq_left (UInt8.le_iff_toNat_le.mp h)).symm
    · rw [if_neg h]
      exact (Nat.min_eq_right (UInt8.lt_iff_toNat_lt.mp (UInt8.not_le.mp h)).le).symm
  -- the product is less than a word and seven bits
  have hproduct : value.toNat * min percent.toNat 100 < 2 ^ 128 := by
    have hle : value.toNat * min percent.toNat 100 ≤ value.toNat * 100 :=
      Nat.mul_le_mul_left _ (Nat.min_le_right _ _)
    have hlt := value.toNat_lt
    omega
  rw [← hvalue, ← hhundredths] at hproduct
  obtain ⟨product, hmul, hexact⟩ := BitVec.checkedMul?_of_lt hproduct
  rw [hvalue, hhundredths] at hexact
  have hquotient : (product / 100#128).toNat = percentOf value.toNat percent := by
    rw [BitVec.toNat_udiv, hexact]
    rfl
  obtain ⟨share, hnarrow, hshare⟩ : ∃ share : BitVec 64,
      (product / 100#128).narrow? 64 = some share ∧ share.toNat = (product / 100#128).toNat :=
    BitVec.narrow?_of_lt (hquotient ▸ (percentOf_le _ _).trans_lt value.toNat_lt)
  refine ⟨⟨share⟩, ?_, hshare.trans hquotient⟩
  unfold percentWord?
  simp only [hmul, hnarrow, Option.bind_eq_bind, Option.bind_some]

namespace BlockLength

variable {limit limit' : UInt32} {percent percent' : UInt8}

theorem toNat_normal (limit : UInt32) (percent : UInt8) :
    (withNormalShare limit percent).max.normal.toNat = percentOf limit.toNat percent :=
  UInt32.toNat_ofNat_of_lt' ((percentOf_le _ _).trans_lt limit.toNat_lt)

theorem normal_le (limit : UInt32) (percent : UInt8) :
    (withNormalShare limit percent).max.normal ≤ limit := by
  rw [UInt32.le_iff_toNat_le, toNat_normal]
  exact percentOf_le _ _

theorem normal_mono (hlimit : limit ≤ limit') (hpercent : percent ≤ percent') :
    (withNormalShare limit percent).max.normal ≤ (withNormalShare limit' percent').max.normal := by
  rw [UInt32.le_iff_toNat_le] at hlimit ⊢
  rw [toNat_normal, toNat_normal]
  exact percentOf_mono hlimit hpercent

def normalWord? (limit : UInt32) (percent : UInt8) : Option UInt32 := do
  let share ← percentWord? limit.toUInt64 percent
  let short ← share.toBitVec.narrow? 32
  some ⟨short⟩

/-- The share of a length fits back into 32 bits. -/
theorem normalWord?_eq (limit : UInt32) (percent : UInt8) :
    normalWord? limit percent = some (withNormalShare limit percent).max.normal := by
  obtain ⟨share, hshare, hexact⟩ := percentWord?_eq limit.toUInt64 percent
  have hlimit : limit.toUInt64.toNat = limit.toNat := UInt32.toNat_toUInt64 limit
  rw [hlimit] at hexact
  have hfits : share.toBitVec.toNat < 2 ^ 32 := by
    have hlt := (percentOf_le limit.toNat percent).trans_lt limit.toNat_lt
    rw [← hexact] at hlt
    exact hlt
  obtain ⟨short, hnarrow, hshort⟩ := BitVec.narrow?_of_lt hfits
  have hnormal : (⟨short⟩ : UInt32) = (withNormalShare limit percent).max.normal := by
    apply UInt32.toNat_inj.mp
    rw [toNat_normal]
    exact hshort.trans hexact
  rw [← hnormal]
  unfold normalWord?
  simp only [hshare, hnarrow, Option.bind_eq_bind, Option.bind_some]

end BlockLength

namespace BlockWeights

variable {block block' : Weight} {percent percent' : UInt8}

theorem share_mono (hblock : block ≤ block') (hpercent : percent ≤ percent') :
    share block percent ≤ share block' percent' := by
  rw [Weight.le_iff_amount] at hblock ⊢
  intro r
  rw [amount_share, amount_share]
  exact percentOf_mono (hblock r) hpercent

def shareWord? (block : Weight) (percent : UInt8) : Option Weight := do
  let time ← percentWord? block.refTime percent
  let size ← percentWord? block.proofSize percent
  some ⟨time, size⟩

theorem shareWord?_eq (block : Weight) (percent : UInt8) :
    shareWord? block percent = some (share block percent) := by
  obtain ⟨time, htime, hexactTime⟩ := percentWord?_eq block.refTime percent
  obtain ⟨size, hsize, hexactSize⟩ := percentWord?_eq block.proofSize percent
  have hshare : (⟨time, size⟩ : Weight) = share block percent := by
    apply Weight.eq_of_amount
    rintro (_ | _) <;> rw [amount_share]
    · exact hexactTime
    · exact hexactSize
  rw [← hshare]
  unfold shareWord?
  simp only [htime, hsize, Option.bind_eq_bind, Option.bind_some]

end BlockWeights

namespace ClassLimits

/-- A class that holds nothing back, with no cap or with all of its total for a cap. -/
theorem sound_of_cap {limits : ClassLimits} (hreserved : limits.reserved = none)
    (hcap : limits.maxExtrinsic = none ∨ limits.maxExtrinsic = limits.maxTotal) : limits.Sound := by
  constructor
  · rw [hreserved]
    exact fun _ _ => nofun
  · intro total htotal cap hmax
    rcases hcap with hnone | htop
    · rw [hnone] at hmax
      exact nomatch hmax
    · rw [htop, htotal] at hmax
      cases hmax
      exact Weight.le_refl _

end ClassLimits

/-- What the normal limit on the length of a block is, as a share of the limit on all of it. -/
structure BlockLength.NormalExact (limit : UInt32) (percent : UInt8) : Prop where
  amount : (withNormalShare limit percent).max.normal.toNat =
    limit.toNat * min percent.toNat 100 / 100
  words : normalWord? limit percent = some (withNormalShare limit percent).max.normal
  bound : (withNormalShare limit percent).max.normal ≤ limit
  mono : ∀ limit' percent', limit ≤ limit' → percent ≤ percent' →
    (withNormalShare limit percent).max.normal ≤ (withNormalShare limit' percent').max.normal

structure BlockWeights.NormalExact (block : Weight) (percent : UInt8) : Prop where
  limits : (withNormalShare block percent).get .normal =
    ⟨Weight.zero, some (share block percent), some (share block percent), none⟩
  amount : ∀ r, (share block percent).amount r = block.amount r * min percent.toNat 100 / 100
  words : shareWord? block percent = some (share block percent)
  bound : share block percent ≤ block
  mono : ∀ block' percent', block ≤ block' → percent ≤ percent' →
    share block percent ≤ share block' percent'

theorem BlockLength.normal_le_operational {limits : BlockLength} {limit : UInt32} {percent : UInt8}
    (h : limits = withNormalShare limit percent ∨ limits = uniform limit) :
    limits.max.normal ≤ limits.max.operational := by
  rcases h with rfl | rfl
  · exact normal_le limit percent
  · exact UInt32.le_refl limit

/-- Limits that are made from a block have no reserve, and no cap above their total. -/
theorem BlockWeights.sound_of_made {weights : BlockWeights} {block : Weight} {percent : UInt8}
    (h : weights = withNormalShare block percent ∨ weights = uniform block) (c : DispatchClass) :
    (weights.get c).Sound := by
  rcases h with rfl | rfl
  -- with a share the caps are the totals, and without one there are none
  · cases c with
    | normal => exact ClassLimits.sound_of_cap rfl (Or.inr rfl)
    | operational => exact ClassLimits.sound_of_cap rfl (Or.inr rfl)
    | mandatory => exact ClassLimits.sound_of_cap rfl (Or.inl rfl)
  · cases c <;> exact ClassLimits.sound_of_cap rfl (Or.inl rfl)

/-- Normal limits are the exact share, rounded down, and nothing overflows or is cut off on the way to them.
Limits made with a share or alike for all classes, from whatever length and weight, pass validation, and are
carried over as they are. -/
theorem made_limits_exact_and_valid (limit : UInt32) (block : Weight) (p q : UInt8) :
    BlockLength.NormalExact limit p ∧ BlockWeights.NormalExact block q ∧
    ∀ config : Config,
      config.blockLength = .withNormalShare limit p ∨ config.blockLength = .uniform limit →
      config.blockWeights = .withNormalShare block q ∨ config.blockWeights = .uniform block →
      config.genesisHash.length = 32 → config.blockHashCount ≠ 0 →
      ∃ parameters, config.validate = .ok parameters ∧
        parameters.versions = ⟨config.specName, config.specVersion, config.transactionVersion⟩ ∧
        BlockHash.codec.encode parameters.genesisHash = config.genesisHash ∧
        parameters.blockHashCount = config.blockHashCount ∧
        parameters.blockLength = config.blockLength ∧ parameters.blockWeights = config.blockWeights := by
  refine ⟨?_, ?_, fun config hlengths hweights hgenesis hcount => ?_⟩
  · exact ⟨BlockLength.toNat_normal limit p, BlockLength.normalWord?_eq limit p,
      BlockLength.normal_le limit p, fun _ _ => BlockLength.normal_mono⟩
  · exact ⟨rfl, BlockWeights.amount_share block q, BlockWeights.shareWord?_eq block q,
      BlockWeights.share_le block q, fun _ _ => BlockWeights.share_mono⟩
  · have hsound : config.Sound := ⟨hgenesis, hcount, BlockLength.normal_le_operational hlengths,
      BlockWeights.sound_of_made hweights⟩
    obtain ⟨hash, hhash⟩ := BlockHash.exists_encode_eq_iff.mpr hgenesis
    exact ⟨config.parameters hash, Config.validate_eq_ok_iff.mpr ⟨hsound, hash, hhash, rfl⟩, rfl, hhash,
      rfl, rfl, rfl⟩

/-- A configuration with the longest and heaviest block there is, and more than all of it for normal
extrinsics. -/
def widest : Config where
  specName := ""
  specVersion := 0
  transactionVersion := 0
  genesisHash := List.replicate 32 255
  blockHashCount := 1
  blockLength := .withNormalShare UInt32.maxValue 255
  blockWeights := .withNormalShare Weight.maxValue 101

/-- More than a hundred percent is all of the block, and the configuration passes. -/
theorem widest_valid :
    (BlockLength.withNormalShare UInt32.maxValue 255).max.normal.toNat =
      UInt32.maxValue.toNat * min (255 : UInt8).toNat 100 / 100 ∧
    (BlockLength.withNormalShare UInt32.maxValue 99).max.normal ≤
      (BlockLength.withNormalShare UInt32.maxValue 255).max.normal ∧
    widest.genesisHash.length = 32 ∧ widest.blockHashCount ≠ 0 ∧
    ∃ parameters, widest.validate = .ok parameters ∧ parameters.blockLength = widest.blockLength ∧
      parameters.blockWeights = widest.blockWeights := by
  have hcount : widest.blockHashCount ≠ 0 := by decide
  obtain ⟨hlength, -, hvalid⟩ := made_limits_exact_and_valid UInt32.maxValue Weight.maxValue 255 101
  obtain ⟨hpart, -, -⟩ := made_limits_exact_and_valid UInt32.maxValue Weight.maxValue 99 101
  obtain ⟨parameters, hok, -, -, -, hlengths, hweights⟩ :=
    hvalid widest (Or.inl rfl) (Or.inl rfl) rfl hcount
  exact ⟨hlength.amount, hpart.mono _ _ (UInt32.le_refl _) (by decide), rfl, hcount, parameters, hok,
    hlengths, hweights⟩

end BlockRuntime

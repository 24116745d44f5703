import BlockRuntime.Proofs.Era.Window
import Mathlib.Data.Nat.Log
import Mathlib.Data.Nat.ModEq

namespace BlockRuntime

namespace MortalEra

theorem windowStart_modEq (period phase n : Nat) : windowStart period phase n ≡ phase [MOD period] := by
  have hwindows : (max n phase - phase) / period * period ≡ 0 [MOD period] :=
    Nat.modEq_zero_iff_dvd.mpr (Nat.dvd_mul_left _ _)
  have hsum := hwindows.add_right phase
  rw [Nat.zero_add] at hsum
  exact hsum

/-- The era that is made of a period and a phase is the one that has them. -/
theorem new_eq_ok_iff {period phase : UInt64} {era : MortalEra} :
    MortalEra.new period phase = .ok era ↔ era.period = period ∧ era.phase = phase := by
  unfold MortalEra.new
  constructor
  · intro h
    split at h
    · split at h
      · cases h
        exact ⟨rfl, rfl⟩
      · exact nomatch h
    · exact nomatch h
  · rintro ⟨rfl, rfl⟩
    rw [dif_pos era.isPeriod, dif_pos era.isPhase]

section Starting

variable (wanted current : Nat)

/-- Doubling stops at the least power of two that reaches the number, if it may go that far. -/
theorem doubleUpTo_two_pow (steps k : Nat) :
    doubleUpTo wanted steps (2 ^ k) = 2 ^ min (max (Nat.clog 2 wanted) k) (k + steps) := by
  -- as in the definition, every step takes one from the steps and adds one to the exponent
  induction steps generalizing k with
  | zero =>
    have hmin : min (max (Nat.clog 2 wanted) k) (k + 0) = k := by omega
    rw [hmin]
    rfl
  | succ steps ih =>
    unfold doubleUpTo
    by_cases hreached : wanted ≤ 2 ^ k
    · have hlog : Nat.clog 2 wanted ≤ k := Nat.clog_le_of_le_pow hreached
      have hmin : min (max (Nat.clog 2 wanted) k) (k + (steps + 1)) = k := by omega
      rw [if_pos hreached, hmin]
    · have hlog : k < Nat.clog 2 wanted :=
        (Nat.lt_clog_iff_pow_lt (by decide)).mpr (Nat.lt_of_not_le hreached)
      have hmin : min (max (Nat.clog 2 wanted) (k + 1)) (k + 1 + steps) =
          min (max (Nat.clog 2 wanted) k) (k + (steps + 1)) := by omega
      rw [if_neg hreached, ← Nat.pow_succ', ih, hmin]

theorem isLeast_two_pow_clog :
    IsLeast {power | (∃ k, power = 2 ^ k) ∧ wanted ≤ power} (2 ^ Nat.clog 2 wanted) := by
  constructor
  · exact ⟨⟨_, rfl⟩, Nat.le_pow_clog (by decide) wanted⟩
  · rintro power ⟨⟨k, rfl⟩, hle⟩
    exact Nat.pow_le_pow_right (by decide) (Nat.clog_le_of_le_pow hle)

/-- A period is the power of two that was wanted, brought between the smallest and the largest one. -/
theorem periodFor_eq : periodFor wanted = min (max (2 ^ Nat.clog 2 wanted) 4) 65536 := by
  have hmono : Monotone fun k : Nat => 2 ^ k :=
    fun _ _ hle => Nat.pow_le_pow_right (by decide) hle
  have hmax : 2 ^ max (Nat.clog 2 wanted) 2 = max (2 ^ Nat.clog 2 wanted) (2 ^ 2) := hmono.map_max
  calc
    periodFor wanted = 2 ^ min (max (Nat.clog 2 wanted) 2) 16 := doubleUpTo_two_pow wanted 14 2
    _ = min (2 ^ max (Nat.clog 2 wanted) 2) (2 ^ 16) := hmono.map_min
    _ = min (max (2 ^ Nat.clog 2 wanted) (2 ^ 2)) (2 ^ 16) := by rw [hmax]

/-- A window that starts in the last phase has started less than a quantum ago. -/
theorem windowStart_phaseAt {period : Nat} (hperiod : IsPeriod period) :
    windowStart period (phaseAt period current) current ≤ current ∧
      current - windowStart period (phaseAt period current) current < quantum period := by
  have hquantum : quantum period ≤ period :=
    Nat.max_le.mpr ⟨Nat.div_le_self _ _, hperiod.pos⟩
  have hsplit := Nat.div_add_mod' current period
  have hphase := Nat.div_add_mod' (current % period) (quantum period)
  have hrest := Nat.mod_lt (current % period) (quantum_pos period)
  have hmod := Nat.mod_lt current hperiod.pos
  -- the phase is no more than the rest by the period, so to take it off crosses no window
  have hwindow : (max current (phaseAt period current) - phaseAt period current) / period =
      current / period := by
    unfold phaseAt
    apply Nat.div_eq_of_lt_le
    · omega
    · rw [Nat.succ_mul]
      omega
  unfold windowStart
  rw [hwindow]
  unfold phaseAt
  omega

end Starting

end MortalEra

namespace Era

/-- What the window of a block is, for an era of a period and a phase. -/
structure Tiled (period phase : UInt64) (era : Era) (n : UInt64) : Prop where
  modEq : (era.birth n).toNat ≡ phase.toNat [MOD period.toNat]
  within : phase ≤ n →
    era.birth n ≤ n ∧ n.toNat < (era.birth n).toNat + period.toNat
  before : n < phase → era.birth n = phase
  death : (era.death n).toNat =
    min ((era.birth n).toNat + period.toNat) UInt64.maxValue.toNat
  shared : ∀ m, m ≤ n →
    (era.birth m = era.birth n ↔ n.toNat < (era.birth m).toNat + period.toNat)

/-- What an era is that was asked for with a length and a block to start near. -/
structure StartedNear (wanted current : UInt64) (era : MortalEra) : Prop where
  valid : MortalEra.new era.period era.phase = .ok era
  period : ∃ power, IsLeast {power | (∃ k, power = 2 ^ k) ∧ wanted.toNat ≤ power} power ∧
    era.period.toNat = min (max power 4) 65536
  birth_le : (mortal era).birth current ≤ current
  close : current.toNat - ((mortal era).birth current).toNat < max (era.period.toNat / 4096) 1

theorem tiled (era : MortalEra) (n : UInt64) : Tiled era.period era.phase (mortal era) n := by
  refine ⟨?_, fun h => ?_, fun h => ?_, toNat_death era n, fun m h => birth_eq_birth_iff era h⟩
  · rw [toNat_birth]
    exact MortalEra.windowStart_modEq _ _ _
  · refine ⟨?_, toNat_lt_birth_add_period era n⟩
    rw [UInt64.le_iff_toNat_le] at h ⊢
    rw [toNat_birth]
    exact MortalEra.windowStart_le h
  · rw [UInt64.lt_iff_toNat_lt] at h
    apply UInt64.toNat_inj.mp
    rw [toNat_birth, MortalEra.windowStart_of_lt h]

theorem startedNear (wanted current : UInt64) :
    ∃ era, starting wanted current = mortal era ∧ StartedNear wanted current era := by
  have hp := MortalEra.isPeriod_periodFor wanted.toNat
  have hf := MortalEra.isPhase_phaseAt current.toNat hp
  have hperiod := MortalEra.toNat_ofNat_of_isPeriod hp
  have hphase := MortalEra.toNat_ofNat_of_isPhase hp hf
  obtain ⟨hle, hclose⟩ := MortalEra.windowStart_phaseAt current.toNat hp
  -- both fields fit into words, so the window is the one of the numbers
  have hbirth : ((mortal (MortalEra.ofNats _ _ hp hf)).birth current).toNat =
      MortalEra.windowStart (MortalEra.periodFor wanted.toNat)
        (MortalEra.phaseAt (MortalEra.periodFor wanted.toNat) current.toNat) current.toNat := by
    rw [toNat_birth]
    unfold MortalEra.ofNats
    rw [hperiod, hphase]
  refine ⟨MortalEra.ofNats _ _ hp hf, rfl, MortalEra.new_eq_ok_iff.mpr ⟨rfl, rfl⟩, ?_, ?_, ?_⟩
  · refine ⟨_, MortalEra.isLeast_two_pow_clog wanted.toNat, ?_⟩
    exact hperiod.trans (MortalEra.periodFor_eq wanted.toNat)
  · rw [UInt64.le_iff_toNat_le, hbirth]
    exact hle
  · rw [hbirth]
    unfold MortalEra.ofNats
    rw [hperiod]
    exact hclose

/-- The windows of every era tile the block numbers, and every length and block give an era whose window
starts near the block. -/
theorem windows_tile_blocks :
    (∀ period phase era, MortalEra.new period phase = .ok era →
      ∀ n, Tiled period phase (mortal era) n) ∧
    ∀ wanted current, ∃ era, starting wanted current = mortal era ∧
      StartedNear wanted current era := by
  refine ⟨fun period phase era h n => ?_, startedNear⟩
  obtain ⟨rfl, rfl⟩ := MortalEra.new_eq_ok_iff.mp h
  exact tiled era n

/-- The window of sixty-four blocks at phase forty-two that block 105 is the last of. -/
theorem lastBlock_tiled :
    ∃ era, MortalEra.new 64 42 = .ok era ∧
      (mortal era).birth 105 ≤ 105 ∧ (105 : Nat) < ((mortal era).birth 105).toNat + 64 ∧
      (mortal era).birth 105 ≠ (mortal era).birth 106 := by
  have hvalid : MortalEra.new 64 42 = .ok ⟨64, 42, by decide, by decide⟩ := rfl
  refine ⟨_, hvalid, ?_⟩
  obtain ⟨hle, hlt⟩ := (windows_tile_blocks.1 64 42 _ hvalid 105).within (by decide)
  have hnext := (windows_tile_blocks.1 64 42 _ hvalid 106).shared 105 (by decide)
  exact ⟨hle, hlt, fun heq => absurd (hnext.mp heq) (by decide)⟩

end Era

end BlockRuntime

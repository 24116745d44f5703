import BlockRuntime.Era

namespace BlockRuntime

namespace MortalEra

variable {period phase m n : Nat}

theorem windowStart_of_lt (h : n < phase) : windowStart period phase n = phase := by
  have hbefore : max n phase - phase = 0 := by omega
  unfold windowStart
  rw [hbefore, Nat.zero_div, Nat.zero_mul, Nat.zero_add]

theorem windowStart_le (h : phase ≤ n) : windowStart period phase n ≤ n := by
  have hle := Nat.div_mul_le_self (max n phase - phase) period
  unfold windowStart
  omega

theorem lt_windowStart_add (hperiod : 0 < period) : n < windowStart period phase n + period := by
  have hlt : max n phase - phase < (max n phase - phase) / period * period + period :=
    Nat.lt_div_mul_add hperiod
  unfold windowStart
  omega

/-- Every block from a start on, and less than a period behind it, is in the window that starts there. -/
theorem windowStart_eq_of_window (hstart : windowStart period phase m ≤ n)
    (hend : n < windowStart period phase m + period) :
    windowStart period phase n = windowStart period phase m := by
  unfold windowStart at *
  generalize (max m phase - phase) / period = windows at *
  have hwindow : (max n phase - phase) / period = windows := by
    apply Nat.div_eq_of_lt_le
    · omega
    · rw [Nat.succ_mul]
      omega
  rw [hwindow]

/-- Two blocks are in one window while the later one is less than a period behind its start. -/
theorem windowStart_eq_iff (hperiod : 0 < period) (h : m ≤ n) :
    windowStart period phase m = windowStart period phase n ↔
      n < windowStart period phase m + period := by
  constructor
  · intro heq
    rw [heq]
    exact lt_windowStart_add hperiod
  · intro hend
    by_cases hphase : phase ≤ m
    · exact (windowStart_eq_of_window (Nat.le_trans (windowStart_le hphase) h) hend).symm
    · -- before the phase there is only the first window, and it may start behind both blocks
      have hfirst : windowStart period phase m = phase := windowStart_of_lt (Nat.lt_of_not_le hphase)
      by_cases hlater : phase ≤ n
      · exact (windowStart_eq_of_window (Nat.le_trans (Nat.le_of_eq hfirst) hlater) hend).symm
      · rw [hfirst, windowStart_of_lt (Nat.lt_of_not_le hlater)]

end MortalEra

namespace Era

variable {era : MortalEra} {current n : UInt64}

/-- The words on the way to the start of a window never go out of range. -/
theorem toNat_birth (era : MortalEra) (current : UInt64) : ((mortal era).birth current).toNat =
    MortalEra.windowStart era.period.toNat era.phase.toNat current.toNat := by
  obtain ⟨birth, hbirth, hexact⟩ := era.exists_birth? current
  have hsome : some ((mortal era).birth current) = some birth :=
    ((mortal era).birth?_eq current).symm.trans hbirth
  rw [Option.some.inj hsome]
  exact hexact

/-- An era dies one period behind its birth, or with the last block of all. -/
theorem toNat_death (era : MortalEra) (current : UInt64) : ((mortal era).death current).toNat =
    min (((mortal era).birth current).toNat + era.period.toNat) UInt64.maxValue.toNat := by
  have hdeath : some ((mortal era).death current) =
      some (((mortal era).birth current).saturatingAdd era.period) := by
    rw [← death?_eq]
    exact congrArg (Option.map (·.saturatingAdd era.period)) ((mortal era).birth?_eq current)
  rw [Option.some.inj hdeath]
  exact UInt64.toNat_saturatingAdd _ _

/-- Two blocks have one birth while the later one is less than a period behind it. -/
theorem birth_eq_birth_iff (era : MortalEra) {k n : UInt64} (h : k ≤ n) :
    (mortal era).birth k = (mortal era).birth n ↔
      n.toNat < ((mortal era).birth k).toNat + era.period.toNat := by
  rw [UInt64.le_iff_toNat_le] at h
  rw [← UInt64.toNat_inj, toNat_birth, toNat_birth]
  exact MortalEra.windowStart_eq_iff era.isPeriod.pos h

/-- A block is less than a period behind its birth. -/
theorem toNat_lt_birth_add_period (era : MortalEra) (n : UInt64) :
    n.toNat < ((mortal era).birth n).toNat + era.period.toNat :=
  (birth_eq_birth_iff era (UInt64.le_refl n)).mp rfl

/-- A window is no longer than the period. -/
theorem lt_birth_add_period (era : MortalEra) (current n : UInt64) (h : n < (mortal era).death current) :
    n.toNat < ((mortal era).birth current).toNat + era.period.toNat := by
  have hdeath := toNat_death era current
  have hlt := UInt64.lt_iff_toNat_lt.mp h
  omega

/-- All blocks of a window have one birth. -/
theorem birth_eq_of_window (hbirth : (mortal era).birth current < n)
    (hdeath : n < (mortal era).death current) :
    (mortal era).birth n = (mortal era).birth current := by
  have hafter := UInt64.lt_iff_toNat_lt.mp hbirth
  have hbefore := lt_birth_add_period era current n hdeath
  apply UInt64.toNat_inj.mp
  rw [toNat_birth] at hafter hbefore
  rw [toNat_birth, toNat_birth]
  exact MortalEra.windowStart_eq_of_window (Nat.le_of_lt hafter) hbefore

end Era

end BlockRuntime

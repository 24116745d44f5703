import BlockRuntime.Era
import Mathlib.Tactic.Ring

namespace BlockRuntime

namespace MortalEra

variable {period phase : Nat}

theorem two_le_log2 (h : IsPeriod period) : 2 ≤ period.log2 ∧ period.log2 ≤ 16 := by
  obtain ⟨k, hlow, hhigh, rfl⟩ := h.exists_two_pow
  rw [Nat.one_shiftLeft, Nat.log2_two_pow]
  exact ⟨hlow, hhigh⟩

/-- The exponent that the code holds gives the period back. -/
theorem two_shiftLeft_log2 (h : IsPeriod period) : 2 <<< (period.log2 - 1) = period := by
  have hlog := (two_le_log2 h).1
  have hperiod := h.2.2
  rw [Nat.one_shiftLeft] at hperiod
  have hsucc : period.log2 - 1 + 1 = period.log2 := by omega
  calc
    2 <<< (period.log2 - 1) = 2 ^ (period.log2 - 1 + 1) := by
      rw [Nat.shiftLeft_eq, Nat.pow_succ]
      ring
    _ = 2 ^ period.log2 := by rw [hsucc]
    _ = period := hperiod

theorem log2_two_shiftLeft (k : Nat) : (2 <<< k).log2 = k + 1 := by
  have hpow : 2 <<< k = 2 ^ (k + 1) := by
    rw [Nat.shiftLeft_eq, Nat.pow_succ]
    ring
  rw [hpow, Nat.log2_two_pow]

/-- A period has at most 4096 phases. -/
theorem period_le (h : IsPeriod period) : period ≤ 4096 * quantum period := by
  obtain ⟨k, -, -, rfl⟩ := h.exists_two_pow
  rw [Nat.one_shiftLeft]
  unfold quantum
  by_cases hk : k ≤ 12
  · -- a short period has a phase for every block
    have hpow : 2 ^ k ≤ 2 ^ 12 := Nat.pow_le_pow_right (by decide) hk
    omega
  · have hsplit : 2 ^ k = 2 ^ (k - 12) * 4096 := by
      rw [show (4096 : Nat) = 2 ^ 12 from rfl, ← Nat.pow_add, Nat.sub_add_cancel (by omega)]
    omega

theorem div_quantum_lt (hp : IsPeriod period) (hf : IsPhase period phase) :
    phase / quantum period < 4096 := by
  have hphases := period_le hp
  have hlt := hf.1
  exact Nat.div_lt_of_lt_mul (by rw [Nat.mul_comm]; omega)

variable {era : MortalEra} {word : Nat}

theorem word_mod (era : MortalEra) : era.word % 16 = era.period.toNat.log2 - 1 := by
  have hlog := two_le_log2 era.isPeriod
  unfold MortalEra.word
  omega

theorem word_div (era : MortalEra) : era.word / 16 = era.phase.toNat / quantum era.period.toNat := by
  have hlog := two_le_log2 era.isPeriod
  unfold MortalEra.word
  omega

/-- The number of a mortal era takes two bytes. -/
theorem word_lt (era : MortalEra) : era.word < 65536 := by
  have hlog := two_le_log2 era.isPeriod
  have hphase := div_quantum_lt era.isPeriod era.isPhase
  unfold MortalEra.word
  omega

theorem ofNats_toNat (era : MortalEra) :
    ofNats era.period.toNat era.phase.toNat era.isPeriod era.isPhase = era := by
  obtain ⟨period, phase, hperiod, hphase⟩ := era
  simp [ofNats]

/-- An era is read back from its number. -/
theorem ofWord?_word (era : MortalEra) : ofWord? era.word = some era := by
  have hperiod : 2 <<< (era.word % 16) = era.period.toNat := by
    rw [word_mod]
    exact two_shiftLeft_log2 era.isPeriod
  have hphase : era.word / 16 * quantum era.period.toNat = era.phase.toNat := by
    rw [word_div]
    exact Nat.div_mul_cancel (Nat.dvd_of_mod_eq_zero era.isPhase.2)
  unfold ofWord?
  simp only [hperiod, hphase]
  rw [dif_pos ⟨era.isPeriod, era.isPhase⟩, ofNats_toNat]

/-- A number that makes an era is the number of that era. -/
theorem word_of_ofWord? (h : ofWord? word = some era) : era.word = word := by
  unfold ofWord? at h
  simp only at h
  split at h
  · rename_i hvalid
    cases h
    obtain ⟨hp, hf⟩ := hvalid
    have hperiod := toNat_ofNat_of_isPeriod hp
    have hphase := toNat_ofNat_of_isPhase hp hf
    have hquanta : word / 16 * quantum (2 <<< (word % 16)) / quantum (2 <<< (word % 16)) = word / 16 :=
      Nat.mul_div_cancel _ (quantum_pos _)
    unfold MortalEra.word ofNats
    simp only [hperiod, hphase, log2_two_shiftLeft, hquanta]
    omega
  · exact nomatch h

end MortalEra

namespace Era

theorem encode_mortal (era : MortalEra) :
    codec.encode (mortal era) = [UInt8.ofNat era.word, UInt8.ofNat (era.word / 256)] := rfl

theorem read_two {low : UInt8} (high : UInt8) (rest : Bytes) (hlow : low ≠ 0) :
    codec.read (low :: high :: rest) =
      match MortalEra.ofWord? (low.toNat + 256 * high.toNat) with
      | some era => .ok (mortal era, rest)
      | none => .error (.invalid "Era" "invalid period and phase") := if_neg hlow

/-- The exponent of the period stands in the low byte and is not zero. -/
theorem low_byte_ne_zero (era : MortalEra) : UInt8.ofNat era.word ≠ 0 := by
  have hmod := MortalEra.word_mod era
  have hlog := MortalEra.two_le_log2 era.isPeriod
  intro hzero
  have hbyte := congrArg UInt8.toNat hzero
  rw [UInt8.toNat_ofNat'] at hbyte
  change era.word % 256 = 0 at hbyte
  omega

theorem bytes_of_word (era : MortalEra) :
    (UInt8.ofNat era.word).toNat + 256 * (UInt8.ofNat (era.word / 256)).toNat = era.word := by
  have hlt := MortalEra.word_lt era
  rw [UInt8.toNat_ofNat', UInt8.toNat_ofNat']
  omega

/-- Two bytes that make the number of an era are the bytes that the era is written in. -/
theorem encode_of_bytes {era : MortalEra} {low high : UInt8}
    (h : era.word = low.toNat + 256 * high.toNat) : codec.encode (mortal era) = [low, high] := by
  have hl := low.toNat_lt
  have hh := high.toNat_lt
  have hlow : UInt8.ofNat era.word = low := by
    apply UInt8.toNat_inj.mp
    rw [UInt8.toNat_ofNat', h]
    omega
  have hhigh : UInt8.ofNat (era.word / 256) = high := by
    apply UInt8.toNat_inj.mp
    rw [UInt8.toNat_ofNat', h]
    omega
  rw [encode_mortal, hlow, hhigh]

/-- The first byte tells an immortal era from a mortal one, so both parts of the code can be read back. -/
theorem codec_lawful : codec.Lawful where
  read_encode_append era rest := by
    cases era with
    | immortal => rfl
    | mortal era =>
      rw [encode_mortal, List.cons_append, List.cons_append, List.nil_append,
        read_two _ _ (low_byte_ne_zero era), bytes_of_word, MortalEra.ofWord?_word]
  eq_of_read {bytes rest era} h := by
    rcases bytes with _ | ⟨low, tail⟩
    · exact nomatch h
    by_cases hlow : low = 0
    · -- a zero byte stands for the immortal era by itself
      rw [hlow] at h ⊢
      cases h
      rfl
    · rcases tail with _ | ⟨high, tail⟩
      · have hended : codec.read [low] = .error .endOfBuffer := if_neg hlow
        rw [hended] at h
        exact nomatch h
      rw [read_two high tail hlow] at h
      split at h
      · rename_i found hfound
        cases h
        rw [encode_of_bytes (MortalEra.word_of_ofWord? hfound)]
        rfl
      · exact nomatch h
  size_eq era := by cases era <;> rfl

end Era

end BlockRuntime

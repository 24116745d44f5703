import BlockRuntime.Codec.Basic
import BlockRuntime.Word
/-!
Eras: for which blocks a transaction is good. A mortal era cuts the block numbers into windows of
one period each, all at the same phase; a transaction is bound to the block in which its window
starts and ends with the window. Only pairs of period and phase with a two-byte code can be built.
-/

namespace BlockRuntime

inductive EraError where
  | invalidPeriod (period : UInt64)
  | invalidPhase (period phase : UInt64)
  deriving DecidableEq

def EraError.message : EraError → String
  | .invalidPeriod period =>
    "period " ++ Nat.repr period.toNat ++ " is not a power of two in 4..=65536"
  | .invalidPhase period phase =>
    "phase " ++ Nat.repr phase.toNat ++ " is not a quantized value below period "
      ++ Nat.repr period.toNat

namespace MortalEra

/-- A period is a power of two between 4 and 65536. -/
def IsPeriod (period : Nat) : Prop :=
  4 ≤ period ∧ period ≤ 65536 ∧ 1 <<< period.log2 = period

instance (period : Nat) : Decidable (IsPeriod period) :=
  inferInstanceAs (Decidable (4 ≤ period ∧ period ≤ 65536 ∧ 1 <<< period.log2 = period))

/-- The step between the phases of a period: at most 4096 phases have a code. -/
def quantum (period : Nat) : Nat := max (period / 4096) 1

def IsPhase (period phase : Nat) : Prop := phase < period ∧ phase % quantum period = 0

instance (period phase : Nat) : Decidable (IsPhase period phase) :=
  inferInstanceAs (Decidable (phase < period ∧ phase % quantum period = 0))

end MortalEra

structure MortalEra where
  period : UInt64
  phase : UInt64
  isPeriod : MortalEra.IsPeriod period.toNat
  isPhase : MortalEra.IsPhase period.toNat phase.toNat
  deriving DecidableEq

namespace MortalEra

def new (period phase : UInt64) : Except EraError MortalEra :=
  if hp : IsPeriod period.toNat then
    if hf : IsPhase period.toNat phase.toNat then .ok ⟨period, phase, hp, hf⟩
    else .error (.invalidPhase period phase)
  else .error (.invalidPeriod period)

def doubleUpTo (wanted : Nat) : (steps : Nat) → (period : Nat) → Nat
  | 0, period => period
  | steps + 1, period =>
    if wanted ≤ period then period else doubleUpTo wanted steps (2 * period)

/-- The least period that is at least `wanted`, or the largest period if none is. -/
def periodFor (wanted : Nat) : Nat := doubleUpTo wanted 14 4

/-- The largest phase of `period` that `current` has passed since a multiple of the period. -/
def phaseAt (period current : Nat) : Nat :=
  current % period / quantum period * quantum period

def windowStart (period phase n : Nat) : Nat := (max n phase - phase) / period * period + phase

theorem IsPeriod.pos {period : Nat} (h : IsPeriod period) : 0 < period :=
  Nat.lt_of_lt_of_le (by decide) h.1

theorem isPeriod_two_pow {k : Nat} (h2 : 2 ≤ k) (h16 : k ≤ 16) : IsPeriod (1 <<< k) := by
  rw [Nat.one_shiftLeft]
  refine ⟨?_, ?_, by rw [Nat.log2_two_pow, Nat.one_shiftLeft]⟩
  · exact Nat.pow_le_pow_right (n := 2) (by decide) h2
  · exact Nat.pow_le_pow_right (n := 2) (by decide) h16

/-- A period is a power of two with an exponent from two to sixteen. -/
theorem IsPeriod.exists_two_pow {period : Nat} (h : IsPeriod period) :
    ∃ k, 2 ≤ k ∧ k ≤ 16 ∧ period = 1 <<< k := by
  refine ⟨period.log2, ?_, ?_, h.2.2.symm⟩
  · exact (Nat.le_log2 (Nat.pos_iff_ne_zero.mp h.pos)).mpr h.1
  · have hl := h.2.1
    by_cases hk : period.log2 ≤ 16
    · exact hk
    · have hpow : 2 ^ 17 ≤ 2 ^ period.log2 := Nat.pow_le_pow_right (by decide) (by omega)
      rw [← Nat.one_shiftLeft period.log2, h.2.2] at hpow
      omega

theorem quantum_pos (period : Nat) : 0 < quantum period := by
  unfold quantum; omega

/-- Doubling a period no more often than there is room for gives a period. -/
theorem isPeriod_doubleUpTo (wanted steps k : Nat) (h2 : 2 ≤ k) (h16 : k + steps ≤ 16) :
    IsPeriod (doubleUpTo wanted steps (1 <<< k)) := by
  -- every step doubles the period and takes one from the steps that are left
  induction steps generalizing k with
  | zero => exact isPeriod_two_pow h2 h16
  | succ steps ih =>
    unfold doubleUpTo
    split
    · exact isPeriod_two_pow h2 (by omega)
    · have hk : 2 * 1 <<< k = 1 <<< (k + 1) := by
        rw [Nat.one_shiftLeft, Nat.one_shiftLeft, Nat.pow_succ, Nat.mul_comm]
      rw [hk]
      exact ih (k + 1) (by omega) (by omega)

theorem isPeriod_periodFor (wanted : Nat) : IsPeriod (periodFor wanted) :=
  isPeriod_doubleUpTo wanted 14 2 (by decide) (by decide)

theorem isPhase_phaseAt {period : Nat} (current : Nat) (h : IsPeriod period) :
    IsPhase period (phaseAt period current) := by
  constructor
  · exact Nat.lt_of_le_of_lt (Nat.div_mul_le_self _ _) (Nat.mod_lt _ h.pos)
  · exact Nat.mul_mod_left _ _

theorem toNat_ofNat_of_isPeriod {period : Nat} (h : IsPeriod period) :
    (UInt64.ofNat period).toNat = period :=
  UInt64.toNat_ofNat_of_lt' (Nat.lt_of_le_of_lt h.2.1 (by decide))

theorem toNat_ofNat_of_isPhase {period phase : Nat} (hp : IsPeriod period)
    (hf : IsPhase period phase) : (UInt64.ofNat phase).toNat = phase :=
  UInt64.toNat_ofNat_of_lt'
    (Nat.lt_trans hf.1 (Nat.lt_of_le_of_lt hp.2.1 (by decide)))

def ofNats (period phase : Nat) (hp : IsPeriod period) (hf : IsPhase period phase) : MortalEra where
  period := UInt64.ofNat period
  phase := UInt64.ofNat phase
  isPeriod := by rw [toNat_ofNat_of_isPeriod hp]; exact hp
  isPhase := by rw [toNat_ofNat_of_isPeriod hp, toNat_ofNat_of_isPhase hp hf]; exact hf

/-- The number in the two-byte code: the exponent of the period less one in the low four bits, the
number of quanta of the phase above them. -/
def word (era : MortalEra) : Nat :=
  (era.period.toNat.log2 - 1) + 16 * (era.phase.toNat / quantum era.period.toNat)

/-- The start of the window of block `current`. There is none if a word goes out of range on the way. -/
def birth? (era : MortalEra) (current : UInt64) : Option UInt64 := do
  -- before the first window `current` is taken for its start
  let passed ← (current.greatest era.phase).checkedSub? era.phase
  let windows ← passed.checkedDiv? era.period
  let start ← windows.checkedMul? era.period
  start.checkedAdd? era.phase

/-- No word goes out of range on the way to the start of a window. -/
theorem exists_birth? (era : MortalEra) (current : UInt64) : ∃ birth, era.birth? current = some birth ∧
    birth.toNat = windowStart era.period.toNat era.phase.toNat current.toNat := by
  have hgreatest := UInt64.toNat_greatest current era.phase
  have hbound := (current.greatest era.phase).toNat_lt
  obtain ⟨passed, hsub, hpassed⟩ : ∃ c, (current.greatest era.phase).checkedSub? era.phase = some c ∧
      c.toNat = (current.greatest era.phase).toNat - era.phase.toNat :=
    UInt64.checkedSub?_of_le (by omega)
  obtain ⟨windows, hdiv, hwindows⟩ := UInt64.checkedDiv?_of_pos passed era.isPeriod.pos
  -- the windows that have passed reach no further than the block
  have hle : windows.toNat * era.period.toNat ≤ passed.toNat := by
    rw [hwindows]
    exact Nat.div_mul_le_self _ _
  have hsize : UInt64.size = 2 ^ 64 := rfl
  obtain ⟨start, hmul, hstart⟩ : ∃ c, windows.checkedMul? era.period = some c ∧
      c.toNat = windows.toNat * era.period.toNat := UInt64.checkedMul?_of_lt (by omega)
  obtain ⟨birth, hadd, hbirth⟩ : ∃ c, start.checkedAdd? era.phase = some c ∧
      c.toNat = start.toNat + era.phase.toNat := UInt64.checkedAdd?_of_lt (by omega)
  refine ⟨birth, ?_, ?_⟩
  · unfold birth?
    simp only [hsub, hdiv, hmul, hadd, Option.bind_eq_bind, Option.bind_some]
  · rw [hbirth, hstart, hwindows, hpassed, hgreatest]
    rfl

def ofWord? (word : Nat) : Option MortalEra :=
  let period := 2 <<< (word % 16)
  let phase := word / 16 * quantum period
  if h : IsPeriod period ∧ IsPhase period phase then some (ofNats period phase h.1 h.2) else none

end MortalEra

inductive Era where
  | immortal
  | mortal (era : MortalEra)
  deriving DecidableEq

namespace Era

instance : Inhabited Era := ⟨immortal⟩

/-- The era that starts near block `current` and lasts about `wanted` blocks: the period is rounded
up to one that has a code, the phase down. -/
def starting (wanted current : UInt64) : Era :=
  let period := MortalEra.periodFor wanted.toNat
  have hp : MortalEra.IsPeriod period := MortalEra.isPeriod_periodFor _
  mortal (MortalEra.ofNats period (MortalEra.phaseAt period current.toNat) hp
    (MortalEra.isPhase_phaseAt _ hp))

def isImmortal : Era → Bool
  | immortal => true
  | mortal _ => false

def birth? (era : Era) (current : UInt64) : Option UInt64 :=
  match era with
  | immortal => some 0
  | mortal e => e.birth? current

def death? (era : Era) (current : UInt64) : Option UInt64 :=
  match era with
  | immortal => some UInt64.maxValue
  | mortal e => (e.birth? current).map (·.saturatingAdd e.period)

theorem isSome_birth? (era : Era) (current : UInt64) : (era.birth? current).isSome := by
  cases era with
  | immortal => rfl
  | mortal e =>
    obtain ⟨birth, hbirth, -⟩ := e.exists_birth? current
    exact Option.isSome_of_eq_some hbirth

theorem isSome_death? (era : Era) (current : UInt64) : (era.death? current).isSome := by
  cases era with
  | immortal => rfl
  | mortal e => exact Option.isSome_map.trans ((mortal e).isSome_birth? current)

def birth (era : Era) (current : UInt64) : UInt64 :=
  (era.birth? current).get (era.isSome_birth? current)

def death (era : Era) (current : UInt64) : UInt64 :=
  (era.death? current).get (era.isSome_death? current)

@[simp] theorem birth?_eq (era : Era) (current : UInt64) :
    era.birth? current = some (era.birth current) := (Option.some_get _).symm

@[simp] theorem death?_eq (era : Era) (current : UInt64) :
    era.death? current = some (era.death current) := (Option.some_get _).symm

def codec : Codec Era where
  encode
    | immortal => [0]
    | mortal e => littleEndian 2 e.word
  read
    | [] => .error .endOfBuffer
    | low :: rest =>
      if low = 0 then .ok (immortal, rest)
      else
        match rest with
        | [] => .error .endOfBuffer
        | high :: rest =>
          match MortalEra.ofWord? (low.toNat + 256 * high.toNat) with
          | some e => .ok (mortal e, rest)
          | none => .error (.invalid "Era" "invalid period and phase")
  size
    | immortal => 1
    | mortal _ => 2

end Era

end BlockRuntime

import BlockRuntime.Account
import BlockRuntime.Codec.Basic
import BlockRuntime.Dispatch.Class
import Mathlib.Tactic.Linarith
import Mathlib.Tactic.Positivity
import Mathlib.Tactic.Ring

namespace BlockRuntime

theorem byte_lt (b : UInt8) : b.toNat < 256 := b.toNat_lt

theorem toNat_byte {n : Nat} (h : n < 256) : (UInt8.ofNat n).toNat = n := UInt8.toNat_ofNat_of_lt' h

theorem bigEndian_succ (width n : Nat) :
    bigEndian (width + 1) n = UInt8.ofNat (n / 256 ^ width) :: bigEndian width n := by
  have hpow : 2 ^ (8 * width) = 256 ^ width := Nat.pow_mul 2 8 width
  rw [bigEndian, Nat.shiftRight_eq_div_pow, hpow]

theorem foldl_bigEndian (bytes : Bytes) (n : Nat) :
    bytes.foldl (fun n b => 256 * n + b.toNat) n = n * 256 ^ bytes.length + ofBigEndian bytes := by
  induction bytes generalizing n with
  | nil => simp [ofBigEndian]
  | cons b rest ih =>
    have hrest : ofBigEndian (b :: rest) = b.toNat * 256 ^ rest.length + ofBigEndian rest := by
      unfold ofBigEndian
      rw [List.foldl_cons, ih]
      simp [ofBigEndian]
    rw [List.foldl_cons, ih, hrest, List.length_cons, Nat.pow_succ]
    ring

theorem ofBigEndian_cons (b : UInt8) (rest : Bytes) :
    ofBigEndian (b :: rest) = b.toNat * 256 ^ rest.length + ofBigEndian rest := by
  have h := foldl_bigEndian rest b.toNat
  simpa [ofBigEndian] using h

/-- As many digits as there are bytes bound the number. -/
theorem ofBigEndian_lt (bytes : Bytes) : ofBigEndian bytes < 256 ^ bytes.length := by
  induction bytes with
  | nil => decide
  | cons b rest ih =>
    have hb : (b.toNat + 1) * 256 ^ rest.length ≤ 256 * 256 ^ rest.length :=
      Nat.mul_le_mul_right _ (byte_lt b)
    rw [ofBigEndian_cons, List.length_cons, Nat.pow_succ]
    linarith

theorem ofBigEndian_bigEndian (width n : Nat) : ofBigEndian (bigEndian width n) = n % 256 ^ width := by
  induction width with
  | zero => simp [bigEndian, ofBigEndian, Nat.mod_one]
  | succ width ih =>
    rw [bigEndian_succ, ofBigEndian_cons, length_bigEndian, ih, Nat.mod_pow_succ, UInt8.toNat_ofNat']
    ring

/-- The digits of a number do not see what lies above them. -/
theorem bigEndian_add_mul (width k n : Nat) :
    bigEndian width (k * 256 ^ width + n) = bigEndian width n := by
  induction width generalizing k with
  | zero => rfl
  | succ width ih =>
    have hsplit : k * 256 ^ (width + 1) + n = (k * 256) * 256 ^ width + n := by ring
    have hpos : 0 < 256 ^ width := by positivity
    have hdiv : ((k * 256) * 256 ^ width + n) / 256 ^ width = k * 256 + n / 256 ^ width := by
      rw [Nat.add_comm, Nat.add_mul_div_right _ _ hpos, Nat.add_comm]
    have hbyte : UInt8.ofNat (k * 256 + n / 256 ^ width) = UInt8.ofNat (n / 256 ^ width) := by
      apply UInt8.toNat_inj.mp
      rw [UInt8.toNat_ofNat', UInt8.toNat_ofNat']
      omega
    rw [bigEndian_succ, bigEndian_succ, hsplit, hdiv, hbyte, ih]

theorem bigEndian_ofBigEndian (bytes : Bytes) : bigEndian bytes.length (ofBigEndian bytes) = bytes := by
  induction bytes with
  | nil => rfl
  | cons b rest ih =>
    have hlt := ofBigEndian_lt rest
    have hpos : 0 < 256 ^ rest.length := by positivity
    have hdiv : (b.toNat * 256 ^ rest.length + ofBigEndian rest) / 256 ^ rest.length = b.toNat := by
      rw [Nat.add_comm, Nat.add_mul_div_right _ _ hpos, Nat.div_eq_of_lt hlt, Nat.zero_add]
    rw [ofBigEndian_cons, List.length_cons, bigEndian_succ, hdiv, bigEndian_add_mul, ih, UInt8.ofNat_toNat]

namespace Varint

theorem encode_of_lt {n : Nat} (h : n < 128) : encode n = [UInt8.ofNat n] := by
  rw [encode, if_pos h]

theorem encode_of_le {n : Nat} (h : 128 ≤ n) :
    encode n = UInt8.ofNat (n % 128 + 128) :: encode (n / 128) := by
  rw [encode, if_neg (by omega)]

/-- A number of more than seven bits that fits into a width leaves it seven bits less for the rest. -/
theorem two_pow_eq_mul_of_le {bits n : Nat} (hlarge : 128 ≤ n) (h : bits ≤ 7 → n < 2 ^ bits) :
    7 < bits ∧ 2 ^ bits = 2 ^ (bits - 7) * 128 := by
  have hwide : 7 < bits := by
    by_contra hle
    have hpow : 2 ^ bits ≤ 2 ^ 7 := Nat.pow_le_pow_right (by decide) (by omega)
    have hlt := h (by omega)
    omega
  refine ⟨hwide, ?_⟩
  calc
    2 ^ bits = 2 ^ (bits - 7 + 7) := by rw [Nat.sub_add_cancel (Nat.le_of_lt hwide)]
    _ = 2 ^ (bits - 7) * 128 := Nat.pow_add 2 (bits - 7) 7

/-- A number is read back in front of any bytes, by one group of seven bits at a time. -/
theorem readBits_encode_append (bits n : Nat) (later : Bool) (rest : Bytes) (hn : n < 2 ^ bits)
    (hlater : later = true → n ≠ 0) : readBits bits later (encode n ++ rest) = .ok (n, rest) := by
  -- the writer goes on with `n / 128`, so the induction is on the number and not on its bytes
  induction n using Nat.strongRecOn generalizing bits later with
  | ind n ih =>
    by_cases hsmall : n < 128
    · have hb : (UInt8.ofNat n).toNat = n := toNat_byte (by omega)
      -- the last byte is zero only if it is the first one as well
      have hzero : ¬ (later = true ∧ UInt8.ofNat n = 0) := by
        rintro ⟨ht, h0⟩
        apply hlater ht
        rw [← hb, h0]
        rfl
      have hbits : ¬ (bits ≤ 7 ∧ 2 ^ bits ≤ (UInt8.ofNat n).toNat) := by
        rw [hb]
        omega
      rw [encode_of_lt hsmall, List.singleton_append, readBits, Nat.one_shiftLeft, if_neg hzero,
        if_neg hbits, hb, if_pos hsmall]
    · have hlarge : 128 ≤ n := Nat.not_lt.mp hsmall
      have hb : (UInt8.ofNat (n % 128 + 128)).toNat = n % 128 + 128 :=
        toNat_byte (by omega)
      have hzero : ¬ (later = true ∧ UInt8.ofNat (n % 128 + 128) = 0) := by
        rintro ⟨-, h0⟩
        rw [h0] at hb
        exact absurd hb (by simp)
      -- more bytes follow, so the width reaches past the seven bits of this one
      obtain ⟨hwide, hsplit⟩ := two_pow_eq_mul_of_le hlarge fun _ => hn
      have hrest := ih (n / 128) (by omega) (bits - 7) true
        (Nat.div_lt_of_lt_mul (by omega)) (by omega)
      rw [encode_of_le (by omega), List.cons_append, readBits, Nat.one_shiftLeft, if_neg hzero,
        if_neg (by omega), hb, if_neg (by omega), hrest]
      simp only [Except.ok.injEq, Prod.mk.injEq, and_true]
      omega

/-- What the reader accepts is what would have been written. -/
theorem eq_encode_of_readBits {bits n : Nat} {later : Bool} {bytes rest : Bytes}
    (h : readBits bits later bytes = .ok (n, rest)) :
    bytes = encode n ++ rest ∧ n < 2 ^ bits ∧ (later = true → n ≠ 0) := by
  induction bytes generalizing bits n later with
  | nil => exact nomatch h
  | cons b tail ih =>
    have hb := byte_lt b
    rw [readBits, Nat.one_shiftLeft] at h
    split at h
    · exact nomatch h
    rename_i hzero
    split at h
    · exact nomatch h
    rename_i hbits
    split at h
    · rename_i hsmall
      cases h
      refine ⟨?_, ?_, fun ht h0 => hzero ⟨ht, UInt8.toNat_inj.mp h0⟩⟩
      · rw [encode_of_lt hsmall, UInt8.ofNat_toNat, List.singleton_append]
      · by_cases hle : bits ≤ 7
        · omega
        · have hpow : 2 ^ 7 ≤ 2 ^ bits := Nat.pow_le_pow_right (by decide) (by omega)
          omega
    · rename_i hlarge
      split at h
      · exact nomatch h
      rename_i m r hr
      cases h
      obtain ⟨htail, hm, hne⟩ := ih hr
      obtain ⟨hwide, hsplit⟩ := two_pow_eq_mul_of_le (Nat.not_lt.mp hlarge) fun hle =>
        Nat.not_le.mp fun hpow => hbits ⟨hle, hpow⟩
      -- what follows is no zero, so the writer would have gone on as well
      have hpos : m ≠ 0 := hne rfl
      have hmod : (b.toNat - 128 + 128 * m) % 128 + 128 = b.toNat := by omega
      have hdiv : (b.toNat - 128 + 128 * m) / 128 = m := by omega
      refine ⟨?_, by omega, by omega⟩
      rw [encode_of_le (by omega), hmod, hdiv, UInt8.ofNat_toNat, List.cons_append, htail]

theorem read_encode_append {width n : Nat} (hn : n < 2 ^ (8 * width)) (rest : Bytes) :
    read width (encode n ++ rest) = .ok (n, rest) := by
  have hread := readBits_encode_append (8 * width) n false rest hn (by simp)
  simp only [read, hread]

/-- What is read as a number is the one form that the number has. -/
theorem eq_encode_of_read {width n : Nat} {bytes rest : Bytes} (h : read width bytes = .ok (n, rest)) :
    bytes = encode n ++ rest ∧ n < 2 ^ (8 * width) := by
  unfold read at h
  rcases hr : readBits (8 * width) false bytes with fault | ⟨found, r⟩
  · rw [hr] at h
    cases fault <;> exact nomatch h
  · rw [hr] at h
    cases h
    obtain ⟨hbytes, hbound, -⟩ := eq_encode_of_readBits hr
    exact ⟨hbytes, hbound⟩

theorem size_eq (n : Nat) : size n = (encode n).length := by
  induction n using Nat.strongRecOn with
  | ind n ih =>
    unfold size at ih ⊢
    by_cases hsmall : n < 128
    · have hlog : n.log2 < 7 := by
        by_cases h0 : n = 0
        · rw [h0]
          decide
        · exact (Nat.log2_lt h0).mpr hsmall
      rw [encode_of_lt hsmall, List.length_singleton, Nat.div_eq_of_lt hlog]
    · have hne : n / 128 ≠ 0 := by omega
      obtain ⟨hlow, hhigh⟩ := (Nat.log2_eq_iff hne).mp rfl
      have hlog : n.log2 = (n / 128).log2 + 7 := by
        have hpow (k : Nat) : 2 ^ (k + 7) = 2 ^ k * 128 := Nat.pow_add 2 k 7
        apply (Nat.log2_eq_iff (by omega)).mpr
        rw [Nat.add_right_comm, hpow, hpow]
        omega
      rw [encode_of_le (by omega), List.length_cons, ← ih (n / 128) (by omega), hlog]
      omega

end Varint

namespace Codec

variable {α : Type}

theorem readBytes_append (front rest : Bytes) :
    readBytes front.length (front ++ rest) = .ok (front, rest) := by
  simp [readBytes]

theorem eq_append_of_readBytes {n : Nat} {bytes front rest : Bytes}
    (h : readBytes n bytes = .ok (front, rest)) : bytes = front ++ rest ∧ front.length = n := by
  unfold readBytes at h
  split at h
  · cases h
    exact ⟨(List.take_append_drop n bytes).symm, List.length_take_of_le ‹_›⟩
  · exact nomatch h

/-- Words in big-endian digits, for any way to see the words as the numbers below `256 ^ width`. -/
theorem bigEndian_lawful (width : Nat) (toNat : α → Nat) (ofNat : Nat → α)
    (hlt : ∀ v, toNat v < 256 ^ width) (hof : ∀ v, ofNat (toNat v) = v)
    (hto : ∀ n, n < 256 ^ width → toNat (ofNat n) = n) :
    Codec.Lawful {
      encode := fun v => bigEndian width (toNat v)
      read := fun bytes =>
        match readBytes width bytes with
        | .error e => .error e
        | .ok (front, rest) => .ok (ofNat (ofBigEndian front), rest)
      size := fun _ => width } where
  read_encode_append value rest := by
    have hread := readBytes_append (bigEndian width (toNat value)) rest
    rw [length_bigEndian] at hread
    simp only [hread, ofBigEndian_bigEndian, Nat.mod_eq_of_lt (hlt value), hof]
  eq_of_read {bytes rest value} h := by
    simp only at h ⊢
    split at h
    · exact nomatch h
    · rename_i front r hr
      cases h
      obtain ⟨rfl, hlen⟩ := eq_append_of_readBytes hr
      have hbound := ofBigEndian_lt front
      rw [hlen] at hbound
      rw [hto _ hbound, ← hlen, bigEndian_ofBigEndian]
  size_eq value := (length_bigEndian width (toNat value)).symm

/-- Words as variable-length numbers, for any way to see the words as the numbers of `8 * width`
bits. -/
theorem varint_lawful (width : Nat) (toNat : α → Nat) (ofNat : Nat → α)
    (hlt : ∀ v, toNat v < 2 ^ (8 * width)) (hof : ∀ v, ofNat (toNat v) = v)
    (hto : ∀ n, n < 2 ^ (8 * width) → toNat (ofNat n) = n) :
    Codec.Lawful {
      encode := fun v => Varint.encode (toNat v)
      read := fun bytes =>
        match Varint.read width bytes with
        | .error e => .error e
        | .ok (n, rest) => .ok (ofNat n, rest)
      size := fun v => Varint.size (toNat v) } where
  read_encode_append value rest := by
    simp only [Varint.read_encode_append (hlt value), hof]
  eq_of_read {bytes rest value} h := by
    simp only at h ⊢
    split at h
    · exact nomatch h
    · rename_i n r hr
      cases h
      obtain ⟨rfl, hbound⟩ := Varint.eq_encode_of_read hr
      rw [hto n hbound]
  size_eq value := Varint.size_eq (toNat value)

theorem u32_lawful : u32.Lawful :=
  bigEndian_lawful 4 UInt32.toNat UInt32.ofNat (fun v => v.toNat_lt) (fun _ => UInt32.ofNat_toNat)
    fun _ h => UInt32.toNat_ofNat_of_lt' h

theorem u64_lawful : u64.Lawful :=
  bigEndian_lawful 8 UInt64.toNat UInt64.ofNat (fun v => v.toNat_lt) (fun _ => UInt64.ofNat_toNat)
    fun _ h => UInt64.toNat_ofNat_of_lt' h

theorem varint32_lawful : varint32.Lawful :=
  varint_lawful 4 UInt32.toNat UInt32.ofNat (fun v => v.toNat_lt) (fun _ => UInt32.ofNat_toNat)
    fun _ h => UInt32.toNat_ofNat_of_lt' h

theorem varint64_lawful : varint64.Lawful :=
  varint_lawful 8 UInt64.toNat UInt64.ofNat (fun v => v.toNat_lt) (fun _ => UInt64.ofNat_toNat)
    fun _ h => UInt64.toNat_ofNat_of_lt' h

theorem Lawful.encode_inj {α : Type} {c : Codec α} (hc : c.Lawful) {a b : α}
    (h : c.encode a = c.encode b) : a = b := by
  have hdecode : (.ok a : Except CodecError α) = .ok b := by
    rw [← hc.decode_encode a, h, hc.decode_encode]
  exact Except.ok.inj hdecode

/-- A code tells where it ends. -/
theorem Lawful.split_unique {α : Type} {c : Codec α} (hc : c.Lawful) {a b : α} {rest other : Bytes}
    (h : c.encode a ++ rest = c.encode b ++ other) : a = b ∧ rest = other := by
  -- both values are what the reader finds at the front of one and the same byte string
  have hread : (.ok (a, rest) : Except CodecError (α × Bytes)) = .ok (b, other) := by
    rw [← hc.read_encode_append a rest, h, hc.read_encode_append b other]
  have hpair := Except.ok.inj hread
  exact ⟨congrArg Prod.fst hpair, congrArg Prod.snd hpair⟩

end Codec

theorem AccountId.codec_lawful : AccountId.codec.Lawful :=
  (Codec.fixedBytes_lawful 32).through (fun _ => rfl) fun _ => rfl

theorem BlockHash.codec_lawful : BlockHash.codec.Lawful :=
  (Codec.fixedBytes_lawful 32).through (fun _ => rfl) fun _ => rfl

theorem AccountRecord.codec_lawful : AccountRecord.codec.Lawful :=
  (Codec.u64_lawful.pair (Codec.u32_lawful.pair (Codec.u32_lawful.pair Codec.u32_lawful))).through
    (fun _ => rfl) fun _ => rfl

theorem Weight.codec_lawful : Weight.codec.Lawful :=
  (Codec.varint64_lawful.pair Codec.varint64_lawful).through (fun _ => rfl) fun _ => rfl

theorem PerClass.codec_lawful {α : Type} {item : Codec α} (h : item.Lawful) :
    (PerClass.codec item).Lawful :=
  (h.pair (h.pair h)).through (fun _ => rfl) fun _ => rfl

theorem WeightLedger.codec_lawful : WeightLedger.codec.Lawful :=
  PerClass.codec_lawful Weight.codec_lawful

end BlockRuntime

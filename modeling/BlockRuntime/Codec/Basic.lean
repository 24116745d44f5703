import BlockRuntime.Bytes
/-!
Binary codes of values. A codec writes a value as bytes and reads one from the front of a byte
string; decoding reads one value and wants nothing left. `Codec.Lawful` says that a codec is a
bijection onto its image, in the form that composes: what was written is read back in front of any
rest, and what was read is what would have been written.
-/

namespace BlockRuntime

inductive CodecError where
  | endOfBuffer
  | extraData (count : Nat)
  /-- A variable-length number of `width` bytes has a redundant byte or does not fit its word. -/
  | invalidVarint (width : Nat)
  | invalidEnum (tag : UInt8)
  | invalidLength (length : Nat)
  /-- The fields are readable but do not make a value. -/
  | invalid (context message : String)
  deriving DecidableEq, Repr

namespace CodecError

def message : CodecError → String
  | endOfBuffer => "Unexpected End-of-Buffer: Not enough bytes remaining to read data"
  | extraData count =>
    "Extra Data: " ++ Nat.repr count ++ " bytes remained in buffer after decoding"
  | invalidVarint width => "Invalid " ++ Nat.repr width ++ "-byte varint"
  | invalidEnum tag =>
    "Invalid Enum: Expected a valid enum variant, found " ++ Nat.repr tag.toNat
  | invalidLength length =>
    "Invalid Length: Decoded length " ++ Nat.repr length ++ " is outside the allowed range"
  | invalid context text =>
    "Validation Error: Context(" ++ context ++ "), Message(" ++ text ++ ")"

end CodecError

abbrev Reader (α : Type) := Bytes → Except CodecError (α × Bytes)

structure Codec (α : Type) where
  encode : α → Bytes
  read : Reader α
  size : α → Nat

namespace Codec

variable {α β : Type}

def decode (c : Codec α) (bytes : Bytes) : Except CodecError α :=
  match c.read bytes with
  | .error e => .error e
  | .ok (value, []) => .ok value
  | .ok (_, rest) => .error (.extraData rest.length)

/-- A codec is lawful if writing, reading and sizing describe one code, with one form a value. -/
structure Lawful (c : Codec α) : Prop where
  read_encode_append (value : α) (rest : Bytes) :
    c.read (c.encode value ++ rest) = .ok (value, rest)
  eq_of_read {bytes rest : Bytes} {value : α} :
    c.read bytes = .ok (value, rest) → bytes = c.encode value ++ rest
  size_eq (value : α) : c.size value = (c.encode value).length

def through (c : Codec α) (forth : α → β) (back : β → α) : Codec β where
  encode value := c.encode (back value)
  read bytes :=
    match c.read bytes with
    | .error e => .error e
    | .ok (value, rest) => .ok (forth value, rest)
  size value := c.size (back value)

def pair (a : Codec α) (b : Codec β) : Codec (α × β) where
  encode value := a.encode value.1 ++ b.encode value.2
  read bytes :=
    match a.read bytes with
    | .error e => .error e
    | .ok (first, rest) =>
      match b.read rest with
      | .error e => .error e
      | .ok (second, rest) => .ok ((first, second), rest)
  size value := a.size value.1 + b.size value.2

theorem Lawful.decode_encode {c : Codec α} (hc : c.Lawful) (value : α) :
    c.decode (c.encode value) = .ok value := by
  have h := hc.read_encode_append value []
  rw [List.append_nil] at h
  simp [decode, h]

/-- Only the code of a value is decoded to it. -/
theorem Lawful.eq_of_decode {c : Codec α} (hc : c.Lawful) {bytes : Bytes} {value : α}
    (h : c.decode bytes = .ok value) : bytes = c.encode value := by
  unfold decode at h
  split at h
  · exact nomatch h
  · rename_i v hr
    cases h
    simpa using hc.eq_of_read hr
  · exact nomatch h

/-- A code stays lawful under a change of values that can be undone on both sides. -/
theorem Lawful.through {c : Codec α} (hc : c.Lawful) {forth : α → β} {back : β → α}
    (hforth : ∀ b, forth (back b) = b) (hback : ∀ a, back (forth a) = a) :
    (c.through forth back).Lawful where
  read_encode_append value rest := by
    simp [Codec.through, hc.read_encode_append, hforth]
  eq_of_read {bytes rest value} h := by
    simp only [Codec.through] at h ⊢
    split at h
    · exact nomatch h
    · rename_i v r hr
      cases h
      rw [hback]
      exact hc.eq_of_read hr
  size_eq value := hc.size_eq (back value)

/-- Lawful codes written one behind the other are a lawful code of pairs. -/
theorem Lawful.pair {a : Codec α} {b : Codec β} (ha : a.Lawful) (hb : b.Lawful) :
    (a.pair b).Lawful where
  read_encode_append value rest := by
    simp [Codec.pair, List.append_assoc, ha.read_encode_append, hb.read_encode_append]
  eq_of_read {bytes rest value} h := by
    simp only [Codec.pair] at h ⊢
    split at h
    · exact nomatch h
    · rename_i first mid hfirst
      split at h
      · exact nomatch h
      · rename_i second last hsecond
        cases h
        rw [ha.eq_of_read hfirst, hb.eq_of_read hsecond, List.append_assoc]
  size_eq value := by
    simp [Codec.pair, ha.size_eq, hb.size_eq]

def readBytes (n : Nat) : Reader Bytes := fun bytes =>
  if n ≤ bytes.length then .ok (bytes.take n, bytes.drop n) else .error .endOfBuffer

def fixedBytes (n : Nat) : Codec (FixedBytes n) where
  encode value := value.toBytes
  read bytes :=
    if h : n ≤ bytes.length then
      .ok (⟨bytes.take n, List.length_take_of_le h⟩, bytes.drop n)
    else .error .endOfBuffer
  size _ := n

def u32 : Codec UInt32 where
  encode value := bigEndian 4 value.toNat
  read bytes :=
    match readBytes 4 bytes with
    | .error e => .error e
    | .ok (front, rest) => .ok (UInt32.ofNat (ofBigEndian front), rest)
  size _ := 4

def u64 : Codec UInt64 where
  encode value := bigEndian 8 value.toNat
  read bytes :=
    match readBytes 8 bytes with
    | .error e => .error e
    | .ok (front, rest) => .ok (UInt64.ofNat (ofBigEndian front), rest)
  size _ := 8

theorem fixedBytes_lawful (n : Nat) : (fixedBytes n).Lawful where
  read_encode_append value rest := by
    have hl := value.length_toBytes
    have h : n ≤ (value.toBytes ++ rest).length := by rw [List.length_append]; omega
    simp only [fixedBytes, dif_pos h, Except.ok.injEq, Prod.mk.injEq]
    exact ⟨FixedBytes.ext (List.take_left' hl), List.drop_left' hl⟩
  eq_of_read {bytes rest value} h := by
    simp only [fixedBytes] at h ⊢
    split at h
    · cases h
      exact (List.take_append_drop n bytes).symm
    · exact nomatch h
  size_eq value := value.length_toBytes.symm

end Codec

end BlockRuntime

import BlockRuntime.Codec.Basic

namespace BlockRuntime

namespace Varint

def encode (n : Nat) : Bytes :=
  if n < 128 then [UInt8.ofNat n] else UInt8.ofNat (n % 128 + 128) :: encode (n / 128)
termination_by n
decreasing_by omega

def size (n : Nat) : Nat := n.log2 / 7 + 1

inductive Fault where
  | ended
  | malformed
  deriving DecidableEq

/-- Reads a number of at most `bits` bits. `later` tells that bytes of the number came before. -/
def readBits : (bits : Nat) → (later : Bool) → Bytes → Except Fault (Nat × Bytes)
  | _, _, [] => .error .ended
  | bits, later, b :: rest =>
    -- a zero byte at the end would be a second form of a shorter number
    if later = true ∧ b = 0 then .error .malformed
    else if bits ≤ 7 ∧ 1 <<< bits ≤ b.toNat then .error .malformed
    else if b.toNat < 128 then .ok (b.toNat, rest)
    else
      match readBits (bits - 7) true rest with
      | .error e => .error e
      | .ok (n, rest) => .ok (b.toNat - 128 + 128 * n, rest)

def read (width : Nat) : Reader Nat := fun bytes =>
  match readBits (8 * width) false bytes with
  | .error .ended => .error .endOfBuffer
  | .error .malformed => .error (.invalidVarint width)
  | .ok found => .ok found

end Varint

namespace Codec

def varint32 : Codec UInt32 where
  encode value := Varint.encode value.toNat
  read bytes :=
    match Varint.read 4 bytes with
    | .error e => .error e
    | .ok (n, rest) => .ok (UInt32.ofNat n, rest)
  size value := Varint.size value.toNat

def varint64 : Codec UInt64 where
  encode value := Varint.encode value.toNat
  read bytes :=
    match Varint.read 8 bytes with
    | .error e => .error e
    | .ok (n, rest) => .ok (UInt64.ofNat n, rest)
  size value := Varint.size value.toNat

variable {α : Type}

def readMany (item : Reader α) : (n : Nat) → Reader (List α)
  | 0, bytes => .ok ([], bytes)
  | n + 1, bytes =>
    match item bytes with
    | .error e => .error e
    | .ok (value, rest) =>
      match readMany item n rest with
      | .error e => .error e
      | .ok (values, rest) => .ok (value :: values, rest)

structure LengthRange where
  least : Nat
  greatest : Nat
  deriving DecidableEq

def LengthRange.any : LengthRange := ⟨0, 4294967295⟩

def LengthRange.holds (range : LengthRange) (n : Nat) : Bool :=
  range.least ≤ n && n ≤ range.greatest

def sequence (item : Codec α) (range : LengthRange) : Codec (List α) where
  encode values := Varint.encode values.length ++ values.flatMap item.encode
  read bytes :=
    match Varint.read 4 bytes with
    | .error e => .error e
    | .ok (n, rest) =>
      if range.holds n then readMany item.read n rest else .error (.invalidLength n)
  size values := values.foldl (fun size value => size + item.size value) (Varint.size values.length)

end Codec

end BlockRuntime

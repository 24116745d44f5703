import BlockRuntime.Bytes

namespace BlockRuntime.XxHash

def prime1 : UInt64 := 11400714785074694791

def prime2 : UInt64 := 14029467366897019727

def prime3 : UInt64 := 1609587929392839161

def prime4 : UInt64 := 9650029242287828579

def prime5 : UInt64 := 2870177450012600261

def rotate (word n : UInt64) : UInt64 := (word <<< n) ||| (word >>> (64 - n))

def wordOf (n : Nat) (bytes : Bytes) : UInt64 := UInt64.ofNat (ofLittleEndian (bytes.take n))

def round (lane input : UInt64) : UInt64 := rotate (lane + input * prime2) 31 * prime1

structure Lanes where
  a : UInt64
  b : UInt64
  c : UInt64
  d : UInt64

namespace Lanes

def start (seed : UInt64) : Lanes where
  a := seed + prime1 + prime2
  b := seed + prime2
  c := seed
  d := seed - prime1

def feed (lanes : Lanes) (stripe : Bytes) : Lanes where
  a := round lanes.a (wordOf 8 stripe)
  b := round lanes.b (wordOf 8 (stripe.drop 8))
  c := round lanes.c (wordOf 8 (stripe.drop 16))
  d := round lanes.d (wordOf 8 (stripe.drop 24))

def feedAll : (n : Nat) → Lanes → Bytes → Lanes × Bytes
  | 0, lanes, bytes => (lanes, bytes)
  | n + 1, lanes, bytes => feedAll n (lanes.feed bytes) (bytes.drop 32)

def merge (value lane : UInt64) : UInt64 := (value ^^^ round 0 lane) * prime1 + prime4

def join (lanes : Lanes) : UInt64 :=
  let value :=
    rotate lanes.a 1 + rotate lanes.b 7 + rotate lanes.c 12 + rotate lanes.d 18
  merge (merge (merge (merge value lanes.a) lanes.b) lanes.c) lanes.d

end Lanes

def mixEights : (n : Nat) → UInt64 → Bytes → UInt64 × Bytes
  | 0, value, bytes => (value, bytes)
  | n + 1, value, bytes =>
    let mixed := rotate (value ^^^ round 0 (wordOf 8 bytes)) 27 * prime1 + prime4
    mixEights n mixed (bytes.drop 8)

def mixFour (value : UInt64) (bytes : Bytes) : UInt64 × Bytes :=
  if 4 ≤ bytes.length then
    (rotate (value ^^^ wordOf 4 bytes * prime1) 23 * prime2 + prime3, bytes.drop 4)
  else (value, bytes)

def mixOnes (value : UInt64) (bytes : Bytes) : UInt64 :=
  bytes.foldl (fun value b => rotate (value ^^^ b.toUInt64 * prime5) 11 * prime1) value

def avalanche (value : UInt64) : UInt64 :=
  let value := (value ^^^ (value >>> 33)) * prime2
  let value := (value ^^^ (value >>> 29)) * prime3
  value ^^^ (value >>> 32)

def hash (seed : UInt64) (bytes : Bytes) : UInt64 :=
  let length := bytes.length
  let (value, rest) :=
    if 32 ≤ length then
      let (lanes, rest) := Lanes.feedAll (length / 32) (Lanes.start seed) bytes
      (lanes.join, rest)
    else (seed + prime5, bytes)
  let (value, rest) := mixEights (length % 32 / 8) (value + UInt64.ofNat length) rest
  let (value, rest) := mixFour value rest
  avalanche (mixOnes value rest)

def bytes64 (data : Bytes) : Bytes := littleEndian 8 (hash 0 data).toNat

def bytes128 (data : Bytes) : Bytes :=
  littleEndian 8 (hash 0 data).toNat ++ littleEndian 8 (hash 1 data).toNat

theorem length_littleEndian (width n : Nat) : (littleEndian width n).length = width := by
  induction width generalizing n with
  | zero => rfl
  | succ width ih => simp [littleEndian, ih]

@[simp] theorem length_bytes64 (data : Bytes) : (bytes64 data).length = 8 :=
  length_littleEndian 8 _

@[simp] theorem length_bytes128 (data : Bytes) : (bytes128 data).length = 16 := by
  simp [bytes128, length_littleEndian]

end BlockRuntime.XxHash

import BlockRuntime.Digest.XxHash
import BlockRuntime.Program
import BlockRuntime.Store.Basic

namespace BlockRuntime

/-- The stem of an item: the 128-bit hashes of the names of its group and of itself. -/
def stemOf (group item : String) : Key :=
  XxHash.bytes128 (utf8 group) ++ XxHash.bytes128 (utf8 item)

/-- How the encoded key of a member is appended to the stem of its family. -/
inductive KeyHasher where
  /-- Behind its own 64-bit hash: cheap, and the key can still be read off the store. -/
  | hashed
  /-- As it stands. This is safe only for keys that users cannot choose. -/
  | plain
  deriving DecidableEq

def KeyHasher.suffix : KeyHasher → Bytes → Bytes
  | hashed, key => XxHash.bytes64 key ++ key
  | plain, key => key

@[simp] theorem length_stemOf (group item : String) : (stemOf group item).length = 32 := by
  simp [stemOf]

/-- Different encoded keys have different suffixes: the key itself stands at the end, behind a hash
whose length does not depend on it. -/
theorem KeyHasher.suffix_inj (hasher : KeyHasher) {a b : Bytes}
    (h : hasher.suffix a = hasher.suffix b) : a = b := by
  cases hasher with
  | plain => exact h
  | hashed =>
    have hd := congrArg (List.drop 8) h
    simpa [suffix, List.drop_append] using hd

structure Cell (α : Type) where
  key : Key
  codec : Codec α
  fallback : α

namespace Cell

variable {σ ε α β : Type} [Store σ]

def named (group item : String) (codec : Codec α) (fallback : α) : Cell α :=
  ⟨stemOf group item, codec, fallback⟩

def get? (c : Cell α) (s : σ) : Except StoreError (Option α) :=
  match Store.get? s c.key with
  | none => .ok none
  | some bytes =>
    match c.codec.decode bytes with
    | .ok value => .ok (some value)
    | .error cause => .error (.decode c.key cause)

def get (c : Cell α) (s : σ) : Except StoreError α :=
  match c.get? s with
  | .ok (some value) => .ok value
  | .ok none => .ok c.fallback
  | .error cause => .error cause

def isSet (c : Cell α) (s : σ) : Bool := Store.contains s c.key

def count (c : Cell α) (s : σ) : Except StoreError (Option UInt32) := Store.storedCount s c.key

def put (c : Cell α) (value : α) (s : σ) : σ := Store.set s c.key (c.codec.encode value)

def clear (c : Cell α) (s : σ) : σ := Store.clear s c.key

def append (c : Cell α) (item : Codec β) (value : β) (s : σ) : σ :=
  Store.append s c.key (item.encode value)

def take (c : Cell α) : Program σ StoreError α := do
  let value ← Program.query c.get
  Program.update c.clear
  pure value

def modify (c : Cell α) (change : α → α × β) : Program σ StoreError β := do
  let value ← Program.query c.get
  let (value, found) := change value
  Program.update (c.put value)
  pure found

def tryModify (c : Cell α) (storeFailure : StoreError → ε) (change : α → Except ε (α × β)) :
    Program σ ε β := do
  let value ← (Program.query c.get).mapError storeFailure
  let (value, found) ← Program.ofExcept (change value)
  Program.update (c.put value)
  pure found

end Cell

structure CellMap (κ α : Type) where
  stem : Bytes
  hasher : KeyHasher
  keyCodec : Codec κ
  codec : Codec α
  fallback : α

namespace CellMap

variable {σ κ α : Type}

def named (group item : String) (hasher : KeyHasher) (keyCodec : Codec κ) (codec : Codec α)
    (fallback : α) : CellMap κ α :=
  ⟨stemOf group item, hasher, keyCodec, codec, fallback⟩

def keyFor (m : CellMap κ α) (key : κ) : Key :=
  m.stem ++ m.hasher.suffix (m.keyCodec.encode key)

def cell (m : CellMap κ α) (key : κ) : Cell α := ⟨m.keyFor key, m.codec, m.fallback⟩

/-- Empties members in the order of their keys, at most `limit` of them, and counts them. -/
def clear [Store σ] (m : CellMap κ α) (limit : Option UInt32) (s : σ) : Nat × σ :=
  Store.clearStem s m.stem limit

end CellMap

end BlockRuntime

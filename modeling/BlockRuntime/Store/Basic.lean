import BlockRuntime.Codec.Sequence
import BlockRuntime.Store.KeyMap
import BlockRuntime.Text.Hex
import BlockRuntime.Word
/-!
Stores of bytes under keys, and stores whose writes can be undone. A host supplies a type of stores
with the four operations of `Store`; `LayeredStore` adds change sets, which are opened one inside
the other and are either merged into what lies below or thrown away.
-/

namespace BlockRuntime

inductive Closing where
  | commit
  | rollback
  deriving DecidableEq

def Closing.word : Closing → String
  | commit => "commit"
  | rollback => "rollback"

inductive StoreError where
  | decode (key : Key) (cause : CodecError)
  | noOpenTransaction (closing : Closing)
  deriving DecidableEq

def StoreError.message : StoreError → String
  | decode key cause =>
    "failed to decode value at " ++ Hex.encode key ++ ": " ++ cause.message
  | noOpenTransaction closing => "no open transaction to " ++ closing.word

class Store (σ : Type) where
  get? : σ → Key → Option Bytes
  set : σ → Key → Bytes → σ
  clear : σ → Key → σ
  clearStem : σ → (stem : Bytes) → (limit : Option UInt32) → Nat × σ

class LayeredStore (σ : Type) extends Store σ where
  openChanges : σ → σ
  commitChanges : σ → Except StoreError σ
  rollbackChanges : σ → Except StoreError σ
  depth : σ → Nat

def LayeredStore.closeChanges {σ : Type} [LayeredStore σ] : Closing → σ → Except StoreError σ
  | .commit => commitChanges
  | .rollback => rollbackChanges

class ListedStore (σ : Type) extends LayeredStore σ where
  entries : σ → KeyMap Bytes

namespace Store

variable {σ : Type} [Store σ]

def contains (s : σ) (key : Key) : Bool := (get? s key).isSome

/-- Copies what was found from `offset` on over the front of a buffer. Tells how many bytes there were
from the offset on, which may be more than the buffer takes; that count is a word. -/
def copied (found : Option Bytes) (buffer : Bytes) (offset : UInt32) : Option UInt32 × Bytes :=
  match found with
  | none => (none, buffer)
  | some value =>
    let available := value.drop offset.toNat
    let front := available.take buffer.length
    (some (UInt32.ofNat available.length), front ++ buffer.drop front.length)

def copyInto (s : σ) (key : Key) (buffer : Bytes) (offset : UInt32) : Option UInt32 × Bytes :=
  copied (get? s key) buffer offset

def splitCount? (value : Bytes) : Option (UInt32 × Bytes) :=
  match Codec.varint32.read value with
  | .ok found => some found
  | .error _ => none

/-- The sequence with one encoded item more. A value without a readable count, or none at all, gives
way to a sequence of that item alone. -/
def appended (value : Option Bytes) (item : Bytes) : Bytes :=
  match value.bind splitCount? with
  | some (count, items) => Codec.varint32.encode (count.saturatingAdd 1) ++ items ++ item
  | none => Codec.varint32.encode 1 ++ item

def append (s : σ) (key : Key) (item : Bytes) : σ := set s key (appended (get? s key) item)

def countWidth : Nat := 5

/-- The count of the sequence under a key. Only the bytes of the count are read. -/
def storedCount (s : σ) (key : Key) : Except StoreError (Option UInt32) :=
  match copyInto s key (List.replicate countWidth 0) 0 with
  | (none, _) => .ok none
  | (some available, buffer) =>
    match Codec.varint32.read (buffer.take (min available.toNat countWidth)) with
    | .ok (count, _) => .ok (some count)
    | .error cause => .error (.decode key cause)

end Store

end BlockRuntime

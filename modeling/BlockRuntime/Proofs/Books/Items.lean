import BlockRuntime.Books
import BlockRuntime.Layer
import BlockRuntime.Proofs.Codec.Words
import Mathlib.Data.List.Nodup

namespace BlockRuntime

namespace CellMap

variable {κ α : Type} {m : CellMap κ α}

theorem lt_length_keyFor (h : m.hasher = .hashed) (key : κ) : m.stem.length < (m.keyFor key).length := by
  have hsuffix : (m.keyFor key).length = m.stem.length + (8 + (m.keyCodec.encode key).length) := by
    simp [keyFor, h, KeyHasher.suffix]
  omega

/-- Different members of a family lie under different keys. -/
theorem key_injective (h : Function.Injective m.keyCodec.encode) :
    Function.Injective fun k => (m.cell k).key := by
  intro a b hkey
  have hsuffix : m.hasher.suffix (m.keyCodec.encode a) = m.hasher.suffix (m.keyCodec.encode b) :=
    List.append_cancel_left hkey
  exact h (KeyHasher.suffix_inj _ hsuffix)

theorem key_inj (h : m.keyCodec.Lawful) {a b : κ} (hkey : (m.cell a).key = (m.cell b).key) : a = b :=
  key_injective (fun _ _ => h.encode_inj) hkey

/-- A member of a family is longer than a stem, and so is no key that is not. -/
theorem key_ne_of_length (hhasher : m.hasher = .hashed) (hstem : m.stem.length = 32) {key : Key}
    (h : key.length ≤ 32) (k : κ) : (m.cell k).key ≠ key := by
  have hlong : m.stem.length < (m.cell k).key.length := lt_length_keyFor hhasher k
  intro heq
  rw [heq, hstem] at hlong
  omega

end CellMap

namespace Books

theorem account_key_inj {a b : AccountId} (h : (account.cell a).key = (account.cell b).key) : a = b :=
  CellMap.key_inj AccountId.codec_lawful h

theorem blockHash_key_inj {a b : UInt64} (h : (blockHashes.cell a).key = (blockHashes.cell b).key) :
    a = b := CellMap.key_inj Codec.u64_lawful h

/-- An item of the books of a block, or the count of the layers, which lies beside them. -/
inductive Item where
  | account (who : AccountId)
  | blockHash (n : UInt64)
  | number
  | extrinsicsLength
  | blockWeight
  | extrinsicIndex
  | level
  deriving DecidableEq

namespace Item

def key : Item → Key
  | account who => (Books.account.cell who).key
  | blockHash n => (blockHashes.cell n).key
  | number => Books.number.key
  | extrinsicsLength => Books.extrinsicsLength.key
  | blockWeight => Books.blockWeight.key
  | extrinsicIndex => Books.extrinsicIndex.key
  | level => Layer.levelKey

def singles : List Item := [level, number, extrinsicIndex, extrinsicsLength, blockWeight]

theorem length_key_of_mem_singles {item : Item} (h : item ∈ singles) : item.key.length ≤ 32 := by
  simp only [singles, List.mem_cons, List.not_mem_nil, or_false] at h
  rcases h with rfl | rfl | rfl | rfl | rfl
  · decide
  · exact Nat.le_of_eq (length_stemOf _ _)
  · decide
  · exact Nat.le_of_eq (length_stemOf _ _)
  · exact Nat.le_of_eq (length_stemOf _ _)

theorem single_or_member (item : Item) :
    item ∈ singles ∨ (∃ who, item = account who) ∨ ∃ n, item = blockHash n := by
  cases item with
  | account who => exact Or.inr (Or.inl ⟨who, rfl⟩)
  | blockHash n => exact Or.inr (Or.inr ⟨n, rfl⟩)
  | _ => exact Or.inl (by simp [singles])

/-- An account and a block hash differ in the stems of their families. -/
theorem key_account_ne_key_blockHash (who : AccountId) (n : UInt64) :
    (account who).key ≠ (blockHash n).key := by
  have hstems : blockHashes.stem ≠ Books.account.stem := by decide
  have hhash : (blockHash n).key.take 32 = blockHashes.stem := List.take_left' (length_stemOf _ _)
  have haccount : (account who).key.take 32 = Books.account.stem := List.take_left' (length_stemOf _ _)
  intro heq
  rw [← heq, haccount] at hhash
  exact hstems hhash.symm

theorem key_ne_of_mem_singles {single : Item} (h : single ∈ singles) :
    (∀ who, (account who).key ≠ single.key) ∧ ∀ n, (blockHash n).key ≠ single.key := by
  have hshort := length_key_of_mem_singles h
  exact ⟨CellMap.key_ne_of_length rfl (length_stemOf _ _) hshort,
    CellMap.key_ne_of_length rfl (length_stemOf _ _) hshort⟩

/-- Different items lie under different keys. -/
theorem key_injective : Function.Injective key := by
  intro a b h
  rcases a.single_or_member with ha | ⟨who, rfl⟩ | ⟨n, rfl⟩ <;>
    rcases b.single_or_member with hb | ⟨other, rfl⟩ | ⟨k, rfl⟩
  -- two single items
  · have hnodup : (singles.map key).Nodup := by decide
    exact List.inj_on_of_nodup_map hnodup ha hb h
  -- a member of a family is longer than a single item
  · exact absurd h.symm ((key_ne_of_mem_singles ha).1 other)
  · exact absurd h.symm ((key_ne_of_mem_singles ha).2 k)
  · exact absurd h ((key_ne_of_mem_singles hb).1 who)
  · rw [account_key_inj h]
  · exact absurd h (key_account_ne_key_blockHash who k)
  · exact absurd h ((key_ne_of_mem_singles hb).2 n)
  · exact absurd h.symm (key_account_ne_key_blockHash other n)
  · rw [blockHash_key_inj h]

theorem key_ne (a b : Item) (h : a ≠ b) : a.key ≠ b.key := fun hkey => h (key_injective hkey)

theorem key_ne_of_not_mem (a : Item) {items : List Item} (h : a ∉ items) {key : Key}
    (hkey : key ∈ items.map Item.key) : a.key ≠ key := by
  obtain ⟨b, hb, rfl⟩ := List.mem_map.mp hkey
  exact key_ne a b fun heq => h (heq ▸ hb)

def meters : List Item := [extrinsicsLength, blockWeight]

def tally : List Item := number :: extrinsicIndex :: meters

end Item

def meterKeys : List Key := [extrinsicsLength.key, blockWeight.key]

def tallyKeys : List Key := number.key :: extrinsicIndex.key :: meterKeys

theorem map_key_meters : Item.meters.map Item.key = meterKeys := rfl

theorem map_key_tally : Item.tally.map Item.key = tallyKeys := rfl

theorem extrinsicsLength_mem_meterKeys : extrinsicsLength.key ∈ meterKeys := List.mem_cons_self

theorem blockWeight_mem_meterKeys : blockWeight.key ∈ meterKeys :=
  List.mem_cons_of_mem _ List.mem_cons_self

theorem number_mem_tallyKeys : number.key ∈ tallyKeys := List.mem_cons_self

theorem extrinsicIndex_mem_tallyKeys : extrinsicIndex.key ∈ tallyKeys :=
  List.mem_cons_of_mem _ List.mem_cons_self

theorem mem_tallyKeys {key : Key} (h : key ∈ meterKeys) : key ∈ tallyKeys :=
  List.mem_cons_of_mem _ (List.mem_cons_of_mem _ h)

section Tally

variable {key : Key}

theorem levelKey_ne (h : key ∈ tallyKeys) : Layer.levelKey ≠ key :=
  Item.key_ne_of_not_mem .level (by decide) (map_key_tally ▸ h)

theorem extrinsicIndex_ne (h : key ∈ meterKeys) : extrinsicIndex.key ≠ key :=
  Item.key_ne_of_not_mem .extrinsicIndex (by decide) (map_key_meters ▸ h)

theorem account_ne (h : key ∈ tallyKeys) (who : AccountId) : (account.cell who).key ≠ key :=
  Item.key_ne_of_not_mem (.account who) (by simp [Item.tally, Item.meters]) (map_key_tally ▸ h)

theorem blockHash_ne (h : key ∈ tallyKeys) (n : UInt64) : (blockHashes.cell n).key ≠ key :=
  Item.key_ne_of_not_mem (.blockHash n) (by simp [Item.tally, Item.meters]) (map_key_tally ▸ h)

end Tally

/-- The keys under which the ancestry of a block lies: its number and the hashes of the blocks before. -/
def Ancestral (key : Key) : Prop := key = number.key ∨ ∃ n, key = (blockHashes.cell n).key

theorem ancestral_number : Ancestral number.key := Or.inl rfl

theorem ancestral_blockHash (n : UInt64) : Ancestral (blockHashes.cell n).key := Or.inr ⟨n, rfl⟩

/-- What is neither the number of a block nor a hash lies apart from the ancestry. -/
theorem Item.key_ne_ancestral (item : Item) {key : Key} (h : Ancestral key) (hnumber : item ≠ .number)
    (hhash : ∀ n, item ≠ .blockHash n) : item.key ≠ key := by
  rcases h with rfl | ⟨n, rfl⟩
  · exact Item.key_ne item .number hnumber
  · exact Item.key_ne item (.blockHash n) (hhash n)

end Books

end BlockRuntime

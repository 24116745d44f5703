import BlockRuntime.Proofs.Codec.Sequence
import BlockRuntime.Proofs.Store.Cell

namespace BlockRuntime

namespace Store

variable {σ : Type} {key other : Key} {value items item : Bytes} {count : UInt32}

/-- There is no count just if no number can be read at the front. -/
theorem splitCount?_eq_none_iff :
    splitCount? value = none ↔ ∀ found, Codec.varint32.read value ≠ .ok found := by
  unfold splitCount?
  constructor
  · intro h found hread
    rw [hread] at h
    exact nomatch h
  · intro h
    split
    · rename_i found hread
      exact absurd hread (h found)
    · rfl

/-- Where a count can be read it is raised, and the item goes behind whatever follows it. -/
theorem appended_of_read (h : Codec.varint32.read value = .ok (count, items)) (item : Bytes) :
    appended (some value) item =
      Codec.varint32.encode (count.saturatingAdd 1) ++ items ++ item := by
  simp only [appended, Option.bind_some, splitCount?, h]

theorem appended_of_unreadable {found : Option Bytes} (h : found.bind splitCount? = none) (item : Bytes) :
    appended found item = Codec.varint32.encode 1 ++ item := by
  simp only [appended, h]

section Sequences

variable {α : Type} (code : Codec α) (range : Codec.LengthRange)

theorem encode_sequence_singleton (value : α) :
    (Codec.sequence code range).encode [value] = Codec.varint32.encode 1 ++ code.encode value := by
  simp only [Codec.sequence, List.flatMap_singleton]
  rfl

/-- What is appended to the code of a sequence makes the code of the longer sequence. -/
theorem appended_encode {values : List α} (hlength : values.length + 1 < 2 ^ 32) (value : α) :
    appended (some ((Codec.sequence code range).encode values)) (code.encode value) =
      (Codec.sequence code range).encode (values ++ [value]) := by
  have hshort : (UInt32.ofNat values.length).toNat = values.length :=
    UInt32.toNat_ofNat_of_lt' (by have : UInt32.size = 2 ^ 32 := rfl; omega)
  -- the count has room for one more, so it is not cut off
  have hnext : ((UInt32.ofNat values.length).saturatingAdd 1).toNat = values.length + 1 := by
    rw [UInt32.toNat_saturatingAdd, hshort]
    exact Nat.min_eq_left (by have : (1 : UInt32).toNat = 1 := rfl; omega)
  have hread : Codec.varint32.read ((Codec.sequence code range).encode values) =
      .ok (UInt32.ofNat values.length, values.flatMap code.encode) := by
    have hcount : values.length < 2 ^ (8 * 4) := by omega
    simp only [Codec.sequence, Codec.varint32, Varint.read_encode_append hcount]
  calc
    _ = Codec.varint32.encode ((UInt32.ofNat values.length).saturatingAdd 1) ++
        values.flatMap code.encode ++ code.encode value := appended_of_read hread _
    _ = Varint.encode (values.length + 1) ++ values.flatMap code.encode ++ code.encode value := by
      rw [← hnext]
      rfl
    _ = _ := by
      simp only [Codec.sequence, List.length_append, List.length_singleton, List.flatMap_append,
        List.flatMap_singleton, List.append_assoc]

end Sequences

theorem get?_append (m : Memory) (key : Key) (item : Bytes) (other : Key) :
    Store.get? (append m key item) other =
      if key = other then some (appended (Store.get? m key) item) else Store.get? m other :=
  Memory.get?_set m key _ other

theorem get?_append_self (m : Memory) (key : Key) (item : Bytes) :
    Store.get? (append m key item) key = some (appended (Store.get? m key) item) :=
  (get?_append m key item key).trans (if_pos rfl)

/-- The count is found in the first bytes of the value, however long it is. -/
theorem storedCount_of_length_lt [Store σ] {s : σ} (h : Store.get? s key = some value)
    (hlt : value.length < 2 ^ 32) :
    storedCount s key =
      match Codec.varint32.read (value.take countWidth) with
      | .ok (count, _) => .ok (some count)
      | .error cause => .error (.decode key cause) := by
  have hlength : (UInt32.ofNat value.length).toNat = value.length := UInt32.toNat_ofNat_of_lt' hlt
  have hfront : (value.take countWidth).length = min value.length countWidth := by
    rw [List.length_take, Nat.min_comm]
  -- the buffer holds the front of the value and zeros behind it, which are cut off again
  have hbuffer (zeros : Bytes) :
      (value.take countWidth ++ zeros).take (min value.length countWidth) = value.take countWidth :=
    List.take_left' hfront
  rcases hread : Codec.varint32.read (value.take countWidth) with cause | ⟨count, rest⟩
  all_goals simp only [storedCount, copyInto, copied, h, UInt32.toNat_zero, List.drop_zero,
    List.length_replicate, hlength, hbuffer, hread]

theorem storedCount_of_count [Store σ] {s : σ} {n : Nat}
    (h : Store.get? s key = some (Varint.encode n ++ items)) (hn : n < 2 ^ 32)
    (hlt : (Varint.encode n ++ items).length < 2 ^ 32) :
    storedCount s key = .ok (some (UInt32.ofNat n)) := by
  have hwidth : (Varint.encode n).length ≤ countWidth := Varint.length_encode_le hn
  have htake : (Varint.encode n ++ items).take countWidth =
      Varint.encode n ++ items.take (countWidth - (Varint.encode n).length) := by
    rw [List.take_append, List.take_of_length_le hwidth]
  have hread : Varint.read 4 (Varint.encode n ++ items.take (countWidth - (Varint.encode n).length)) =
      .ok (n, items.take (countWidth - (Varint.encode n).length)) := Varint.read_encode_append hn _
  rw [storedCount_of_length_lt h hlt, htake]
  simp only [Codec.varint32, hread]

end Store

namespace Cell

variable {α β : Type} {code : Codec β} {range : Codec.LengthRange} {c : Cell α} {m : Memory}
  {values : List β}

def appendAll {σ : Type} [Store σ] (c : Cell α) (code : Codec β) (values : List β) (s : σ) : σ :=
  values.foldl (fun s value => c.append code value s) s

/-- Appending to the code of a sequence gives the code of the longer one. -/
theorem get?_append_of_sequence
    (hstored : Store.get? m c.key = some ((Codec.sequence code range).encode values))
    (hlength : values.length + 1 < 2 ^ 32) (value : β) :
    Store.get? (c.append code value m) c.key =
      some ((Codec.sequence code range).encode (values ++ [value])) := by
  unfold Cell.append
  rw [Store.get?_append_self, hstored, Store.appended_encode code range hlength]

theorem get?_append_of_unreadable (h : (Store.get? m c.key).bind Store.splitCount? = none) (value : β) :
    Store.get? (c.append code value m) c.key = some ((Codec.sequence code range).encode [value]) := by
  unfold Cell.append
  rw [Store.get?_append_self, Store.appended_of_unreadable h, Store.encode_sequence_singleton]

/-- So it does for many values, by induction on them. -/
theorem get?_appendAll (more : List β)
    (hstored : Store.get? m c.key = some ((Codec.sequence code range).encode values))
    (hlength : values.length + more.length < 2 ^ 32) :
    Store.get? (c.appendAll code more m) c.key =
      some ((Codec.sequence code range).encode (values ++ more)) := by
  -- what has been appended goes over to the stored sequence, so the room for both stays the same
  induction more generalizing values m with
  | nil => rwa [List.append_nil]
  | cons value more ih =>
    rw [List.length_cons] at hlength
    have hnext := get?_append_of_sequence hstored (by omega) value
    have hroom : (values ++ [value]).length + more.length < 2 ^ 32 := by
      rw [List.length_append, List.length_singleton]
      omega
    have hrest := ih hnext hroom
    rw [List.append_assoc, List.singleton_append] at hrest
    exact hrest

/-- Appends to an empty cell leave the code of the sequence of what was appended. -/
theorem get?_appendAll_of_none (hnone : Store.get? m c.key = none) (hvalues : values ≠ [])
    (hlength : values.length < 2 ^ 32) :
    Store.get? (c.appendAll code values m) c.key = some ((Codec.sequence code range).encode values) := by
  obtain ⟨first, rest, rfl⟩ := List.exists_cons_of_ne_nil hvalues
  have hfirst : Store.get? (c.append code first m) c.key =
      some ((Codec.sequence code range).encode [first]) :=
    get?_append_of_unreadable (by rw [hnone]; rfl) first
  rw [List.length_cons] at hlength
  exact get?_appendAll rest hfirst (by rw [List.length_singleton]; omega)

/-- A sequence is read back if its cell accepts the length. -/
theorem get_of_sequence {c : Cell (List β)} (hcode : c.codec = Codec.sequence code range)
    (hlawful : code.Lawful)
    (hstored : Store.get? m c.key = some ((Codec.sequence code range).encode values))
    (hlength : values.length < 2 ^ 32) :
    c.get m = if range.holds values.length then .ok values
      else .error (.decode c.key (.invalidLength values.length)) := by
  have hdecode := Codec.decode_sequence range hlawful hlength
  unfold Cell.get Cell.get?
  rw [hstored, hcode]
  simp only [hdecode]
  by_cases hholds : range.holds values.length = true
  · rw [if_pos hholds, if_pos hholds]
  · rw [if_neg hholds, if_neg hholds]

end Cell

def numbersCode : Codec (List UInt32) := Codec.sequence Codec.u32 .any

/-- To append the code of a number is to append the number, through any stack of change sets: the code of a
list becomes the code of the longer list, what is absent or has no readable count becomes the code of the
number alone, and no other key is touched. So numbers that are appended to an empty cell of a list are
counted one by one, and are read back in order if the cell accepts lists of that length. -/
theorem append_is_list_append :
    (∀ (m : Memory) (key : Key) (x : UInt32),
      (∀ l : List UInt32, l.length < 2 ^ 32 - 1 → Store.get? m key = some (numbersCode.encode l) →
        Store.get? (Store.append m key (Codec.u32.encode x)) key =
          some (numbersCode.encode (l ++ [x]))) ∧
      ((∀ value, Store.get? m key = some value → ∀ found, Codec.varint32.read value ≠ .ok found) →
        Store.get? (Store.append m key (Codec.u32.encode x)) key = some (numbersCode.encode [x])) ∧
      ∀ other, key ≠ other →
        Store.get? (Store.append m key (Codec.u32.encode x)) other = Store.get? m other) ∧
    ∀ (range : Codec.LengthRange) (c : Cell (List UInt32)) (m : Memory) (l : List UInt32),
      c.codec = Codec.sequence Codec.u32 range → Store.get? m c.key = none →
      1 ≤ l.length → l.length ≤ 2 ^ 30 - 2 →
        let s := c.appendAll Codec.u32 l m
        c.count s = .ok (some (UInt32.ofNat l.length)) ∧
        (range.holds l.length = true → c.get s = .ok l) ∧
        (¬ range.holds l.length = true →
          Program.query c.get s = (.error (.decode c.key (.invalidLength l.length)), s)) := by
  constructor
  · intro m key x
    -- a cell under the key, of which only the key counts
    let c : Cell (List UInt32) := ⟨key, numbersCode, []⟩
    refine ⟨?_, ?_, ?_⟩
    · intro l hlength hstored
      exact Cell.get?_append_of_sequence (c := c) hstored (by omega) x
    · intro hunreadable
      refine Cell.get?_append_of_unreadable (c := c) ?_ x
      rcases hvalue : Store.get? m key with _ | value
      · rfl
      · exact Store.splitCount?_eq_none_iff.mpr (hunreadable value hvalue)
    · intro other hother
      exact (Store.get?_append m key _ other).trans (if_neg hother)
  · intro range c m l hcode hnone hpos hle s
    have hlength : l.length < 2 ^ 32 := by omega
    have hstored : Store.get? s c.key = some ((Codec.sequence Codec.u32 range).encode l) :=
      Cell.get?_appendAll_of_none hnone (List.length_pos_iff.mp hpos) hlength
    have hget := Cell.get_of_sequence hcode Codec.u32_lawful hstored hlength
    refine ⟨?_, ?_, ?_⟩
    · have hitems := Codec.length_flatMap_encode Codec.length_encode_u32 l
      have hwidth := Varint.length_encode_le hlength
      -- four bytes for each number and five for the count are still counted by a word
      apply Store.storedCount_of_count hstored hlength
      rw [List.length_append, hitems]
      omega
    · intro hholds
      rw [hget, if_pos hholds]
    · intro hholds
      rw [Program.query_apply, hget, if_neg hholds]
      rfl

/-- A list grows through an open change set, and three numbers are more than a cell for two takes. -/
theorem threeNumbers_appended :
    let stored := LayeredStore.openChanges (Store.set Memory.empty [1] (numbersCode.encode [7]))
    let c : Cell (List UInt32) := ⟨[2], Codec.sequence Codec.u32 ⟨0, 2⟩, []⟩
    let s := c.appendAll Codec.u32 [7, 8, 9] Memory.empty
    Store.get? (Store.append stored [1] (Codec.u32.encode 8)) [1] = some (numbersCode.encode [7, 8]) ∧
    c.count s = .ok (some 3) ∧
    Program.query c.get s = (.error (.decode [2] (.invalidLength 3)), s) := by
  intro stored c s
  have hstored : Store.get? stored [1] = some (numbersCode.encode [7]) := by
    rw [Memory.get?_openChanges, Memory.get?_set, if_pos rfl]
  obtain ⟨hcount, -, hrefused⟩ :=
    append_is_list_append.2 ⟨0, 2⟩ c Memory.empty [7, 8, 9] rfl rfl (by decide) (by decide)
  refine ⟨(append_is_list_append.1 stored [1] 8).1 [7] (by decide) hstored, hcount, ?_⟩
  exact hrefused (by decide)

section Undecodable

variable {count x : UInt32} {items : Bytes}

theorem numbersCode_decodable_iff (count : UInt32) (items : Bytes) :
    (∃ l, numbersCode.decode (Codec.varint32.encode count ++ items) = .ok l) ↔
      items.length = 4 * count.toNat :=
  Codec.decodable_iff Codec.u32_lawful Codec.length_encode_u32 Codec.exists_encode_u32
    count.toNat_lt items

/-- With one item more, bytes that are no list become one only if their count stays as it is. -/
theorem raised_decodable_iff (hcount : items.length ≠ 4 * count.toNat) (x : UInt32) :
    (∃ l, numbersCode.decode
        (Codec.varint32.encode (count.saturatingAdd 1) ++ items ++ Codec.u32.encode x) = .ok l) ↔
      count = UInt32.maxValue ∧ items.length + 4 = 4 * UInt32.maxValue.toNat := by
  have hone : (1 : UInt32).toNat = 1 := rfl
  have hlt := count.toNat_lt
  rw [List.append_assoc, numbersCode_decodable_iff, List.length_append, Codec.length_encode_u32,
    UInt32.toNat_saturatingAdd, ← UInt32.toNat_inj, UInt32.toNat_maxValue, hone]
  omega

/-- Behind a count that does not fit its items, an item more makes no sequence of one item. -/
theorem singleton_ne_raised (hcount : items.length ≠ 4 * count.toNat) (x : UInt32) :
    Codec.varint32.encode (count.saturatingAdd 1) ++ items ++ Codec.u32.encode x ≠
      numbersCode.encode [x] := by
  intro heq
  have hsingleton : numbersCode.encode [x] = Codec.varint32.encode 1 ++ Codec.u32.encode x :=
    Store.encode_sequence_singleton Codec.u32 .any x
  rw [hsingleton, List.append_assoc] at heq
  obtain ⟨hraised, hitems⟩ := Codec.varint32_lawful.split_unique heq
  -- a count of one is a raised zero, and with it there would be nothing to be left behind
  have hzero : count.toNat = 0 := by
    have hone := congrArg UInt32.toNat hraised
    rw [UInt32.toNat_saturatingAdd] at hone
    have hself : (1 : UInt32).toNat = 1 := rfl
    omega
  have hnil : items.length = 0 := by
    have hlength := congrArg List.length hitems
    rw [List.length_append] at hlength
    omega
  exact hcount (by omega)

/-- Of the values that are no list of numbers, an append replaces those without a readable count, and no
others. Where a count can be read it is raised, the bytes behind it are kept, and the item goes behind
them; the cell stays unreadable, unless the count was the largest word and one item short. -/
theorem undecodable_replaced_iff (m : Memory) (key : Key) (value : Bytes) (x : UInt32)
    (hvalue : Store.get? m key = some value)
    (hundecodable : ∀ l, numbersCode.decode value ≠ .ok l) :
    (Store.get? (Store.append m key (Codec.u32.encode x)) key = some (numbersCode.encode [x]) ↔
      ∀ found, Codec.varint32.read value ≠ .ok found) ∧
    ∀ count items, Codec.varint32.read value = .ok (count, items) →
      Store.get? (Store.append m key (Codec.u32.encode x)) key =
        some (Codec.varint32.encode (count.saturatingAdd 1) ++ items ++ Codec.u32.encode x) ∧
      ((∃ l, numbersCode.decode
          (Codec.varint32.encode (count.saturatingAdd 1) ++ items ++ Codec.u32.encode x) = .ok l) ↔
        count = UInt32.maxValue ∧ items.length + 4 = 4 * UInt32.maxValue.toNat) := by
  have hstored := Store.get?_append_self m key (Codec.u32.encode x)
  rw [hvalue] at hstored
  have hcount {count : UInt32} {items : Bytes} (hread : Codec.varint32.read value = .ok (count, items)) :
      items.length ≠ 4 * count.toNat := by
    intro hlength
    obtain ⟨l, hl⟩ := (numbersCode_decodable_iff count items).mpr hlength
    rw [← Codec.varint32_lawful.eq_of_read hread] at hl
    exact hundecodable l hl
  refine ⟨⟨?_, ?_⟩, ?_⟩
  · -- a count that is read is raised, so it does not come out as one with nothing behind it
    rintro hreplaced ⟨count, items⟩ hread
    rw [hstored, Store.appended_of_read hread] at hreplaced
    exact singleton_ne_raised (hcount hread) x (Option.some.inj hreplaced)
  · intro hunreadable
    have hnone : (some value).bind Store.splitCount? = none :=
      Store.splitCount?_eq_none_iff.mpr hunreadable
    rw [hstored, Store.appended_of_unreadable hnone]
    exact congrArg some (Store.encode_sequence_singleton Codec.u32 .any x).symm
  · intro count items hread
    rw [hstored, Store.appended_of_read hread]
    exact ⟨rfl, raised_decodable_iff (hcount hread) x⟩

/-- A count of two in front of one number, and the count that one more append makes of it. -/
theorem cutOff_kept :
    let cutOff := Store.set Memory.empty [1] [2, 0, 0, 0, 1]
    let unended := Store.set Memory.empty [1] [128]
    Store.get? (Store.append cutOff [1] (Codec.u32.encode 2)) [1] =
      some (Codec.varint32.encode 3 ++ [0, 0, 0, 1] ++ Codec.u32.encode 2) ∧
    (¬ ∃ l, numbersCode.decode
      (Codec.varint32.encode 3 ++ [0, 0, 0, 1] ++ Codec.u32.encode 2) = .ok l) ∧
    Store.get? (Store.append unended [1] (Codec.u32.encode 2)) [1] = some (numbersCode.encode [2]) := by
  intro cutOff unended
  have hcutOff := (undecodable_replaced_iff cutOff [1] [2, 0, 0, 0, 1] 2 rfl
    (fun l h => nomatch h)).2 2 [0, 0, 0, 1] rfl
  have hunended := (undecodable_replaced_iff unended [1] [128] 2 rfl (fun l h => nomatch h)).1
  refine ⟨hcutOff.1, ?_, hunended.mpr fun found h => nomatch h⟩
  intro hdecodable
  exact absurd (hcutOff.2.mp hdecodable).1 (by decide)

/-- A value that is no list of numbers need not be replaced by the item alone. -/
theorem cutOff_not_replaced :
    ¬ ∀ (m : Memory) (key : Key) (value : Bytes) (x : UInt32), Store.get? m key = some value →
      (∀ l, numbersCode.decode value ≠ .ok l) →
        Store.get? (Store.append m key (Codec.u32.encode x)) key = some (numbersCode.encode [x]) := by
  intro hreplaced
  let cutOff := Store.set Memory.empty [1] [2, 0, 0, 0, 1]
  have hread : Codec.varint32.read [2, 0, 0, 0, 1] = .ok (2, [0, 0, 0, 1]) := rfl
  have hstored := hreplaced cutOff [1] [2, 0, 0, 0, 1] 2 rfl (fun l h => nomatch h)
  have hkept : Store.get? (Store.append cutOff [1] (Codec.u32.encode 2)) [1] =
      some (Codec.varint32.encode 3 ++ [0, 0, 0, 1] ++ Codec.u32.encode 2) :=
    (Store.get?_append_self cutOff [1] _).trans (congrArg some (Store.appended_of_read hread _))
  have hitems : ([0, 0, 0, 1] : Bytes).length ≠ 4 * (2 : UInt32).toNat := by decide
  exact singleton_ne_raised hitems 2 (Option.some.inj (hkept.symm.trans hstored))

end Undecodable

end BlockRuntime

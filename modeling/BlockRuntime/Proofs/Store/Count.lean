import BlockRuntime.Proofs.Store.Append

namespace BlockRuntime

namespace Varint

variable {bits k : Nat}

/-- Results that differ at most in what is left to read are errors with one cause, or find one value. -/
theorem alike_of_map_fst {ε α β : Type} {x y : Except ε (α × β)} (h : x.map Prod.fst = y.map Prod.fst) :
    (∃ cause, x = .error cause ∧ y = .error cause) ∨
      ∃ found left right, x = .ok (found, left) ∧ y = .ok (found, right) := by
  cases x with
  | error cause =>
    cases y with
    | error other =>
      cases h
      exact Or.inl ⟨cause, rfl, rfl⟩
    | ok found => exact nomatch h
  | ok found =>
    cases y with
    | error other => exact nomatch h
    | ok other =>
      have hfound : found.1 = other.1 := Except.ok.inj h
      exact Or.inr ⟨found.1, found.2, other.2, rfl, by rw [hfound]⟩

/-- A number of `bits` bits ends, or is refused, within as many bytes as have room for its bits. -/
theorem readBits_take (hpos : 0 < k) (hbits : bits ≤ 7 * k) (later : Bool) (bytes : Bytes) :
    (readBits bits later (bytes.take k)).map Prod.fst = (readBits bits later bytes).map Prod.fst := by
  -- every byte that is read uses up seven of the bits and one of the bytes of the front
  induction bytes generalizing bits k later with
  | nil => rw [List.take_nil]
  | cons b rest ih =>
    obtain ⟨k, rfl⟩ := Nat.exists_eq_add_one_of_ne_zero (Nat.ne_of_gt hpos)
    rw [List.take_succ_cons, readBits, readBits]
    by_cases hzero : later = true ∧ b = 0
    · rw [if_pos hzero, if_pos hzero]
    rw [if_neg hzero, if_neg hzero]
    by_cases hlarge : bits ≤ 7 ∧ 1 <<< bits ≤ b.toNat
    · rw [if_pos hlarge, if_pos hlarge]
    rw [if_neg hlarge, if_neg hlarge]
    by_cases hlast : b.toNat < 128
    · rw [if_pos hlast, if_pos hlast]
      rfl
    rw [if_neg hlast, if_neg hlast]
    -- more bytes follow, so there are bits left for them, and bytes of the front as well
    have hwide : 7 < bits := by
      by_contra hle
      have hpow : 2 ^ bits ≤ 2 ^ 7 := Nat.pow_le_pow_right (by decide) (by omega)
      rw [Nat.one_shiftLeft] at hlarge
      omega
    have hpos' : 0 < k := by omega
    have hbits' : bits - 7 ≤ 7 * k := by omega
    rcases alike_of_map_fst (ih hpos' hbits' true) with
      ⟨fault, hfront, hwhole⟩ | ⟨n, left, right, hfront, hwhole⟩
    · rw [hfront, hwhole]
    · rw [hfront, hwhole]
      rfl

end Varint

namespace Store

variable {σ : Type} [Store σ] {s t : σ} {key : Key} {value : Bytes} {count : UInt32}

def frontCount (value : Bytes) : Except CodecError UInt32 :=
  (Codec.varint32.read value).map Prod.fst

def wholeCount (s : σ) (key : Key) : Except StoreError (Option UInt32) :=
  match get? s key with
  | none => .ok none
  | some value =>
    match frontCount value with
    | .ok count => .ok (some count)
    | .error cause => .error (.decode key cause)

/-- What is under a key, if anything is, has a length that a word can hold. -/
def WordSized (s : σ) (key : Key) : Prop := ∀ value, get? s key = some value → value.length < 2 ^ 32

/-- A count ends within the bytes that are copied, or is refused there. -/
theorem frontCount_take (value : Bytes) : frontCount (value.take countWidth) = frontCount value := by
  have hbits : 8 * 4 ≤ 7 * countWidth := by decide
  have hfront := Varint.readBits_take (by decide) hbits false value
  simp only [frontCount, Codec.varint32, Varint.read]
  rcases Varint.alike_of_map_fst hfront with ⟨fault, hcut, hwhole⟩ | ⟨n, left, right, hcut, hwhole⟩
  · rw [hcut, hwhole]
  · rw [hcut, hwhole]
    rfl

/-- The count at the front is the one that a stored sequence is split at. -/
theorem frontCount_eq_ok_iff :
    frontCount value = .ok count ↔ ∃ items, splitCount? value = some (count, items) := by
  unfold frontCount splitCount?
  rcases Codec.varint32.read value with cause | ⟨found, items⟩
  · exact ⟨nofun, nofun⟩
  · constructor
    · intro h
      cases h
      exact ⟨items, rfl⟩
    · rintro ⟨rest, h⟩
      cases h
      rfl

/-- The short reading of a count tells what the whole value would. -/
theorem storedCount_eq_wholeCount (h : WordSized s key) : storedCount s key = wholeCount s key := by
  rcases hvalue : get? s key with _ | value
  · simp only [storedCount, copyInto, copied, wholeCount, hvalue]
  · have hfront := frontCount_take value
    simp only [storedCount_of_length_lt hvalue (h value hvalue), wholeCount, hvalue, ← hfront]
    unfold frontCount
    rcases Codec.varint32.read (value.take countWidth) with cause | ⟨count, rest⟩ <;> rfl

theorem wholeCount_eq_ok_iff : wholeCount s key = .ok (some count) ↔
    ∃ items, (get? s key).bind splitCount? = some (count, items) := by
  unfold wholeCount
  rcases get? s key with _ | value
  · exact ⟨nofun, nofun⟩
  · rw [Option.bind_some, ← frontCount_eq_ok_iff]
    rcases hfront : frontCount value with cause | found
    · simp only [hfront, reduceCtorEq]
    · simp only [hfront, Except.ok.injEq, Option.some.injEq]

/-- Values with the same first bytes have the same count. -/
theorem wholeCount_congr
    (h : (get? t key).map (List.take countWidth) = (get? s key).map (List.take countWidth)) :
    wholeCount t key = wholeCount s key := by
  unfold wholeCount
  generalize get? t key = left at h ⊢
  generalize get? s key = right at h ⊢
  cases left with
  | none =>
    cases right with
    | none => rfl
    | some other => exact nomatch h
  | some value =>
    cases right with
    | none => exact nomatch h
    | some other =>
      have hfront : value.take countWidth = other.take countWidth := Option.some.inj h
      simp only [← frontCount_take value, ← frontCount_take other, hfront]

/-- A count that is found stands in front of the value as it would be written. -/
theorem prefix_of_wholeCount (hvalue : get? s key = some value)
    (h : wholeCount s key = .ok (some count)) : Codec.varint32.encode count <+: value := by
  obtain ⟨items, hsplit⟩ := wholeCount_eq_ok_iff.mp h
  rw [hvalue, Option.bind_some] at hsplit
  unfold splitCount? at hsplit
  split at hsplit
  · rename_i found hread
    cases hsplit
    exact ⟨items, (Codec.varint32_lawful.eq_of_read hread).symm⟩
  · exact nomatch hsplit

/-- For a sequence that can be decoded, the count is its length. -/
theorem wholeCount_of_sequence {α : Type} {item : Codec α} {range : Codec.LengthRange} {l : List α}
    (hitem : item.Lawful) (hvalue : get? s key = some value)
    (h : (Codec.sequence item range).decode value = .ok l) :
    ∃ count, wholeCount s key = .ok (some count) ∧ count.toNat = l.length := by
  obtain ⟨hbytes, hlength⟩ := Codec.eq_of_decode_sequence hitem h
  have hread : Varint.read 4 value = .ok (l.length, l.flatMap item.encode) := by
    rw [hbytes]
    exact Varint.read_encode_append hlength _
  refine ⟨UInt32.ofNat l.length, ?_, UInt32.toNat_ofNat_of_lt' hlength⟩
  simp only [wholeCount, hvalue, frontCount, Codec.varint32, hread]
  rfl

/-- The count that is read off the first five bytes of a value is the one that is read off the whole value,
and if there is none, then for the same reason. So it is the count that an append would raise and the length
of the sequence that the value is the code of; it stands in the value itself and owes nothing to the zeros
of the buffer; and the store is left alone. -/
theorem short_count_is_whole_count (s : σ) (key : Key) (h : WordSized s key) :
    storedCount s key = wholeCount s key ∧
    (∀ t : σ, WordSized t key → (get? t key).map (List.take 5) = (get? s key).map (List.take 5) →
      storedCount t key = storedCount s key) ∧
    (∀ count, storedCount s key = .ok (some count) ↔
      ∃ items, (get? s key).bind splitCount? = some (count, items)) ∧
    (∀ value range, get? s key = some value → ∀ l : List UInt32,
      (Codec.sequence Codec.u32 range).decode value = .ok l →
        ∃ count, storedCount s key = .ok (some count) ∧ count.toNat = l.length) ∧
    (∀ value count, get? s key = some value → storedCount s key = .ok (some count) →
      Codec.varint32.encode count <+: value) ∧
    Program.query (fun s => storedCount s key) s = (.ofExcept (wholeCount s key), s) := by
  have hcount := storedCount_eq_wholeCount h
  refine ⟨hcount, ?_, ?_, ?_, ?_, ?_⟩
  · intro t ht hfront
    rw [hcount, storedCount_eq_wholeCount ht]
    exact wholeCount_congr hfront
  · intro count
    rw [hcount]
    exact wholeCount_eq_ok_iff
  · intro value range hvalue l hdecode
    rw [hcount]
    exact wholeCount_of_sequence Codec.u32_lawful hvalue hdecode
  · intro value count hvalue hfound
    rw [hcount] at hfound
    exact prefix_of_wholeCount hvalue hfound
  · rw [Program.query_apply, hcount]

/-- An empty value has no count, though a buffer of zeros would have the count zero. A list has its length
for a count, also if the bytes of the buffer end inside its items. -/
theorem emptyValue_has_no_count :
    let s := Store.set (Store.set Memory.empty [1] []) [2] [2, 0, 0, 0, 7, 0, 0, 0, 8]
    storedCount s [1] = .error (.decode [1] .endOfBuffer) ∧
    frontCount (List.replicate countWidth 0) = .ok 0 ∧
    ∃ count, storedCount s [2] = .ok (some count) ∧ count.toNat = 2 := by
  intro s
  have hempty : WordSized s [1] := fun value hvalue => by cases hvalue; decide
  have hlist : WordSized s [2] := fun value hvalue => by cases hvalue; decide
  refine ⟨(short_count_is_whole_count s [1] hempty).1, rfl, ?_⟩
  exact (short_count_is_whole_count s [2] hlist).2.2.2.1 _ .any rfl [7, 8] rfl

end Store

end BlockRuntime

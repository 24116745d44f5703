import BlockRuntime.Codec.Sequence
import BlockRuntime.Proofs.Codec.Words

namespace BlockRuntime

/-- A count takes up at most five bytes. -/
theorem Varint.length_encode_le {n : Nat} (h : n < 2 ^ 32) : (encode n).length ≤ 5 := by
  have hlog : n.log2 < 32 := by
    by_cases hzero : n = 0
    · rw [hzero]
      decide
    · exact (Nat.log2_lt hzero).mpr h
  rw [← size_eq]
  unfold size
  omega

namespace Codec

variable {α : Type} {item : Codec α} {range : LengthRange} {values : List α} {bytes rest : Bytes}

theorem readMany_encode (hitem : item.Lawful) (values : List α) (rest : Bytes) :
    readMany item.read values.length (values.flatMap item.encode ++ rest) = .ok (values, rest) := by
  induction values with
  | nil => rfl
  | cons value values ih =>
    have hfirst := hitem.read_encode_append value (values.flatMap item.encode ++ rest)
    simp only [List.flatMap_cons, List.length_cons, List.append_assoc, readMany, hfirst, ih]

/-- The values read off a byte string are those whose codes it starts with. -/
theorem eq_of_readMany (hitem : item.Lawful) {n : Nat}
    (h : readMany item.read n bytes = .ok (values, rest)) :
    bytes = values.flatMap item.encode ++ rest ∧ values.length = n := by
  induction n generalizing bytes values with
  | zero =>
    cases h
    exact ⟨rfl, rfl⟩
  | succ n ih =>
    unfold readMany at h
    split at h
    · exact nomatch h
    rename_i value tail hvalue
    split at h
    · exact nomatch h
    rename_i others last hothers
    cases h
    obtain ⟨hrest, hlength⟩ := ih hothers
    refine ⟨?_, congrArg (· + 1) hlength⟩
    rw [List.flatMap_cons, List.append_assoc, ← hrest]
    exact hitem.eq_of_read hvalue

theorem read_sequence (range : LengthRange) (hitem : item.Lawful)
    (hlength : values.length < 2 ^ 32) (rest : Bytes) :
    (sequence item range).read ((sequence item range).encode values ++ rest) =
      if range.holds values.length then .ok (values, rest)
      else .error (.invalidLength values.length) := by
  have hcount : Varint.read 4 (Varint.encode values.length ++ (values.flatMap item.encode ++ rest)) =
      .ok (values.length, values.flatMap item.encode ++ rest) := Varint.read_encode_append hlength _
  simp only [sequence, List.append_assoc, hcount, readMany_encode hitem]

/-- Whether a sequence can be decoded again depends on its length alone. -/
theorem decode_sequence (range : LengthRange) (hitem : item.Lawful)
    (hlength : values.length < 2 ^ 32) :
    (sequence item range).decode ((sequence item range).encode values) =
      if range.holds values.length then .ok values else .error (.invalidLength values.length) := by
  have hread := read_sequence range hitem hlength []
  rw [List.append_nil] at hread
  unfold decode
  rw [hread]
  by_cases hholds : range.holds values.length = true
  · rw [if_pos hholds, if_pos hholds]
  · rw [if_neg hholds, if_neg hholds]

/-- A sequence is decoded from its own code only. -/
theorem eq_of_decode_sequence (hitem : item.Lawful)
    (h : (sequence item range).decode bytes = .ok values) :
    bytes = (sequence item range).encode values ∧ values.length < 2 ^ 32 := by
  unfold decode at h
  split at h
  · exact nomatch h
  · rename_i found hread
    cases h
    simp only [sequence] at hread
    split at hread
    · exact nomatch hread
    rename_i n tail hcount
    split at hread
    · obtain ⟨hitems, hlength⟩ := eq_of_readMany hitem hread
      obtain ⟨hbytes, hbound⟩ := Varint.eq_encode_of_read hcount
      subst hlength
      rw [List.append_nil] at hitems
      exact ⟨hbytes.trans (congrArg _ hitems), hbound⟩
    · exact nomatch hread
  · exact nomatch h

section FixedWidth

variable {width n : Nat}

theorem length_flatMap_encode (hwidth : ∀ value, (item.encode value).length = width)
    (values : List α) : (values.flatMap item.encode).length = width * values.length := by
  simp only [List.length_flatMap, hwidth, List.map_const', List.sum_replicate_nat, Nat.mul_comm]

/-- If every byte string of the width is a code, then so is every one of a multiple of the width. -/
theorem exists_flatMap_encode (hcode : ∀ bytes : Bytes, bytes.length = width →
      ∃ value, item.encode value = bytes) (hbytes : bytes.length = width * n) :
    ∃ values : List α, values.flatMap item.encode = bytes ∧ values.length = n := by
  induction n generalizing bytes with
  | zero =>
    have hnil : bytes = [] := List.eq_nil_of_length_eq_zero hbytes
    exact ⟨[], hnil.symm, rfl⟩
  | succ n ih =>
    rw [Nat.mul_succ] at hbytes
    obtain ⟨value, hvalue⟩ := hcode (bytes.take width) (List.length_take_of_le (by omega))
    have hdrop : (bytes.drop width).length = width * n := by
      rw [List.length_drop]
      omega
    obtain ⟨values, hvalues, hlength⟩ := ih hdrop
    refine ⟨value :: values, ?_, congrArg (· + 1) hlength⟩
    rw [List.flatMap_cons, hvalue, hvalues, List.take_append_drop]

/-- A count and the bytes behind it are a sequence exactly if they are as many as the items take up. -/
theorem decodable_iff (hitem : item.Lawful) (hwidth : ∀ value, (item.encode value).length = width)
    (hcode : ∀ bytes : Bytes, bytes.length = width → ∃ value, item.encode value = bytes)
    (hn : n < 2 ^ 32) (items : Bytes) :
    (∃ values, (sequence item .any).decode (Varint.encode n ++ items) = .ok values) ↔
      items.length = width * n := by
  constructor
  · rintro ⟨values, hdecode⟩
    obtain ⟨hbytes, hlength⟩ := eq_of_decode_sequence hitem hdecode
    have hread : Varint.read 4 (Varint.encode n ++ items) = .ok (n, items) :=
      Varint.read_encode_append hn items
    -- the byte string has one count only
    rw [hbytes] at hread
    cases (Varint.read_encode_append hlength (values.flatMap item.encode)).symm.trans hread
    exact length_flatMap_encode hwidth values
  · intro hitems
    obtain ⟨values, hvalues, rfl⟩ := exists_flatMap_encode hcode hitems
    have hholds : LengthRange.any.holds values.length = true := by
      have hle : values.length ≤ 4294967295 := by omega
      simp [LengthRange.holds, LengthRange.any, hle]
    have hdecode := decode_sequence .any hitem hn
    rw [if_pos hholds] at hdecode
    rw [← hvalues]
    exact ⟨values, hdecode⟩

end FixedWidth

theorem length_encode_u32 (x : UInt32) : (u32.encode x).length = 4 := length_bigEndian 4 x.toNat

theorem exists_encode_u32 (bytes : Bytes) (h : bytes.length = 4) : ∃ x, u32.encode x = bytes := by
  have hlt := ofBigEndian_lt bytes
  rw [h] at hlt
  refine ⟨UInt32.ofNat (ofBigEndian bytes), ?_⟩
  calc
    u32.encode (UInt32.ofNat (ofBigEndian bytes)) = bigEndian 4 (ofBigEndian bytes) :=
      congrArg (bigEndian 4) (UInt32.toNat_ofNat_of_lt' hlt)
    _ = bytes := h ▸ bigEndian_ofBigEndian bytes

end Codec

end BlockRuntime

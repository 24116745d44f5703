import BlockRuntime.Proofs.Codec.Words
import BlockRuntime.Proofs.Era.Code

namespace BlockRuntime

namespace Codec

variable {α : Type} {c : Codec α}

/-- Encoding is a bijection from the values to the byte strings that can be decoded, and the code of a
value tells where it ends. -/
structure Bijective (c : Codec α) : Prop where
  decode_encode (value : α) : c.decode (c.encode value) = .ok value
  encode_of_decode {bytes : Bytes} {value : α} : c.decode bytes = .ok value → c.encode value = bytes
  size_eq_length (value : α) : c.size value = (c.encode value).length
  prefix_free {a b : α} : c.encode a <+: c.encode b → a = b
  split_unique {a b : α} {rest other : Bytes} :
    c.encode a ++ rest = c.encode b ++ other → a = b ∧ rest = other

/-- What a reader takes from the front of a byte string does not depend on what comes behind it. -/
def ReadsFront (c : Codec α) : Prop :=
  ∀ bytes value rest, c.read bytes = .ok (value, rest) →
    ∃ front, bytes = front ++ rest ∧ ∀ other, c.read (front ++ other) = .ok (value, other)

theorem decode_eq_ok_iff {bytes : Bytes} {value : α} :
    c.decode bytes = .ok value ↔ c.read bytes = .ok (value, []) := by
  unfold decode
  constructor
  · intro h
    split at h
    · exact nomatch h
    · rename_i found hread
      cases h
      exact hread
    · exact nomatch h
  · intro h
    rw [h]

/-- A lawful code is a bijection, and none of its codes is the front of another one. -/
theorem Lawful.bijective (hc : c.Lawful) : c.Bijective where
  decode_encode := hc.decode_encode
  encode_of_decode h := (hc.eq_of_decode h).symm
  size_eq_length := hc.size_eq
  prefix_free {a b} h := by
    obtain ⟨rest, hrest⟩ := h
    have hsplit : c.encode a ++ rest = c.encode b ++ [] := by rw [hrest, List.append_nil]
    exact (hc.split_unique hsplit).1
  split_unique := hc.split_unique

theorem Lawful.readsFront (hc : c.Lawful) : c.ReadsFront := fun _ value _ h =>
  ⟨c.encode value, hc.eq_of_read h, fun other => hc.read_encode_append value other⟩

/-- Decoding says about whole byte strings what lawful reading says about their fronts. -/
theorem lawful_iff : c.Lawful ↔ c.Bijective ∧ c.ReadsFront := by
  constructor
  · intro hc
    exact ⟨hc.bijective, hc.readsFront⟩
  · rintro ⟨hbijective, hfront⟩
    refine ⟨?_, ?_, hbijective.size_eq_length⟩
    · intro value rest
      have hread := decode_eq_ok_iff.mp (hbijective.decode_encode value)
      obtain ⟨front, hsplit, hother⟩ := hfront _ _ _ hread
      rw [List.append_nil] at hsplit
      rw [hsplit]
      exact hother rest
    · intro bytes rest value hread
      obtain ⟨front, hsplit, hother⟩ := hfront _ _ _ hread
      -- the front by itself is decoded, so it is the code of the value
      have halone := hother []
      rw [List.append_nil] at halone
      rw [hsplit, hbijective.encode_of_decode (decode_eq_ok_iff.mpr halone)]

end Codec

/-- A class is read from its own tag and from no other one. -/
theorem DispatchClass.ofTag?_eq_some_iff {tag : UInt8} {c : DispatchClass} :
    ofTag? tag = some c ↔ c.tag = tag := by
  unfold ofTag?
  constructor
  · intro h
    split at h
    · rename_i htag
      cases h
      exact htag.symm
    split at h
    · rename_i htag
      cases h
      exact htag.symm
    split at h
    · rename_i htag
      cases h
      exact htag.symm
    · exact nomatch h
  · rintro rfl
    cases c <;> rfl

theorem DispatchClass.codec_lawful : DispatchClass.codec.Lawful where
  read_encode_append c rest := by cases c <;> rfl
  eq_of_read {bytes rest c} h := by
    rcases bytes with _ | ⟨tag, tail⟩
    · exact nomatch h
    simp only [codec] at h ⊢
    split at h
    · rename_i found hfound
      cases h
      rw [ofTag?_eq_some_iff.mp hfound]
      rfl
    · exact nomatch h
  size_eq _ := rfl

/-- Everything that the store keeps is written in a bijective code. A family with one value for each class
is as soon as its members are, if their reader looks no further than what it takes. -/
theorem stored_codes_bijective :
    Weight.codec.Bijective ∧ WeightLedger.codec.Bijective ∧ AccountId.codec.Bijective ∧
    AccountRecord.codec.Bijective ∧ DispatchClass.codec.Bijective ∧ Era.codec.Bijective ∧
    ∀ (α : Type) (item : Codec α), item.Bijective → item.ReadsFront →
      (PerClass.codec item).Bijective := by
  refine ⟨Weight.codec_lawful.bijective, WeightLedger.codec_lawful.bijective,
    AccountId.codec_lawful.bijective, AccountRecord.codec_lawful.bijective,
    DispatchClass.codec_lawful.bijective, Era.codec_lawful.bijective, ?_⟩
  intro α item hbijective hfront
  have hitem : item.Lawful := Codec.lawful_iff.mpr ⟨hbijective, hfront⟩
  exact (PerClass.codec_lawful hitem).bijective

def threeEras : PerClass Era :=
  ⟨.immortal, .starting 64 42, .starting 1000000 1000000⟩

theorem threeEras_bijective :
    Era.codec.Bijective ∧ Era.codec.ReadsFront ∧ (PerClass.codec Era.codec).Bijective ∧
    (PerClass.codec Era.codec).encode threeEras = [0, 165, 2, 79, 66] ∧
    (PerClass.codec Era.codec).decode [0, 165, 2, 79, 66] = .ok threeEras := by
  have hera : Era.codec.Bijective := Era.codec_lawful.bijective
  have hfront : Era.codec.ReadsFront := Era.codec_lawful.readsFront
  have hfamily : (PerClass.codec Era.codec).Bijective :=
    stored_codes_bijective.2.2.2.2.2.2 Era Era.codec hera hfront
  have hbytes : (PerClass.codec Era.codec).encode threeEras = [0, 165, 2, 79, 66] := by decide
  refine ⟨hera, hfront, hfamily, hbytes, ?_⟩
  rw [← hbytes]
  exact hfamily.decode_encode threeEras

end BlockRuntime

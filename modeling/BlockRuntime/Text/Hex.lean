import BlockRuntime.Bytes

namespace BlockRuntime.Hex

def digit (n : Nat) : Char :=
  if n < 10 then Char.ofNat (48 + n) else Char.ofNat (87 + n)

def digitValue? (c : Char) : Option Nat :=
  if '0' ≤ c ∧ c ≤ '9' then some (c.toNat - 48)
  else if 'a' ≤ c ∧ c ≤ 'f' then some (c.toNat - 87)
  else if 'A' ≤ c ∧ c ≤ 'F' then some (c.toNat - 55)
  else none

def byteDigits (b : UInt8) : List Char := [digit (b.toNat / 16), digit (b.toNat % 16)]

def digits (bytes : Bytes) : List Char := bytes.flatMap byteDigits

def encode (bytes : Bytes) : String := String.ofList (digits bytes)

def ofDigits? : List Char → Option Bytes
  | [] => some []
  | [_] => none
  | c :: d :: rest =>
    match digitValue? c, digitValue? d, ofDigits? rest with
    | some high, some low, some bytes => some (UInt8.ofNat (16 * high + low) :: bytes)
    | _, _, _ => none

/-- The blanks that a hexadecimal text may hold anywhere, even inside its marker. -/
def isBlank (c : Char) : Bool := c = '\t' || c = '\n' || c = '\r' || c = ' '

def dropMarker : List Char → List Char
  | '0' :: 'x' :: rest => rest
  | text => text

def decode? (text : String) : Option Bytes :=
  ofDigits? (dropMarker (text.toList.filter fun c => !isBlank c))

def marked (bytes : Bytes) : String := "0x" ++ encode bytes

theorem digitValue?_digit {n : Nat} (h : n < 16) : digitValue? (digit n) = some n := by
  rcases n with _ | _ | _ | _ | _ | _ | _ | _ | _ | _ | _ | _ | _ | _ | _ | _ | n
  all_goals first | rfl | omega

theorem isBlank_digit {n : Nat} (h : n < 16) : isBlank (digit n) = false := by
  rcases n with _ | _ | _ | _ | _ | _ | _ | _ | _ | _ | _ | _ | _ | _ | _ | _ | n
  all_goals first | rfl | omega

theorem digit_ne_marker {n : Nat} (h : n < 16) : digit n ≠ 'x' := by
  rcases n with _ | _ | _ | _ | _ | _ | _ | _ | _ | _ | _ | _ | _ | _ | _ | _ | n
  all_goals first | decide | omega

/-- Written digits are read back. -/
theorem ofDigits?_digits (bytes : Bytes) : ofDigits? (digits bytes) = some bytes := by
  induction bytes with
  | nil => rfl
  | cons b rest ih =>
    have hb := b.toNat_lt
    have hh : b.toNat / 16 < 16 := by omega
    have hl : b.toNat % 16 < 16 := by omega
    have hs : 16 * (b.toNat / 16) + b.toNat % 16 = b.toNat := Nat.div_add_mod _ _
    simp only [digits, List.flatMap_cons, byteDigits, List.cons_append, List.nil_append,
      ofDigits?, digitValue?_digit hh, digitValue?_digit hl]
    rw [show rest.flatMap byteDigits = digits rest from rfl, ih]
    simp [hs]

theorem filter_digits (bytes : Bytes) :
    (digits bytes).filter (fun c => !isBlank c) = digits bytes := by
  induction bytes with
  | nil => rfl
  | cons b rest ih =>
    have hb := b.toNat_lt
    have hh : b.toNat / 16 < 16 := by omega
    have hl : b.toNat % 16 < 16 := by omega
    rw [digits, List.flatMap_cons, List.filter_append]
    congr 1
    simp [byteDigits, isBlank_digit hh, isBlank_digit hl]

theorem dropMarker_digits (bytes : Bytes) : dropMarker (digits bytes) = digits bytes := by
  cases bytes with
  | nil => rfl
  | cons b rest =>
    have hl : digit (b.toNat % 16) ≠ 'x' := digit_ne_marker (by omega)
    simp only [digits, List.flatMap_cons, byteDigits, List.cons_append, dropMarker]
    split
    · rename_i heq
      rw [List.cons.injEq, List.cons.injEq] at heq
      exact absurd heq.2.1 hl
    · rfl

theorem decode?_encode (bytes : Bytes) : decode? (encode bytes) = some bytes := by
  rw [decode?, encode, String.toList_ofList, filter_digits, dropMarker_digits, ofDigits?_digits]

end BlockRuntime.Hex

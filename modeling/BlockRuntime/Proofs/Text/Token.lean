import BlockRuntime.Text.Json.Basic
import BlockRuntime.Text.Json.Token
import Mathlib.Tactic.SplitIfs

namespace BlockRuntime.Json.Token

section Strings

theorem digitValue?_digitChar {n : Nat} (h : n < 16) :
    Hex.digitValue? (Nat.digitChar n) = some n := by
  rcases n with _ | _ | _ | _ | _ | _ | _ | _ | _ | _ | _ | _ | _ | _ | _ | _ | n
  all_goals first | rfl | omega

/-- An escape by number that is no half of a pair stands for its character, whatever follows it. -/
theorem stringBody?_unit {a b c d : Char} {n : Nat} (hunit : unit? a b c d = some n)
    (hhigh : isHighHalf n = false) (hlow : isLowHalf n = false) (rest : List Char) :
    stringBody? ('\\' :: 'u' :: a :: b :: c :: d :: rest) =
      prepend (Char.ofNat n) (stringBody? rest) := by
  -- the reader looks ahead for a second half, and takes the same way if it finds one
  by_cases hnext : ∃ e f g h tail, rest = '\\' :: 'u' :: e :: f :: g :: h :: tail
  · obtain ⟨e, f, g, h, tail, rfl⟩ := hnext
    rw [stringBody?.eq_3, hunit]
    simp only [hhigh, hlow, Bool.false_eq_true, if_false]
  · have hnone : ∀ e f g h tail, rest = '\\' :: 'u' :: e :: f :: g :: h :: tail → False :=
      fun e f g h tail heq => hnext ⟨e, f, g, h, tail, heq⟩
    rw [stringBody?.eq_4 _ _ _ _ _ hnone, hunit]
    simp only [hhigh, hlow, Bool.or_self, Bool.false_eq_true, if_false]

theorem stringBody?_controlEscape {c : Char} (h : c.toNat < 32) (rest : List Char) :
    stringBody? (controlEscape c ++ rest) = prepend c (stringBody? rest) := by
  have hhigh : c.toNat / 16 < 16 := by omega
  have hlow : c.toNat % 16 < 16 := Nat.mod_lt _ (by decide)
  have hzero : Hex.digitValue? '0' = some 0 := rfl
  have hunit : unit? '0' '0' (Nat.digitChar (c.toNat / 16)) (Nat.digitChar (c.toNat % 16)) =
      some c.toNat := by
    unfold unit?
    simp only [hzero, digitValue?_digitChar hhigh, digitValue?_digitChar hlow]
    congr 1
    omega
  have hnoHigh : isHighHalf c.toNat = false := by
    have hne : ¬ 0xD800 ≤ c.toNat := by omega
    simp only [isHighHalf, hne, decide_false, Bool.false_and]
  have hnoLow : isLowHalf c.toNat = false := by
    have hne : ¬ 0xDC00 ≤ c.toNat := by omega
    simp only [isLowHalf, hne, decide_false, Bool.false_and]
  have hchar : Char.ofNat c.toNat = c := Char.ofNat_toNat c
  have hbody := stringBody?_unit hunit hnoHigh hnoLow rest
  rw [hchar] at hbody
  exact hbody

theorem stringBody?_short {c found : Char} (hshort : shortEscape? c = some found) (hc : c ≠ 'u')
    (rest : List Char) : stringBody? ('\\' :: c :: rest) = prepend found (stringBody? rest) := by
  rw [stringBody?.eq_5 _ _ (fun _ _ _ _ _ _ _ _ _ h => absurd h hc)
    (fun _ _ _ _ _ h => absurd h hc), hshort]

theorem stringBody?_plain {c : Char} (hquote : c ≠ '"') (hslash : c ≠ '\\') (hcontrol : ¬ c.toNat < 32)
    (rest : List Char) : stringBody? (c :: rest) = prepend c (stringBody? rest) := by
  rw [stringBody?.eq_6 _ _ hquote (fun _ _ _ _ _ _ _ _ _ h => absurd h hslash)
    (fun _ _ _ _ _ h => absurd h hslash) (fun _ _ h => absurd h hslash), if_neg hcontrol]

/-- A character is written behind a backslash under a name of its own, by its number, or as it is. -/
theorem escape_cases (c : Char) :
    (∃ name, escape c = ['\\', name] ∧ shortEscape? name = some c ∧ name ≠ 'u') ∨
    (escape c = controlEscape c ∧ c.toNat < 32) ∨
    (escape c = [c] ∧ c ≠ '"' ∧ c ≠ '\\' ∧ ¬ c.toNat < 32) := by
  unfold escape
  split_ifs with hquote hslash hnewline hreturn htab hback hfeed hcontrol
  · exact Or.inl ⟨'"', rfl, by rw [hquote]; rfl, by decide⟩
  · exact Or.inl ⟨'\\', rfl, by rw [hslash]; rfl, by decide⟩
  · exact Or.inl ⟨'n', rfl, by rw [hnewline]; rfl, by decide⟩
  · exact Or.inl ⟨'r', rfl, by rw [hreturn]; rfl, by decide⟩
  · exact Or.inl ⟨'t', rfl, by rw [htab]; rfl, by decide⟩
  · exact Or.inl ⟨'b', rfl, by rw [hback]; rfl, by decide⟩
  · exact Or.inl ⟨'f', rfl, by rw [hfeed]; rfl, by decide⟩
  · exact Or.inr (Or.inl ⟨rfl, hcontrol⟩)
  · exact Or.inr (Or.inr ⟨rfl, hquote, hslash, hcontrol⟩)

/-- An escaped character is read as the character. -/
theorem stringBody?_escape (c : Char) (rest : List Char) :
    stringBody? (escape c ++ rest) = prepend c (stringBody? rest) := by
  rcases escape_cases c with ⟨name, hescape, hname, hne⟩ | ⟨hescape, hcontrol⟩ |
    ⟨hescape, hquote, hslash, hcontrol⟩ <;> rw [hescape]
  · exact stringBody?_short hname hne rest
  · exact stringBody?_controlEscape hcontrol rest
  · exact stringBody?_plain hquote hslash hcontrol rest

/-- A quoted text is read back, up to its closing quote. -/
theorem stringBody?_quoted (chars rest : List Char) :
    stringBody? (chars.flatMap escape ++ '"' :: rest) = some (some chars, rest) := by
  induction chars with
  | nil => exact stringBody?.eq_2 rest
  | cons c chars ih =>
    rw [List.flatMap_cons, List.append_assoc, stringBody?_escape, ih]
    rfl

/-- A written string is one token. -/
theorem next?_quote (s : String) (rest : List Char) : next? (quote s ++ rest) = some (text s, rest) := by
  have hquote : quote s ++ rest = '"' :: (s.toList.flatMap escape ++ '"' :: rest) := by
    simp [quote]
  rw [hquote, next?.eq_2, stringBody?_quoted]
  simp only [String.ofList_toList]

end Strings

section Numbers

/-- Whether a text cannot go on with a number in front of it. -/
def Stops (rest : List Char) : Prop :=
  ∀ c tail, rest = c :: tail → c.isDigit = false ∧ c ≠ '.' ∧ c ≠ 'e' ∧ c ≠ 'E'

theorem takeWhile_append_of_stops {digits rest : List Char} (h : ∀ c ∈ digits, c.isDigit = true)
    (hstops : Stops rest) : (digits ++ rest).takeWhile Char.isDigit = digits ∧
      (digits ++ rest).dropWhile Char.isDigit = rest := by
  rw [List.takeWhile_append_of_pos h, List.dropWhile_append_of_pos h]
  cases rest with
  | nil => exact ⟨List.append_nil _, rfl⟩
  | cons c tail =>
    have hc : ¬ c.isDigit = true := by
      rw [(hstops c tail rfl).1]
      exact Bool.false_ne_true
    rw [List.takeWhile_cons_of_neg hc, List.dropWhile_cons_of_neg hc]
    exact ⟨List.append_nil _, rfl⟩

/-- Only zero is written with a leading zero. -/
theorem toDigits_ne_zero_cons {n : Nat} (h : 0 < n) (tail : List Char) :
    Nat.toDigits 10 n ≠ '0' :: tail := by
  induction n using Nat.strongRecOn generalizing tail with
  | ind n ih =>
    by_cases hsmall : n < 10
    · rw [Nat.toDigits_of_lt_base hsmall]
      intro heq
      have hzero : Nat.digitChar n = '0' := (List.cons.inj heq).1
      rw [Nat.digitChar_eq_zero] at hzero
      omega
    · -- the leading digit is that of a tenth of the number
      rw [Nat.toDigits_of_base_le (by decide) (by omega)]
      intro heq
      cases hlead : Nat.toDigits 10 (n / 10) with
      | nil => exact Nat.toDigits_ne_nil hlead
      | cons c digits =>
        rw [hlead] at heq
        have hc : c = '0' := (List.cons.inj heq).1
        rw [hc] at hlead
        exact ih (n / 10) (by omega) (by omega) digits hlead

theorem isDigit_of_mem_toDigits {n : Nat} {c : Char} (h : c ∈ Nat.toDigits 10 n) : c.isDigit = true :=
  Nat.isDigit_of_mem_toDigits (by decide) (by decide) h

/-- The digits of a number are all taken, and there is no leading zero to refuse. -/
theorem integerPart?_toDigits (n : Nat) {rest : List Char} (hstops : Stops rest) :
    integerPart? (Nat.toDigits 10 n ++ rest) = some (Nat.toDigits 10 n, rest) := by
  rcases Nat.eq_zero_or_pos n with rfl | hpos
  · rfl
  · obtain ⟨htake, hdrop⟩ := takeWhile_append_of_stops (fun c => isDigit_of_mem_toDigits) hstops
    have hlead : ∀ tail, Nat.toDigits 10 n ++ rest = '0' :: tail → False := by
      intro tail heq
      cases hdigits : Nat.toDigits 10 n with
      | nil => exact Nat.toDigits_ne_nil hdigits
      | cons c digits =>
        rw [hdigits] at heq
        rw [(List.cons.inj heq).1] at hdigits
        exact toDigits_ne_zero_cons hpos digits hdigits
    rw [integerPart?.eq_2 _ hlead, htake, hdrop]
    cases hdigits : Nat.toDigits 10 n with
    | nil => exact absurd hdigits Nat.toDigits_ne_nil
    | cons c digits => rfl

theorem skipFraction?_of_stops {rest : List Char} (hstops : Stops rest) :
    skipFraction? rest = some (false, rest) :=
  skipFraction?.eq_2 _ fun tail heq => (hstops '.' tail heq).2.1 rfl

theorem skipExponent?_of_stops {rest : List Char} (hstops : Stops rest) :
    skipExponent? rest = some (false, rest) := by
  cases rest with
  | nil => rfl
  | cons c tail =>
    obtain ⟨-, -, hsmall, hlarge⟩ := hstops c tail rfl
    have hnone : ¬ (decide (c = 'e') || decide (c = 'E')) = true := by
      simp only [hsmall, hlarge, decide_false, Bool.or_self, Bool.false_eq_true, not_false_eq_true]
    unfold skipExponent?
    exact if_neg hnone

theorem unsigned?_toDigits (n : Nat) {rest : List Char} (hstops : Stops rest) :
    unsigned? (Nat.toDigits 10 n ++ rest) = some (natural n, rest) := by
  have hvalue : ofDigits (Nat.toDigits 10 n) = n := Nat.ofDigitChars_ten_toDigits
  unfold unsigned?
  simp only [integerPart?_toDigits n hstops, skipFraction?_of_stops hstops,
    skipExponent?_of_stops hstops, hvalue, Bool.or_self, Bool.false_eq_true, if_false]

theorem ne_of_isDigit {c d : Char} (hc : c.isDigit = true) (hd : d.isDigit = false) : c ≠ d := by
  rintro rfl
  rw [hc] at hd
  exact Bool.noConfusion hd

theorem punctuation?_of_isDigit {c : Char} (h : c.isDigit = true) : punctuation? c = none := by
  have hne (d : Char) (hd : d.isDigit = false) : c ≠ d := ne_of_isDigit h hd
  unfold punctuation?
  rw [if_neg (hne _ rfl), if_neg (hne _ rfl), if_neg (hne _ rfl), if_neg (hne _ rfl),
    if_neg (hne _ rfl), if_neg (hne _ rfl)]

/-- The digits of a number are one token, where what follows cannot go on with it. -/
theorem next?_repr (n : Nat) {rest : List Char} (hstops : Stops rest) :
    next? ((Nat.repr n).toList ++ rest) = some (natural n, rest) := by
  have hrepr : (Nat.repr n).toList = Nat.toDigits 10 n := by
    rw [Nat.repr_eq_ofList_toDigits, String.toList_ofList]
  rw [hrepr]
  have hunsigned := unsigned?_toDigits n hstops
  cases hdigits : Nat.toDigits 10 n with
  | nil => exact absurd hdigits Nat.toDigits_ne_nil
  | cons c digits =>
    rw [hdigits] at hunsigned
    -- a digit opens no string, bears no sign and is no punctuation mark
    have hc : c.isDigit = true := isDigit_of_mem_toDigits (hdigits ▸ List.mem_cons_self)
    rw [List.cons_append, next?.eq_4 _ _ (ne_of_isDigit hc rfl) (ne_of_isDigit hc rfl),
      punctuation?_of_isDigit hc]
    exact (if_pos hc).trans hunsigned

end Numbers

section Scanning

/-- Whether a text is scanned to a list of tokens, with any fuel that is more than its length. -/
def Yields (chars : List Char) (tokens : List Token) : Prop :=
  ∀ fuel, chars.length < fuel → scanWithin fuel chars = some tokens

theorem Yields.scan {chars : List Char} {tokens : List Token} (h : Yields chars tokens) :
    scan chars = some tokens := h _ (Nat.lt_succ_self _)

theorem yields_nil : Yields [] [] := by
  intro fuel hfuel
  obtain ⟨fuel, rfl⟩ := Nat.exists_eq_succ_of_ne_zero (Nat.ne_of_gt hfuel)
  rfl

def Reads (after : List Char → Prop) (chars : List Char) (tokens : List Token) : Prop :=
  ∀ rest found, after rest → Yields rest found → Yields (chars ++ rest) (tokens ++ found)

def Any (_ : List Char) : Prop := True

variable {after : List Char → Prop} {chars more : List Char} {tokens others : List Token}

theorem Reads.append {before : List Char → Prop} (h : Reads before chars tokens)
    (hmore : Reads after more others) (hbefore : ∀ rest, after rest → before (more ++ rest)) :
    Reads after (chars ++ more) (tokens ++ others) := by
  intro rest found hafter hrest
  rw [List.append_assoc, List.append_assoc]
  exact h _ _ (hbefore rest hafter) (hmore rest found hafter hrest)

theorem Reads.of_any (h : Reads Any chars tokens) : Reads after chars tokens :=
  fun rest found _ hrest => h rest found trivial hrest

/-- A lexeme takes up at least a character, so what is left has fuel enough. -/
theorem reads_of_next? {c : Char} {lexeme : List Char} {token : Token} (hblank : isBlank c = false)
    (hnext : ∀ rest, after rest → next? (c :: lexeme ++ rest) = some (token, rest)) :
    Reads after (c :: lexeme) [token] := by
  intro rest found hafter hrest fuel hfuel
  obtain ⟨fuel, rfl⟩ := Nat.exists_eq_succ_of_ne_zero (Nat.ne_of_gt (Nat.zero_lt_of_lt hfuel))
  have hlength : rest.length < fuel := by
    simp only [List.length_append, List.length_cons] at hfuel
    omega
  have hdrop : (c :: lexeme ++ rest).dropWhile isBlank = c :: (lexeme ++ rest) := by
    rw [List.cons_append, List.dropWhile_cons_of_neg (by rw [hblank]; exact Bool.false_ne_true)]
  have htail : scanWithin fuel rest = some found := hrest fuel hlength
  have hhead : next? (c :: (lexeme ++ rest)) = some (token, rest) := hnext rest hafter
  unfold scanWithin
  simp only [hdrop, hhead, htail, Option.map_some, List.singleton_append]

theorem reads_quote (s : String) : Reads Any (quote s) [text s] :=
  reads_of_next? rfl fun rest _ => next?_quote s rest

/-- A decimal number is one token. -/
theorem reads_repr (n : Nat) : Reads Stops (Nat.repr n).toList [natural n] := by
  cases hdigits : (Nat.repr n).toList with
  | nil =>
    rw [Nat.repr_eq_ofList_toDigits, String.toList_ofList] at hdigits
    exact absurd hdigits Nat.toDigits_ne_nil
  | cons c digits =>
    have hc : c.isDigit = true := by
      rw [Nat.repr_eq_ofList_toDigits, String.toList_ofList] at hdigits
      exact isDigit_of_mem_toDigits (hdigits ▸ List.mem_cons_self)
    have hblank : isBlank c = false := by
      have hne (d : Char) (hd : d.isDigit = false) : c ≠ d := ne_of_isDigit hc hd
      simp only [isBlank, hne ' ' rfl, hne '\n' rfl, hne '\r' rfl, hne '\t' rfl, decide_false,
        Bool.or_self]
    apply reads_of_next? hblank
    intro rest hstops
    rw [← hdigits]
    exact next?_repr n hstops

theorem reads_punctuation {c : Char} {token : Token} (h : punctuation? c = some token) :
    Reads Any [c] [token] := by
  have hne (d : Char) (hd : punctuation? d = none) : c ≠ d := by
    rintro rfl
    rw [h] at hd
    exact nomatch hd
  have hblank : isBlank c = false := by
    simp only [isBlank, hne ' ' rfl, hne '\n' rfl, hne '\r' rfl, hne '\t' rfl, decide_false,
      Bool.or_self]
  apply reads_of_next? hblank
  intro rest _
  rw [List.cons_append, next?.eq_4 _ _ (hne _ rfl) (hne _ rfl), h]
  rfl

theorem reads_null : Reads Any "null".toList [null] := reads_of_next? rfl fun _ _ => rfl

theorem reads_bool (value : Bool) :
    Reads Any (if value then "true".toList else "false".toList) [bool value] := by
  cases value with
  | false => exact reads_of_next? rfl fun _ _ => rfl
  | true => exact reads_of_next? rfl fun _ _ => rfl

end Scanning

end BlockRuntime.Json.Token

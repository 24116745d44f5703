import BlockRuntime.Text.Hex

namespace BlockRuntime.Json

inductive Token where
  | leftBracket
  | rightBracket
  | leftBrace
  | rightBrace
  | comma
  | colon
  | null
  | bool (value : Bool)
  | natural (value : Nat)
  | otherNumber
  | text (value : String)
  /-- A string with half of a surrogate pair, which no text corresponds to. -/
  | halfText
  deriving DecidableEq

namespace Token

def isBlank (c : Char) : Bool := c = ' ' || c = '\n' || c = '\r' || c = '\t'

def ofDigits (digits : List Char) : Nat :=
  digits.foldl (fun n c => 10 * n + (c.toNat - 48)) 0

def skipDigits? (chars : List Char) : Option (List Char) :=
  match chars with
  | c :: rest => if c.isDigit then some (rest.dropWhile Char.isDigit) else none
  | [] => none

def skipFraction? : List Char → Option (Bool × List Char)
  | '.' :: rest => (skipDigits? rest).map fun rest => (true, rest)
  | chars => some (false, chars)

def skipExponent? : List Char → Option (Bool × List Char)
  | c :: rest =>
    if c = 'e' || c = 'E' then
      let digits :=
        match rest with
        | '+' :: rest => rest
        | '-' :: rest => rest
        | rest => rest
      (skipDigits? digits).map fun rest => (true, rest)
    else some (false, c :: rest)
  | [] => some (false, [])

def integerPart? : List Char → Option (List Char × List Char)
  -- a leading zero stands alone
  | '0' :: rest => some (['0'], rest)
  | chars =>
    match chars.takeWhile Char.isDigit with
    | [] => none
    | digits => some (digits, chars.dropWhile Char.isDigit)

def unsigned? (chars : List Char) : Option (Token × List Char) :=
  match integerPart? chars with
  | none => none
  | some (digits, rest) =>
    match skipFraction? rest with
    | none => none
    | some (fraction, rest) =>
      match skipExponent? rest with
      | none => none
      | some (exponent, rest) =>
        if fraction || exponent then some (otherNumber, rest)
        else some (natural (ofDigits digits), rest)

def unit? (a b c d : Char) : Option Nat :=
  match Hex.digitValue? a, Hex.digitValue? b, Hex.digitValue? c, Hex.digitValue? d with
  | some a, some b, some c, some d => some (4096 * a + 256 * b + 16 * c + d)
  | _, _, _, _ => none

def shortEscape? (c : Char) : Option Char :=
  if c = '"' || c = '\\' || c = '/' then some c
  else if c = 'b' then some (Char.ofNat 8)
  else if c = 'f' then some (Char.ofNat 12)
  else if c = 'n' then some '\n'
  else if c = 'r' then some '\r'
  else if c = 't' then some '\t'
  else none

def isHighHalf (n : Nat) : Bool := 0xD800 ≤ n && n ≤ 0xDBFF

def isLowHalf (n : Nat) : Bool := 0xDC00 ≤ n && n ≤ 0xDFFF

def ofPair (high low : Nat) : Char := Char.ofNat (0x10000 + 1024 * (high - 0xD800) + (low - 0xDC00))

def prepend (c : Char) : Option (Option (List Char) × List Char) →
    Option (Option (List Char) × List Char)
  | some (some content, rest) => some (some (c :: content), rest)
  | found => found

def spoil : Option (Option (List Char) × List Char) → Option (Option (List Char) × List Char)
  | some (_, rest) => some (none, rest)
  | none => none

/-- The characters of a string from behind its opening quote, and the text behind the closing one.
There are no characters if the string has half of a surrogate pair. -/
def stringBody? : List Char → Option (Option (List Char) × List Char)
  | [] => none
  | '"' :: rest => some (some [], rest)
  | '\\' :: 'u' :: a :: b :: c :: d :: '\\' :: 'u' :: e :: f :: g :: h :: rest =>
    match unit? a b c d with
    | none => none
    | some first =>
      if isHighHalf first then
        match unit? e f g h with
        | none => none
        | some second =>
          if isLowHalf second then prepend (ofPair first second) (stringBody? rest)
          else spoil (stringBody? ('\\' :: 'u' :: e :: f :: g :: h :: rest))
      else if isLowHalf first then
        spoil (stringBody? ('\\' :: 'u' :: e :: f :: g :: h :: rest))
      else prepend (Char.ofNat first) (stringBody? ('\\' :: 'u' :: e :: f :: g :: h :: rest))
  | '\\' :: 'u' :: a :: b :: c :: d :: rest =>
    match unit? a b c d with
    | none => none
    | some first =>
      if isHighHalf first || isLowHalf first then spoil (stringBody? rest)
      else prepend (Char.ofNat first) (stringBody? rest)
  | '\\' :: c :: rest =>
    match shortEscape? c with
    | some c => prepend c (stringBody? rest)
    | none => none
  | c :: rest => if c.toNat < 32 then none else prepend c (stringBody? rest)

def punctuation? (c : Char) : Option Token :=
  if c = '[' then some leftBracket
  else if c = ']' then some rightBracket
  else if c = '\x7b' then some leftBrace
  else if c = '\x7d' then some rightBrace
  else if c = ',' then some comma
  else if c = ':' then some colon
  else none

def word? : List Char → Option (Token × List Char)
  | 'n' :: 'u' :: 'l' :: 'l' :: rest => some (null, rest)
  | 't' :: 'r' :: 'u' :: 'e' :: rest => some (bool true, rest)
  | 'f' :: 'a' :: 'l' :: 's' :: 'e' :: rest => some (bool false, rest)
  | _ => none

def next? (chars : List Char) : Option (Token × List Char) :=
  match chars with
  | [] => none
  | '"' :: rest =>
    match stringBody? rest with
    | some (some content, rest) => some (text (String.ofList content), rest)
    | some (none, rest) => some (halfText, rest)
    | none => none
  | '-' :: rest => (unsigned? rest).map fun found => (otherNumber, found.2)
  | c :: rest =>
    match punctuation? c with
    | some token => some (token, rest)
    | none => if c.isDigit then unsigned? chars else word? chars

def scanWithin : (fuel : Nat) → List Char → Option (List Token)
  | 0, _ => none
  | fuel + 1, chars =>
    match chars.dropWhile isBlank with
    | [] => some []
    | c :: rest =>
      match next? (c :: rest) with
      | some (token, rest) => (scanWithin fuel rest).map (token :: ·)
      | none => none

/-- The tokens of a text. Every token takes up a character, so the length of the text bounds their
number. -/
def scan (chars : List Char) : Option (List Token) := scanWithin (chars.length + 1) chars

end Token

end BlockRuntime.Json

namespace BlockRuntime.Yaml

def isBreak (c : Char) : Bool := c = '\n' || c = Char.ofNat 0x2028 || c = Char.ofNat 0x2029

def isBlank (c : Char) : Bool := c = ' ' || c = '\t'

def atGap : List Char → Bool
  | [] => true
  | c :: _ => isBlank c || isBreak c

def atMarker : List Char → Bool
  | '-' :: '-' :: '-' :: rest => atGap rest
  | '.' :: '.' :: '.' :: rest => atGap rest
  | _ => false

def isNameChar (c : Char) : Bool := c.isAlphanum || c = '-' || c = '_'

def byteOrderMark : Char := Char.ofNat 0xFEFF

structure Mark where
  line : Nat
  column : Nat
  offset : Nat

namespace Mark

def start : Mark := ⟨0, 0, 0⟩

def past (mark : Mark) (c : Char) : Mark :=
  if isBreak c then ⟨mark.line + 1, 0, mark.offset + c.utf8Size⟩
  else ⟨mark.line, mark.column + 1, mark.offset + c.utf8Size⟩

end Mark

structure Place where
  rest : List Char
  mark : Mark

namespace Place

def afterWhile (p : Char → Bool) : List Char → Mark → Place
  | [], mark => ⟨[], mark⟩
  | c :: rest, mark => if p c then afterWhile p rest (mark.past c) else ⟨c :: rest, mark⟩

def dropWhile (p : Char → Bool) (place : Place) : Place := afterWhile p place.rest place.mark

def drop : (count : Nat) → Place → Place
  | count + 1, ⟨c :: rest, mark⟩ => drop count ⟨rest, mark.past c⟩
  | _, place => place

def atLineStart (place : Place) : Bool := place.mark.column = 0

def endLine? (place : Place) : Option Place :=
  let place := place.dropWhile isBlank
  let place :=
    match place.rest with
    | '#' :: _ => place.dropWhile fun c => !isBreak c
    | _ => place
  match place.rest with
  | [] => some place
  | c :: _ => if isBreak c then some (place.drop 1) else none

end Place

def normalizeBreaks : List Char → List Char
  | '\r' :: '\n' :: rest => '\n' :: normalizeBreaks rest
  | c :: rest =>
    (if c = '\r' || c = Char.ofNat 0x85 then '\n' else c) :: normalizeBreaks rest
  | [] => []

def isAllowed (c : Char) : Bool :=
  let n := c.toNat
  n = 9 || n = 10 || n = 13 || (32 ≤ n && n ≤ 126) || n = 0x85 || (0xA0 ≤ n && n ≤ 0xFFFD)
    || 0x10000 ≤ n

end BlockRuntime.Yaml

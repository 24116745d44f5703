import BlockRuntime.Text.Hex
import BlockRuntime.Text.Yaml.Place

namespace BlockRuntime.Yaml

/-- Blanks and breaks that were read and are not yet known to be part of a scalar. -/
inductive Gap where
  | blanks (read : List Char)
  /-- The first break, or none if it was escaped, and the later ones, the last one first. -/
  | breaks (first : List Char) (later : List Char)

namespace Gap

def none : Gap := blanks []

def isNone : Gap → Bool
  | blanks read => read.isEmpty
  | breaks _ _ => false

def hasBreak : Gap → Bool
  | blanks _ => false
  | breaks _ _ => true

def addBlank (c : Char) : Gap → Gap
  | blanks read => blanks (c :: read)
  -- the blanks around a break are dropped
  | breaks first later => breaks first later

def addBreak (c : Char) : Gap → Gap
  | blanks _ => breaks [c] []
  | breaks first later => breaks first (c :: later)

def fold : Gap → List Char
  | blanks read => read
  -- a single break becomes a space, and of several the first one is dropped
  | breaks ['\n'] [] => [' ']
  | breaks ['\n'] later => later
  | breaks first later => later ++ first

end Gap

structure Scanned where
  content : List Char
  /-- The place behind it. A plain scalar takes up the blanks and breaks behind it as well. -/
  next : Place
  crossed : Bool

def endsPlain (flow : Bool) (c : Char) (rest : List Char) : Bool :=
  (c = ':' && atGap rest)
    || (flow && (c = ',' || c = '[' || c = ']' || c = '\x7b' || c = '\x7d'))

def strayColon (flow : Bool) (c : Char) (rest : List Char) : Bool :=
  flow && c = ':' &&
    match rest with
    | d :: _ => d = ',' || d = '?' || d = '[' || d = ']' || d = '\x7b' || d = '\x7d'
    | [] => false

/-- Whether a plain scalar is over at the first character behind a gap: at a comment, at a line that
starts to the left of column `least`, or at the mark of the end of a document. -/
def endsBehindGap (flow : Bool) (least : Nat) (mark : Mark) (c : Char) (rest : List Char) : Bool :=
  c = '#' || (!flow && mark.column < least) || (mark.column = 0 && atMarker (c :: rest))

/-- Goes on with a plain scalar. `read` holds its content so far, the last character first, and `gap`
what stands behind that. Tabs may not stand to the left of column `least`. -/
def plainFrom (flow : Bool) (least : Nat) (read : List Char) (gap : Gap) :
    List Char → Mark → Option Scanned
  | [], mark => some ⟨read.reverse, ⟨[], mark⟩, gap.hasBreak⟩
  | c :: rest, mark =>
    if isBlank c then
      if gap.hasBreak && mark.column < least && c = '\t' then none
      else plainFrom flow least read (gap.addBlank c) rest (mark.past c)
    else if isBreak c then plainFrom flow least read (gap.addBreak c) rest (mark.past c)
    else if !gap.isNone && endsBehindGap flow least mark c rest then
      some ⟨read.reverse, ⟨c :: rest, mark⟩, gap.hasBreak⟩
    else if strayColon flow c rest then none
    else if endsPlain flow c rest then
      some ⟨read.reverse, ⟨c :: rest, mark⟩, gap.hasBreak⟩
    else plainFrom flow least (c :: (gap.fold ++ read)) Gap.none rest (mark.past c)

def indicators : List Char :=
  ['-', '?', ':', ',', '[', ']', '\x7b', '\x7d', '#', '&', '*', '!', '|', '>', '\'', '"', '%', '@',
    Char.ofNat 96]

/-- Whether a plain scalar starts here. A dash starts one if no gap follows it, and outside of flow
collections so do a question mark and a colon. -/
def startsPlain (flow : Bool) : List Char → Bool
  | [] => false
  | c :: rest =>
    if isBlank c || isBreak c then false
    else if c = '-' then !atGap rest
    else if c = '?' || c = ':' then !flow && !atGap rest
    else !indicators.contains c

def plain? (flow : Bool) (least : Nat) (place : Place) : Option Scanned :=
  plainFrom flow least [] Gap.none place.rest place.mark

def singleFrom (read : List Char) (gap : Gap) : List Char → Mark → Option Scanned
  | [], _ => none
  | c :: rest, mark =>
    if isBlank c then singleFrom read (gap.addBlank c) rest (mark.past c)
    else if isBreak c then singleFrom read (gap.addBreak c) rest (mark.past c)
    else if mark.column = 0 && atMarker (c :: rest) then none
    else if c = '\'' then
      match rest with
      | '\'' :: rest =>
        singleFrom ('\'' :: (gap.fold ++ read)) Gap.none rest ((mark.past c).past c)
      | rest => some ⟨(gap.fold ++ read).reverse, ⟨rest, mark.past c⟩, false⟩
    else singleFrom (c :: (gap.fold ++ read)) Gap.none rest (mark.past c)

def shortEscape? (c : Char) : Option Char :=
  if c = '0' then some (Char.ofNat 0)
  else if c = 'a' then some (Char.ofNat 7)
  else if c = 'b' then some (Char.ofNat 8)
  else if c = 't' || c = '\t' then some '\t'
  else if c = 'n' then some '\n'
  else if c = 'v' then some (Char.ofNat 11)
  else if c = 'f' then some (Char.ofNat 12)
  else if c = 'r' then some '\r'
  else if c = 'e' then some (Char.ofNat 27)
  else if c = ' ' || c = '"' || c = '/' || c = '\\' then some c
  else if c = 'N' then some (Char.ofNat 0x85)
  else if c = '_' then some (Char.ofNat 0xA0)
  else if c = 'L' then some (Char.ofNat 0x2028)
  else if c = 'P' then some (Char.ofNat 0x2029)
  else none

def escapeDigits (c : Char) : Nat :=
  if c = 'x' then 2 else if c = 'u' then 4 else if c = 'U' then 8 else 0

def charOf? (n : Nat) : Option Char :=
  if n < 0xD800 || (0xDFFF < n && n < 0x110000) then some (Char.ofNat n) else none

structure Quoted where
  read : List Char
  gap : Gap
  /-- The number of digits of an escape that are still to come, and what the others stand for. -/
  digits : Nat
  value : Nat

namespace Quoted

def start : Quoted := ⟨[], Gap.none, 0, 0⟩

def add (state : Quoted) (c : Char) : Quoted :=
  { state with read := c :: (state.gap.fold ++ state.read), gap := Gap.none }

def expect (state : Quoted) (digits : Nat) : Quoted :=
  { state with
    read := state.gap.fold ++ state.read, gap := Gap.none, digits := digits, value := 0 }

/-- Goes on behind an escaped line break, which itself stands for nothing. -/
def join (state : Quoted) : Quoted :=
  { state with read := state.gap.fold ++ state.read, gap := Gap.breaks [] [] }

def addDigit? (state : Quoted) (digit : Nat) : Option Quoted :=
  let value := 16 * state.value + digit
  match state.digits with
  | 0 => none
  -- the last digit makes the character
  | 1 => (charOf? value).map fun c => { state with read := c :: state.read, digits := 0 }
  | digits + 1 => some { state with digits := digits, value := value }

end Quoted

def doubleFrom (state : Quoted) : List Char → Mark → Option Scanned
  | [], _ => none
  | c :: rest, mark =>
    if state.digits ≠ 0 then
      match (Hex.digitValue? c).bind state.addDigit? with
      | some state => doubleFrom state rest (mark.past c)
      | none => none
    else if isBlank c then doubleFrom { state with gap := state.gap.addBlank c } rest (mark.past c)
    else if isBreak c then doubleFrom { state with gap := state.gap.addBreak c } rest (mark.past c)
    else if mark.column = 0 && atMarker (c :: rest) then none
    else if c = '"' then
      some ⟨(state.gap.fold ++ state.read).reverse, ⟨rest, mark.past c⟩, false⟩
    else if c = '\\' then
      match rest with
      | [] => none
      | d :: rest =>
        let mark := (mark.past c).past d
        if isBreak d then doubleFrom state.join rest mark
        else if escapeDigits d ≠ 0 then doubleFrom (state.expect (escapeDigits d)) rest mark
        else
          match shortEscape? d with
          | some c => doubleFrom (state.add c) rest mark
          | none => none
    else doubleFrom (state.add c) rest (mark.past c)

end BlockRuntime.Yaml

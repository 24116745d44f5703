import BlockRuntime.Text.Yaml.Basic
import BlockRuntime.Text.Yaml.Place

namespace BlockRuntime.Yaml

inductive Token where
  | version (major minor : Nat)
  | handle (name : String) (expansion : Bytes)
  | documentStart
  | documentEnd
  | sequenceStart
  | mappingStart
  | blockEnd
  | flowSequenceStart
  | flowSequenceEnd
  | flowMappingStart
  | flowMappingEnd
  | item
  | comma
  | key
  | value
  | reference (name : String)
  | anchor (name : String)
  | tag (handle : String) (suffix : Bytes)
  | scalar (style : Style) (content : String)
  deriving DecidableEq

def anchorEnds : List Char := ['?', ':', ',', ']', '\x7d', '%', '@', Char.ofNat 96]

def tagSigns : List Char :=
  [';', '/', '?', ':', '@', '&', '=', '+', '$', '.', '!', '~', '*', '\'', '(', ')']

/-- Whether a character may stand in a tag. Commas and square brackets may only where they cannot
belong to a flow collection. -/
def isTagChar (enclosed : Bool) (c : Char) : Bool :=
  isNameChar c || tagSigns.contains c || (enclosed && (c = ',' || c = '[' || c = ']'))

/-- How many bytes of a character are still to come behind one of its bytes, if `more` were to come
from that one on. -/
def bytesBehind? (more byte : Nat) : Option Nat :=
  if more ≠ 0 then if 0x80 ≤ byte && byte < 0xC0 then some (more - 1) else none
  else if byte < 0x80 then some 0
  else if byte < 0xC0 then none
  else if byte < 0xE0 then some 1
  else if byte < 0xF0 then some 2
  else if byte < 0xF8 then some 3
  else none

def tagTextFrom? (enclosed : Bool) (more : Nat) (read : Bytes) :
    List Char → Mark → Option (Bytes × Place)
  | '%' :: high :: low :: rest, mark =>
    match Hex.ofDigits? [high, low] with
    | some [byte] =>
      match bytesBehind? more byte.toNat with
      | some more =>
        tagTextFrom? enclosed more (byte :: read) rest (((mark.past '%').past high).past low)
      | none => none
    | _ => none
  | c :: rest, mark =>
    if more ≠ 0 || c = '%' then none
    else if isTagChar enclosed c then
      tagTextFrom? enclosed 0 (UInt8.ofNat c.toNat :: read) rest (mark.past c)
    else some (read.reverse, ⟨c :: rest, mark⟩)
  | [], mark => if more ≠ 0 then none else some (read.reverse, ⟨[], mark⟩)

/-- The part of a text of bytes that counts: a zero byte ends it. -/
def beforeZero (text : Bytes) : Bytes := text.takeWhile (· ≠ 0)

def closedHandle (name : List Char) : String := String.ofList ('!' :: name ++ ['!'])

namespace Place

def takeName (place : Place) : List Char × Place :=
  (place.rest.takeWhile isNameChar, place.dropWhile isNameChar)

def anchorName? (place : Place) : Option (String × Place) :=
  let (name, next) := place.takeName
  let ends := atGap next.rest || next.rest.head?.any anchorEnds.contains
  if !name.isEmpty && ends then some (String.ofList name, next) else none

def tagText? (enclosed : Bool) (place : Place) : Option (Bytes × Place) :=
  match tagTextFrom? enclosed 0 [] place.rest place.mark with
  | some (text, next) => if text.isEmpty then none else some (beforeZero text, next)
  | none => none

def takeHandle (place : Place) : List Char × Bool × Place :=
  let (name, next) := (place.drop 1).takeName
  match next.rest with
  | '!' :: _ => (name, true, next.drop 1)
  | _ => (name, false, next)

/-- Reads a tag: in angle brackets, behind a handle, or behind a mark alone. A mark with nothing
behind it is a tag of its own. -/
def tag? (place : Place) : Option (Token × Place) :=
  match place.rest with
  | _ :: '<' :: _ =>
    match (place.drop 2).tagText? true with
    | some (text, next) =>
      if next.rest.head? = some '>' then some (.tag "" text, next.drop 1) else none
    | none => none
  | _ =>
    match place.takeHandle with
    | (name, true, next) =>
      (next.tagText? false).map fun (text, next) => (.tag (closedHandle name) text, next)
    | (name, false, next) =>
      (tagTextFrom? false 0 (octets name).reverse next.rest next.mark).map fun (text, next) =>
        let text := beforeZero text
        (if text.isEmpty then .tag "" (octets ['!']) else .tag "!" text, next)

def versionNumber? (place : Place) : Option (Nat × Place) :=
  let digits := place.rest.takeWhile Char.isDigit
  if digits.length ≤ 9 then
    (ofDigits? 10 digits).map fun number => (number, place.dropWhile Char.isDigit)
  else none

def version? (place : Place) : Option (Token × Place) :=
  match (place.dropWhile isBlank).versionNumber? with
  | some (major, place) =>
    if place.rest.head? = some '.' then
      (place.drop 1).versionNumber?.map fun (minor, place) => (.version major minor, place)
    else none
  | none => none

def handle? (place : Place) : Option (Token × Place) :=
  let place := place.dropWhile isBlank
  let (name, closed, next) := place.takeHandle
  let isHandle := place.rest.head? = some '!' && (closed || name.isEmpty)
  if isHandle && next.rest.head?.any isBlank then
    match (next.dropWhile isBlank).tagText? true with
    | some (text, next) =>
      let name := if closed then closedHandle name else "!"
      if atGap next.rest then some (.handle name text, next) else none
    | none => none
  else none

def directive? (place : Place) : Option (Token × Place) :=
  let (name, next) := (place.drop 1).takeName
  let found? :=
    if !atGap next.rest then none
    else if String.ofList name = "YAML" then next.version?
    else if String.ofList name = "TAG" then next.handle?
    else none
  match found? with
  | some (token, next) => next.endLine?.map fun next => (token, next)
  | none => none

end Place

end BlockRuntime.Yaml

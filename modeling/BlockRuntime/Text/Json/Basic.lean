import BlockRuntime.Text.Document

namespace BlockRuntime

/-- A JSON value, as far as typed values need it. -/
inductive Json where
  | null
  | bool (value : Bool)
  | natural (value : Nat)
  | text (value : String)
  | array (items : List Json)
  | object (fields : List (String × Json))
  /-- A well-formed value that no typed value is read from: a number with a sign, a fraction or an
  exponent, or a string that has half of a surrogate pair, be it a value or a field name. -/
  | unreadable

namespace Json

def controlEscape (c : Char) : List Char :=
  ['\\', 'u', '0', '0', Nat.digitChar (c.toNat / 16), Nat.digitChar (c.toNat % 16)]

def escape (c : Char) : List Char :=
  if c = '"' then ['\\', '"']
  else if c = '\\' then ['\\', '\\']
  else if c = '\n' then ['\\', 'n']
  else if c = '\r' then ['\\', 'r']
  else if c = '\t' then ['\\', 't']
  else if c = Char.ofNat 8 then ['\\', 'b']
  else if c = Char.ofNat 12 then ['\\', 'f']
  else if c.toNat < 32 then controlEscape c
  else [c]

def quote (text : String) : List Char := '"' :: text.toList.flatMap escape ++ ['"']

mutual

/-- The compact text of a value. An unreadable value has no text of its own and is written as
null. -/
def chars : Json → List Char
  | null => "null".toList
  | bool value => if value then "true".toList else "false".toList
  | natural value => (Nat.repr value).toList
  | text value => quote value
  | array items => '[' :: itemChars items ++ [']']
  | object fields => '\x7b' :: fieldChars fields ++ ['\x7d']
  | unreadable => "null".toList

def itemChars : List Json → List Char
  | [] => []
  | [item] => chars item
  | item :: rest => chars item ++ ',' :: itemChars rest

def fieldChars : List (String × Json) → List Char
  | [] => []
  | [(name, value)] => quote name ++ ':' :: chars value
  | (name, value) :: rest => quote name ++ ':' :: chars value ++ ',' :: fieldChars rest

end

def render (value : Json) : String := String.ofList value.chars

def padTo? (length : Nat) (items : List Json) : Option (List (Option Json)) :=
  if items.length ≤ length then
    some (items.map some ++ List.replicate (length - items.length) none)
  else none

/-- A structure is an object with its fields in any order, or an array with its fields in order, of
which some may be missing at the end. -/
def members? (names : List String) : Json → Option (List (Option Json))
  | object fields => DocumentForm.ofBindings? names fields
  | array items => padTo? names.length items
  | _ => none

def natural? : Json → Option Nat
  | natural value => some value
  | _ => none

def text? : Json → Option String
  | text value => some value
  | _ => none

def isNull : Json → Bool
  | null => true
  | _ => false

def form : DocumentForm Json := ⟨members?, natural?, text?, isNull⟩

def variant? : Json → Option String
  | text name => some name
  | object [(name, null)] => some name
  | _ => none

end Json

end BlockRuntime

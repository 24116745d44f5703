import BlockRuntime.Text.Json.Basic
import BlockRuntime.Text.Json.Token

namespace BlockRuntime.Json

/-- An object with a name that no text corresponds to is unreadable. -/
def ofFields (fields : List (Option String × Json)) : Json :=
  match fields.mapM fun field => field.1.map fun name => (name, field.2) with
  | some fields => object fields
  | none => unreadable

def fieldName? : Token → Option (Option String)
  | .text name => some (some name)
  | .halfText => some none
  | _ => none

mutual

def value? : (fuel : Nat) → List Token → Option (Json × List Token)
  | 0, _ => none
  | fuel + 1, tokens =>
    match tokens with
    | .null :: rest => some (null, rest)
    | .bool b :: rest => some (bool b, rest)
    | .natural n :: rest => some (natural n, rest)
    | .otherNumber :: rest => some (unreadable, rest)
    | .text s :: rest => some (text s, rest)
    | .halfText :: rest => some (unreadable, rest)
    | .leftBracket :: .rightBracket :: rest => some (array [], rest)
    | .leftBracket :: rest =>
      match items? fuel rest with
      | some (items, rest) => some (array items, rest)
      | none => none
    | .leftBrace :: .rightBrace :: rest => some (object [], rest)
    | .leftBrace :: rest =>
      match fields? fuel rest with
      | some (fields, rest) => some (ofFields fields, rest)
      | none => none
    | _ => none

def items? : (fuel : Nat) → List Token → Option (List Json × List Token)
  | 0, _ => none
  | fuel + 1, tokens =>
    match value? fuel tokens with
    | some (item, .rightBracket :: rest) => some ([item], rest)
    | some (item, .comma :: rest) =>
      match items? fuel rest with
      | some (items, rest) => some (item :: items, rest)
      | none => none
    | _ => none

def fields? : (fuel : Nat) → List Token → Option (List (Option String × Json) × List Token)
  | 0, _ => none
  | fuel + 1, tokens =>
    match tokens with
    | token :: .colon :: rest =>
      match fieldName? token, value? fuel rest with
      | some name, some (value, .rightBrace :: rest) => some ([(name, value)], rest)
      | some name, some (value, .comma :: rest) =>
        match fields? fuel rest with
        | some (fields, rest) => some ((name, value) :: fields, rest)
        | none => none
      | _, _ => none
    | _ => none

end

/-- The value that a list of tokens is. Every step down takes up a token, so twice their number bounds
the depth. -/
def ofTokens? (tokens : List Token) : Option Json :=
  match value? (2 * tokens.length + 1) tokens with
  | some (value, []) => some value
  | _ => none

def parse? (text : String) : Option Json :=
  match Token.scan text.toList with
  | some tokens => ofTokens? tokens
  | none => none

end BlockRuntime.Json

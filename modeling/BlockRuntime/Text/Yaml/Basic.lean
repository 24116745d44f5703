import BlockRuntime.Text.Document
import BlockRuntime.Text.Hex

namespace BlockRuntime

namespace Yaml

inductive Style where
  | plain
  | literal
  | other
  deriving DecidableEq

inductive Node where
  | scalar (style : Style) (tag : Option Bytes) (content : String)
  | sequence (items : List Node)
  | mapping (entries : List (Node × Node))
  | reference (number : Nat)

def Node.missing : Node := scalar .plain none ""

end Yaml

open Yaml

structure Yaml where
  node : Node
  anchored : List (Nat × Node)

namespace Yaml

def octets (text : List Char) : Bytes := text.map fun c => UInt8.ofNat c.toNat

def commonTags : Bytes := octets "tag:yaml.org,2002:".toList

def numberTag : Bytes := commonTags ++ octets "int".toList

def nullTag : Bytes := commonTags ++ octets "null".toList

def resolved (yaml : Yaml) : Node :=
  match yaml.node with
  | .reference number => (yaml.anchored.lookup number).getD Node.missing
  | node => node

def digitValues? (base : Nat) (digits : List Char) : Option (List Nat) :=
  digits.mapM fun c =>
    match Hex.digitValue? c with
    | some n => if n < base then some n else none
    | none => none

def ofDigits? (base : Nat) (digits : List Char) : Option Nat :=
  match digitValues? base digits with
  | some (first :: rest) => some (rest.foldl (fun n d => base * n + d) first)
  | _ => none

def decimal? : List Char → Option Nat
  | ['0'] => some 0
  | '0' :: _ => none
  | digits => ofDigits? 10 digits

/-- The number that a text stands for, without its sign: decimal, or behind a mark hexadecimal, octal
or binary. -/
def magnitude? : List Char → Option Nat
  | '0' :: 'x' :: digits => ofDigits? 16 digits
  | '0' :: 'o' :: digits => ofDigits? 8 digits
  | '0' :: 'b' :: digits => ofDigits? 2 digits
  | digits => decimal? digits

def number? (content : String) : Option Nat :=
  match content.toList with
  | '+' :: digits => magnitude? digits
  | digits => magnitude? digits

def natural? (yaml : Yaml) : Option Nat :=
  match yaml.resolved with
  | .scalar .plain _ content => number? content
  | .scalar .literal tag content => if tag = some numberTag then number? content else none
  | _ => none

def text? (yaml : Yaml) : Option String :=
  match yaml.resolved with
  | .scalar _ _ content => some content
  | _ => none

def nullWords : List String := ["~", "null", "Null", "NULL"]

def isNull (yaml : Yaml) : Bool :=
  match yaml.resolved with
  | .scalar .plain none content => content = "" || nullWords.contains content
  | .scalar .plain (some tag) content => tag = nullTag && nullWords.contains content
  | _ => false

def members? (names : List String) (yaml : Yaml) : Option (List (Option Yaml)) :=
  match yaml.resolved with
  | .mapping entries =>
    let bindings? := entries.mapM fun entry =>
      (Yaml.mk entry.1 yaml.anchored).text?.map fun name => (name, Yaml.mk entry.2 yaml.anchored)
    bindings?.bind (DocumentForm.ofBindings? names)
  | _ => none

def form : DocumentForm Yaml := ⟨members?, natural?, text?, isNull⟩

end Yaml

end BlockRuntime

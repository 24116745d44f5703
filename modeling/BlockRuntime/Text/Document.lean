/-!
Structured documents, seen through what a reader of typed values asks of them: the members of a
structure, a natural number, a text, or nothing. JSON and YAML each answer in their own way.
-/

namespace BlockRuntime

/-- How typed values are found in a document with nodes `ν`. -/
structure DocumentForm (ν : Type) where
  /-- The members of a structure with the given field names, in the order of the names. A member may
  be missing; a structure that has one of the fields twice is none. -/
  members? : List String → ν → Option (List (Option ν))
  natural? : ν → Option Nat
  text? : ν → Option String
  isNull : ν → Bool

namespace DocumentForm

variable {ν α : Type}

/-- The value of a field among bindings: absent if it is not bound, and refused if it is bound more
than once. -/
def uniqueField? (bindings : List (String × ν)) (name : String) : Option (Option ν) :=
  match bindings.filter fun binding => binding.1 = name with
  | [] => some none
  | [binding] => some (some binding.2)
  | _ => none

def ofBindings? (names : List String) (bindings : List (String × ν)) :
    Option (List (Option ν)) :=
  names.mapM (uniqueField? bindings)

def u32? (form : DocumentForm ν) (node : ν) : Option UInt32 :=
  match form.natural? node with
  | some n => if n < UInt32.size then some (UInt32.ofNat n) else none
  | none => none

def u64? (form : DocumentForm ν) (node : ν) : Option UInt64 :=
  match form.natural? node with
  | some n => if n < UInt64.size then some (UInt64.ofNat n) else none
  | none => none

def required (read : ν → Option α) : Option ν → Option α
  | some node => read node
  | none => none

def withDefault (fallback : α) (read : ν → Option α) : Option ν → Option α
  | some node => read node
  | none => some fallback

/-- A member that may be missing or stand for nothing. -/
def optional (form : DocumentForm ν) (read : ν → Option α) : Option ν → Option (Option α)
  | some node => if form.isNull node then some none else (read node).map some
  | none => some none

end DocumentForm

end BlockRuntime

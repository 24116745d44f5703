import BlockRuntime.Weight

namespace BlockRuntime

inductive DispatchClass where
  | normal
  | operational
  /-- Work that must be included whatever it does to the block's limits. -/
  | mandatory
  deriving DecidableEq

namespace DispatchClass

instance : Inhabited DispatchClass := ⟨normal⟩

def all : List DispatchClass := [normal, operational, mandatory]

def nonMandatory : List DispatchClass := [normal, operational]

def name : DispatchClass → String
  | normal => "Normal"
  | operational => "Operational"
  | mandatory => "Mandatory"

def tag : DispatchClass → UInt8
  | normal => 0
  | operational => 1
  | mandatory => 2

def ofTag? (n : UInt8) : Option DispatchClass :=
  if n = 0 then some normal else if n = 1 then some operational
  else if n = 2 then some mandatory else none

def codec : Codec DispatchClass where
  encode c := [c.tag]
  read
    | [] => .error .endOfBuffer
    | b :: rest =>
      match ofTag? b with
      | some c => .ok (c, rest)
      | none => .error (.invalidEnum b)
  size _ := 1

theorem mem_all (c : DispatchClass) : c ∈ all := by cases c <;> decide

end DispatchClass

structure PerClass (α : Type) where
  normal : α
  operational : α
  mandatory : α
  deriving DecidableEq

namespace PerClass

variable {α : Type}

instance [Inhabited α] : Inhabited (PerClass α) := ⟨⟨default, default, default⟩⟩

def ofFn (f : DispatchClass → α) : PerClass α := ⟨f .normal, f .operational, f .mandatory⟩

def get (family : PerClass α) : DispatchClass → α
  | .normal => family.normal
  | .operational => family.operational
  | .mandatory => family.mandatory

def set (family : PerClass α) (c : DispatchClass) (value : α) : PerClass α :=
  match c with
  | .normal => { family with normal := value }
  | .operational => { family with operational := value }
  | .mandatory => { family with mandatory := value }

def toList (family : PerClass α) : List α := [family.normal, family.operational, family.mandatory]

def codec (item : Codec α) : Codec (PerClass α) :=
  (item.pair (item.pair item)).through
    (fun parts => ⟨parts.1, parts.2.1, parts.2.2⟩)
    (fun family => (family.normal, family.operational, family.mandatory))

@[simp] theorem get_ofFn (f : DispatchClass → α) (c : DispatchClass) : (ofFn f).get c = f c := by
  cases c <;> rfl

theorem get_set (family : PerClass α) (c d : DispatchClass) (value : α) :
    (family.set c value).get d = if d = c then value else family.get d := by
  cases c <;> cases d <;> rfl

@[simp] theorem get_set_self (family : PerClass α) (c : DispatchClass) (value : α) :
    (family.set c value).get c = value := by
  cases c <;> rfl

@[ext] theorem ext {a b : PerClass α} (h : ∀ c, a.get c = b.get c) : a = b := by
  have hn := h .normal
  have ho := h .operational
  have hm := h .mandatory
  cases a; cases b
  simp only [get] at hn ho hm
  rw [hn, ho, hm]

end PerClass

abbrev WeightLedger := PerClass Weight

namespace WeightLedger

def empty : WeightLedger := PerClass.ofFn fun _ => Weight.zero

def total (ledger : WeightLedger) : Weight :=
  DispatchClass.all.foldl (fun sum c => sum.saturatingAdd (ledger.get c)) Weight.zero

def accrue (ledger : WeightLedger) (c : DispatchClass) (weight : Weight) : WeightLedger :=
  ledger.set c ((ledger.get c).saturatingAdd weight)

def checkedAccrue? (ledger : WeightLedger) (c : DispatchClass) (weight : Weight) :
    Option WeightLedger :=
  ((ledger.get c).checkedAdd? weight).map (ledger.set c)

def reduce (ledger : WeightLedger) (c : DispatchClass) (weight : Weight) : WeightLedger :=
  ledger.set c ((ledger.get c).saturatingSub weight)

def codec : Codec WeightLedger := PerClass.codec Weight.codec

end WeightLedger

end BlockRuntime

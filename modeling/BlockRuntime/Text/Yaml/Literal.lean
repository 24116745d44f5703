import BlockRuntime.Text.Hex
import BlockRuntime.Text.Yaml.Place

namespace BlockRuntime.Yaml

inductive Chomp where
  | strip
  | clip
  | keep

structure LiteralHead where
  chomp : Chomp
  /-- How much deeper than its surroundings the scalar is indented, or zero to find that out. -/
  deeper : Nat

def Chomp.ofChar? (c : Char) : Option Chomp :=
  if c = '+' then some .keep else if c = '-' then some .strip else none

def Place.takeChomp (place : Place) : Option Chomp × Place :=
  match place.rest.head?.bind Chomp.ofChar? with
  | some chomp => (some chomp, place.drop 1)
  | none => (none, place)

def Place.takeDigit (place : Place) : Option Nat × Place :=
  match place.rest.head?.bind fun c => if c.isDigit then Hex.digitValue? c else none with
  | some digit => (some digit, place.drop 1)
  | none => (none, place)

/-- The head of an indented scalar from behind its mark: at most one digit and one sign, in either
order. -/
def literalHead? (place : Place) : Option (LiteralHead × Place) :=
  let (before, next) := place.takeChomp
  let (digit, next) := next.takeDigit
  let (behind, next) := if before.isSome then (none, next) else next.takeChomp
  if digit = some 0 then none
  else some (⟨(before <|> behind).getD .clip, digit.getD 0⟩, next)

/-- The empty lines before a line with content, the last break first, how far the widest of them
reaches, and the place of the content. -/
def emptyLines? (indent : Nat) (breaks : List Char) (widest : Nat) :
    List Char → Mark → Option (List Char × Nat × Place)
  | [], mark => some (breaks, max widest mark.column, ⟨[], mark⟩)
  | c :: rest, mark =>
    -- an indentation of zero is not known yet
    let inside := indent = 0 || mark.column < indent
    if c = ' ' && inside then emptyLines? indent breaks widest rest (mark.past c)
    else if c = '\t' && inside then none
    else if isBreak c then
      emptyLines? indent (c :: breaks) (max widest mark.column) rest (mark.past c)
    else some (breaks, max widest mark.column, ⟨c :: rest, mark⟩)

def startsBlank : List Char → Bool
  | c :: _ => isBlank c
  | [] => false

/-- Whether a break becomes a space or nothing: the break of a folded scalar between two lines that
start with no blank. -/
def foldsBreak (folded : Bool) (first : List Char) (blankBefore blankBehind : Bool) : Bool :=
  folded && first = ['\n'] && !blankBefore && !blankBehind

/-- Goes on with the lines of an indented scalar. `read` holds its content so far, `first` the break
behind that and `later` those of the empty lines that follow, all with the last character first. -/
def literalLines? (folded : Bool) (chomp : Chomp) (indent : Nat) :
    (fuel : Nat) → (read first later : List Char) → (blankBefore : Bool) → Place →
    Option (List Char × Place)
  | 0, _, _, _, _, _ => none
  | fuel + 1, read, first, later, blankBefore, place =>
    if place.mark.column = indent && !place.rest.isEmpty then
      let blank := startsBlank place.rest
      let between :=
        if foldsBreak folded first blankBefore blank then (if later.isEmpty then [' '] else [])
        else first
      let line := place.rest.takeWhile fun c => !isBreak c
      let lineEnd := place.dropWhile fun c => !isBreak c
      let next := lineEnd.drop 1
      match emptyLines? indent [] 0 next.rest next.mark with
      | some (breaks, _, next) =>
        literalLines? folded chomp indent fuel (line.reverse ++ (later ++ (between ++ read)))
          (lineEnd.rest.take 1) breaks blank next
      | none => none
    else
      let content :=
        match chomp with
        | .strip => read
        | .clip => first ++ read
        | .keep => later ++ (first ++ read)
      some (content.reverse, place)

def literal? (folded : Bool) (least : Nat) (place : Place) : Option (List Char × Place) :=
  match literalHead? place with
  | none => none
  | some (head, place) =>
    match place.endLine? with
    | none => none
    | some place =>
      let indent := if head.deeper = 0 then 0 else (least - 1) + head.deeper
      match emptyLines? indent [] 0 place.rest place.mark with
      | none => none
      | some (breaks, widest, place) =>
        let indent := if indent = 0 then max (max widest least) 1 else indent
        literalLines? folded head.chomp indent (place.rest.length + 1) [] [] breaks false place

end BlockRuntime.Yaml

import BlockRuntime.Text.Yaml.Literal
import BlockRuntime.Text.Yaml.Scalar
import BlockRuntime.Text.Yaml.Token
/-!
The layout of YAML texts: how columns open and close block collections, and which tokens turn out to
be keys. A key is known only by the colon behind it, so its mark is put among tokens that were read
before; the colon has to follow on the same line, at most 1024 bytes behind the start of the key.
-/

namespace BlockRuntime.Yaml

/-- A token that is a key if a colon follows. -/
structure PossibleKey where
  mark : Mark
  number : Nat
  required : Bool

def PossibleKey.isLate (key : PossibleKey) (mark : Mark) : Bool :=
  key.mark.line < mark.line || key.mark.offset + 1024 < mark.offset

structure Layout where
  place : Place
  /-- The tokens so far, the last one first. -/
  tokens : List Token
  count : Nat
  columns : List Nat
  /-- The possible key of the innermost flow collection, or of the text outside of them. -/
  key : Option PossibleKey
  /-- The possible keys around each open flow collection, the innermost one first. -/
  outerKeys : List (Option PossibleKey)
  keyAllowed : Bool

/-- Goes on over blanks, breaks and comments, and tells whether a key may start behind them. A byte
order mark may start a line. -/
def skipFrom (flow keyAllowed comment : Bool) : List Char → Mark → Place × Bool
  | [], mark => (⟨[], mark⟩, keyAllowed)
  | c :: rest, mark =>
    -- outside of flow collections a tab may not stand where a key may start
    let isBlankHere := c = ' ' || (c = '\t' && (flow || !keyAllowed))
    if isBreak c then skipFrom flow (keyAllowed || !flow) false rest (mark.past c)
    else if comment || isBlankHere || (mark.column = 0 && c = byteOrderMark) then
      skipFrom flow keyAllowed comment rest (mark.past c)
    else if c = '#' then skipFrom flow keyAllowed true rest (mark.past c)
    else (⟨c :: rest, mark⟩, keyAllowed)

namespace Layout

def start (text : List Char) : Layout := ⟨⟨text, Mark.start⟩, [], 0, [], none, [], true⟩

def inFlow (layout : Layout) : Bool := !layout.outerKeys.isEmpty

def column (layout : Layout) : Nat := layout.place.mark.column

def least (layout : Layout) : Nat := (layout.columns.head?.map (· + 1)).getD 0

def skip (layout : Layout) : Layout :=
  let (place, keyAllowed) :=
    skipFrom layout.inFlow layout.keyAllowed false layout.place.rest layout.place.mark
  { layout with place := place, keyAllowed := keyAllowed }

def add (token : Token) (next : Place) (layout : Layout) : Layout :=
  { layout with place := next, tokens := token :: layout.tokens, count := layout.count + 1 }

def take (length : Nat) (token : Token) (layout : Layout) : Layout :=
  layout.add token (layout.place.drop length)

def insert (number : Nat) (token : Token) (layout : Layout) : Layout :=
  let later := layout.count - number
  { layout with
    tokens := layout.tokens.take later ++ token :: layout.tokens.drop later
    count := layout.count + 1 }

/-- No key starts where one was possible. A required one may not be missing. -/
def dropKey? (layout : Layout) : Option Layout :=
  if layout.key.any (·.required) then none else some { layout with key := none }

def dropLateKey? (layout : Layout) : Option Layout :=
  if layout.key.any (·.isLate layout.place.mark) then layout.dropKey? else some layout

def noteKey? (layout : Layout) : Option Layout :=
  if layout.keyAllowed then
    -- in the column of a block collection nothing but a key can start
    let required := !layout.inFlow && layout.columns.head? = some layout.column
    layout.dropKey?.map fun layout =>
      { layout with key := some ⟨layout.place.mark, layout.count, required⟩ }
  else some layout

def closeBlocks (closes : Nat → Bool) (layout : Layout) : Layout :=
  if layout.inFlow then layout
  else
    let closed := layout.columns.takeWhile closes
    { layout with
      tokens := closed.map (fun _ => Token.blockEnd) ++ layout.tokens
      count := layout.count + closed.length
      columns := layout.columns.dropWhile closes }

/-- Opens a block collection at a column, behind the first `number` tokens, unless one is open there
or further to the right. -/
def openBlock (token : Token) (column number : Nat) (layout : Layout) : Layout :=
  if layout.inFlow || column < layout.least then layout
  else { layout.insert number token with columns := column :: layout.columns }

def openBlock? (token : Token) (layout : Layout) : Option Layout :=
  if !layout.inFlow && !layout.keyAllowed then none
  else some (layout.openBlock token layout.column layout.count)

def documentToken? (read? : Place → Option (Token × Place)) (layout : Layout) : Option Layout :=
  match (layout.closeBlocks fun _ => true).dropKey? with
  | some layout =>
    (read? layout.place).map fun (token, next) =>
      { layout with keyAllowed := false }.add token next
  | none => none

def flowStart? (token : Token) (layout : Layout) : Option Layout :=
  layout.noteKey?.map fun layout =>
    { layout with key := none, outerKeys := layout.key :: layout.outerKeys, keyAllowed := true }.take
      1 token

def flowEnd? (token : Token) (layout : Layout) : Option Layout :=
  layout.dropKey?.map fun layout =>
    let layout :=
      match layout.outerKeys with
      | key :: outerKeys => { layout with key := key, outerKeys := outerKeys }
      | [] => layout
    { layout with keyAllowed := false }.take 1 token

def comma? (layout : Layout) : Option Layout :=
  layout.dropKey?.map fun layout => { layout with keyAllowed := true }.take 1 .comma

def dash? (layout : Layout) : Option Layout :=
  let opened? := if layout.inFlow then some layout else layout.openBlock? .sequenceStart
  (opened?.bind dropKey?).map fun layout => { layout with keyAllowed := true }.take 1 .item

def keyMark? (layout : Layout) : Option Layout :=
  ((layout.openBlock? .mappingStart).bind dropKey?).map fun layout =>
    { layout with keyAllowed := !layout.inFlow }.take 1 .key

def colon? (layout : Layout) : Option Layout :=
  match layout.key with
  | some key =>
    -- the possible key has turned out to be one: its mark goes in front of the tokens since then
    let layout :=
      (layout.insert key.number .key).openBlock .mappingStart key.mark.column key.number
    some ({ layout with key := none, keyAllowed := false }.take 1 .value)
  | none =>
    (layout.openBlock? .mappingStart).map fun layout =>
      { layout with keyAllowed := !layout.inFlow }.take 1 .value

def keyStart? (read? : Place → Option (Token × Place)) (layout : Layout) : Option Layout :=
  match layout.noteKey? with
  | some layout =>
    (read? layout.place).map fun (token, next) =>
      { layout with keyAllowed := false }.add token next
  | none => none

def tag? (layout : Layout) : Option Layout :=
  layout.keyStart? fun place =>
    match place.tag? with
    | some (token, next) =>
      -- only inside a flow collection may a comma follow a tag at once
      if atGap next.rest || (layout.inFlow && next.rest.head? = some ',') then some (token, next)
      else none
    | none => none

def quoted? (read? : List Char → Mark → Option Scanned) (layout : Layout) : Option Layout :=
  layout.keyStart? fun place =>
    let inside := place.drop 1
    (read? inside.rest inside.mark).map fun scanned =>
      (.scalar .other (String.ofList scanned.content), scanned.next)

def plain? (layout : Layout) : Option Layout :=
  match layout.noteKey? with
  | some layout =>
    (Yaml.plain? layout.inFlow layout.least layout.place).map fun scanned =>
      { layout with keyAllowed := scanned.crossed }.add
        (.scalar .plain (String.ofList scanned.content)) scanned.next
  | none => none

def literal? (folded : Bool) (layout : Layout) : Option Layout :=
  match layout.dropKey? with
  | some layout =>
    let style := if folded then Style.other else .literal
    (Yaml.literal? folded layout.least (layout.place.drop 1)).map fun (content, next) =>
      { layout with keyAllowed := true }.add (.scalar style (String.ofList content)) next
  | none => none

def token? (c : Char) (rest : List Char) (layout : Layout) : Option Layout :=
  let isMark := layout.inFlow || atGap rest
  let atMarker := layout.column = 0 && Yaml.atMarker (c :: rest)
  if layout.column = 0 && c = '%' then layout.documentToken? Place.directive?
  else if atMarker then
    let token := if c = '-' then Token.documentStart else .documentEnd
    layout.documentToken? fun place => some (token, place.drop 3)
  else if c = '[' then layout.flowStart? .flowSequenceStart
  else if c = '\x7b' then layout.flowStart? .flowMappingStart
  else if c = ']' then layout.flowEnd? .flowSequenceEnd
  else if c = '\x7d' then layout.flowEnd? .flowMappingEnd
  else if c = ',' then layout.comma?
  else if c = '-' && atGap rest then layout.dash?
  else if c = '?' && isMark then layout.keyMark?
  else if c = ':' && isMark then layout.colon?
  else if c = '*' then
    layout.keyStart? fun place =>
      (place.drop 1).anchorName?.map fun (name, next) => (.reference name, next)
  else if c = '&' then
    layout.keyStart? fun place =>
      (place.drop 1).anchorName?.map fun (name, next) => (.anchor name, next)
  else if c = '!' then layout.tag?
  else if (c = '|' || c = '>') && !layout.inFlow then layout.literal? (c = '>')
  else if c = '\'' then layout.quoted? (singleFrom [] Gap.none)
  else if c = '"' then layout.quoted? (doubleFrom Quoted.start)
  else if startsPlain layout.inFlow (c :: rest) then layout.plain?
  else none

def tokens? : (fuel : Nat) → Layout → Option (List Token)
  | 0, _ => none
  | fuel + 1, layout =>
    match layout.skip.dropLateKey? with
    | none => none
    | some layout =>
      match layout.place.rest with
      | [] => (layout.closeBlocks fun _ => true).dropKey?.map fun layout => layout.tokens.reverse
      | c :: rest =>
        match (layout.closeBlocks (layout.column < ·)).token? c rest with
        | some layout => tokens? fuel layout
        | none => none

end Layout

def tokens? (text : List Char) : Option (List Token) :=
  Layout.tokens? (text.length + 1) (Layout.start text)

end BlockRuntime.Yaml

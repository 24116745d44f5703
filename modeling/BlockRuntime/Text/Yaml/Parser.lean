import BlockRuntime.Text.Yaml.Layout

namespace BlockRuntime.Yaml

structure Reading where
  tokens : List Token
  handles : List (String × Bytes)
  numbers : List (String × Nat)
  /-- The nodes that have an anchor, with its number, the last one first. -/
  anchored : List (Nat × Node)

structure Properties where
  anchor : Option String
  tag : Option Bytes

inductive Position where
  | flow
  | block
  /-- In a block mapping. A sequence does not have to be indented there. -/
  | member
  deriving DecidableEq

namespace Reading

def goOn (tokens : List Token) (reading : Reading) : Reading := { reading with tokens := tokens }

def tagOf? (handle : String) (text : Bytes) (reading : Reading) : Option Bytes :=
  if handle = "" then some text else (reading.handles.lookup handle).map (· ++ text)

def properties? (reading : Reading) : Option (Properties × Reading) :=
  match reading.tokens with
  | .anchor name :: .tag handle text :: rest | .tag handle text :: .anchor name :: rest =>
    (reading.tagOf? handle text).map fun tag => (⟨some name, some tag⟩, reading.goOn rest)
  | .anchor name :: rest => some (⟨some name, none⟩, reading.goOn rest)
  | .tag handle text :: rest =>
    (reading.tagOf? handle text).map fun tag => (⟨none, some tag⟩, reading.goOn rest)
  | _ => some (⟨none, none⟩, reading)

/-- Gives its number to an anchor: how many names there were before. -/
def openAnchor (anchor : Option String) (reading : Reading) : Reading :=
  match anchor with
  | none => reading
  | some name =>
    -- a name that comes back has the number of the next new one; an alias means the last node with it
    let number := reading.numbers.length
    { reading with
      numbers := (name, number) :: reading.numbers.filter fun entry => entry.1 ≠ name
      anchored := (number, Node.missing) :: reading.anchored }

/-- The node of the anchor that was given its number behind `earlier` others is known now. -/
def closeAnchor (anchor : Option String) (earlier : Nat) (node : Node) (reading : Reading) :
    Reading :=
  if anchor.isSome then
    { reading with
      anchored := reading.anchored.modify (reading.anchored.length - 1 - earlier) fun entry =>
        (entry.1, node) }
  else reading

end Reading

namespace Token

def endsItem (indented : Bool) : Token → Bool
  | item | blockEnd => true
  -- behind a sequence that is not indented the mapping around it may go on
  | key | value => !indented
  | _ => false

def endsMember : Token → Bool
  | key | value | blockEnd => true
  | _ => false

def endsFlowItem (closing : Token) (token : Token) : Bool := token = comma || token = closing

def endsFlowKey (closing : Token) (token : Token) : Bool :=
  token = value || token.endsFlowItem closing

end Token

namespace Reading

def bare? (properties : Properties) (reading : Reading) : Option (Node × Reading) :=
  if properties.anchor.isSome || properties.tag.isSome then
    some (.scalar .plain properties.tag "", reading)
  else none

def orMissing (leftOut : Token → Bool) (read? : Reading → Option (Node × Reading))
    (reading : Reading) : Option (Node × Reading) :=
  if reading.tokens.head?.any leftOut then some (Node.missing, reading) else read? reading

def value? (leftOut : Token → Bool) (read? : Reading → Option (Node × Reading))
    (reading : Reading) : Option (Node × Reading) :=
  match reading.tokens with
  | .value :: rest => (reading.goOn rest).orMissing leftOut read?
  | _ => some (Node.missing, reading)

/-- Goes on to the next item of a flow collection, which a comma comes before unless it is the first
one. -/
def nextItem? (isFirst : Bool) (reading : Reading) : Option Reading :=
  if isFirst then some reading
  else
    match reading.tokens with
    | .comma :: rest => some (reading.goOn rest)
    | _ => none

/-- Reads the key of a pair in a flow sequence, from behind its mark. Where it is left out, so is the
token that shows that. -/
def pairKey? (read? : Reading → Option (Node × Reading)) (reading : Reading) :
    Option (Node × Reading) :=
  match reading.tokens with
  | .value :: rest | .comma :: rest | .flowSequenceEnd :: rest =>
    some (Node.missing, reading.goOn rest)
  | _ => read? reading

mutual

def node? : (fuel : Nat) → Position → Reading → Option (Node × Reading)
  | 0, _, _ => none
  | fuel + 1, position, reading =>
    match reading.tokens with
    | .reference name :: rest =>
      (reading.numbers.lookup name).map fun number => (.reference number, reading.goOn rest)
    | _ =>
      match reading.properties? with
      | some (properties, reading) =>
        match content? fuel position properties (reading.openAnchor properties.anchor) with
        | some (node, next) =>
          some (node, next.closeAnchor properties.anchor reading.anchored.length node)
        | none => none
      | none => none

def content? : (fuel : Nat) → Position → Properties → Reading → Option (Node × Reading)
  | 0, _, _, _ => none
  | fuel + 1, position, properties, reading =>
    match reading.tokens with
    | .scalar style content :: rest =>
      some (.scalar style (properties.tag.filter (· ≠ octets ['!'])) content, reading.goOn rest)
    | .flowSequenceStart :: rest => flowItems? fuel true [] (reading.goOn rest)
    | .flowMappingStart :: rest => flowMembers? fuel true [] (reading.goOn rest)
    | token :: rest =>
      if token = .item && position = .member then items? fuel false [] reading
      else if token = .sequenceStart && position ≠ .flow then
        items? fuel true [] (reading.goOn rest)
      else if token = .mappingStart && position ≠ .flow then members? fuel [] (reading.goOn rest)
      else reading.bare? properties
    | [] => reading.bare? properties

def items? : (fuel : Nat) → (indented : Bool) → (read : List Node) → Reading →
    Option (Node × Reading)
  | 0, _, _, _ => none
  | fuel + 1, indented, read, reading =>
    match reading.tokens with
    | .item :: rest =>
      match (reading.goOn rest).orMissing (Token.endsItem indented) (node? fuel .block) with
      | some (node, next) => items? fuel indented (node :: read) next
      | none => none
    | tokens =>
      if !indented then some (.sequence read.reverse, reading)
      else if tokens.head? = some .blockEnd then
        some (.sequence read.reverse, reading.goOn tokens.tail)
      else none

def members? : (fuel : Nat) → (read : List (Node × Node)) → Reading → Option (Node × Reading)
  | 0, _, _ => none
  | fuel + 1, read, reading =>
    match reading.tokens with
    | .key :: rest =>
      match (reading.goOn rest).orMissing Token.endsMember (node? fuel .member) with
      | some (key, next) =>
        match next.value? Token.endsMember (node? fuel .member) with
        | some (value, next) => members? fuel ((key, value) :: read) next
        | none => none
      | none => none
    | .blockEnd :: rest => some (.mapping read.reverse, reading.goOn rest)
    | _ => none

def flowItems? : (fuel : Nat) → (isFirst : Bool) → (read : List Node) → Reading →
    Option (Node × Reading)
  | 0, _, _, _ => none
  | fuel + 1, isFirst, read, reading =>
    match reading.tokens with
    | .flowSequenceEnd :: rest => some (.sequence read.reverse, reading.goOn rest)
    | _ =>
      match reading.nextItem? isFirst with
      | none => none
      | some reading =>
        match reading.tokens with
        | .flowSequenceEnd :: rest => some (.sequence read.reverse, reading.goOn rest)
        | .key :: rest =>
          match (reading.goOn rest).pairKey? (node? fuel .flow) with
          | some (key, next) =>
            match next.value? (Token.endsFlowItem .flowSequenceEnd) (node? fuel .flow) with
            | some (value, next) =>
              flowItems? fuel false (.mapping [(key, value)] :: read) next
            | none => none
          | none => none
        | _ =>
          match node? fuel .flow reading with
          | some (node, next) => flowItems? fuel false (node :: read) next
          | none => none

/-- Reads the members of a flow mapping behind those that were read, the last one first. A node
without a mark is a key whose value is left out. -/
def flowMembers? : (fuel : Nat) → (isFirst : Bool) → (read : List (Node × Node)) → Reading →
    Option (Node × Reading)
  | 0, _, _, _ => none
  | fuel + 1, isFirst, read, reading =>
    match reading.tokens with
    | .flowMappingEnd :: rest => some (.mapping read.reverse, reading.goOn rest)
    | _ =>
      match reading.nextItem? isFirst with
      | none => none
      | some reading =>
        match reading.tokens with
        | .flowMappingEnd :: rest => some (.mapping read.reverse, reading.goOn rest)
        | .key :: rest =>
          match (reading.goOn rest).orMissing (Token.endsFlowKey .flowMappingEnd)
            (node? fuel .flow) with
          | some (key, next) =>
            match next.value? (Token.endsFlowItem .flowMappingEnd) (node? fuel .flow) with
            | some (value, next) => flowMembers? fuel false ((key, value) :: read) next
            | none => none
          | none => none
        | _ =>
          match node? fuel .flow reading with
          | some (node, next) => flowMembers? fuel false ((node, Node.missing) :: read) next
          | none => none

end

end Reading

def commonHandles : List (String × Bytes) := [("!", octets ['!']), ("!!", commonTags)]

/-- Reads the directives before a document: at most one version, which has to be 1.1 or 1.2, and
handles that differ. -/
def directives? (versioned : Bool) (handles : List (String × Bytes)) :
    List Token → Option (List (String × Bytes) × List Token)
  | .version major minor :: rest =>
    if versioned || major ≠ 1 || (minor ≠ 1 && minor ≠ 2) then none
    else directives? true handles rest
  | .handle name expansion :: rest =>
    if (handles.lookup name).isSome then none
    else directives? versioned ((name, expansion) :: handles) rest
  | tokens => some (handles ++ commonHandles, tokens)

namespace Token

def isDirective : Token → Bool
  | version _ _ | handle _ _ => true
  | _ => false

def isBetweenDocuments (token : Token) : Bool :=
  token.isDirective || token = documentStart || token = documentEnd

end Token

def root? (fuel : Nat) (tokens : List Token) : Option (Node × Reading) :=
  match tokens with
  | [] => none
  | first :: _ =>
    if first.isDirective || first = .documentStart then
      match directives? false [] tokens with
      | some (handles, .documentStart :: rest) =>
        let reading : Reading := ⟨rest, handles, [], []⟩
        if rest.isEmpty then some (Node.missing, reading)
        else reading.orMissing Token.isBetweenDocuments (Reading.node? fuel .block)
      | _ => none
    else Reading.node? fuel .block ⟨tokens, commonHandles, [], []⟩

def ofTokens? (tokens : List Token) : Option Yaml :=
  match root? (4 * (tokens.length + 1)) tokens with
  | some (node, reading) =>
    if reading.tokens.all (· = .documentEnd) then some ⟨node, reading.anchored⟩ else none
  | none => none

def parse? (text : String) : Option Yaml :=
  let chars := text.toList
  if chars.all isAllowed then (tokens? (normalizeBreaks chars)).bind ofTokens? else none

end BlockRuntime.Yaml

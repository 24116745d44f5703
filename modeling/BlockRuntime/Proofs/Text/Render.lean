import BlockRuntime.Proofs.Text.Token
import BlockRuntime.Text.Json.Parser

namespace BlockRuntime.Json

open Token (Reads Stops Any reads_punctuation reads_quote)

mutual

def tokens : Json → List Token
  | null => [.null]
  | bool value => [.bool value]
  | natural value => [.natural value]
  | text value => [.text value]
  | array items => .leftBracket :: itemTokens items ++ [.rightBracket]
  | object fields => .leftBrace :: fieldTokens fields ++ [.rightBrace]
  | unreadable => [.null]

def itemTokens : List Json → List Token
  | [] => []
  | [item] => tokens item
  | item :: rest => tokens item ++ .comma :: itemTokens rest

def fieldTokens : List (String × Json) → List Token
  | [] => []
  | [(name, value)] => .text name :: .colon :: tokens value
  | (name, value) :: rest => .text name :: .colon :: tokens value ++ .comma :: fieldTokens rest

end

section Scanning

theorem stops_of_head {c : Char} (hdigit : c.isDigit = false) (hdot : c ≠ '.') (he : c ≠ 'e')
    (hE : c ≠ 'E') (rest : List Char) : Stops (c :: rest) := by
  intro d tail heq
  rw [← (List.cons.inj heq).1]
  exact ⟨hdigit, hdot, he, hE⟩

/-- A name is followed by a colon and its value. -/
theorem reads_field {name : String} {value : Json} (h : Reads Stops value.chars value.tokens) :
    Reads Stops (quote name ++ ':' :: value.chars) (.text name :: .colon :: value.tokens) := by
  have hcolon : Reads Stops ([':'] ++ value.chars) ([.colon] ++ value.tokens) :=
    (reads_punctuation rfl).append h fun _ _ => trivial
  exact (reads_quote name).append hcolon fun _ _ => trivial

/-- What is written between commas is read part by part. -/
theorem reads_comma {chars more : List Char} {found others : List Token}
    (h : Reads Stops chars found) (hmore : Reads Stops more others) :
    Reads Stops (chars ++ ',' :: more) (found ++ .comma :: others) := by
  have hcomma : Reads Stops ([','] ++ more) ([.comma] ++ others) :=
    (reads_punctuation rfl).append hmore fun _ _ => trivial
  exact h.append hcomma fun rest _ => stops_of_head rfl (by decide) (by decide) (by decide) _

/-- What is written between brackets ends of itself. -/
theorem reads_enclosed {left right : Char} {first last : Token} {chars : List Char}
    {found : List Token} (hleft : Token.punctuation? left = some first)
    (hright : Token.punctuation? right = some last) (hstops : ∀ rest, Stops (right :: rest))
    (h : Reads Stops chars found) :
    Reads Any (left :: chars ++ [right]) (first :: found ++ [last]) := by
  have hend : Reads Any (chars ++ [right]) (found ++ [last]) :=
    h.append (reads_punctuation hright) fun rest _ => hstops rest
  exact (reads_punctuation hleft).append hend fun _ _ => trivial

mutual

/-- The text of a value is scanned to its tokens. -/
theorem reads_chars : (value : Json) → Reads Stops value.chars value.tokens
  | null => by
    rw [chars, tokens]
    exact Token.reads_null.of_any
  | bool value => by
    rw [chars, tokens]
    exact (Token.reads_bool value).of_any
  | natural value => by
    rw [chars, tokens]
    exact Token.reads_repr value
  | text value => by
    rw [chars, tokens]
    exact (reads_quote value).of_any
  | array items => by
    rw [chars, tokens]
    exact (reads_enclosed rfl rfl (stops_of_head rfl (by decide) (by decide) (by decide))
      (reads_itemChars items)).of_any
  | object fields => by
    rw [chars, tokens]
    exact (reads_enclosed rfl rfl (stops_of_head rfl (by decide) (by decide) (by decide))
      (reads_fieldChars fields)).of_any
  | unreadable => by
    rw [chars, tokens]
    exact Token.reads_null.of_any

/-- A written list is scanned to the tokens of its items, with the commas between them. -/
theorem reads_itemChars : (items : List Json) → Reads Stops (itemChars items) (itemTokens items)
  | [] => by
    rw [itemChars, itemTokens]
    exact fun _ _ _ h => h
  | [item] => by
    rw [itemChars, itemTokens]
    exact reads_chars item
  | item :: next :: rest => by
    rw [itemChars, itemTokens]
    · exact reads_comma (reads_chars item) (reads_itemChars (next :: rest))
    · exact nofun
    · exact nofun

theorem reads_fieldChars :
    (fields : List (String × Json)) → Reads Stops (fieldChars fields) (fieldTokens fields)
  | [] => by
    rw [fieldChars, fieldTokens]
    exact fun _ _ _ h => h
  | [(name, value)] => by
    rw [fieldChars, fieldTokens]
    exact reads_field (reads_chars value)
  | (name, value) :: next :: rest => by
    rw [fieldChars, fieldTokens]
    · exact reads_comma (reads_field (reads_chars value)) (reads_fieldChars (next :: rest))
    · exact nofun
    · exact nofun

end

theorem scan_chars (value : Json) : Token.scan value.chars = some value.tokens := by
  have hstops : Stops [] := nofun
  have hyields := reads_chars value [] [] hstops Token.yields_nil
  rw [List.append_nil, List.append_nil] at hyields
  exact hyields.scan

end Scanning

section Parsing

mutual

/-- Whether every part of a value is read as itself. -/
def Readable : Json → Prop
  | unreadable => False
  | array items => ReadableItems items
  | object fields => ReadableFields fields
  | _ => True

def ReadableItems : List Json → Prop
  | [] => True
  | item :: rest => item.Readable ∧ ReadableItems rest

def ReadableFields : List (String × Json) → Prop
  | [] => True
  | (_, value) :: rest => value.Readable ∧ ReadableFields rest

end

/-- The tokens of a value begin with one that closes nothing. -/
theorem tokens_eq_cons (value : Json) :
    ∃ token rest, value.tokens = token :: rest ∧ token ≠ .rightBracket := by
  cases value <;> rw [tokens] <;> exact ⟨_, _, rfl, nofun⟩

theorem itemTokens_eq_cons (item : Json) (rest : List Json) :
    ∃ token others, itemTokens (item :: rest) = token :: others ∧ token ≠ .rightBracket := by
  obtain ⟨token, others, htokens, hne⟩ := tokens_eq_cons item
  cases rest with
  | nil =>
    rw [itemTokens]
    exact ⟨token, others, htokens, hne⟩
  | cons next rest =>
    rw [itemTokens, htokens]
    · exact ⟨_, _, rfl, hne⟩
    · exact nofun

theorem fieldTokens_eq_cons (name : String) (value : Json) (rest : List (String × Json)) :
    ∃ others, fieldTokens ((name, value) :: rest) = .text name :: others := by
  cases rest with
  | nil =>
    rw [fieldTokens]
    exact ⟨_, rfl⟩
  | cons next rest =>
    rw [fieldTokens]
    · exact ⟨_, rfl⟩
    · exact nofun

theorem ofFields_map (fields : List (String × Json)) :
    ofFields (fields.map fun field => (some field.1, field.2)) = object fields := by
  have hmap : (fields.map fun field => (some field.1, field.2)).mapM
      (fun field : Option String × Json => field.1.map fun name => (name, field.2)) = some fields := by
    induction fields with
    | nil => rfl
    | cons field fields ih =>
      rw [List.map_cons, List.mapM_cons, ih]
      rfl
  unfold ofFields
  rw [hmap]

/-- A level of a value takes a step of fuel of its own, and has two tokens around those inside. -/
theorem exists_fuel {fuel n : Nat} (h : 2 * (n + 1) ≤ fuel) : ∃ less, fuel = less + 1 ∧ 2 * n < less :=
  ⟨fuel - 1, by omega, by omega⟩

theorem length_enclosed (first last : Token) (found : List Token) :
    (first :: found ++ [last]).length = found.length + 1 + 1 := by
  rw [List.length_append, List.length_cons, List.length_singleton]

theorem enclosed_append (first last : Token) (found rest : List Token) :
    first :: found ++ [last] ++ rest = first :: (found ++ last :: rest) := by
  rw [List.cons_append, List.cons_append, List.append_assoc, List.singleton_append]

-- The induction is on the value. The fuel is twice the number of its tokens, and a list inside brackets
-- has two tokens less for the two steps that lead to its first value.
mutual

/-- The parser takes the tokens of a value off the front of a list. -/
theorem value?_tokens : (value : Json) → value.Readable → ∀ (fuel : Nat) (rest : List Token),
    2 * value.tokens.length ≤ fuel → value? fuel (value.tokens ++ rest) = some (value, rest)
  | null, _, fuel, rest, hfuel => by
    rw [tokens] at hfuel ⊢
    obtain ⟨fuel, rfl, -⟩ := exists_fuel hfuel
    rfl
  | bool value, _, fuel, rest, hfuel => by
    rw [tokens] at hfuel ⊢
    obtain ⟨fuel, rfl, -⟩ := exists_fuel hfuel
    rfl
  | natural value, _, fuel, rest, hfuel => by
    rw [tokens] at hfuel ⊢
    obtain ⟨fuel, rfl, -⟩ := exists_fuel hfuel
    rfl
  | text value, _, fuel, rest, hfuel => by
    rw [tokens] at hfuel ⊢
    obtain ⟨fuel, rfl, -⟩ := exists_fuel hfuel
    rfl
  | array [], _, fuel, rest, hfuel => by
    rw [tokens, itemTokens] at hfuel ⊢
    obtain ⟨fuel, rfl, -⟩ := exists_fuel hfuel
    rfl
  | array (item :: items), h, fuel, rest, hfuel => by
    have hitems : ReadableItems (item :: items) := by
      rw [Readable] at h
      exact h
    rw [tokens, length_enclosed] at hfuel
    obtain ⟨fuel, rfl, hless⟩ := exists_fuel hfuel
    have hinner := items?_tokens (item :: items) (List.cons_ne_nil _ _) hitems fuel rest (by omega)
    rw [tokens, enclosed_append, value?.eq_9, hinner]
    -- what stands behind the bracket is an item, so the array is not taken for an empty one
    intro tail heq
    obtain ⟨token, others, hcons, hne⟩ := itemTokens_eq_cons item items
    rw [hcons] at heq
    exact hne (List.cons.inj heq).1
  | object [], _, fuel, rest, hfuel => by
    rw [tokens, fieldTokens] at hfuel ⊢
    obtain ⟨fuel, rfl, -⟩ := exists_fuel hfuel
    rfl
  | object ((name, value) :: fields), h, fuel, rest, hfuel => by
    have hfields : ReadableFields ((name, value) :: fields) := by
      rw [Readable] at h
      exact h
    rw [tokens, length_enclosed] at hfuel
    obtain ⟨fuel, rfl, hless⟩ := exists_fuel hfuel
    have hinner := fields?_tokens ((name, value) :: fields) (List.cons_ne_nil _ _) hfields fuel rest
      (by omega)
    rw [tokens, enclosed_append, value?.eq_11, hinner]
    · simp only [ofFields_map]
    · intro tail heq
      obtain ⟨others, hcons⟩ := fieldTokens_eq_cons name value fields
      rw [hcons] at heq
      exact nomatch (List.cons.inj heq).1
  | unreadable, h, _, _, _ => by
    rw [Readable] at h
    exact h.elim

/-- The parser takes the tokens of some items off the front and finds the items. -/
theorem items?_tokens : (items : List Json) → items ≠ [] → ReadableItems items →
    ∀ (fuel : Nat) (rest : List Token), 2 * (itemTokens items).length < fuel →
      items? fuel (itemTokens items ++ .rightBracket :: rest) = some (items, rest)
  | [], hne, _, _, _, _ => absurd rfl hne
  | [item], _, h, fuel, rest, hfuel => by
    rw [ReadableItems] at h
    rw [itemTokens] at hfuel ⊢
    obtain ⟨fuel, rfl⟩ := Nat.exists_eq_succ_of_ne_zero (Nat.ne_of_gt (Nat.zero_lt_of_lt hfuel))
    have hitem := value?_tokens item h.1 fuel (.rightBracket :: rest) (Nat.lt_succ_iff.mp hfuel)
    rw [items?.eq_2, hitem]
  | item :: next :: items, _, h, fuel, rest, hfuel => by
    rw [ReadableItems] at h
    have htokens : itemTokens (item :: next :: items) =
        item.tokens ++ .comma :: itemTokens (next :: items) := itemTokens.eq_3 _ _ nofun
    rw [htokens, List.length_append, List.length_cons] at hfuel
    obtain ⟨fuel, rfl⟩ := Nat.exists_eq_succ_of_ne_zero (Nat.ne_of_gt (Nat.zero_lt_of_lt hfuel))
    have hitem := value?_tokens item h.1 fuel
      (.comma :: (itemTokens (next :: items) ++ .rightBracket :: rest)) (by omega)
    have hitems := items?_tokens (next :: items) (List.cons_ne_nil _ _) h.2 fuel rest (by omega)
    rw [htokens, List.append_assoc, List.cons_append, items?.eq_2, hitem]
    simp only [hitems]

/-- The same for the fields of an object. -/
theorem fields?_tokens : (fields : List (String × Json)) → fields ≠ [] → ReadableFields fields →
    ∀ (fuel : Nat) (rest : List Token), 2 * (fieldTokens fields).length < fuel →
      fields? fuel (fieldTokens fields ++ .rightBrace :: rest) =
        some (fields.map fun field => (some field.1, field.2), rest)
  | [], hne, _, _, _, _ => absurd rfl hne
  | [(name, value)], _, h, fuel, rest, hfuel => by
    rw [ReadableFields] at h
    rw [fieldTokens, List.length_cons, List.length_cons] at hfuel
    obtain ⟨fuel, rfl⟩ := Nat.exists_eq_succ_of_ne_zero (Nat.ne_of_gt (Nat.zero_lt_of_lt hfuel))
    have hvalue := value?_tokens value h.1 fuel (.rightBrace :: rest) (by omega)
    rw [fieldTokens, List.cons_append, List.cons_append, fields?.eq_2, fieldName?, hvalue]
    rfl
  | (name, value) :: next :: fields, _, h, fuel, rest, hfuel => by
    rw [ReadableFields] at h
    have htokens : fieldTokens ((name, value) :: next :: fields) =
        .text name :: .colon :: value.tokens ++ .comma :: fieldTokens (next :: fields) :=
      fieldTokens.eq_3 _ _ _ nofun
    rw [htokens, List.length_append, List.length_cons, List.length_cons, List.length_cons] at hfuel
    obtain ⟨fuel, rfl⟩ := Nat.exists_eq_succ_of_ne_zero (Nat.ne_of_gt (Nat.zero_lt_of_lt hfuel))
    have hvalue := value?_tokens value h.1 fuel
      (.comma :: (fieldTokens (next :: fields) ++ .rightBrace :: rest)) (by omega)
    have hfields := fields?_tokens (next :: fields) (List.cons_ne_nil _ _) h.2 fuel rest (by omega)
    rw [htokens, List.append_assoc, List.cons_append, List.cons_append, List.cons_append, fields?.eq_2,
      fieldName?, hvalue]
    simp only [hfields]
    rfl

end

theorem ofTokens?_tokens {value : Json} (h : value.Readable) : ofTokens? value.tokens = some value := by
  have hvalue := value?_tokens value h (2 * value.tokens.length + 1) [] (Nat.le_succ _)
  rw [List.append_nil] at hvalue
  unfold ofTokens?
  rw [hvalue]

/-- A written value reads back. -/
theorem parse?_render {value : Json} (h : value.Readable) : parse? value.render = some value := by
  unfold parse? render
  rw [String.toList_ofList, scan_chars]
  exact ofTokens?_tokens h

end Parsing

end BlockRuntime.Json

import ScriptBindings.Data.JsonToken

/-! JSON texts read as data. The notation is the strict one: one value, no
comments, no trailing commas. -/
namespace ScriptBindings.Json

mutual

/-- The value that the tokens begin with, and the tokens behind it. -/
def valueWithin : Nat → List Token → Option (Data × List Token)
  | 0, _ => none
  | fuel + 1, tokens =>
      match tokens with
      | .null :: rest => some (.null, rest)
      | .flag value :: rest => some (.flag value, rest)
      | .number written :: rest => some (.number written, rest)
      | .text value :: rest => some (.text value, rest)
      | .openList :: .closeList :: rest => some (.list [], rest)
      | .openList :: rest => do
          let (items, more) ← itemsWithin fuel rest
          return (.list items, more)
      | .openRecord :: .closeRecord :: rest => some (.record [], rest)
      | .openRecord :: rest => do
          let (fields, more) ← fieldsWithin fuel rest
          return (.record fields, more)
      | _ => none

/-- One item or more up to the end of a list. -/
def itemsWithin : Nat → List Token → Option (List Data × List Token)
  | 0, _ => none
  | fuel + 1, tokens => do
      let (item, rest) ← valueWithin fuel tokens
      match rest with
      | .closeList :: more => return ([item], more)
      | .comma :: more =>
          let (items, more) ← itemsWithin fuel more
          return (item :: items, more)
      | _ => none

/-- One field or more up to the end of a record. -/
def fieldsWithin : Nat → List Token → Option (List (String × Data) × List Token)
  | 0, _ => none
  | fuel + 1, tokens =>
      match tokens with
      | .text key :: .colon :: rest => do
          let (value, rest) ← valueWithin fuel rest
          match rest with
          | .closeRecord :: more => return ([(key, value)], more)
          | .comma :: more =>
              let (fields, more) ← fieldsWithin fuel more
              return ((key, value) :: fields, more)
          | _ => none
      | _ => none

end

/-- A value inside another begins at least one token later, and takes at
most two steps of the fuel to reach. -/
def ofTokens? (tokens : List Token) : Option Data :=
  match valueWithin (2 * tokens.length) tokens with
  | some (value, []) => some value
  | _ => none

/-- Read a JSON text. -/
def parse? (text : String) : Option Data :=
  (tokens? text.toList).bind ofTokens?

end ScriptBindings.Json

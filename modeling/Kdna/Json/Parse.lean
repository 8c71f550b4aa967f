import Kdna.Data.Fallible
import Kdna.Json.Copy
import Kdna.Json.Grammar

/-!
# The strict JSON parser

`parseJson` of `strict-input.js`. Each function takes the text from the position of
the source and returns what lies behind the one it stops at.
-/

namespace Kdna

/-- The loop over the items of an array that has room for `room` more. -/
def parseItems (value : List Char → Except Failure (Json × List Char)) :
    ℕ → List Char → Except Failure (List Json × List Char)
  | 0, _ => .error .inputInvalid
  | room + 1, cs => do
    let (v, cs) ← value cs
    match skipSpace cs with
    | [] => .error .inputInvalid
    | c :: cs =>
      if c = ']' then .ok ([v], cs)
      else if c = ',' then do
        let (vs, cs) ← parseItems value room cs
        return (v :: vs, cs)
      else .error .inputInvalid

/-- The loop over the members of an object, with the keys seen so far. The number of
rounds is bounded by the length of the text, which each round shortens. -/
def parseMembers (value : List Char → Except Failure (Json × List Char)) :
    ℕ → List String → List Char → Except Failure (List (String × Json) × List Char)
  | 0, _, _ => .error .inputInvalid
  | rounds + 1, seen, cs =>
    match skipSpace cs with
    | [] => .error .inputInvalid
    | c :: cs => do
      require (c = '"') Failure.inputInvalid
      let (key, cs) ← parseString cs
      require (key ∉ seen) Failure.inputInvalid
      match skipSpace cs with
      | [] => .error .inputInvalid
      | c :: cs => do
        require (c = ':') Failure.inputInvalid
        let (v, cs) ← value cs
        match skipSpace cs with
        | [] => .error .inputInvalid
        | c :: cs =>
          if c = '}' then .ok ([(key, v)], cs)
          else if c = ',' then do
            let (ps, cs) ← parseMembers value rounds (key :: seen) cs
            return ((key, v) :: ps, cs)
          else .error .inputInvalid

/-- The tokens `true`, `false`, `null` and the numbers. -/
def parseScalar (cs : List Char) : Except Failure (Json × List Char) :=
  if "true".toList.isPrefixOf cs then .ok (.bool true, cs.drop 4)
  else if "false".toList.isPrefixOf cs then .ok (.bool false, cs.drop 5)
  else if "null".toList.isPrefixOf cs then .ok (.null, cs.drop 4)
  else do
    let (token, cs) ← orFail Failure.inputInvalid (matchNumber cs)
    let x ← orFail Failure.inputInvalid token.number
    return (.num x, cs)

/-- `value(depth)`, at a depth that leaves room for `levels` more. -/
def parseValue : ℕ → List Char → Except Failure (Json × List Char)
  | 0, _ => .error .inputInvalid
  | levels + 1, cs =>
    match skipSpace cs with
    | [] => .error .inputInvalid
    | c :: cs =>
      if c = '"' then do
        let (t, cs) ← parseString cs
        return (.str t, cs)
      else if c = '{' then
        if (skipSpace cs).head? = some '}' then .ok (.obj [], (skipSpace cs).tail)
        else do
          let (props, cs) ← parseMembers (parseValue levels) cs.length [] (skipSpace cs)
          return (Value.ofProps props, cs)
      else if c = '[' then
        if (skipSpace cs).head? = some ']' then .ok (.arr [], (skipSpace cs).tail)
        else do
          let (items, cs) ← parseItems (parseValue levels) 10000 (skipSpace cs)
          return (.arr items, cs)
      else parseScalar (c :: cs)

/-- `parseJson(input)` on a text. -/
def parseText (text : String) : Except Failure Json := do
  require ((Utf8.encode text).length ≤ maxPayloadBytes) Failure.inputInvalid
  let (v, rest) ← parseValue (maxDepth + 1) text.toList
  require (skipSpace rest = []) Failure.inputInvalid
  return v

/-- `parseJson(input)` on octets. -/
def parseJson (input : Bytes) : Except Failure Json := do
  let text ← orFail Failure.malformedText (decodeText input)
  parseText text

end Kdna

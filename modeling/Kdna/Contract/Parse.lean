import Kdna.Data.Fallible
import Kdna.Json.Access
import Kdna.Json.NumberLiteral
import Kdna.Json.StringLiteral

/-!
# The execution-contract JSON reader

`parseRuntimeContractJson` and `StrictJsonParser` of `runtime-contract.js`, on the UTF-16 code units
of a text. Each function takes the text from the index of the source and returns what lies behind
the one it stops at. A text that is read has no unpaired surrogate, so it is given by its scalars.
-/

namespace Kdna.Contract

open Value

/-- A code of `KDNARuntimeContractError`, with the message of a syntax error. -/
inductive Rejected
  | optionsInvalid
  | inputInvalid
  | limitExceeded
  | bomForbidden
  | invalidUnicode
  | syntaxInvalid (message : String)
  | duplicateKey (key : String)
  | numberInvalid
  deriving DecidableEq

/-- `skipWhitespace()` -/
def isBlank (u : ℕ) : Bool := u == 0x20 || u == 0x0A || u == 0x0D || u == 0x09

@[inherit_doc isBlank]
def skipWhitespace (us : List ℕ) : List ℕ := us.dropWhile isBlank

section Strings

/-- `parseHexCodeUnit()` -/
def parseHexCodeUnit : List ℕ → Except Rejected (ℕ × List ℕ)
  | a :: b :: c :: d :: us => do
    let n ← orFail (Rejected.syntaxInvalid "Invalid Unicode escape in JSON string.")
      (hexUnit (Char.ofNat a) (Char.ofNat b) (Char.ofNat c) (Char.ofNat d))
    return (n, us)
  | _ => .error (.syntaxInvalid "Invalid Unicode escape in JSON string.")

/-- `parseEscape()`, from behind the backslash. -/
def parseEscape : List ℕ → Except Rejected (Char × List ℕ)
  | [] => .error (.syntaxInvalid "Invalid JSON string escape.")
  | u :: us =>
    match simpleEscape (Char.ofNat u) with
    | some n => .ok (Char.ofNat n, us)
    | none => do
      require (u = 'u'.toNat) (Rejected.syntaxInvalid "Invalid JSON string escape.")
      let (first, us) ← parseHexCodeUnit us
      if Utf16.isHigh first then
        match us with
        | 0x5C :: 0x75 :: us => do
          let (second, us) ← parseHexCodeUnit us
          require (Utf16.isLow second = true) Rejected.invalidUnicode
          return (Utf16.pair first second, us)
        | _ => .error .invalidUnicode
      else do
        require (Utf16.isLow first = false) Rejected.invalidUnicode
        return (Char.ofNat first, us)

/-- A character of a literal that stands as it is, or a pair of surrogates that does. Behind a
leading surrogate that ends the text the loop of `parseString()` ends. -/
def parseRaw (u : ℕ) (us : List ℕ) : Except Rejected (Char × List ℕ) := do
  require (0x1F < u) (Rejected.syntaxInvalid "Unescaped control character in JSON string.")
  if Utf16.isHigh u then
    match us with
    | [] => .error (.syntaxInvalid "Unterminated JSON string.")
    | low :: us => do
      require (Utf16.isLow low = true) Rejected.invalidUnicode
      return (Utf16.pair u low, us)
  else do
    require (Utf16.isLow u = false) Rejected.invalidUnicode
    return (Char.ofNat u, us)

/-- The loop of `parseString()`, from behind the opening quote. The number of rounds is bounded by
the length of the text, which each round shortens. -/
def parseUnits : ℕ → List ℕ → Except Rejected (List Char × List ℕ)
  | 0, _ => .error (.syntaxInvalid "Unterminated JSON string.")
  | _ + 1, [] => .error (.syntaxInvalid "Unterminated JSON string.")
  | rounds + 1, u :: us =>
    if u = '"'.toNat then .ok ([], us)
    else do
      let (c, us) ← if u = '\\'.toNat then parseEscape us else parseRaw u us
      let (cs, us) ← parseUnits rounds us
      return (c :: cs, us)

/-- `parseString()`, from behind the opening quote. -/
def parseString (us : List ℕ) : Except Rejected (String × List ℕ) := do
  let (cs, us) ← parseUnits (us.length + 1) us
  return (String.ofList cs, us)

end Strings

/-- `parseNumber()` -/
def parseNumber (us : List ℕ) : Except Rejected (Json × List ℕ) := do
  let (token, _) ← orFail (Rejected.syntaxInvalid "Invalid JSON number.")
    (matchNumber (us.map Char.ofNat))
  let x ← orFail Rejected.numberInvalid token.number
  return (.num x, us.drop token.text.length)

/-- The tokens `true`, `false` and `null`. -/
def parseWord (us : List ℕ) : Except Rejected (Json × List ℕ) :=
  if ("true".toList.map Char.toNat).isPrefixOf us then .ok (.bool true, us.drop 4)
  else if ("false".toList.map Char.toNat).isPrefixOf us then .ok (.bool false, us.drop 5)
  else if ("null".toList.map Char.toNat).isPrefixOf us then .ok (.null, us.drop 4)
  else .error (.syntaxInvalid "Expected a JSON value.")

section Lists

variable (value : List ℕ → Except Rejected (Json × List ℕ))

/-- The loop of `parseArray(depth)`. -/
def parseItems : ℕ → List ℕ → Except Rejected (List Json × List ℕ)
  | 0, _ => .error (.syntaxInvalid "Unterminated JSON array.")
  | rounds + 1, us => do
    let (v, us) ← value us
    match skipWhitespace us with
    | [] => .error (.syntaxInvalid "Expected a comma or closing bracket.")
    | next :: us =>
      if next = ']'.toNat then .ok ([v], us)
      else do
        require (next = ','.toNat) (Rejected.syntaxInvalid "Expected a comma or closing bracket.")
        let (vs, us) ← parseItems rounds (skipWhitespace us)
        return (v :: vs, us)

/-- `parseArray(depth)`, from behind the bracket. -/
def parseArray (us : List ℕ) : Except Rejected (Json × List ℕ) :=
  match skipWhitespace us with
  | [] => .error (.syntaxInvalid "Unterminated JSON array.")
  | next :: us =>
    if next = ']'.toNat then .ok (.arr [], us)
    else do
      let (items, us) ← parseItems value (us.length + 1) (next :: us)
      return (.arr items, us)

/-- The loop of `parseObject(depth)`, with the keys seen so far. -/
def parseMembers : ℕ → List String → List ℕ → Except Rejected (List (String × Json) × List ℕ)
  | 0, _, _ => .error (.syntaxInvalid "Unterminated JSON object.")
  | _ + 1, _, [] => .error (.syntaxInvalid "Unterminated JSON object.")
  | rounds + 1, keys, u :: us => do
    require (u = '"'.toNat) (Rejected.syntaxInvalid "Expected a quoted JSON member name.")
    let (key, us) ← parseString us
    require (key ∉ keys) (Rejected.duplicateKey key)
    match skipWhitespace us with
    | [] => .error (.syntaxInvalid "Expected a colon after a JSON member name.")
    | colon :: us => do
      require (colon = ':'.toNat)
        (Rejected.syntaxInvalid "Expected a colon after a JSON member name.")
      let (v, us) ← value us
      match skipWhitespace us with
      | [] => .error (.syntaxInvalid "Expected a comma or closing brace.")
      | next :: us =>
        if next = '}'.toNat then .ok ([(key, v)], us)
        else do
          require (next = ','.toNat) (Rejected.syntaxInvalid "Expected a comma or closing brace.")
          let (props, us) ← parseMembers rounds (key :: keys) (skipWhitespace us)
          return ((key, v) :: props, us)

/-- `parseObject(depth)`, from behind the brace. -/
def parseObject (us : List ℕ) : Except Rejected (Json × List ℕ) :=
  match skipWhitespace us with
  | [] => .error (.syntaxInvalid "Unterminated JSON object.")
  | next :: us =>
    if next = '}'.toNat then .ok (.obj [], us)
    else do
      let (props, us) ← parseMembers value (us.length + 1) [] (next :: us)
      return (Value.ofProps props, us)

end Lists

/-- `parseValue(depth)`, with what reads an object and an array one level down. -/
def parseWith (object array : List ℕ → Except Rejected (Json × List ℕ)) (us : List ℕ) :
    Except Rejected (Json × List ℕ) :=
  match skipWhitespace us with
  | [] => .error (.syntaxInvalid "Expected a JSON value.")
  | u :: us =>
    if u = '{'.toNat then object us
    else if u = '['.toNat then array us
    else if u = '"'.toNat then do
      let (t, us) ← parseString us
      return (.str t, us)
    else if u = '-'.toNat ∨ '0'.toNat ≤ u ∧ u ≤ '9'.toNat then parseNumber (u :: us)
    else parseWord (u :: us)

/-- `parseValue(depth)`, at a depth that leaves `levels` more. -/
def parseValue : ℕ → List ℕ → Except Rejected (Json × List ℕ)
  | 0 => parseWith (fun _ => .error .limitExceeded) fun _ => .error .limitExceeded
  | levels + 1 => parseWith (parseObject (parseValue levels)) (parseArray (parseValue levels))

/-- `parse()` -/
def parse (maxDepth : ℕ) (us : List ℕ) : Except Rejected Json := do
  let (v, us) ← parseValue maxDepth (skipWhitespace us)
  require (skipWhitespace us = []) (Rejected.syntaxInvalid "Unexpected trailing JSON content.")
  return v

/-- `JSON_MAX_BYTES` -/
def jsonMaxBytes : ℕ := 2 * 1024 * 1024

/-- `JSON_MAX_DEPTH` -/
def jsonMaxDepth : ℕ := 64

/-- `Buffer.byteLength(text, 'utf8')` -/
def byteLength : List ℕ → ℕ
  | [] => 0
  | [u] => if u < 0x80 then 1 else if u < 0x800 then 2 else 3
  | u :: low :: us =>
    if Utf16.isHigh u && Utf16.isLow low then 4 + byteLength us
    else (if u < 0x80 then 1 else if u < 0x800 then 2 else 3) + byteLength (low :: us)

/-- `input`: a text, octets, or something else. -/
inductive Input
  | text (units : List ℕ) (short : ∀ u ∈ units, u < 0x10000)
  | octets (bytes : Bytes)
  | other

/-- A limit of the options. -/
def limit (options : Json) (name : String) (most : ℕ) : Except Rejected ℕ :=
  match options.present name with
  | none => .ok most
  | some (.num x) =>
    match x.toInt with
    | some n => do
      require (1 ≤ n ∧ n ≤ most) Rejected.optionsInvalid
      return n.toNat
    | none => .error .optionsInvalid
  | some _ => .error .optionsInvalid

/-- The limits of the options: `maxBytes` and `maxDepth`. -/
def limits (options : Json) : Except Rejected (ℕ × ℕ) :=
  match options with
  | .obj props => do
    require (∀ p ∈ props, p.1 = "maxBytes" ∨ p.1 = "maxDepth") Rejected.optionsInvalid
    let maxBytes ← limit options "maxBytes" jsonMaxBytes
    let maxDepth ← limit options "maxDepth" jsonMaxDepth
    return (maxBytes, maxDepth)
  | _ => .error .optionsInvalid

/-- The code units of an input. -/
def unitsOf (maxBytes : ℕ) : Input → Except Rejected (List ℕ)
  | .text units _ => .ok units
  | .octets bytes => do
    require (bytes.length ≤ maxBytes) Rejected.limitExceeded
    require (¬ Utf8.bom <+: bytes) Rejected.bomForbidden
    let text ← orFail Rejected.invalidUnicode (decodeText bytes)
    return Utf16.encode text.toList
  | .other => .error .inputInvalid

/-- `parseRuntimeContractJson(input, options)` -/
def parseRuntimeContractJson (input : Input) (options : Json) : Except Rejected Json := do
  let (maxBytes, maxDepth) ← limits options
  let units ← unitsOf maxBytes input
  require (units.head? ≠ some 0xFEFF) Rejected.bomForbidden
  require (byteLength units ≤ maxBytes) Rejected.limitExceeded
  parse maxDepth units

end Kdna.Contract

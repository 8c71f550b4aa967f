import Kdna.Cbor.Encoding

/-!
# The payload decoder

`decodePayload` of `cbor.js`. It walks the octets itself, then lets the codec
decode them again, settles the codec's big integers, copies the result strictly
and compares the two JSON texts. The codec is a parameter. The walk takes the
text decoder as an argument; the source passes the one that drops a leading mark.
-/

namespace Kdna.Cbor

/-- A number as the codec returns it: a number, or a big integer. -/
abbrev CodecNumber := Binary64 ⊕ ℤ

/-- A value as the codec returns it. -/
abbrev CodecValue := Value CodecNumber String

/-- The codec's `decode`. -/
abbrev Codec := Bytes → Except Failure CodecValue

/-- `take(length)`: the next octets and the rest. -/
def take (length : ℕ) (b : Bytes) : Except Failure (Bytes × Bytes) := do
  require (length ≤ b.length) Failure.coreInvalid
  return (b.take length, b.drop length)

/-- The argument of a head as an exact integer, and the rest. -/
def word (info : ℕ) (b : Bytes) : Except Failure (ℕ × Bytes) :=
  if info < 24 then .ok (info, b)
  else if info = 24 then do
    let (w, b) ← take 1 b
    return (Bytes.beValue w, b)
  else if info = 25 then do
    let (w, b) ← take 2 b
    return (Bytes.beValue w, b)
  else if info = 26 then do
    let (w, b) ← take 4 b
    return (Bytes.beValue w, b)
  else if info = 27 then do
    let (w, b) ← take 8 b
    return (Bytes.beValue w, b)
  else .error .coreInvalid

/-- `argument(info)`: the argument must be exact as a number. -/
def argument (info : ℕ) (b : Bytes) : Except Failure (ℕ × Bytes) := do
  let (n, b) ← word info b
  require ((Binary64.exactInteger n).isSome) Failure.coreInvalid
  return (n, b)

/-- Major types 0 and 1. Below eight octets the source does not test for
exactness; every such integer is exact. -/
def readInteger (major info : ℕ) (b : Bytes) : Except Failure (Json × Bytes) := do
  let (n, b) ← word info b
  let x ← orFail Failure.coreInvalid
    (Binary64.exactInteger (if major = 0 then (n : ℤ) else -1 - n))
  return (.num x, b)

/-- Major types 2 and 3. -/
def readText (text : Bytes → Option String) (major info : ℕ) (b : Bytes) :
    Except Failure (Json × Bytes) := do
  let (length, b) ← argument info b
  require (length ≤ 1024 * 1024) Failure.coreInvalid
  let (data, b) ← take length b
  require (major ≠ 2) Failure.coreInvalid
  let t ← orFail Failure.malformedText (text data)
  require (scalarString t maxStringBytes true) Failure.coreInvalid
  return (.str t, b)

/-- `Array.from({ length }, () => value(depth + 1))` -/
def readItems (value : Bytes → Except Failure (Json × Bytes)) :
    ℕ → Bytes → Except Failure (List Json × Bytes)
  | 0, b => .ok ([], b)
  | count + 1, b => do
    let (v, b) ← value b
    let (vs, b) ← readItems value count b
    return (v :: vs, b)

/-- The loop over the pairs of a map, with the keys seen so far. -/
def readProps (value : Bytes → Except Failure (Json × Bytes)) :
    ℕ → List String → Bytes → Except Failure (List (String × Json) × Bytes)
  | 0, _, b => .ok ([], b)
  | count + 1, keys, b => do
    let (k, b) ← value b
    match k with
    | .str key => do
      require (key ∉ keys) Failure.coreInvalid
      let (v, b) ← value b
      let (ps, b) ← readProps value count (key :: keys) b
      return ((key, v) :: ps, b)
    | _ => .error .coreInvalid

/-- Major type 7. -/
def readSimple (info : ℕ) (b : Bytes) : Except Failure (Json × Bytes) :=
  if info = 20 then .ok (.bool false, b)
  else if info = 21 then .ok (.bool true, b)
  else if info = 22 then .ok (.null, b)
  else do
    let f ← orFail Failure.coreInvalid (floatFormats.find? (·.info = info))
    let (w, b) ← take f.size b
    let x ← orFail Failure.coreInvalid (f.format.decode (Bytes.beValue w))
    return (.num x, b)

/-- `value(depth)`, at a depth that leaves room for `levels` more. -/
def readValue (text : Bytes → Option String) : ℕ → Bytes → Except Failure (Json × Bytes)
  | 0, _ => .error .coreInvalid
  | _ + 1, [] => .error .coreInvalid
  | levels + 1, first :: b =>
    let major := first.toNat / 32
    let info := first.toNat % 32
    if major = 0 ∨ major = 1 then readInteger major info b
    else if major = 2 ∨ major = 3 then readText text major info b
    else if major = 4 then do
      let (length, b) ← argument info b
      require (length ≤ 10000) Failure.coreInvalid
      let (items, b) ← readItems (readValue text levels) length b
      return (.arr items, b)
    else if major = 5 then do
      let (length, b) ← argument info b
      require (length ≤ 10000) Failure.coreInvalid
      let (props, b) ← readProps (readValue text levels) length [] b
      return (Value.ofProps props, b)
    else if major = 7 then readSimple info b
    else .error .coreInvalid

/-- The items of an array settled one after the other. -/
def settleItems (settle : CodecValue → Except Failure Json) :
    List CodecValue → Except Failure (List Json)
  | [] => .ok []
  | v :: vs => do
    let w ← settle v
    let ws ← settleItems settle vs
    return w :: ws

/-- The properties of an object settled one after the other. -/
def settleProps (settle : CodecValue → Except Failure Json) :
    List (String × CodecValue) → Except Failure (List (String × Json))
  | [] => .ok []
  | (k, v) :: ps => do
    let w ← settle v
    let qs ← settleProps settle ps
    return (k, w) :: qs

/-- `normalizeCodecIntegers(value, depth)`, at a depth that leaves room for
`levels` more. -/
def settle : ℕ → CodecValue → Except Failure Json
  | 0, _ => .error .coreInvalid
  | levels + 1, v =>
    match v with
    | .null => .ok .null
    | .bool b => .ok (.bool b)
    | .str t => .ok (.str t)
    | .num (.inl x) => .ok (.num x)
    | .num (.inr n) => do
      let x ← orFail Failure.coreInvalid (Binary64.exactInteger n)
      return .num x
    | .arr items => do
      let ws ← settleItems (settle levels) items
      return .arr ws
    | .obj props => do
      let qs ← settleProps (settle levels) props
      return .obj qs

/-- `decodePayload(bytes)` -/
def decodePayload (codec : Codec) (bytes : Bytes) : Except Failure Json := do
  require (bytes.length ≤ maxPayloadBytes) Failure.coreInvalid
  let (inspected, rest) ← readValue decodeText (maxDepth + 1) bytes
  require (rest = []) Failure.coreInvalid
  let raw ← codec bytes
  let settled ← settle (maxDepth + 1) raw
  let decoded ← copyJson settled
  require (stringify inspected = stringify decoded) Failure.coreInvalid
  return decoded

end Kdna.Cbor

import Kdna.Cbor.Encoding
import Kdna.Json.Marks

/-!
# The envelope codec

`encodeEnvelope` and `decodeEnvelope` of `protection-envelope-codec.js`: texts, safe natural
numbers, arrays and plain objects in canonical form. Arguments are as narrow as possible, and
members are sorted by their encoded keys, the shorter first. Every failure is
`PROTECTION_ENVELOPE_INVALID` at the stage `envelope`, so that a failure is `none` here.
-/

namespace Kdna.Protection.Envelope

/-- `LIMIT` -/
def limit : ℕ := 8 * 1024 * 1024

/-- The bound on the items of a value, its keys among them. -/
def maxItems : ℕ := 100000

/-- The bound on the depth. -/
def maxDepth : ℕ := 16

/-- `Number.MAX_SAFE_INTEGER` -/
def maxSafeInteger : ℕ := 2 ^ 53 - 1

/-- The width of the argument in `head`. -/
def width (n : ℕ) : Cbor.Width :=
  if n < 24 then .direct
  else if n ≤ 255 then .one
  else if n ≤ 65535 then .two
  else if n ≤ 4294967295 then .four
  else .eight

/-- `head(major, n)` -/
def head (major n : ℕ) : Bytes := Cbor.head major (width n) n

/-- `compare(a, b)` for octets of one length. -/
def compareOctets : Bytes → Bytes → ℤ
  | a :: as, b :: bs => if a ≠ b then (a.toNat : ℤ) - b.toNat else compareOctets as bs
  | _, _ => 0

/-- `compare(a, b)` -/
def compare (a b : Bytes) : ℤ :=
  if a.length ≠ b.length then (a.length : ℤ) - b.length else compareOctets a b

/-- The number as a safe natural number: `Number.isSafeInteger(v) && v >= 0`. -/
def safeNatural? (x : Binary64) : Option ℕ :=
  x.toInt.bind fun n => if 0 ≤ n ∧ n ≤ maxSafeInteger then some n.toNat else none

/-- `encode` of a value at a depth behind a number of items, with the number behind it. -/
abbrev Encoder := ℕ → ℕ → Option (Bytes × ℕ)

/-- The item at hand counted, within the bounds. -/
def enter (depth count : ℕ) : Option ℕ :=
  if maxItems < count + 1 ∨ maxDepth < depth then none else some (count + 1)

/-- The encoding of a text. -/
def textBytes (t : String) : Bytes := head 3 (Utf8.encode t).length ++ Utf8.encode t

/-- `encode` of a text. -/
def encodeText (t : String) : Encoder := fun depth count => do
  let count ← enter depth count
  if limit < (Utf8.encode t).length then none else some (textBytes t, count)

/-- `encode` of a number. -/
def encodeNumber (x : Binary64) : Encoder := fun depth count => do
  let count ← enter depth count
  let n ← safeNatural? x
  return (head 0 n, count)

/-- `v.map(x => encode(x, depth + 1))`, joined. -/
def encodeItems : List Encoder → Encoder
  | [], _, count => some ([], count)
  | e :: es, depth, count => do
    let (b, count) ← e depth count
    let (bs, count) ← encodeItems es depth count
    return (b ++ bs, count)

/-- `Object.keys(v).map(k => [encode(k, depth + 1), encode(v[k], depth + 1)])` -/
def encodeMembers : List (String × Encoder) → ℕ → ℕ → Option (List (Bytes × Bytes) × ℕ)
  | [], _, count => some ([], count)
  | (k, e) :: ms, depth, count => do
    let (kb, count) ← encodeText k depth count
    let (b, count) ← e depth count
    let (bs, count) ← encodeMembers ms depth count
    return ((kb, b) :: bs, count)

/-- The members sorted by their encoded keys. -/
def sortMembers {α : Type} (ms : List (Bytes × α)) : List (Bytes × α) :=
  ms.insertionSort fun a b => compare a.1 b.1 ≤ 0

/-- `members.flat()`, joined. -/
def joinMembers (ms : List (Bytes × Bytes)) : Bytes := ms.flatMap fun m => m.1 ++ m.2

/-- `encode(v, depth)` -/
def encode : Json → Encoder :=
  Value.fold
    { null := fun _ _ => none
      bool := fun _ _ _ => none
      num := encodeNumber
      str := encodeText
      arr := fun items depth count => do
        let count ← enter depth count
        let (b, count) ← encodeItems items (depth + 1) count
        return (head 4 items.length ++ b, count)
      obj := fun props depth count => do
        let count ← enter depth count
        let (members, count) ← encodeMembers props (depth + 1) count
        return (head 5 members.length ++ joinMembers (sortMembers members), count) }

/-- `encodeEnvelope(value)` -/
def encodeEnvelope (value : Json) : Option Bytes := do
  let (result, _) ← encode value 0 0
  if limit < result.length then none else some result

/-- The least argument that needs a width. -/
def leastArgument : ℕ → ℕ
  | 1 => 24
  | width => 2 ^ (8 * width / 2)

/-- The argument of a head: the additional information, or the word behind it. -/
def readArgument (add : ℕ) (b : Bytes) : Option (ℕ × Bytes) :=
  if add < 24 then some (add, b)
  else
    let width := 2 ^ (add - 24)
    let n := Bytes.beValue (b.take width)
    if b.length < width ∨ maxSafeInteger < n ∨ n < leastArgument width then none
    else some (n, b.drop width)

/-- A head: its major type, its argument and the rest. -/
def readHead : Bytes → Option (ℕ × ℕ × Bytes)
  | [] => none
  | first :: b =>
    let major := first.toNat / 32
    let add := first.toNat % 32
    if (major ≠ 0 ∧ major ≠ 3 ∧ major ≠ 4 ∧ major ≠ 5) ∨ 27 < add then none
    else (readArgument add b).map fun (n, b) => (major, n, b)

/-- `read` of a value behind a number of items, with the number behind it and the rest. -/
abbrev Reader := ℕ → Bytes → Option (Json × ℕ × Bytes)

/-- `Array.from({length: n}, () => read(depth + 1))` -/
def readItems (read : Reader) : ℕ → ℕ → Bytes → Option (List Json × ℕ × Bytes)
  | 0, count, b => some ([], count, b)
  | n + 1, count, b => do
    let (v, count, b) ← read count b
    let (vs, count, b) ← readItems read n count b
    return (v :: vs, count, b)

/-- The loop over the members of a map, with the keys so far and the last encoded one. -/
def readMembers (read : Reader) :
    ℕ → List String → Option Bytes → ℕ → Bytes → Option (List (String × Json) × ℕ × Bytes)
  | 0, _, _, count, b => some ([], count, b)
  | n + 1, keys, prior, count, b => do
    let (k, count, rest) ← read count b
    let encoded := b.take (b.length - rest.length)
    match k with
    | .str key =>
      if key ∈ keys ∨ prior.any fun p => 0 ≤ compare p encoded then none
      else do
        let (v, count, b) ← read count rest
        let (ps, count, b) ← readMembers read n (key :: keys) (some encoded) count b
        return ((key, v) :: ps, count, b)
    | _ => none

/-- A text of `n` octets. -/
def readText (text : Bytes → Option String) (n : ℕ) (b : Bytes) : Option (Json × Bytes) :=
  if limit < n ∨ b.length < n then none
  else (text (b.take n)).map fun t => (.str t, b.drop n)

/-- The item behind its head. -/
def readItem (text : Bytes → Option String) (read : Reader) (count major n : ℕ) (b : Bytes) :
    Option (Json × ℕ × Bytes) :=
  if major = 0 then (Binary64.exactInteger n).map fun x => (.num x, count, b)
  else if major = 3 then (readText text n b).map fun (v, b) => (v, count, b)
  else if maxItems < n then none
  else if major = 4 then
    (readItems read n count b).map fun (vs, count, b) => (.arr vs, count, b)
  else
    (readMembers read n [] none count b).map fun (ps, count, b) => (Value.ofProps ps, count, b)

/-- `read(depth)`, at a depth that leaves room for `levels` more. -/
def read (text : Bytes → Option String) : ℕ → Reader
  | 0, _, _ => none
  | levels + 1, count, b =>
    if maxItems < count + 1 then none
    else (readHead b).bind fun h =>
      readItem text (read text levels) (count + 1) h.1 h.2.1 h.2.2

/-- `decodeEnvelope(input)`. The decoder of the texts drops a leading mark. -/
def decodeEnvelope (input : Bytes) : Option Json := do
  if input = [] ∨ limit < input.length then none
  else do
    let (value, _, rest) ← read decodeText (maxDepth + 1) 0 input
    if rest ≠ [] ∨ encodeEnvelope value ≠ some input then none else some value

end Kdna.Protection.Envelope

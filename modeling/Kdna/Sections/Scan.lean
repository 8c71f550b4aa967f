import Kdna.Cbor.Encoding
import Kdna.Data.Tiling

/-!
# The structural scan of a section frame

`scanFrame` of `section-structure-scanner.js`. The scan asks for the octets it
needs and passes over the texts it does not retain, so it reports which ranges it
read, which it skipped, and the value with a marker for each skipped text. Whether
a text is retained depends on its path.
-/

namespace Kdna.Sections

/-- The codes a scan stops with, the `TypeError` of the text decoder, and an
exception of the reader it was given. -/
inductive ScanFailure
  | range
  | short
  | indefiniteOrReserved
  | lengthOrIntegerRange
  | depth
  | integerRepresentation
  | byteString
  | stringLimit
  | leadingBom
  | collectionLimit
  | mapKey
  | simple
  | nonfinite
  | trailingBytes
  | tagOrMajor
  | malformedText
  | external
  deriving DecidableEq, Repr

/-- A step of a path into a frame. -/
inductive PathStep
  | key (name : String)
  | index (i : ℕ)
  deriving DecidableEq, Repr

/-- What a range is read for. -/
inductive Purpose
  | cborInitial
  | cborArgument
  | cborInteger
  | cborFloat
  | mapKey
  | bindingString
  deriving DecidableEq, Repr

/-- A range that was read. -/
structure ReadRange where
  offset : ℕ
  length : ℕ
  purpose : Purpose

/-- A range that was skipped. -/
structure SkipRange where
  offset : ℕ
  length : ℕ
  path : List PathStep

/-- The variables of a scan. -/
structure ScanState where
  offset : ℕ
  reads : List ReadRange
  skips : List SkipRange

/-- A scanned value: `none` stands for the marker `SKIPPED` of a skipped text. -/
abbrev Scanned := Value Binary64 (Option String)

/-- The callback that reads a range. -/
abbrev Reader := ℕ → ℕ → Purpose → Except ScanFailure Bytes

/-- `names.includes(step)` -/
def includes (names : List String) : Option PathStep → Bool
  | some (.key name) => names.contains name
  | _ => false

/-- `isEnvelope(path)` -/
def isEnvelope : List PathStep → Bool
  | [head, .index _, last] => includes ["records"] (some head) &&
      !includes ["value", "method_interpretation", "static_policy_interpretation"] (some last)
  | _ => false

/-- `retained(path, force)` under the option `interpretationInputs`. -/
def retained (interpretationInputs : Bool) (path : List PathStep) (force : Bool) : Bool :=
  let inValue := includes ["records"] path[0]? && includes ["value"] path[2]?
  (interpretationInputs && inValue &&
      (path.length == 4 && includes ["method", "extensions", "result_contract", "formation_rule",
          "parent_ref", "lifecycle"] path[3]? ||
        includes ["extension", "extensions"] path.getLast?)) ||
    force || isEnvelope path ||
    (path.length == 1 && includes ["kind", "section_id"] path[0]?) ||
    (inValue && includes ["id", "kind", "asset_uid", "owner_ref", "state"] path.getLast?)

section Scan

variable (interpretationInputs : Bool) (length : ℕ) (read : Reader)

/-- `take(n, purpose)` -/
def scanTake (n : ℕ) (purpose : Purpose) (st : ScanState) :
    Except ScanFailure (Bytes × ScanState) := do
  require (st.offset + n ≤ length) ScanFailure.range
  if n = 0 then .ok ([], st)
  else do
    let b ← read st.offset n purpose
    require (b.length = n) ScanFailure.short
    return (b, { st with offset := st.offset + n
                         reads := st.reads ++ [⟨st.offset, n, purpose⟩] })

/-- `skip(n, path)` -/
def scanSkip (n : ℕ) (path : List PathStep) (st : ScanState) : Except ScanFailure ScanState := do
  require (st.offset + n ≤ length) ScanFailure.range
  return { st with offset := st.offset + n, skips := st.skips ++ [⟨st.offset, n, path⟩] }

/-- `argument(info)`. An eight-octet argument is rounded to a number before the
test; rounding does not carry it across the bound. -/
def scanArgument (info : ℕ) (st : ScanState) : Except ScanFailure (ℕ × ScanState) :=
  if info < 24 then .ok (info, st)
  else do
    require (info ≤ 27) ScanFailure.indefiniteOrReserved
    let (b, st) ← scanTake length read (2 ^ (info - 24)) .cborArgument st
    require (Bytes.beValue b < 2 ^ 53) ScanFailure.lengthOrIntegerRange
    return (Bytes.beValue b, st)

/-- The argument of an integer, of which eight octets need not be a safe integer. -/
def scanWord (info : ℕ) (st : ScanState) : Except ScanFailure (ℕ × ScanState) :=
  if info = 27 then do
    let (b, st) ← scanTake length read 8 .cborInteger st
    return (Bytes.beValue b, st)
  else scanArgument length read info st

/-- Major types 0 and 1. Below eight octets the source does not test major type 0
for exactness; every such integer is exact. -/
def scanInteger (major info : ℕ) (st : ScanState) : Except ScanFailure (Scanned × ScanState) := do
  let (n, st) ← scanWord length read info st
  let x ← orFail ScanFailure.integerRepresentation
    (Binary64.exactInteger (if major = 0 then (n : ℤ) else -1 - n))
  return (.num x, st)

/-- Major types 2 and 3. -/
def scanText (path : List PathStep) (force key : Bool) (major info : ℕ) (st : ScanState) :
    Except ScanFailure (Scanned × ScanState) := do
  require (major = 3) ScanFailure.byteString
  let (n, st) ← scanArgument length read info st
  require (n ≤ 1048576) ScanFailure.stringLimit
  if force || key then do
    let (b, st) ← scanTake length read n (if key then .mapKey else .bindingString) st
    let text ← orFail ScanFailure.malformedText (Utf8.decode b)
    require (text.toList.head? ≠ some '\uFEFF') ScanFailure.leadingBom
    return (.str (some text), st)
  else do
    let st ← scanSkip length n path st
    return (.str none, st)

/-- The loop over the items of an array, from the index `i`. -/
def scanItems (value : ℕ → ScanState → Except ScanFailure (Scanned × ScanState)) :
    ℕ → ℕ → ScanState → Except ScanFailure (List Scanned × ScanState)
  | 0, _, st => .ok ([], st)
  | count + 1, i, st => do
    let (v, st) ← value i st
    let (vs, st) ← scanItems value count (i + 1) st
    return (v :: vs, st)

/-- The loop over the pairs of a map, with the keys seen so far. -/
def scanProps (key : ScanState → Except ScanFailure (Scanned × ScanState))
    (value : String → ScanState → Except ScanFailure (Scanned × ScanState)) :
    ℕ → List String → ScanState → Except ScanFailure (List (String × Scanned) × ScanState)
  | 0, _, st => .ok ([], st)
  | count + 1, keys, st => do
    let (k, st) ← key st
    match k with
    | .str (some name) => do
      require (name ∉ keys) ScanFailure.mapKey
      let (v, st) ← value name st
      let (ps, st) ← scanProps key value count (name :: keys) st
      return ((name, v) :: ps, st)
    | _ => .error .mapKey

/-- Major type 7. -/
def scanSimple (info : ℕ) (st : ScanState) : Except ScanFailure (Scanned × ScanState) :=
  if info = 20 then .ok (.bool false, st)
  else if info = 21 then .ok (.bool true, st)
  else if info = 22 then .ok (.null, st)
  else do
    let f ← orFail ScanFailure.simple (Cbor.floatFormats.find? (·.info = info))
    let (data, st) ← scanTake length read (2 ^ (info - 24)) .cborFloat st
    let x ← orFail ScanFailure.nonfinite (f.format.decode (Bytes.beValue data))
    return (.num x, st)

/-- `value(depth, path, force, key)`, at a depth that leaves room for `levels`
more. -/
def scanValue : ℕ → List PathStep → Bool → Bool → ScanState →
    Except ScanFailure (Scanned × ScanState)
  | 0, _, _, _, _ => .error .depth
  | levels + 1, path, force, key, st => do
    let (b, st) ← scanTake length read 1 .cborInitial st
    let major := (b.headD 0).toNat / 32
    let info := (b.headD 0).toNat % 32
    let force := retained interpretationInputs path force
    if major = 0 ∨ major = 1 then scanInteger length read major info st
    else if major = 2 ∨ major = 3 then scanText length read path force key major info st
    else if major = 4 then do
      let (n, st) ← scanArgument length read info st
      require (n ≤ 10000) ScanFailure.collectionLimit
      let (items, st) ← scanItems
        (fun i => scanValue levels (path ++ [.index i]) force false) n 0 st
      return (.arr items, st)
    else if major = 5 then do
      let (n, st) ← scanArgument length read info st
      require (n ≤ 10000) ScanFailure.collectionLimit
      let (props, st) ← scanProps (scanValue levels (path ++ [.key "<key>"]) false true)
        (fun name => scanValue levels (path ++ [.key name]) force false) n [] st
      return (Value.ofProps props, st)
    else if major = 7 then scanSimple length read info st
    else .error .tagOrMajor

/-- What a scan returns. -/
structure ScanResult where
  scanned : Scanned
  reads : List ReadRange
  skips : List SkipRange
  readBytes : ℕ
  skippedTextBytes : ℕ

/-- `scanFrame(length, read, { interpretationInputs })` -/
def scanFrame : Except ScanFailure ScanResult := do
  let (scanned, st) ← scanValue interpretationInputs length read (maxDepth + 1) [] false false
    ⟨0, [], []⟩
  require (st.offset = length) ScanFailure.trailingBytes
  return { scanned, reads := st.reads, skips := st.skips
           readBytes := (st.reads.map ReadRange.length).sum
           skippedTextBytes := (st.skips.map SkipRange.length).sum }

end Scan

/-- The value with the marker in place of every text that is not retained. -/
def masked (interpretationInputs : Bool) : Json → List PathStep → Bool → Scanned :=
  Value.fold
    { null := fun _ _ => .null
      bool := fun b _ _ => .bool b
      num := fun x _ _ => .num x
      str := fun t path force =>
        .str (if retained interpretationInputs path force then some t else none)
      arr := fun items path force => .arr (items.mapIdx fun i item =>
        item (path ++ [.index i]) (retained interpretationInputs path force))
      obj := fun props path force => .obj (props.map fun p =>
        (p.1, p.2 (path ++ [.key p.1]) (retained interpretationInputs path force))) }

end Kdna.Sections

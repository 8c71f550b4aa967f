import Kdna.Data.Bytes
import Mathlib.Data.List.Range

/-!
# Classes of rejected inputs

An input that is rejected before its manifest is read is looked at once more: is it no container at
all, a damaged one, or one of another family? The entry for a path and the entry for octets answer
with classifiers of their own. Both search the end of the input for the signature of an end record;
the one for octets takes the first it finds, the one for a path the last.
-/

namespace Kdna.Input

/-- A reported class: reason, stage and field. A damaged container has none. -/
structure InputClass where
  reason : String
  stage : String
  field : Option String
  deriving DecidableEq

def inputInvalid : InputClass := ⟨"READ_INPUT_INVALID", "input", none⟩

def unsupportedVersion : InputClass :=
  ⟨"READ_UNSUPPORTED_VERSION", "metadata", some "/payload.kdnab"⟩

/-- `INPUT_MARKERS.eocd` -/
def eocdMarker : Bytes := [80, 75, 5, 6]

/-- `INPUT_MARKERS.payload` -/
def payloadMarker : Bytes := [112, 97, 121, 108, 111, 97, 100, 46, 107, 100, 110, 97, 98]

/-- `INPUT_MARKERS.frames` -/
def framesMarker : Bytes := [115, 101, 99, 116, 105, 111, 110, 115, 47, 112, 97, 99, 107, 45]

/-- `INPUT_TAIL` -/
def inputTail : ℕ := 65557

/-- `DIR_SCAN_CAP` -/
def dirScanCap : ℕ := 1048576

/-- `Number.MAX_SAFE_INTEGER` -/
def maxSafeInteger : ℕ := 2 ^ 53 - 1

/-- The octets of `needle` stand in `buf` at `i`. -/
def matchesAt (buf needle : Bytes) (i : ℕ) : Bool := Bytes.slice buf i needle.length == needle

/-- `findBytes(buf, needle, from, to)` -/
def findBytes (buf needle : Bytes) (start stop : ℕ) : Option ℕ :=
  (List.range' start (min stop buf.length + 1 - needle.length - start)).find? (matchesAt buf needle)

/-- The loop of `findLastBytes` below a position. -/
def findBelow (buf needle : Bytes) : ℕ → Option ℕ
  | 0 => none
  | i + 1 => if matchesAt buf needle i then some i else findBelow buf needle i

/-- `findLastBytes(buf, needle)` -/
def findLastBytes (buf needle : Bytes) : Option ℕ :=
  findBelow buf needle (buf.length + 1 - needle.length)

/-- The test of the first octets for a local, an end or a spanning record. -/
def zipMagic : Bytes → Bool
  | a :: b :: c :: _ :: _ => a == 0x50 && b == 0x4b && (c == 0x03 || c == 0x05 || c == 0x07)
  | _ => false

/-- The word of four octets at `i`, where an octet past the end counts as zero. -/
def word (buf : Bytes) (i : ℕ) : ℕ := Bytes.leValue (Bytes.slice buf i 4)

/-- `buf.readUInt32LE(i)`, with `none` for its `RangeError`. -/
def readUInt32LE (buf : Bytes) (i : ℕ) : Option ℕ :=
  if i + 4 ≤ buf.length then some (word buf i) else none

/-- `inputFailureClass(bytes)` with `containerMeta` -/
def inputFailureClass (bytes : Bytes) : Option InputClass :=
  let eocd :=
    if bytes.length ≥ 22 then findBytes bytes eocdMarker (bytes.length - inputTail) bytes.length
    else none
  match eocd with
  | none => if zipMagic bytes then none else some inputInvalid
  | some eocd =>
    let cdStart := word bytes (eocd + 16)
    let cdSize := word bytes (eocd + 12)
    if cdStart + cdSize > bytes.length ∨ cdSize > dirScanCap then none
    else
      let hasPayload := (findBytes bytes payloadMarker cdStart (cdStart + cdSize)).isSome
      let hasFrames := (findBytes bytes framesMarker cdStart (cdStart + cdSize)).isSome
      if hasPayload && !hasFrames then some unsupportedVersion else none

/-- What `pathInputClass` does behind the search: the two words are read from the tail, and
a directory that is not empty is searched on its own. -/
def classAt (file tail : Bytes) (eocd : ℕ) : Option InputClass := do
  let cdStart ← readUInt32LE tail (eocd + 16)
  let cdSize ← readUInt32LE tail (eocd + 12)
  if cdStart + cdSize > file.length ∨ cdSize = 0 ∨ cdSize > dirScanCap then none
  else
    let dir := Bytes.slice file cdStart cdSize
    let hasPayload := (findBytes dir payloadMarker 0 dir.length).isSome
    let hasFrames := (findBytes dir framesMarker 0 dir.length).isSome
    if hasPayload && !hasFrames then some unsupportedVersion else none

/-- `pathInputClass(file)` for a regular file that holds the octets. -/
def pathInputClass (file : Bytes) : Option InputClass :=
  let zip := zipMagic (file.take 4)
  if file.length > maxSafeInteger then some inputInvalid
  else if file.length < 22 then if zip then none else some inputInvalid
  else
    let tail := file.drop (file.length - min file.length inputTail)
    match findLastBytes tail eocdMarker with
    | none => if zip then none else some inputInvalid
    | some eocd => classAt file tail eocd

end Kdna.Input

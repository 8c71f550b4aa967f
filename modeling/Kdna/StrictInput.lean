import Kdna.Data.Utf8
import Mathlib.Data.List.Basic
import Mathlib.Data.List.Infix

/-!
# Texts and names of the strict input layer

The predicates of `strict-input.js` on texts. A Lean `String` is a sequence of
Unicode scalar values, so the surrogate test of `scalarString` holds of every
value here; a JavaScript string with an unpaired surrogate is not a value of the
type. The module-level decoder of the source is created without `ignoreBOM`, so
it drops one leading byte order mark.
-/

namespace Kdna

/-- What makes a check of this layer stop: the reasons it rejects with, the
`TypeError` of the text decoder, the `SyntaxError` of `JSON.parse`, and an exception
of a function it was given. -/
inductive Failure
  | inputInvalid
  | coreInvalid
  | coreCapabilityUnavailable
  | malformedText
  | syntaxError
  | external
  deriving DecidableEq, Repr

/-- `MAX_DEPTH` -/
def maxDepth : ℕ := 64

/-- `MAX_PAYLOAD_BYTES` -/
def maxPayloadBytes : ℕ := 8 * 1024 * 1024

/-- `MAX_GRAPH_BYTES` -/
def maxGraphBytes : ℕ := 256 * 1024 * 1024

/-- `MAX_STRING_BYTES` -/
def maxStringBytes : ℕ := 1024 * 1024

/-- `new TextDecoder('utf-8', { fatal: true }).decode`, with `none` for its
`TypeError`. -/
def decodeText (b : Bytes) : Option String := (Utf8.decode b).map Utf8.stripBom

/-- A C0, DEL or C1 control character. -/
def isControl (c : Char) : Bool := c.toNat ≤ 0x1F || (0x7F ≤ c.toNat && c.toNat ≤ 0x9F)

/-- `scalarString(value, maximum, controls)` -/
def scalarString (value : String) (maximum : ℕ) (controls : Bool) : Bool :=
  (controls || value.toList.all fun c => !isControl c) &&
    decide ((Utf8.encode value).length ≤ maximum)

/-- `identifier(value)` -/
def identifier (value : String) : Bool :=
  !value.toList.isEmpty && scalarString value 256 false

/-- `/^[A-Za-z]:/` -/
def hasDrivePrefix : List Char → Bool
  | c :: ':' :: _ => c.isAlpha
  | _ => false

/-- `entryName(value)`: a relative path with no empty, `.` or `..` part. -/
def entryName (value : String) : Bool :=
  !value.toList.isEmpty && scalarString value 4096 false &&
    !value.toList.contains '\\' && !(['/'].isPrefixOf value.toList) &&
    !hasDrivePrefix value.toList &&
    (value.toList.splitOn '/').all fun part => part ≠ [] && part ≠ ['.'] && part ≠ ['.', '.']

/-- `value.startsWith(lead)` -/
def startsWith (value lead : String) : Bool := lead.toList.isPrefixOf value.toList

/-- `(0|[1-9][0-9]*)` -/
def isCanonicalNumber : List Char → Bool
  | ['0'] => true
  | c :: cs => '1' ≤ c && c ≤ '9' && cs.all Char.isDigit
  | [] => false

/-- An accepted entry name is short. -/
theorem entryName.length_le {value : String} (h : entryName value = true) :
    (Utf8.encode value).length ≤ 4096 := by
  simp only [entryName, scalarString, Bool.and_eq_true, decide_eq_true_eq] at h
  exact h.1.1.1.1.2.2

/-- The text decoder accepts the encodings, and what it returns is the encoded
text less one leading U+FEFF. -/
theorem decodeText_eq_some_iff {b : Bytes} {t : String} :
    decodeText b = some t ↔ ∃ s, Utf8.encode s = b ∧ Utf8.stripBom s = t := by
  simp only [decodeText, Option.map_eq_some_iff, Utf8.decode_eq_some_iff]

/-- A decoded text encodes to the octets it came from exactly when these do not
start with the byte order mark. -/
theorem encode_decodeText_iff {b : Bytes} {t : String} (h : decodeText b = some t) :
    Utf8.encode t = b ↔ ¬ Utf8.bom <+: b := by
  obtain ⟨s, rfl, rfl⟩ := decodeText_eq_some_iff.mp h
  rw [← Utf8.stripBom_eq_self_iff]
  exact ⟨fun henc => Utf8.encode_injective henc, fun heq => by rw [heq]⟩

/-- A text without a leading U+FEFF survives encoding and decoding. -/
theorem decodeText_encode {s : String} (h : ¬ Utf8.bom <+: Utf8.encode s) :
    decodeText (Utf8.encode s) = some s := by
  rw [decodeText_eq_some_iff]
  exact ⟨s, rfl, (Utf8.stripBom_eq_self_iff s).mpr h⟩

end Kdna

import Kdna.Data.Delimited
import Kdna.Data.Upsert
import Kdna.Data.Utf8Order
import Kdna.Json.Access
import Kdna.Json.Canonical
import Kdna.Json.Parse

/-!
# Digest preimages

The byte strings of `digests.js` and `protection-integrity.js` whose digests identify an
asset: the content tree, the set of runtime entries, and the content that a signature
covers. Each lists entries by the octets of their names.
-/

namespace Kdna.Digest

open Value

/-- The entries of an asset: an object with a byte string under each name. -/
structure EntrySet where
  rows : List (String × Bytes)
  nodup : (rows.map Prod.fst).Nodup

/-- `entries[name]` -/
def EntrySet.get (entries : EntrySet) (name : String) : Option Bytes := getKey name entries.rows

/-- `Number.MAX_SAFE_INTEGER` -/
def maxSafeInteger : ℕ := 2 ^ 53 - 1

/-- `word(number, width)` for a count. -/
def word (number width : ℕ) : Except Failure Bytes := do
  require (number ≤ maxSafeInteger ∧ (width = 4 → number ≤ 0xffffffff)) Failure.inputInvalid
  return Bytes.beWord width number

/-- A byte string behind its `word`. -/
def sized (width : ℕ) (bytes : Bytes) : Except Failure Bytes := do
  return (← word bytes.length width) ++ bytes

/-- `utf8(value)` of a name. -/
def nameBytes (name : String) : Except Failure Bytes := do
  require (scalarString name maxStringBytes true) Failure.inputInvalid
  return Utf8.encode name

/-- Whether an entry may be part of an asset. -/
def admitted (name : String) : Bool :=
  entryName name && name ≠ "build-receipt.json" && !startsWith name "reports/" &&
    !startsWith name "authoring/"

/-- The check of `admittedNames(entries)`. -/
def admitNames (entries : EntrySet) : Except Failure Unit :=
  require (∀ name ∈ entries.rows.map Prod.fst, admitted name) Failure.coreInvalid

/-- `delete value[name]` -/
def deleteProp (name : String) : Json → Json
  | .obj props => .obj (props.filter fun p => p.1 ≠ name)
  | v => v

/-- `delete value[holder][name]`, where `value[holder]` is an object. -/
def deleteBelow (holder name : String) : Json → Json
  | .obj props => .obj (props.map fun p => if p.1 = holder then (p.1, deleteProp name p.2) else p)
  | v => v

/-- An object that is no array. -/
def isRecord : Json → Bool
  | .obj _ => true
  | _ => false

/-- `null` -/
def isNull : Json → Bool
  | .null => true
  | _ => false

/-- `name.endsWith('.json')` -/
def isJson (name : String) : Bool := ".json".toList.isSuffixOf name.toList

/-- The octets of a canonical text. -/
def canonicalBytes (v : Json) : Except Failure Bytes := do
  return Utf8.encode (← canonicalJson v)

/-- What stands for an entry: its octets, or what is left of a JSON value in canonical form. -/
def contentOf (json : String → Bool) (value : String → Json → Except Failure Json)
    (row : String × Bytes) : Except Failure Bytes :=
  if json row.1 then do canonicalBytes (← value row.1 (← parseJson row.2))
  else .ok row.2

/-- The rows of the covered entries, by the octets of their names. -/
def coveredRows (covers : String → Bool) (entries : EntrySet) : List (String × Bytes) :=
  (sortByUtf8 Prod.fst entries.rows).filter fun row => covers row.1

/-- What the content tree hashes of a JSON entry: the manifest without the digests that
depend on the tree. -/
def treeValue (name : String) (v : Json) : Except Failure Json :=
  if name = "kdna.json" then do
    require (isRecord v) Failure.inputInvalid
    require (∀ authoring ∈ v.prop "authoring", isRecord authoring) Failure.inputInvalid
    return deleteBelow "authoring" "content_digest" (deleteProp "content_digest" v)
  else .ok v

/-- The content of an entry in the content tree. -/
def treeContent : String × Bytes → Except Failure Bytes := contentOf isJson treeValue

/-- A row of the content tree. -/
def treeRow (row : String × Bytes) : Except Failure Bytes := do
  let content ← treeContent row
  let name ← nameBytes row.1
  return (← sized 4 name) ++ [if isJson row.1 then 0 else 1] ++ (← sized 8 content)

/-- Whether the content tree covers an entry. -/
def inTree (name : String) : Bool := name ≠ "checksums.json" && name ≠ "signature.kdsig"

/-- `contentTreePreimage(entries)` -/
def contentTreePreimage (entries : EntrySet) : Except Failure Bytes := do
  admitNames entries
  let count ← word (coveredRows inTree entries).length 4
  let rows ← (coveredRows inTree entries).mapM treeRow
  return Utf8.encode "KDNA-CONTENT-TREE\x000.2.0\x00" ++ count ++ rows.flatten

/-- `manifest.runtime.mandatory_entries` -/
def mandatoryEntries (manifest : Json) : Except Failure (List String) := do
  let runtime ← member manifest "runtime"
  let declared ← memberItems runtime "mandatory_entries"
  declared.mapM fun name => orFail Failure.coreInvalid (text? name)

/-- Whether a manifest may declare a runtime entry. -/
def declarable (name : String) : Bool :=
  entryName name && !(["checksums.json", "signature.kdsig", "mimetype"].contains name)

/-- `runtimeEntryNames(entries, manifest)` -/
def runtimeEntryNames (entries : EntrySet) (manifest : Json) : Except Failure (List String) := do
  admitNames entries
  let declared ← mandatoryEntries manifest
  require (declared.Nodup ∧ ∀ name ∈ declared, declarable name) Failure.coreInvalid
  let names := sortByUtf8 id ("kdna.json" :: "payload.kdnab" :: declared).dedup
  require (∀ name ∈ names, (entries.get name).isSome) Failure.coreInvalid
  return names

/-- A row of the set of runtime entries. -/
def runtimeRow (entries : EntrySet) (name : String) : Except Failure Bytes := do
  let bytes ← nameBytes name
  let content ← orFail Failure.coreInvalid (entries.get name)
  return (← sized 4 bytes) ++ (← sized 8 content)

/-- `runtimeEntryPreimage(entries, manifest)` -/
def runtimeEntryPreimage (entries : EntrySet) (manifest : Json) : Except Failure Bytes := do
  let names ← runtimeEntryNames entries manifest
  let count ← word names.length 4
  let rows ← names.mapM (runtimeRow entries)
  return Utf8.encode "KDNA-RUNTIME-ENTRY-SET\x000.2.0\x00" ++ count ++ rows.flatten

/-- `n.toString(16).padStart(2, '0')` of an octet. -/
def hexPair (n : UInt8) : List Char := [Nat.digitChar (n.toNat / 16), Nat.digitChar (n.toNat % 16)]

/-- The hexadecimal digits of a digest. -/
def hex (sha256 : Bytes → Vector UInt8 32) (bytes : Bytes) : List Char :=
  (sha256 bytes).toList.flatMap hexPair

/-- `digest(bytes)` -/
def digest (sha256 : Bytes → Vector UInt8 32) (bytes : Bytes) : String :=
  "sha256:" ++ String.ofList (hex sha256 bytes)

/-- Whether a signature covers an entry. -/
def isSigned (name : String) : Bool :=
  !([".DS_Store", "build-receipt.json", "signature.kdsig"].contains name) &&
    !startsWith name "reports/"

/-- `/\.json$/i.test(name)` -/
def isAnyJson (name : String) : Bool := ".json".toList.isSuffixOf (name.toList.map Char.toLower)

/-- The members that a signature leaves out of the manifest. -/
def unsignedNames : List String := ["asset_digest", "container_sha256", "content_digest", "_source"]

/-- What a signature covers of a JSON entry. `delete` throws on `null`. -/
def signedValue (name : String) (v : Json) : Except Failure Json :=
  if name = "kdna.json" then do
    require (!isNull v) Failure.inputInvalid
    return deleteBelow "authoring" "content_digest"
      (unsignedNames.foldl (fun v key => deleteProp key v) v)
  else .ok v

/-- The octets that a signature hashes of an entry. -/
def signedContent : String × Bytes → Except Failure Bytes := contentOf isAnyJson signedValue

/-- A row of the signed content. -/
def signatureRow (sha256 : Bytes → Vector UInt8 32) (row : String × Bytes) :
    Except Failure (List Char) := do
  let content ← signedContent row
  return row.1.toList ++ ':' :: (digest sha256 content).toList.drop 7

/-- `signatureContentPreimage(entries)` -/
def signatureContentPreimage (sha256 : Bytes → Vector UInt8 32) (entries : EntrySet) :
    Except Failure Bytes := do
  let rows ← (coveredRows isSigned entries).mapM (signatureRow sha256)
  return Utf8.encodeChars (List.intercalate ['\n'] rows)

end Kdna.Digest

import Kdna.Ir.Canonical

/-!
# Admission of a payload

The part of ordinary admission behind the bytes: a decoded payload is checked against
its shape, its manifest and the cross-entry rules, its IR is built, and the snapshot
that holds the IR passes the strict check. Of the generated payload shape the members
of the payload and of its declarations are written out; the shapes below are a
parameter.
-/

namespace Kdna.Ir

/-- The collections of a payload that hold the asset's own objects, with their kinds. -/
def ownCollections : List (Kind × String) :=
  rootCollections ++ [(.exception, "exceptions"), (.misuse, "misuse")]

/-- The required members of a payload that are no collection of the asset. -/
def requiredNames : List String :=
  ["profile", "profile_version", "asset", "scope", "judgments", "asset_capability",
    "declarations", "kernel"]

/-- The members a payload may lack. -/
def optionalNames : List String :=
  ["attributions", "cohesion", "content_risk", "extensions", "reading_order"]

/-- `BoundaryDeclaration` -/
def boundaryDeclarationShape (declaration : Json) : Bool :=
  closedObject declaration ["state", "value"] [] &&
    if declaration.propIs "state" "provided" then
      match declaration.prop "value" with
      | some (.arr (_ :: _)) => true
      | _ => false
    else
      match declaration.prop "value" with
      | some .null => true
      | _ => false

/-- `AuthoredDeclarations` -/
def declarationsShape (declarations : Json) : Bool :=
  closedObject declarations ["highest_question"] ["boundaries"] &&
    match declarations.prop "boundaries" with
    | some declaration => boundaryDeclarationShape declaration
    | none => true

/-- `validate('Payload', payload)` -/
def validPayload (core : Core) (payload : Json) : Bool :=
  closedObject payload (ownCollections.map Prod.snd ++ requiredNames) optionalNames &&
    payload.propIs "profile" "kdna.payload.judgment" &&
    payload.propIs "profile_version" "0.5.1" &&
    ((ownCollections.map Prod.snd ++ ["judgments"]).all fun name =>
      (memberItems payload name).toBool) &&
    ((payload.prop "declarations").any declarationsShape) &&
    core.payloadShape payload

/-- The declared forms of the judgments. -/
def forms (judgments : List Json) : List (Option String) :=
  judgments.map fun j => (j.prop "form").bind Value.text?

/-- `capabilityFor(payload)` -/
def capabilityFor (judgments : List Json) : Option String :=
  let declared := forms judgments
  if declared = [] then none
  else if ∃ f ∈ declared, f ≠ some "conclusion" ∧ f ≠ some "rule" then none
  else match declared.dedup with
    | [some "conclusion"] => some "asserted_answers"
    | [some "rule"] => some "result_forming_rules"
    | _ => some "mixed"

/-- `ruleAssetCapability(payload)` finds no violation. -/
def ruleAssetCapability (payload : Json) (judgments : List Json) : Bool :=
  match capabilityFor judgments with
  | some expected => payload.propIs "asset_capability" expected
  | none => false

/-- `validateDecodedPayload(manifest, payload)` -/
def validateDecodedPayload (core : Core) (manifest payload : Json) : Except Failure Unit := do
  require (validPayload core payload) Failure.coreInvalid
  let asset ← member payload "asset"
  require ((asset.prop "asset_id").bind Value.text? = (manifest.prop "asset_id").bind Value.text? ∧
    (asset.prop "asset_version").bind Value.text? = (manifest.prop "version").bind Value.text? ∧
    (asset.prop "judgment_version").bind Value.text? =
      (manifest.prop "judgment_version").bind Value.text?) Failure.coreInvalid
  let judgments ← memberItems payload "judgments"
  require (ruleAssetCapability payload judgments ∧ core.crossEntryRules payload)
    Failure.coreInvalid

/-- What a snapshot holds beside the IR. -/
structure SnapshotFields where
  snapshotId : String
  digests : Json
  irDigest : String
  runtimeEntryNames : List String

/-- The data of a snapshot. Its `expansion_targets` are the array of the IR itself, which
the strict check charges once. -/
def snapshotData (fields : SnapshotFields) (ir : CanonicalIr) : Json :=
  .obj [("snapshot_id", .str fields.snapshotId), ("tuple", textRecord versionTuple), ("asset", ir.asset),
    ("digests", fields.digests), ("ir", ir.json), ("ir_digest", .str fields.irDigest),
    ("runtime_entry_names", .arr (fields.runtimeEntryNames.map .str))]

/-- Admission of a decoded payload, up to the snapshot it issues. -/
def admitPayload (core : Core) (fields : SnapshotFields) (manifest payload : Json)
    (entries : Entries) : Except Failure CanonicalIr := do
  validateDecodedPayload core manifest payload
  let ir ← buildIR core manifest payload entries
  assertStrictJson (snapshotData fields ir)
  return ir

end Kdna.Ir

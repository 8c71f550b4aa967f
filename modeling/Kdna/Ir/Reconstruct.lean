import Kdna.Ir.Admission

/-!
# The payload of an IR

`reconstructPayload` of `section-reconstruct.js` puts the payload together again from
the nodes of an IR. For every admitted payload it returns that payload.
-/

namespace Kdna.Ir

/-- `versionTuple` of the sections contract. -/
def candidateTuple : List (String × String) :=
  [("container", "0.6.0"), ("payload_profile", "kdna.payload.judgment"),
    ("payload_version", "0.5.1"), ("core", "kdna.core/0.8.2"), ("ir", "kdna.canonical-ir/0.6.1"),
    ("runtime", "kdna.runtime-capsule/0.3.1"), ("plan", "kdna.consumption-plan/0.3.1"),
    ("host", "kdna.agent-host/0.3.1"), ("trace", "kdna.judgment-trace/0.3.1"),
    ("read", "kdna.read/0.7.0-candidate")]

/-- `{ ...ir, tuple: copyJson(tuple) }` -/
def CanonicalIr.candidate (ir : CanonicalIr) : CanonicalIr :=
  { ir with tuple := textRecord candidateTuple }

/-- `validate('CanonicalIR06Candidate', ir)` -/
def validateCandidate (core : Core) (ir : CanonicalIr) : Except Failure Unit := do
  assertStrictJson ir.json
  require (validIr core candidateTuple ir) Failure.coreInvalid

/-- `n.target.kind === kind` -/
def kindIs (n : Json) (kind : Kind) : Bool := (n.prop "target").any (·.propIs "kind" kind.text)

/-- `n.owner_judgment_id === null` -/
def ownerless (n : Json) : Bool :=
  match n.prop "owner_judgment_id" with
  | some .null => true
  | _ => false

/-- `canonicalJson(a) === canonicalJson(b)` -/
def same (a b : Json) : Except Failure Bool := do
  let s ← canonicalJson a
  let t ← canonicalJson b
  return s == t

/-- What a node gives to a collection: its value, when the asset owns it. -/
def collected (assetTarget : Json) (kind : Kind) (n : Json) : Except Failure (Option Json) := do
  if kindIs n kind && ownerless n then
    let owner ← member n "owner"
    let kept ← same owner assetTarget
    if kept then return some (← member n "value") else return none
  else return none

/-- `collection(kind)` -/
def collectNodes (nodes : List Json) (assetTarget : Json) (kind : Kind) :
    Except Failure (List Json) := do
  let found ← nodes.mapM (collected assetTarget kind)
  return found.reduceOption

/-- The capability that the forms of the judgments make. -/
def capabilityOf (judgments : List Json) : Except Failure String := do
  let distinct := (forms judgments).dedup
  require (0 < distinct.length ∧ ∀ f ∈ distinct, f = some "rule" ∨ f = some "conclusion")
    Failure.inputInvalid
  return if distinct.length = 2 then "mixed"
    else if some "rule" ∈ distinct then "result_forming_rules" else "asserted_answers"

/-- The declarations with the boundaries put back. -/
def restoredDeclarations (nodes : List Json) (assetTarget declarations : Json) :
    Except Failure Json :=
  match declarations.given "boundaries" with
  | some boundaries => do
    let value ← if boundaries.propIs "state" "provided" then
        Value.arr <$> collectNodes nodes assetTarget .boundary
      else .ok .null
    return declarations.setProp "boundaries" (boundaries.setProp "value" value)
  | none => .ok declarations

/-- `reconstructPayload(ir)` -/
def reconstructPayload (core : Core) (ir : CanonicalIr) : Except Failure Json := do
  validateCandidate core ir
  let assets := ir.nodes.filter fun n => kindIs n .asset
  require (assets.length = 1) Failure.inputInvalid
  let asset ← orFail Failure.inputInvalid assets.head?
  let value ← member asset "value"
  let assetTarget ← member asset "target"
  let profile ← member ir.tuple "payload_profile"
  let version ← member ir.tuple "payload_version"
  let collections ← ownCollections.mapM fun c => do
    return (c.2, Value.arr (← collectNodes ir.nodes assetTarget c.1))
  let judgments ← (ir.nodes.filter fun n => kindIs n .judgment).mapM fun n => member n "value"
  let capability ← capabilityOf judgments
  let declarations ← member value "declarations"
  let restored ← restoredDeclarations ir.nodes assetTarget declarations
  return .obj ([("profile", profile), ("profile_version", version), ("asset", ir.asset)] ++
    collections ++ [("judgments", .arr judgments), ("asset_capability", .str capability)] ++
    Value.listed payloadNames value.prop ++ [("declarations", restored)])

end Kdna.Ir

import Kdna.Data.Utf8Order
import Kdna.Ir.Closure
import Kdna.Json.Members

/-!
# The canonical IR

`buildIR` of `canonical-ir.js` turns the registry of an asset into nodes, references,
closures and indexes. What it calls for the meaning of an asset is a parameter: the
semantic pass, which only links the registered records, and the interpretation of
method components and static policies, which only annotate judgment nodes.
-/

namespace Kdna.Ir

/-- The members of a container by name. -/
abbrev Entries := List (String × Bytes)

/-- The IR of an asset, its properties in the order in which `buildIR` defines them. -/
structure CanonicalIr where
  contract : Json
  tuple : Json
  asset : Json
  nodes : List Json
  catalog : List Json
  references : List Json
  relationships : List Json
  mandatoryClosures : List Json
  expansionTargets : List Json
  assetClosure : List Json
  assetIndex : List Json
  unresolvedExternal : List Json

/-- The IR as a value. -/
def CanonicalIr.json (ir : CanonicalIr) : Json :=
  .obj [("contract", ir.contract), ("tuple", ir.tuple), ("asset", ir.asset),
    ("nodes", .arr ir.nodes), ("catalog", .arr ir.catalog), ("references", .arr ir.references),
    ("relationships", .arr ir.relationships), ("mandatory_closures", .arr ir.mandatoryClosures),
    ("expansion_targets", .arr ir.expansionTargets), ("asset_closure", .arr ir.assetClosure),
    ("asset_index", .arr ir.assetIndex), ("unresolved_external", .arr ir.unresolvedExternal)]

/-- The IR without its contract and its tuple. -/
def CanonicalIr.body (ir : CanonicalIr) : CanonicalIr := { ir with contract := .null, tuple := .null }

/-- `type: object, additionalProperties: false` with its required and optional members. -/
def closedObject (v : Json) (required optional : List String) : Bool :=
  match v with
  | .obj props =>
    (props.all fun p => required.contains p.1 || optional.contains p.1) &&
      required.all fun name => (v.prop name).isSome
  | _ => false

/-- What admission and `buildIR` call. -/
structure Core where
  /-- `digest(bytes)`: `sha256:` and 64 hexadecimal digits. -/
  digest : Bytes → String
  /-- `validateR2(manifest, payload, entries)` on the records of `createRegistry`. -/
  validateR2 : Json → Json → Entries → List Record → Except Failure Links
  /-- `resolveComponents(payload, visit)`: a value for each judgment. -/
  resolveComponents : Json → Json → Except Failure (String → Option Json)
  /-- `resolveStaticPolicies(payload, visit, …)`: a value for some judgments. -/
  resolveStaticPolicies : Json → Json → Except Failure (String → Option Json)
  /-- `checkInterpretationComplete(payload, visit)` -/
  checkInterpretationComplete : Json → Json → Except Failure Unit
  /-- The generated shape of an IR without its contract and its tuple. -/
  irShape : CanonicalIr → Bool
  /-- The generated shape of a payload below its members, with its scalar checks. -/
  payloadShape : Json → Bool
  /-- The rules of `cross-entry.js` beside `PUBLIC-ASSET-CAPABILITY`. -/
  crossEntryRules : Json → Bool

/-- `utf8(value)` -/
def utf8 (value : String) : Except Failure Bytes := do
  require (scalarString value maxStringBytes true) Failure.inputInvalid
  return Utf8.encode value

/-- `stableId(role, identity)`: the role and 40 digits of the digest. -/
def stableId (core : Core) (asset : Json) (role : String) (identity : Json) :
    Except Failure String := do
  let text ← canonicalJson (.arr [asset, identity])
  let bytes ← utf8 text
  return role ++ ":" ++ String.ofList (((core.digest bytes).toList.drop 7).take 40)

/-- The id with the octets of the canonical text read off its characters: the form to run. -/
theorem stableId_eq (core : Core) (asset : Json) (role : String) (identity : Json) :
    stableId core asset role identity = do
      assertStrictJson (.arr [asset, identity])
      let bytes := Utf8.encodeChars (canonicalText (.arr [asset, identity]))
      require (bytes.length ≤ maxStringBytes) Failure.inputInvalid
      return role ++ ":" ++ String.ofList (((core.digest bytes).toList.drop 7).take 40) := by
  have hencode : Utf8.encode (String.ofList (canonicalText (.arr [asset, identity]))) =
      Utf8.encodeChars (canonicalText (.arr [asset, identity])) := by
    rw [Utf8.encode, String.toList_ofList]
  rw [stableId, canonicalJson, bind_assoc]
  congr 1
  funext _
  simp only [pure_bind, utf8, scalarString, Bool.true_or, Bool.true_and, decide_eq_true_eq,
    hencode]
  rw [bind_assoc]
  rfl

/-- The members of the manifest that the asset node shows. -/
def manifestNames : List String :=
  ["asset_id", "asset_type", "asset_uid", "version", "judgment_version", "title", "summary",
    "languages", "created_at", "updated_at", "creator", "license", "access", "description",
    "keywords", "lineage", "encryption", "entitlement"]

/-- The members of the payload that the asset node holds. -/
def payloadNames : List String :=
  ["scope", "kernel", "reading_order", "cohesion", "attributions", "content_risk", "extensions"]

/-- The named members that `source` has, copied. -/
def copiedMembers (source : Json) (names : List String) :
    Except Failure (List (String × Json)) :=
  (Value.listed names source.prop).mapM fun p => do return (p.1, ← copyJson p.2)

/-- The state of the boundary declaration, as the asset node shows it. -/
def boundaryOverview (declarations : Json) : Except Failure (List (String × Json)) :=
  match declarations.given "boundaries" with
  | some boundaries => do return [("boundaries", .obj [("state", ← member boundaries "state")])]
  | none => .ok []

/-- The value of the asset node. -/
def assetValue (manifest payload : Json) : Except Failure Json := do
  let shown ← copiedMembers manifest manifestNames
  let held ← copiedMembers payload payloadNames
  let history ← member manifest "history"
  let coverage ← member history "coverage"
  let statement ← member history "statement"
  let declarations ← member payload "declarations"
  let question ← member declarations "highest_question" >>= copyJson
  let overview ← boundaryOverview declarations
  return .obj (shown ++ held ++
    [("history", .obj [("coverage", coverage), ("statement", statement)]),
      ("declarations", .obj (("highest_question", question) :: overview))])

/-- The role of a node. -/
def role (r : Record) : String :=
  if r.value.propIs "kind" "emission_list" ∧ r.target.kind = .contract then "emission_list_contract"
  else match r.target.kind with
    | .asset => "asset_declaration"
    | .contract => "result_contract"
    | .component => "method_component"
    | .unit => "method_unit"
    | .plan => "method_plan"
    | .planNode => "method_instance"
    | .policy => "conditional_policy"
    | .branchEntry => "branch"
    | kind => kind.text

/-- A node with the target it stands for. -/
structure Node where
  target : Ref
  id : String
  json : Json

/-- The interpretations that a judgment node carries. -/
def interpretations (methods policies : String → Option Json) (r : Record) :
    Except Failure (List (String × Json)) :=
  if r.target.kind = .judgment then do
    let method ← orFail Failure.inputInvalid (methods r.target.id) >>= copyJson
    match policies r.target.id with
    | some policy => return [("method_interpretation", method),
        ("static_policy_interpretation", ← copyJson policy)]
    | none => return [("method_interpretation", method)]
  else .ok []

/-- The node of a record. -/
def node (core : Core) (asset : Json) (methods policies : String → Option Json) (r : Record) :
    Except Failure Node := do
  let id ← stableId core asset (role r) r.target.json
  let value ← copyJson r.value
  let activation := r.activation.toList.map fun a => ("activation", a)
  let interpreted ← interpretations methods policies r
  return ⟨r.target, id, .obj ([("id", .str id), ("role", .str (role r)), ("target", r.target.json),
    ("owner", r.owner.json), ("owner_judgment_id", Value.ofText? r.judgment), ("value", value)] ++
    activation ++ interpreted)⟩

/-- `nodeFor(target)`, by its id. -/
def nodeFor (nodes : List Node) (target : Ref) : Except Failure String :=
  orFail .coreInvalid ((nodes.find? fun n => n.target = target).map Node.id)

/-- `declaredRole ?? (mandatory ? 'mandatory_support' : 'optional_expansion')` -/
def meaningRole (meaning : Option String × Bool) : String :=
  meaning.1.getD (if meaning.2 then "mandatory_support" else "optional_expansion")

/-- The references from one node to another, one for each meaning of the link. -/
def pairReferences (core : Core) (asset : Json) (nodes : List Node) (from' : Ref)
    (link : Ref × List (Option String × Bool)) : Except Failure (List Json) := do
  let sourceId ← nodeFor nodes from'
  let targetId ← nodeFor nodes link.1
  if sourceId = targetId then return []
  (sortByUtf8 meaningRole link.2).mapM fun meaning => do
    let declared := meaning.1.toList.map Value.str
    let id ← stableId core asset "reference"
      (.arr ([from'.json, link.1.json, .bool meaning.2] ++ declared))
    return .obj [("id", .str id), ("source_node", .str sourceId), ("target_node", .str targetId),
      ("role", .str (meaningRole meaning)), ("mandatory", .bool meaning.2)]

/-- The references of the IR. -/
def references (core : Core) (asset : Json) (records : List Record) (links : Links)
    (nodes : List Node) : Except Failure (List Json) := do
  let perRecord ← records.mapM fun r =>
    (links.referenceRoles r.target).mapM (pairReferences core asset nodes r.target)
  return (perRecord.map List.flatten).flatten

/-- `selection(id)` -/
def selection (asset : Json) (id : String) : Except Failure Json := do
  let assetId ← member asset "asset_id"
  let version ← member asset "asset_version"
  return .obj [("asset_id", assetId), ("asset_version", version), ("judgment_id", .str id)]

/-- The catalog row of a judgment. -/
def catalogRow (nodes : List Node) (judgment : Json) : Except Failure Json := do
  let id ← memberText judgment "id"
  let focus ← member judgment "focus"
  let nodeRef ← nodeFor nodes ⟨.judgment, id⟩
  let parent ← member judgment "parent_ref"
  let lifecycle ← (judgment.given "lifecycle").toList.mapM copyJson
  return .obj ([("judgment_id", .str id), ("focus", focus), ("node_ref", .str nodeRef),
    ("parent_ref", parent)] ++ lifecycle.map fun l => ("lifecycle", l))

/-- `registry.closure(seeds).map(record => nodeFor(record.target).id)` -/
def scopeFor (records : List Record) (links : Links) (nodes : List Node) (seeds : List Ref) :
    Except Failure (List Json) := do
  let closed ← closure records links seeds
  closed.mapM fun r => do return .str (← nodeFor nodes r.target)

/-- The mandatory closure of a judgment. -/
def mandatoryClosure (asset : Json) (assetTarget : Ref) (records : List Record) (links : Links)
    (nodes : List Node) (judgment : Json) : Except Failure Json := do
  let id ← memberText judgment "id"
  let chosen ← selection asset id
  let scope ← scopeFor records links nodes [assetTarget, ⟨.judgment, id⟩]
  return .obj [("selection", chosen), ("node_ids", .arr scope)]

/-- `ref(kind, x.id)` of the items of a list. -/
def refs (kind : Kind) (items : List Json) : Except Failure (List Ref) :=
  items.mapM fun x => do return ⟨kind, ← memberText x "id"⟩

/-- The ids of the nodes that the asset overview always needs. -/
def assetClosure (assetTarget : Ref) (payload : Json) (records : List Record) (links : Links)
    (nodes : List Node) : Except Failure (List Json) := do
  let relationships ← memberItems payload "relationships" >>= refs .relationship
  let dependencies ← memberItems payload "dependencies" >>= refs .dependency
  let declarations ← member payload "declarations"
  let boundaries ← declaredValues declarations "boundaries" >>= refs .boundary
  let global ← closure records links (assetTarget :: boundaries)
  let globalIds ← global.mapM fun r => nodeFor nodes r.target
  let seedIds ← (assetTarget :: relationships ++ dependencies).mapM (nodeFor nodes)
  return (nodes.filter fun n => n.id ∈ globalIds ++ seedIds).map fun n => .str n.id

/-- `display(record)` -/
def display (r : Record) : Except Failure Json :=
  match r.target.kind with
  | .judgment => member r.value "focus"
  | .asset => member r.value "title"
  | .example' => member r.value "title"
  | kind =>
    if kind = .material ∧ r.value.propIs "kind" "definition" then member r.value "term"
    else match r.value.present "name", r.value.present "role" with
      | some name, _ => .ok name
      | none, some role => .ok role
      | none, none => .ok (.str (kind.text ++ ":" ++ r.target.id))

/-- The index row of a record. -/
def indexRow (nodes : List Node) (r : Record) : Except Failure Json := do
  let name ← display r
  let nodeRef ← nodeFor nodes r.target
  return .obj [("target", r.target.json), ("owner", r.owner.json), ("display_name", name),
    ("node_ref", .str nodeRef)]

/-- `{ kind: 'asset' }` -/
def assetAnchor : Json := .obj [("kind", .str "asset")]

/-- The anchor of a judgment's selection. -/
def judgmentAnchor (chosen : Json) : Json :=
  .obj [("kind", .str "judgment"), ("selection", chosen)]

/-- An expansion target below an anchor. -/
def expansionTarget (anchor : Json) (seeds : List Ref) (records : List Record) (links : Links)
    (nodes : List Node) (r : Record) : Except Failure Json := do
  let scope ← scopeFor records links nodes (seeds ++ [r.target])
  return .obj [("anchor", anchor), ("target", r.target.json), ("scope", .arr scope)]

/-- The expansion targets of a judgment: its closure and what the objects of its closure
link to, the asset's own links apart. -/
def judgmentTargets (asset : Json) (assetTarget : Ref) (records : List Record) (links : Links)
    (nodes : List Node) (judgment : Json) : Except Failure (List Json) := do
  let id ← memberText judgment "id"
  let seeds : List Ref := [assetTarget, ⟨.judgment, id⟩]
  let mandatory ← closure records links seeds
  let linked := (mandatory.filter fun r => r.target.kind ≠ .asset).flatMap fun r =>
    (links.edges r.target).map Prod.fst
  let available := mandatory.map Record.target ++ linked
  let chosen ← selection asset id
  (records.filter fun r => r.target ∈ available).mapM
    (expansionTarget (judgmentAnchor chosen) seeds records links nodes)

/-- The expansion targets: first those of the asset, then those of each judgment. -/
def expansionTargets (asset : Json) (assetTarget : Ref) (judgments : List Json)
    (records : List Record) (links : Links) (nodes : List Node) : Except Failure (List Json) := do
  let own ← records.mapM (expansionTarget assetAnchor [assetTarget] records links nodes)
  let perJudgment ← judgments.mapM (judgmentTargets asset assetTarget records links nodes)
  return own ++ perJudgment.flatten

/-- A record of texts. -/
def textRecord (fields : List (String × String)) : Json :=
  .obj (fields.map fun f => (f.1, .str f.2))

/-- `versionTuple` of the ordinary contract. -/
def versionTuple : List (String × String) :=
  [("container", "0.5.0"), ("core", "kdna.core/0.8.2"), ("host", "kdna.agent-host/0.3.1"),
    ("ir", "kdna.canonical-ir/0.6.1"), ("payload_profile", "kdna.payload.judgment"),
    ("payload_version", "0.5.1"), ("plan", "kdna.consumption-plan/0.3.1"),
    ("read", "kdna.read/0.6.4"), ("runtime", "kdna.runtime-capsule/0.3.1"),
    ("trace", "kdna.judgment-trace/0.3.1")]

/-- `validate('CanonicalIR', ir)` and its candidate, which differ in the tuple. -/
def validIr (core : Core) (tuple : List (String × String)) (ir : CanonicalIr) : Bool :=
  ir.contract.isText "kdna.canonical-ir/0.6.1" &&
    closedObject ir.tuple (tuple.map Prod.fst) [] &&
    (tuple.all fun f => ir.tuple.propIs f.1 f.2) && core.irShape ir.body

/-- The registered records with the value of the asset record put in. -/
def registryWithAsset (assetTarget : Ref) (value : Json) (records : List Record) : List Record :=
  records.map fun r => if r.target = assetTarget then { r with value := value } else r

/-- `buildIR(manifest, payload, entries)` -/
def buildIR (core : Core) (manifest payload : Json) (entries : Entries) : Except Failure CanonicalIr := do
  let registered ← createRegistry manifest payload
  let links ← core.validateR2 manifest payload entries registered
  let methodValues ← core.resolveComponents manifest payload
  let policyValues ← core.resolveStaticPolicies manifest payload
  let value ← assetValue manifest payload
  let assetTarget ← assetRef manifest
  let records := registryWithAsset assetTarget value registered
  let asset ← member payload "asset"
  let nodes ← records.mapM (node core asset methodValues policyValues)
  let linked ← references core asset records links nodes
  let judgments ← memberItems payload "judgments"
  let catalog ← judgments.mapM (catalogRow nodes)
  let closures ← judgments.mapM (mandatoryClosure asset assetTarget records links nodes)
  let overview ← assetClosure assetTarget payload records links nodes
  let index ← records.mapM (indexRow nodes)
  let targets ← expansionTargets asset assetTarget judgments records links nodes
  let relationships ← memberItems payload "relationships"
  let ir : CanonicalIr :=
    { contract := .str "kdna.canonical-ir/0.6.1", tuple := textRecord versionTuple
      asset := asset, nodes := nodes.map Node.json, catalog := catalog, references := linked
      relationships := relationships, mandatoryClosures := closures, expansionTargets := targets
      assetClosure := overview, assetIndex := index, unresolvedExternal := links.unresolved }
  require (validIr core versionTuple ir) Failure.coreInvalid
  core.checkInterpretationComplete manifest payload
  return ir

end Kdna.Ir

import Kdna.Json.Access
import Kdna.StrictInput

/-!
# The registry of an asset

`createRegistry` of `r2-registry.js` records every author-owned object of a manifest
and its payload once, under a typed target, in one fixed order. The bodies of a
judgment stand behind it, with the judgment's id; what the asset owns itself has no
judgment.
-/

namespace Kdna.Ir

/-- The kinds of targets the registry creates. -/
inductive Kind
  | asset
  | actor
  | material
  | reason
  | source
  | sourceUse
  | resource
  | relationship
  | dependency
  | contract
  | condition
  | sharedDeclaration
  | example'
  | boundary
  | exception
  | misuse
  | judgment
  | result
  | component
  | unit
  | plan
  | planNode
  | policy
  | branchEntry
  | candidate
  | exampleResult
  | revision
  deriving DecidableEq, Repr

/-- The text of a kind. -/
def Kind.text : Kind → String
  | .asset => "asset"
  | .actor => "actor"
  | .material => "material"
  | .reason => "reason"
  | .source => "source"
  | .sourceUse => "source_use"
  | .resource => "resource"
  | .relationship => "relationship"
  | .dependency => "dependency"
  | .contract => "contract"
  | .condition => "condition"
  | .sharedDeclaration => "shared_declaration"
  | .example' => "example"
  | .boundary => "boundary"
  | .exception => "exception"
  | .misuse => "misuse"
  | .judgment => "judgment"
  | .result => "result"
  | .component => "component"
  | .unit => "unit"
  | .plan => "plan"
  | .planNode => "plan_node"
  | .policy => "policy"
  | .branchEntry => "branch_entry"
  | .candidate => "candidate"
  | .exampleResult => "example_result"
  | .revision => "revision"

/-- Every kind. -/
def Kind.all : List Kind :=
  [.asset, .actor, .material, .reason, .source, .sourceUse, .resource, .relationship, .dependency,
    .contract, .condition, .sharedDeclaration, .example', .boundary, .exception, .misuse,
    .judgment, .result, .component, .unit, .plan, .planNode, .policy, .branchEntry, .candidate,
    .exampleResult, .revision]

theorem Kind.mem_all (k : Kind) : k ∈ Kind.all := by
  cases k <;> decide

/-- Different kinds have different texts. -/
theorem Kind.text_injective : Function.Injective Kind.text := by
  intro k l h
  have hall : (Kind.all.map Kind.text).Nodup := by decide
  exact List.inj_on_of_nodup_map hall k.mem_all l.mem_all h

/-- A local target, `ref(kind, id)`. Its identity, the canonical text of
`[null, kind, id]`, is the pair itself. -/
structure Ref where
  kind : Kind
  id : String
  deriving DecidableEq, Repr

/-- The target as a value. -/
def Ref.json (r : Ref) : Json := .obj [("kind", .str r.kind.text), ("id", .str r.id)]

theorem Ref.json_injective : Function.Injective Ref.json := by
  rintro ⟨k, i⟩ ⟨l, j⟩ h
  simp only [json, Value.obj.injEq, List.cons.injEq, Prod.mk.injEq, Value.str.injEq, true_and,
    and_true] at h
  rw [Kind.text_injective h.1, h.2]

/-- A registered object. -/
structure Record where
  target : Ref
  owner : Ref
  value : Json
  judgment : Option String
  activation : Option Json

/-- `ref('asset', manifest.asset_uid)` -/
def assetRef (manifest : Json) : Except Failure Ref := do
  return ⟨.asset, ← memberText manifest "asset_uid"⟩

/-- `owned(kind, object, owner, judgment, path, activation)` -/
def owned (kind : Kind) (owner : Ref) (judgment : Option String) (activation : Option Json)
    (object : Json) : Except Failure Record := do
  let id ← memberText object "id"
  return ⟨⟨kind, id⟩, owner, object, judgment, activation⟩

/-- The root collections with the kinds of their items. -/
def rootCollections : List (Kind × String) :=
  [(.actor, "actors"), (.material, "materials"), (.reason, "reasons"), (.source, "sources"),
    (.sourceUse, "source_uses"), (.resource, "resources"), (.relationship, "relationships"),
    (.dependency, "dependencies"), (.contract, "contracts"), (.condition, "conditions"),
    (.sharedDeclaration, "shared_declarations"), (.example', "examples")]

/-- `value[name] ?? []` -/
def collection (v : Json) (name : String) : Except Failure (List Json) :=
  match v.present name with
  | none => .ok []
  | some w => orFail .coreInvalid w.items?

/-- `values(holder[name])` -/
def declaredValues (holder : Json) (name : String) : Except Failure (List Json) :=
  match holder.prop name with
  | some declaration =>
    if declaration.propIs "state" "provided" then memberItems declaration "value" else .ok []
  | none => .ok []

/-- The records of the root collections. -/
def rootRecords (asset : Ref) (payload : Json) : Except Failure (List (List Record)) :=
  rootCollections.mapM fun c => do
    let items ← collection payload c.2
    items.mapM (owned c.1 asset none none)

/-- The activation of a declared boundary. -/
def alwaysActive : Json := .obj [("kind", .str "always")]

/-- The activation of the boundary that replaces a limit. -/
def activeByException (exception : Ref) : Json :=
  .obj [("kind", .str "exception"), ("exception_ref", exception.json)]

/-- The records of an exception: itself and the limit it puts in place of another. -/
def exceptionRecords (owner : Ref) (judgment : Option String) (e : Json) :
    Except Failure (List Record) := do
  let exception ← owned .exception owner judgment none e
  let effect ← member e "effect"
  if effect.propIs "kind" "replace_limit" then
    let replacement ← member effect "replacement"
    let boundary ← owned .boundary exception.target judgment
      (some (activeByException exception.target)) replacement
    return [exception, boundary]
  else
    return [exception]

/-- `restrictions(holder, owner, judgment, path, isAsset)` on the holder's boundaries,
exceptions and misuse. -/
def restrictions (boundaries exceptions misuse : List Json) (owner : Ref)
    (judgment : Option String) : Except Failure (List Record) := do
  let limits ← boundaries.mapM (owned .boundary owner judgment (some alwaysActive))
  let exempt ← exceptions.mapM (exceptionRecords owner judgment)
  let misused ← misuse.mapM (owned .misuse owner judgment none)
  return limits ++ exempt.flatten ++ misused

/-- The records of the asset's own restrictions. -/
def assetRestrictions (asset : Ref) (payload : Json) : Except Failure (List Record) := do
  let declarations ← member payload "declarations"
  let boundaries ← declaredValues declarations "boundaries"
  let exceptions ← memberItems payload "exceptions"
  let misuse ← memberItems payload "misuse"
  restrictions boundaries exceptions misuse asset none

/-- The records of a plan and its nodes. -/
def planRecords (owner : Ref) (judgment : String) (plan : Json) : Except Failure (List Record) := do
  let record ← owned .plan owner judgment none plan
  let nodes ← memberItems plan "nodes" >>= List.mapM (owned .planNode record.target judgment none)
  return record :: nodes

/-- The records of a policy, its entries and its candidates. -/
def policyRecords (owner : Ref) (judgment : String) (policy : Json) :
    Except Failure (List Record) := do
  let record ← owned .policy owner judgment none policy
  let entries ← memberItems policy "entries" >>=
    List.mapM (owned .branchEntry record.target judgment none)
  let candidates ← memberItems policy "candidates" >>=
    List.mapM (owned .candidate record.target judgment none)
  return record :: entries ++ candidates

/-- The records that an optional object leads to. -/
def optionalRecords (records : Json → Except Failure (List Record)) :
    Option Json → Except Failure (List Record)
  | some object => records object
  | none => .ok []

/-- The bodies of a judgment, in the order in which they are registered behind it. -/
def judgmentBodies (target : Ref) (judgment : Json) : Except Failure (List Record) := do
  let contract ← member judgment "result_contract" >>= owned .contract target target.id none
  let results := (judgment.given "result").toList.map fun result =>
    ⟨⟨.result, target.id⟩, target, result, target.id, none⟩
  let method ← member judgment "method"
  let components ← memberItems method "components" >>=
    List.mapM (owned .component target target.id none)
  let units ← collection method "units" >>= List.mapM (owned .unit target target.id none)
  let plan ← optionalRecords (planRecords target target.id) (method.given "plan")
  let policy ← optionalRecords (policyRecords target target.id)
    ((judgment.prop "formation_rule").bind (·.given "policy"))
  let boundaries ← declaredValues judgment "boundaries"
  let exceptions ← declaredValues judgment "exceptions"
  let misuse ← declaredValues judgment "misuse"
  let limits ← restrictions boundaries exceptions misuse target target.id
  return contract :: results ++ components ++ units ++ plan ++ policy ++ limits

/-- The records of a judgment. -/
def judgmentRecords (asset : Ref) (judgment : Json) : Except Failure (List Record) := do
  let id ← memberText judgment "id"
  let bodies ← judgmentBodies ⟨.judgment, id⟩ judgment
  return ⟨⟨.judgment, id⟩, asset, judgment, id, none⟩ :: bodies

/-- The records of an example's results. -/
def exampleResults (v : Json) : Except Failure (List Record) := do
  let id ← memberText v "id"
  memberItems v "results" >>= List.mapM (owned .exampleResult ⟨.example', id⟩ none none)

/-- The records of the manifest's revisions. -/
def revisionRecords (asset : Ref) (manifest : Json) : Except Failure (List Record) := do
  let history ← member manifest "history"
  memberItems history "entries" >>= List.mapM (owned .revision asset none none)

/-- The records of a manifest and a payload in the order of registration. -/
def authoredRecords (manifest payload : Json) : Except Failure (List Record) := do
  let asset ← assetRef manifest
  let roots ← rootRecords asset payload
  let limits ← assetRestrictions asset payload
  let judgments ← memberItems payload "judgments" >>= List.mapM (judgmentRecords asset)
  let results ← memberItems payload "examples" >>= List.mapM exampleResults
  let revisions ← revisionRecords asset manifest
  return ⟨asset, asset, .null, none, none⟩ :: roots.flatten ++ limits ++ judgments.flatten ++
    results.flatten ++ revisions

/-- `createRegistry(manifest, payload)`: the records, no two under one target. -/
def createRegistry (manifest payload : Json) : Except Failure (List Record) := do
  let records ← authoredRecords manifest payload
  require (records.map Record.target).Nodup Failure.coreInvalid
  return records

end Kdna.Ir

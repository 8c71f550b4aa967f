import Kdna.Data.Worklist
import Kdna.Read.Project

/-!
# The plan of a retained read

`retained-plan.js` and its copy in `browser-retained/plan.js`. A request on a snapshot that
is kept in memory is normalised and planned: the nodes that it reads, the descriptors that it
shows, and the targets for which it issues handles. The two planners differ in the
descriptors that count as deferred.
-/

namespace Kdna.Retained

open Value Ir Read

/-- The codes of a refusal, and an error that the language throws. -/
inductive Code
  | assetMismatch
  | assetVersionMismatch
  | selectionNotFound
  | selectionAmbiguous
  | projectionInvalid
  | handleAssetMismatch
  | handleVersionMismatch
  | handleScopeMismatch
  | thrown
  deriving DecidableEq, Repr

/-- The text of a code. -/
def Code.text : Code → String
  | .assetMismatch => "READ_ASSET_MISMATCH"
  | .assetVersionMismatch => "READ_ASSET_VERSION_MISMATCH"
  | .selectionNotFound => "READ_SELECTION_NOT_FOUND"
  | .selectionAmbiguous => "READ_SELECTION_AMBIGUOUS"
  | .projectionInvalid => "READ_PROJECTION_INVALID"
  | .handleAssetMismatch => "READ_HANDLE_ASSET_MISMATCH"
  | .handleVersionMismatch => "READ_HANDLE_VERSION_MISMATCH"
  | .handleScopeMismatch => "READ_HANDLE_SCOPE_MISMATCH"
  | .thrown => "READ_CORE_CAPABILITY_UNAVAILABLE"

/-- A set of selected judgments. -/
structure SelectionSet where
  assetId : String
  assetVersion : String
  judgmentIds : List String
  deriving DecidableEq

/-- The selection as a value. -/
def SelectionSet.json (s : SelectionSet) : Json :=
  .obj [("asset_id", .str s.assetId), ("asset_version", .str s.assetVersion),
    ("judgment_ids", .arr (s.judgmentIds.map .str))]

/-- What a plan reads of a handle. -/
structure Handle where
  asset : Json
  tuple : Json
  anchor : Json
  target : Json
  scope : List String

/-- A request, in one of its four shapes. -/
inductive Request
  | catalog
  | wholeAsset
  | exactSelection (selection : SelectionSet)
  | expand (selection : Option SelectionSet) (handle : Handle)

/-- `request.selection` -/
def Request.selection : Request → Option SelectionSet
  | .exactSelection s => some s
  | .expand s _ => s
  | _ => none

/-- `request.mode === 'whole_asset'` -/
def Request.isWhole : Request → Bool
  | .wholeAsset => true
  | _ => false

/-- `request.mode === 'exact_selection'` -/
def Request.isExact : Request → Bool
  | .exactSelection _ => true
  | _ => false

/-- `request.mode === 'expand'` -/
def Request.isExpand : Request → Bool
  | .expand _ _ => true
  | _ => false

/-- The view of a snapshot. -/
structure View where
  asset : Json
  tuple : Json
  ir : CanonicalIr

/-- `normalize` on a selection. -/
def normalizeSelection (s : SelectionSet) (view : View) : Except Code SelectionSet := do
  require (textOf view.asset "asset_id" = some s.assetId) Code.assetMismatch
  require (textOf view.asset "asset_version" = some s.assetVersion) Code.assetVersionMismatch
  let _ ← s.judgmentIds.eraseDups.mapM fun id => do
    let count := (view.ir.catalog.filter fun row => textOf row "judgment_id" = some id).length
    require (0 < count) Code.selectionNotFound
    require (count = 1) Code.selectionAmbiguous
  return { s with
    judgmentIds := (view.ir.catalog.filterMap (textOf · "judgment_id")).filter (· ∈ s.judgmentIds) }

/-- `normalize(request, view)` -/
def normalize (request : Request) (view : View) : Except Code Request :=
  match request with
  | .exactSelection s => do return .exactSelection (← normalizeSelection s view)
  | .expand (some s) h => do return .expand (some (← normalizeSelection s view)) h
  | request => .ok request

/-- `{kind: 'selection_set', selection}` -/
def selectionAnchor (s : SelectionSet) : Json :=
  .obj [("kind", .str "selection_set"), ("selection", s.json)]

/-- The anchor of a request. -/
def anchorOf (selection : Option SelectionSet) : Json := (selection.map selectionAnchor).getD assetAnchor

/-- The mandatory references, from node to node. -/
def requirements (ir : CanonicalIr) : List (String × String) :=
  (ir.references.filter fun r => (r.given "mandatory").isSome).filterMap fun r => do
    return (← textOf r "source_node", ← textOf r "target_node")

/-- What a node requires. -/
def requiredBy (ir : CanonicalIr) (id : String) : List String :=
  ((requirements ir).filter fun edge => edge.1 = id).map Prod.snd

/-- `closure(input)` -/
def closureOf (ir : CanonicalIr) (input : List String) : Except Code (List String) := do
  let known := ir.nodes.filterMap idOf
  let found ← reach Code.projectionInvalid known (requiredBy ir) (turns known input input) input input
  return known.filter (· ∈ found)

/-- `asset.id` -/
def assetId (ir : CanonicalIr) : Except Code String :=
  orFail .thrown ((ir.nodes.find? (roleIs · "asset_declaration")).bind idOf)

/-- `ir.catalog.find(x => x.judgment_id === id).node_ref` -/
def judgmentNode (ir : CanonicalIr) (id : String) : Except Code String :=
  orFail .thrown ((ir.catalog.find? fun row => textOf row "judgment_id" = some id).bind
    (textOf · "node_ref"))

/-- `seeds` -/
def seedsOf (ir : CanonicalIr) (selection : Option SelectionSet) : Except Code (List String) := do
  let asset ← assetId ir
  let judgments ← ((selection.map SelectionSet.judgmentIds).getD []).mapM (judgmentNode ir)
  return asset :: judgments

/-- A target for which a handle can be issued. -/
structure Target where
  anchor : Json
  target : Json
  scope : List String

/-- The nodes of a request and its targets. -/
structure Selected where
  ids : List String
  targets : List Target

/-- The branch `whole_asset`. -/
def selectWhole (ir : CanonicalIr) : Except Code Selected := do
  let _ ← seedsOf ir none
  let ids ← orFail .thrown (ir.assetClosure.mapM text?)
  let rows := ir.expansionTargets.filter fun x => (x.prop "anchor").any (·.propIs "kind" "asset")
  let targets ← rows.mapM fun x => do
    let target ← orFail .thrown (x.prop "target")
    let scope ← orFail .thrown (scopeOf x)
    return ⟨assetAnchor, target, scope⟩
  return ⟨ids, targets⟩

/-- `ir.mandatory_closures.find(x => x.selection.judgment_id === id).node_ids` -/
def storedClosure (ir : CanonicalIr) (id : String) : Except Code (List String) := do
  let row ← orFail .projectionInvalid
    (ir.mandatoryClosures.find? fun x => (x.prop "selection").any (·.propIs "judgment_id" id))
  orFail .thrown ((row.prop "node_ids").bind texts?)

/-- The nodes that references of the selected nodes lead to, those of the asset apart. -/
def linkedFrom (ir : CanonicalIr) (asset : String) (union : List String) : List String :=
  (ir.references.filter fun r =>
    within union r "source_node" && textOf r "source_node" ≠ some asset).filterMap
      (textOf · "target_node")

/-- The target of a node below a selection. -/
def targetOf (ir : CanonicalIr) (anchor : Json) (seeds : List String) (n : Json) :
    Except Code Target := do
  let target ← orFail .thrown (n.prop "target")
  let id ← orFail .thrown (idOf n)
  let scope ← closureOf ir (seeds ++ [id])
  return ⟨anchor, target, scope⟩

/-- The branch `exact_selection`. -/
def selectExact (ir : CanonicalIr) (s : SelectionSet) : Except Code Selected := do
  let asset ← assetId ir
  let seeds ← seedsOf ir (some s)
  let closures ← s.judgmentIds.mapM (storedClosure ir)
  let union := closures.flatten
  let ids := (ir.nodes.filterMap idOf).filter (· ∈ union)
  let available := ids ++ linkedFrom ir asset union
  let targets ← (ir.nodes.filter fun n => within available n "id").mapM
    (targetOf ir (selectionAnchor s) seeds)
  return ⟨ids, targets⟩

/-- The branch `expand`. -/
def selectExpand (view : View) (selection : Option SelectionSet) (h : Handle) :
    Except Code Selected := do
  let seeds ← seedsOf view.ir selection
  require (Read.same h.asset view.asset) Code.handleAssetMismatch
  require (Read.same h.tuple view.tuple) Code.handleVersionMismatch
  require (Read.same h.anchor (anchorOf selection)) Code.handleAssetMismatch
  let target ← orFail .handleScopeMismatch (view.ir.nodes.find? fun n => propSame n "target" h.target)
  let id ← orFail .thrown (idOf target)
  let ids ← closureOf view.ir (seeds ++ [id])
  require (ids = h.scope) Code.handleScopeMismatch
  return ⟨ids, []⟩

/-- What a request other than `catalog` selects. -/
def select (request : Request) (view : View) : Except Code Selected :=
  match request with
  | .exactSelection s => selectExact view.ir s
  | .expand s h => selectExpand view s h
  | _ => selectWhole view.ir

/-- `byTarget.get(canonicalJson(target))` -/
def byTarget (targets : List Target) (target : Json) : Option Target :=
  targets.reverse.find? fun x => Read.same x.target target

/-- Whether the loop over the index keeps a descriptor. -/
def indexed (request : Request) (ir : CanonicalIr) (supplied : List String) (targets : List Target)
    (d : Json) : Except Code (Option Json) := do
  let node ← orFail .projectionInvalid ((textOf d "node_ref").bind (rowOf ir.nodes))
  let inside := within supplied node "id"
  let target := (d.prop "target").bind (byTarget targets)
  if request.isExpand ∧ ¬ inside then return none
  if ¬ request.isWhole ∧ roleIs node "judgment" ∧ ¬ inside then return none
  if ¬ request.isWhole ∧ ¬ inside ∧ target.isNone then return none
  require (inside ∨ target.isSome) Code.projectionInvalid
  return some d

/-- A plan; that of a catalog has no index. -/
structure Plan where
  nodeIds : List String
  descriptorIds : List (Option String)
  targets : List (Option Target)
  unresolved : Bool
  index : Option (List Json)

/-- What the two planners share: all but the descriptors that are deferred. -/
structure Frame where
  selected : Selected
  supplied : List String
  catalog : List Json
  index : List Json

/-- `x.mandatory && typed.has(canonicalJson(x.source))` of some unresolved reference. -/
def hasUnresolved (ir : CanonicalIr) (supplied : List String) : Bool :=
  ir.unresolvedExternal.any fun x => (x.given "mandatory").isSome &&
    (x.prop "source").any fun source =>
      ir.nodes.any fun n => within supplied n "id" && propSame n "target" source

/-- `[...new Set([...catalog, ...index].map(x => x.node_ref))]` -/
def descriptorIds (catalog index : List Json) : List (Option String) :=
  ((catalog ++ index).map (textOf · "node_ref")).eraseDups

/-- The context of a selection, in the modes that project one. -/
def scopedContext (request : Request) (ir : CanonicalIr) (ids : List String) :
    Except Code (Option SelectedContext) :=
  if request.isExact || request.isExpand then some <$> orFail .thrown (selectedContext ir ids)
  else .ok none

/-- The nodes that the request supplies: outside a selection the asset's own declaration too. -/
def suppliedBy (ir : CanonicalIr) (context : Option SelectedContext) (ids : List String) : List String :=
  if context.isSome then ids
  else ids ++ (ir.nodes.filter (roleIs · "asset_declaration")).filterMap idOf

/-- `plan` up to the deferred descriptors. -/
def frame (request : Request) (view : View) : Except Code Frame := do
  let selected ← select request view
  let context ← scopedContext request view.ir selected.ids
  let supplied := suppliedBy view.ir context selected.ids
  let index ← view.ir.assetIndex.mapM (indexed request view.ir supplied selected.targets)
  return ⟨selected, supplied, (context.map SelectedContext.catalog).getD view.ir.catalog,
    index.reduceOption⟩

/-- The plan of a catalog. -/
def catalogPlan (ir : CanonicalIr) : Plan :=
  ⟨[], descriptorIds ir.catalog ir.assetIndex, [], false, none⟩

/-- The end of `plan`. -/
def Frame.plan (f : Frame) (ir : CanonicalIr) (deferred : Json → Bool) : Plan :=
  ⟨f.selected.ids, descriptorIds f.catalog f.index,
    (f.index.filter deferred).map fun d => (d.prop "target").bind (byTarget f.selected.targets),
    hasUnresolved ir f.supplied, some f.index⟩

/-- `!supplied.has(x.node_ref)` -/
def unsupplied (f : Frame) (d : Json) : Bool := !within f.supplied d "node_ref"

/-- `reducibleMember(x)` -/
def reducibleMember (request : Request) (f : Frame) (d : Json) : Bool :=
  let selectedIds := ((if request.isExact then request.selection else none).map
    SelectionSet.judgmentIds).getD []
  request.isExact && within f.supplied d "node_ref" &&
    (d.prop "target").any fun target =>
      target.propIs "kind" "judgment" && !(textOf target "id").any (· ∈ selectedIds)

/-- `plan(request, view)` of `retained-plan.js`. -/
def plan (request : Request) (view : View) : Except Code Plan :=
  match request with
  | .catalog => .ok (catalogPlan view.ir)
  | request => do
    let f ← frame request view
    return f.plan view.ir fun d => unsupplied f d || reducibleMember request f d

/-- `plan(request, view)` of `browser-retained/plan.js`. -/
def browserPlan (request : Request) (view : View) : Except Code Plan :=
  match request with
  | .catalog => .ok (catalogPlan view.ir)
  | request => do
    let f ← frame request view
    return f.plan view.ir (unsupplied f)

end Kdna.Retained

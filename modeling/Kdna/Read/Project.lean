import Kdna.Read.HostGate
import Kdna.Read.SelectedContext

/-!
# The projection of a read

`project.js`: what a request selects of an admitted snapshot, whether the handle that it
presents belongs to the snapshot, and the body that the selection makes. Where the
source returns `null` or throws, the model returns nothing.
-/

namespace Kdna.Read

open Value Ir

/-- The errors of a read. -/
inductive ReadError
  | host (e : HostError)
  | handleUntrusted
  | handleVersionMismatch
  | handleStale
  | handleAssetMismatch
  | handleScopeMismatch
  | assetMismatch
  | assetVersionMismatch
  | selectionNotFound
  | selectionAmbiguous
  | projectionInvalid
  | unresolvedExternal
  | scopeDenied
  | budgetInsufficient
  deriving DecidableEq, Repr

/-- The code of an error. -/
def ReadError.code : ReadError → String
  | .host e => e.code
  | .handleUntrusted => "READ_HANDLE_UNTRUSTED"
  | .handleVersionMismatch => "READ_HANDLE_VERSION_MISMATCH"
  | .handleStale => "READ_HANDLE_STALE"
  | .handleAssetMismatch => "READ_HANDLE_ASSET_MISMATCH"
  | .handleScopeMismatch => "READ_HANDLE_SCOPE_MISMATCH"
  | .assetMismatch => "READ_ASSET_MISMATCH"
  | .assetVersionMismatch => "READ_ASSET_VERSION_MISMATCH"
  | .selectionNotFound => "READ_SELECTION_NOT_FOUND"
  | .selectionAmbiguous => "READ_SELECTION_AMBIGUOUS"
  | .projectionInvalid => "READ_PROJECTION_INVALID"
  | .unresolvedExternal => "READ_UNRESOLVED_EXTERNAL"
  | .scopeDenied => "READ_SCOPE_DENIED"
  | .budgetInsufficient => "READ_BUDGET_INSUFFICIENT"

/-- `tuple.core` -/
def coreVersion : String := "kdna.core/0.8.2"

/-- `tuple.ir` -/
def irVersion : String := "kdna.canonical-ir/0.6.1"

/-- `tuple.read` -/
def readVersion : String := "kdna.read/0.6.4"

/-- The selection part of `inspect(admitted, snapshot)`. -/
def inspect (request : Request) (view : View) : Except ReadError Unit :=
  match request.selection with
  | none => .ok ()
  | some s => do
    require (s.assetId = view.assetId) ReadError.assetMismatch
    require (s.assetVersion = view.assetVersion) ReadError.assetVersionMismatch
    let rows := view.ir.catalog.filter fun row => textOf row "judgment_id" = some s.judgmentId
    require (rows ≠ []) ReadError.selectionNotFound
    require (rows.length ≤ 1) ReadError.selectionAmbiguous

/-- The texts of an array. -/
def texts? (v : Json) : Option (List String) := v.items?.bind fun items => items.mapM text?

/-- `expansionFor(request, view, target)` -/
def expansionFor (request : Request) (view : View) (target : Json) : Option Json :=
  view.ir.expansionTargets.find? fun x =>
    propSame x "target" target && propSame x "anchor" (anchorFor request)

/-- `target.scope` of an expansion target. -/
def scopeOf (target : Json) : Option (List String) := (target.prop "scope").bind texts?

/-- Whether two scopes are equal once they are sorted. -/
def sameScope (scope scope' : List String) : Bool := decide (scope.Perm scope')

/-- `handleFields(request, view)` -/
def handleFields (request : Request) (view : View) (h : Handle) : Except ReadError Unit := do
  require (h.coreVersion = coreVersion ∧ h.irVersion = irVersion ∧ h.readVersion = readVersion)
    ReadError.handleVersionMismatch
  require (h.snapshotId = view.snapshotId ∧ h.a = view.a ∧ h.c = view.c) ReadError.handleStale
  require (h.assetId = view.assetId ∧ h.assetVersion = view.assetVersion ∧
    same h.anchor (anchorFor request)) ReadError.handleAssetMismatch
  let scope ← orFail ReadError.handleScopeMismatch ((expansionFor request view h.target).bind scopeOf)
  require (sameScope scope h.scope) ReadError.handleScopeMismatch

/-- The mandatory closure of a selection: the last row of its key. -/
def selectedClosure (view : View) (s : Selection) : Option Json :=
  view.ir.mandatoryClosures.reverse.find? fun row => propSame row "selection" s.json

/-- `closureFor(request, view)` -/
def closureFor (request : Request) (view : View) : Option (List String) :=
  match request.mode with
  | .catalog => some []
  | .wholeAsset => view.ir.assetClosure.mapM text?
  | .expand => do
    let h ← request.handle
    let target ← expansionFor request view h.target
    scopeOf target
  | .exactSelection => do
    let s ← request.selection
    let row ← selectedClosure view s
    (row.prop "node_ids").bind texts?

/-- `projectionFailure(request, view)` -/
def projectionFailure (request : Request) (view : View) : Except ReadError Unit := do
  let closure ← orFail ReadError.projectionInvalid (closureFor request view)
  let supplied := view.ir.nodes.filter fun n => (idOf n).any (· ∈ closure)
  require (¬ ∃ r ∈ view.ir.unresolvedExternal, (r.given "mandatory").isSome ∧
    ∃ n ∈ supplied, (r.prop "source").any (propSame n "target")) ReadError.unresolvedExternal

/-- `assetCapability(view)`, which no snapshot declares. -/
def assetCapability (view : View) : Option String :=
  capabilityFor ((view.ir.nodes.filter (roleIs · "judgment")).map fun n =>
    (n.prop "value").getD .null)

/-- An entry of the asset index. A deferred one names the handle that expands it. -/
structure IndexEntry where
  target : Json
  owner : Option Json
  displayName : Option Json
  deferred : Bool
  handleId : Option String

/-- The content of a body. -/
structure Content where
  declarations : List Json
  catalog : List Json
  selected : Option Selection
  closure : List Json
  references : List Json
  relationships : List Json
  claims : List Json
  capability : String
  assetIndex : List IndexEntry
  expansionHandles : List Handle

/-- A body: the content and what it omits. The asset, the tuple and the digests are those
of the view. -/
structure Body where
  content : Content
  omissions : List Omission

/-- A claim of somebody: an actor, a source, its use, or a declaration with a creator or
attributions. -/
def isClaim (n : Json) : Bool :=
  roleIs n "actor" || roleIs n "source" || roleIs n "source_use" ||
    roleIs n "asset_declaration" && (n.prop "value").any fun value =>
      (value.given "creator").isSome ||
        (value.prop "attributions").any (·.propIs "state" "provided")

/-- The omission of the asset index, which the catalog leaves out. -/
def omittedIndex (mode : Mode) (ir : CanonicalIr) : Option (List Omission) :=
  if mode = .catalog then do
    let asset ← ir.nodes.find? (roleIs · "asset_declaration")
    return [omitted (← idOf asset) "asset_index" .notInMode]
  else some []

/-- The nodes of a closure, as the whole asset and the catalog take them. -/
def plainContext (request : Request) (ir : CanonicalIr) (ids : List String) :
    Option SelectedContext := do
  let closure ← ids.mapM (rowOf ir.nodes)
  let declarations := if request.mode = .catalog then []
    else ir.nodes.filter (roleIs · "asset_declaration")
  let supplied := (declarations ++ closure).filterMap idOf
  let relationIds := (closure.filter (roleIs · "relationship")).map (valueText · "id")
  let overview ← omittedIndex request.mode ir
  let outside ← omittedRows (ir.catalog.filter fun row => ¬ within supplied row "node_ref")
    (if request.mode = .catalog then OmissionReason.notInMode else .outsideSelection)
  return { closure := closure
           catalog := ir.catalog
           references := ir.references.filter fun r =>
             within supplied r "source_node" && within supplied r "target_node"
           relationships := ir.relationships.filter fun r => has relationIds (idOf r)
           omissions := overview ++ outside }

/-- Whether the mode projects the context of a selection. -/
def Mode.scoped (mode : Mode) : Bool := mode = .exactSelection || mode = .expand

/-- The context of a body. -/
def contextFor (request : Request) (ir : CanonicalIr) (ids : List String) :
    Option SelectedContext :=
  if request.mode.scoped then selectedContext ir ids else plainContext request ir ids

/-- The declarations of a body. -/
def declarationsFor (request : Request) (ir : CanonicalIr) (closure : List Json) : List Json :=
  if request.mode = .catalog then []
  else if request.mode.scoped then closure.filter (roleIs · "asset_declaration")
  else ir.nodes.filter (roleIs · "asset_declaration")

/-- The judgment whose members stay inline where the others are deferred. -/
def selectedJudgment (mint : Bool) (request : Request) : Option String :=
  if mint ∧ request.mode = .exactSelection then request.selection.map Selection.judgmentId else none

/-- The entry of an index row: none where the mode leaves it out. -/
def indexEntry (mint : Bool) (request : Request) (ir : CanonicalIr) (supplied : List String)
    (row : Json) : Option (Option IndexEntry) := do
  let wanted ← row.prop "target"
  let node ← ((textOf row "node_ref").bind (rowOf ir.nodes)).or
    (ir.nodes.find? fun n => propSame n "target" wanted)
  let inside := within supplied node "id"
  let available := ir.expansionTargets.any fun x =>
    propSame x "anchor" (anchorFor request) && propSame x "target" wanted
  if request.mode = .expand ∧ ¬ inside then return none
  if request.mode ≠ .wholeAsset ∧ roleIs node "judgment" ∧ ¬ inside then return none
  if request.mode ≠ .wholeAsset ∧ ¬ inside ∧ ¬ available then return none
  let reducible := (selectedJudgment mint request).any fun id =>
    inside && wanted.propIs "kind" "judgment" && textOf wanted "id" ≠ some id
  let deferred := !inside || reducible
  guard (deferred → available)
  return some ⟨wanted, row.prop "owner", row.prop "display_name", deferred, none⟩

/-- The asset index of a body. -/
def indexFor (mint : Bool) (request : Request) (ir : CanonicalIr) (supplied : List String) :
    Option (List IndexEntry) :=
  if request.mode = .catalog then some []
  else do return (← ir.assetIndex.mapM (indexEntry mint request ir supplied)).reduceOption

/-- `bodyFor(request, view, { mintHandles })` -/
def bodyFor (mint : Bool) (request : Request) (view : View) : Option Body := do
  let capability ← assetCapability view
  let ids ← closureFor request view
  guard (projectionFailure request view).toBool
  let context ← contextFor request view.ir ids
  let declarations := declarationsFor request view.ir context.closure
  let supplied := (declarations ++ context.closure).filterMap idOf
  let index ← indexFor mint request view.ir supplied
  return { content :=
             { declarations := declarations
               catalog := context.catalog
               selected := request.selection
               closure := context.closure
               references := context.references
               relationships := context.relationships
               claims := (declarations ++ context.closure).filter isClaim
               capability := capability
               assetIndex := index
               expansionHandles := [] }
           omissions := context.omissions }

end Kdna.Read

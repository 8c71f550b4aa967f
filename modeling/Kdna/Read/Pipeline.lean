import Kdna.Read.Project

/-!
# The pipeline of a read

`prepareRead` of `pipeline.js` with `scopeBody` of `host-gate.js`, `omissions.js` and the
registry of handles. The source waits for the Host twice; the steps between two waits are
definitions of their own, so that reads on one Host can interleave. The protected read
runs the same steps with further checks that only end it.
-/

namespace Kdna.Read

open Value Ir

/-- `new Map(view.ir.nodes.map(node => [jcs(node.target), node])).get(jcs(target))` -/
def nodeOfTarget (ir : CanonicalIr) (target : Json) : Option Json :=
  ir.nodes.reverse.find? fun n => propSame n "target" target

/-- `scopeBody(body, request, context, view)` -/
def scopeBody (scope : List String) (view : View) (body : Body) : Option Body := do
  let content := body.content
  guard (∀ n ∈ content.closure ++ content.declarations, within scope n "id")
  guard (∀ row ∈ content.catalog, within scope row "node_ref")
  guard (∀ entry ∈ content.assetIndex,
    (nodeOfTarget view.ir entry.target).any fun n => within scope n "id")
  guard (∀ n ∈ content.claims, within scope n "id")
  guard (∀ r ∈ content.references, within scope r "source_node" && within scope r "target_node")
  guard (∀ h ∈ content.expansionHandles, ∀ id ∈ h.scope, id ∈ scope)
  return { body with omissions := body.omissions.filter fun o => o.target ∈ scope }

/-- The handle of a deferred entry. -/
def mintHandle (request : Request) (view : View) (context : Context) (sequence : ℕ) (target : Json)
    (scope : List String) : Handle :=
  { handleId := "handle:" ++ view.snapshotId ++ ":" ++ toString sequence
    assetId := view.assetId
    assetVersion := view.assetVersion
    a := view.a
    c := view.c
    snapshotId := view.snapshotId
    coreVersion := coreVersion
    irVersion := irVersion
    readVersion := readVersion
    anchor := anchorFor request
    target := (target.prop "target").getD .null
    scope := scope
    issuedAt := context.currentMs
    expiresAt := min context.expiresAt (context.currentMs + 3600000)
    hostId := context.hostId
    hostEpoch := context.hostEpoch }

/-- What minting changes: the entries, the handles, the omissions and the sequence of
receipts. -/
structure Minted where
  entries : List IndexEntry
  handles : List Handle
  omissions : List Omission
  sequence : ℕ

/-- The omissions of a node become expandable. -/
def expandOmissions (node : Option Json) (handleId : String) (omissions : List Omission) :
    List Omission :=
  omissions.map fun o =>
    if node.bind idOf = some o.target then
      { o with expandable := true, handleId := some handleId, reason := .notRequested }
    else o

/-- The loop over the asset index: each deferred entry gets a handle. -/
def mint (request : Request) (view : View) (context : Context) :
    ℕ → List Omission → List IndexEntry → Except ReadError Minted
  | sequence, omissions, [] => .ok ⟨[], [], omissions, sequence⟩
  | sequence, omissions, entry :: entries =>
    if entry.deferred then do
      let target ← orFail ReadError.scopeDenied (expansionFor request view entry.target)
      let scope ← orFail ReadError.scopeDenied (scopeOf target)
      require (∀ id ∈ scope, id ∈ context.scope) ReadError.scopeDenied
      let handle := mintHandle request view context (sequence + 1) target scope
      let node := view.ir.nodes.find? fun n => propSame n "target" entry.target
      let rest ← mint request view context (sequence + 1)
        (expandOmissions node handle.handleId omissions) entries
      return { rest with entries := { entry with handleId := some handle.handleId } :: rest.entries
                         handles := handle :: rest.handles }
    else do
      let rest ← mint request view context sequence omissions entries
      return { rest with entries := entry :: rest.entries }

/-- A record of what is omitted: one omission, or a count of omissions that differ in
their target alone. -/
inductive OmissionRecord
  | single (o : Omission)
  | batch (kind field : String) (reason : OmissionReason) (count : ℕ) (expandable : Bool)
    (handleId : Option String)
  deriving DecidableEq, Repr

/-- `TARGET_KINDS` -/
def targetKinds : List String :=
  ["judgment", "declaration", "material", "reason", "source", "method_component", "relationship",
    "dependency", "asset", "result", "contract", "condition", "component", "unit", "plan",
    "plan_node", "policy", "branch_entry", "candidate", "shared_declaration", "boundary",
    "exception", "misuse", "source_use", "resource", "example", "example_result", "revision",
    "actor", "asset_index"]

/-- `BATCH_REASONS` -/
def batchReasons : List OmissionReason := [.notInMode, .outsideSelection]

/-- `foldable(record)` -/
def foldable (o : Omission) : Bool :=
  o.target ≠ "" && o.field ∈ targetKinds && o.reason ∈ batchReasons &&
    if o.expandable then o.handleId.any (· ≠ "") else o.handleId.isNone

/-- `foldKey(record)` of two foldable records is the same. -/
def sameFold (o o' : Omission) : Bool :=
  foldable o && foldable o' && o.field = o'.field && o.reason = o'.reason &&
    o.expandable = o'.expandable && o.handleId = o'.handleId

/-- The loop of `foldOmissions` behind the records `before`. -/
def foldFrom (all : List Omission) : List Omission → List Omission → List OmissionRecord
  | _, [] => []
  | before, o :: rest =>
    if all.countP (sameFold o) < 2 then .single o :: foldFrom all (before ++ [o]) rest
    else if before.any (sameFold o) then foldFrom all (before ++ [o]) rest
    else .batch o.field o.field o.reason (all.countP (sameFold o)) o.expandable o.handleId ::
      foldFrom all (before ++ [o]) rest

/-- `foldOmissions(records, enabled)` -/
def foldOmissions (enabled : Bool) (records : List Omission) : List OmissionRecord :=
  if !enabled || records.length < 2 then records.map .single else foldFrom records [] records

/-- A ready envelope, with what its receipt says. -/
structure Envelope where
  requestId : String
  assetId : String
  assetVersion : String
  snapshotId : String
  a : String
  c : String
  content : Content
  omissions : List OmissionRecord
  receiptId : String
  hostId : String
  hostEpoch : String
  decisionId : String
  disclosedAt : ℕ
  limitBytes : ℕ

/-- What the process adds: whether it folds omissions, and the size of an envelope, its
canonical text with the budget in fixed width. -/
structure Settings where
  folding : Bool
  size : Envelope → ℕ

/-- `handleRegistered(provider, handle)` -/
def handleRegistered (handles : List Handle) (h : Handle) : Bool :=
  (handles.find? fun r => r.handleId = h.handleId).any fun r => r.same h

/-- The checks of a handle before the Host is asked. -/
def handleChecked (handles : List Handle) (request : Request) (view : View) :
    Except ReadError Unit :=
  match request.handle with
  | none => .ok ()
  | some h => do
    require (handleRegistered handles h) ReadError.handleUntrusted
    handleFields request view h

/-- `prepareRead` up to the first observation. -/
def start (handles : List Handle) (request : Request) (view : View) : Except ReadError Unit := do
  inspect request view
  handleChecked handles request view

/-- `observe(host, request, snapshot, view)` -/
def observed (revocations : List Denial) (request : Request) (view : View) (raw : Option Json) :
    Except ReadError Context :=
  match (observe revocations (.whole request view raw)).1 with
  | .ok context => .ok context
  | .error e => .error (.host e)

/-- `prepareRead` from the first observation to the second. -/
def projectBody (request : Request) (view : View) (first : Context) : Except ReadError Body := do
  projectionFailure request view
  let body ← orFail ReadError.projectionInvalid (bodyFor true request view)
  orFail ReadError.scopeDenied (scopeBody first.scope view body)

/-- `prepareRead` behind the second observation. -/
def discloseBody (settings : Settings) (sequence : ℕ) (request : Request) (view : View)
    (second : Context) (body : Body) : Except ReadError Envelope := do
  let kept ← orFail ReadError.scopeDenied (scopeBody second.scope view body)
  let minted ← mint request view second sequence kept.omissions kept.content.assetIndex
  let envelope : Envelope :=
    { requestId := request.requestId
      assetId := view.assetId
      assetVersion := view.assetVersion
      snapshotId := view.snapshotId
      a := view.a
      c := view.c
      content := { kept.content with
        assetIndex := minted.entries
        expansionHandles := minted.handles }
      omissions := foldOmissions settings.folding minted.omissions
      receiptId := "receipt:" ++ view.snapshotId ++ ":" ++ toString (minted.sequence + 1)
      hostId := second.hostId
      hostEpoch := second.hostEpoch
      decisionId := second.decisionId
      disclosedAt := second.currentMs
      limitBytes := request.budgetBytes }
  require (settings.size envelope ≤ request.budgetBytes) ReadError.budgetInsufficient
  return envelope

/-- What a read meets of its Host: the handles registered when it starts, and the denials
and the reply of each of its two observations. -/
structure Host where
  handles : List Handle
  revocations : List Denial
  raw : Option Json
  laterRevocations : List Denial
  laterRaw : Option Json
  sequence : ℕ

/-- `prepareRead`, where it returns a ready envelope, and the error of its rejection. -/
def prepareRead (settings : Settings) (host : Host) (request : Request) (view : View) :
    Except ReadError Envelope := do
  start host.handles request view
  let first ← observed host.revocations request view host.raw
  let body ← projectBody request view first
  let second ← observed host.laterRevocations request view host.laterRaw
  discloseBody settings host.sequence request view second body

end Kdna.Read

import Kdna.Read.Disclosure

/-!
# A prepared protected read

What a protected read has prepared when it hands over: the envelope with the handles that it has
issued, and how the Host that a transport asks is checked against it. The ordinary read goes
through `host-gate.js` and `preparedScopeMatches` of `pipeline.js`; the two section reads go through
`observe` of `protected-payload-host.js` and `protected-browser-host.js`, which differ in the tuple
of their shapes, with the scope of `protected-payload-project.js`.
-/

namespace Kdna.ProtectedRead

open Value Read

/-- The three protected reads. -/
inductive Route
  | ordinary
  | node
  | browser
  deriving DecidableEq, Repr

/-- A prepared ordinary read: the ready envelope, and the omissions that its preparation retained
before they were folded. -/
structure OrdinaryRead where
  request : Request
  view : Read.View
  envelope : Envelope
  omissions : List Omission

/-- `context.binding` of a section read. -/
structure Binding where
  operationId : String
  captureId : String
  requestDigest : String
  readIntentDigest : String
  requestId : String
  snapshotId : String
  a : String
  c : String
  e : String
  assetId : String
  asset : Json
  tuple : Json

/-- The members of a projected body that its scope reads, with the expansion targets of its
index. -/
structure SectionBody where
  declarations : List Json
  closure : List Json
  claims : List Json
  catalog : List Json
  assetIndex : List Json
  references : List Json
  targets : List Json

/-- The node of an entry of the index: `d.node_ref ?? nodes.get(jcs(d.target)).id` -/
def indexNode (nodes : List Json) (entry : Json) : Option String :=
  (textOf entry "node_ref").or do
    let target ← entry.prop "target"
    let node ← nodes.reverse.find? fun n => propSame n "target" target
    idOf node

/-- The scope of the target of a deferred entry. -/
def deferredScope (targets : List Json) (entry : Json) : Option (List String) := do
  let wanted ← entry.prop "target"
  scopeOf (← targets.find? fun t => propSame t "target" wanted)

/-- The nodes that the members of a body name. -/
def SectionBody.named (body : SectionBody) (nodes : List Json) : Option (List String) := do
  let index ← body.assetIndex.mapM (indexNode nodes)
  let deferred ← (body.assetIndex.filter (·.propIs "body_delivery" "deferred")).mapM
    (deferredScope body.targets)
  return (body.declarations ++ body.closure ++ body.claims).filterMap idOf ++
    body.catalog.filterMap (textOf · "node_ref") ++ index ++
    body.references.filterMap (textOf · "source_node") ++
    body.references.filterMap (textOf · "target_node") ++ deferred.flatten

/-- `scope(body, view)` -/
def SectionBody.scope (body : SectionBody) (nodes : List Json) : Option (List String) := do
  let ids ← body.named nodes
  return (nodes.filterMap idOf).filter fun id => id ∈ ids

/-- A prepared section read: the context that the Host is shown, with what the second observation
said and the handles issued from it. -/
structure SectionRead where
  handle : Option Handle
  binding : Binding
  nodes : List Json
  body : SectionBody
  projectionScope : List String
  scope_eq : body.scope nodes = some projectionScope
  hostId : String
  hostEpoch : String
  issuedAt : ℕ
  expiresAt : ℕ
  handles : List Handle

/-- What a read has prepared. -/
inductive Prepared
  | whole (p : OrdinaryRead)
  | sections (p : SectionRead)

/-- `prepared.envelope.receipt.host_id` -/
def Prepared.hostId : Prepared → String
  | .whole p => p.envelope.hostId
  | .sections p => p.hostId

/-- `prepared.envelope.receipt.host_epoch` -/
def Prepared.hostEpoch : Prepared → String
  | .whole p => p.envelope.hostEpoch
  | .sections p => p.hostEpoch

/-- `prepared.envelope.content.expansion_handles` -/
def Prepared.handles : Prepared → List Handle
  | .whole p => p.envelope.content.expansionHandles
  | .sections p => p.handles

section Gate

/-- The tuple of the shapes of a section route. -/
def tupleOf : Route → List (String × String)
  | .browser => Ir.versionTuple
  | _ => Ir.candidateTuple

/-- The members of an observation that are bound, as they are compared. -/
def Binding.members (b : Binding) : List (String × String) :=
  [("operation_id", b.operationId), ("capture_id", b.captureId),
    ("request_digest", b.requestDigest), ("read_intent_digest", b.readIntentDigest),
    ("request_id", b.requestId), ("snapshot_id", b.snapshotId), ("A", b.a), ("C", b.c), ("E", b.e)]

/-- `ProtectedPayloadHostObservation06` and `BrowserProtectedHostObservation` -/
def shape (k : Route) (value : Json) : Bool :=
  let identifiers := ["host_id", "host_epoch", "decision_id", "request_id", "snapshot_id",
    "policy_id", "operation_id", "capture_id"]
  let digests := ["A", "C", "request_digest", "read_intent_digest", "E"]
  (assertStrictJson value).toBool &&
    Ir.closedObject value (identifiers ++ digests ++
      ["scope", "issued_at", "expires_at", "decision", "tuple", "asset", "current_ms"])
      ["revoked", "lift_denial"] &&
    identifiers.all (passes identifier? value) &&
    digests.all (fun name => (value.prop name).any isDigest) &&
    (value.prop "asset").any (isAssetIdentity identifier?) &&
    ((value.prop "tuple").any fun tuple => Ir.closedObject tuple ((tupleOf k).map Prod.fst) [] &&
      (tupleOf k).all fun f => tuple.propIs f.1 f.2) &&
    passes (distinctTexts? identifier?) value "scope" &&
    ["issued_at", "expires_at", "current_ms"].all (passes uint? value) &&
    decided value && HostGate.flagsOk value

/-- The checks of the section `observe` up to the denials. -/
def check (k : Route) (p : SectionRead) (raw : Option Json) : Except HostError Context := do
  let value ← orFail .contextUntrusted raw
  require (shape k value) HostError.contextUntrusted
  require (∀ m ∈ p.binding.members, value.propIs m.1 m.2) HostError.contextUntrusted
  require (propSame value "asset" p.binding.asset ∧ propSame value "tuple" p.binding.tuple)
    HostError.contextUntrusted
  let hostId ← field value "host_id" identifier?
  let hostEpoch ← field value "host_epoch" identifier?
  let decisionId ← field value "decision_id" identifier?
  let scope ← field value "scope" (distinctTexts? identifier?)
  let issued ← field value "issued_at" uint?
  let expires ← field value "expires_at" uint?
  let current ← field value "current_ms" uint?
  require (window issued expires) HostError.contextUntrusted
  require (issued ≤ current) HostError.timeInvalid
  require (current < expires) HostError.contextExpired
  require (∀ h ∈ p.handle, h.hostId = hostId ∧ h.hostEpoch = hostEpoch) HostError.epochMismatch
  require (∀ h ∈ p.handle, h.issuedAt ≤ current) HostError.timeInvalid
  require (∀ h ∈ p.handle, current < h.expiresAt) HostError.handleExpired
  return ⟨hostId, hostEpoch, decisionId, scope, issued, expires, current, denies value,
    isTrue value "lift_denial"⟩

/-- The section `observe` of a checked observation: its result and the denials behind it. -/
def settleSections (p : SectionRead) (revocations : List Denial) (context : Context) :
    Except ReadError Context × List Denial :=
  let standing := settle revocations context p.binding.assetId
  if context.denial p.binding.assetId ∈ standing then (.error (.host .denied), standing)
  else if (∀ id ∈ p.projectionScope, id ∈ context.scope) ∧
      ∀ h ∈ p.handles, ∀ id ∈ h.scope, id ∈ context.scope then (.ok context, standing)
  else (.error .scopeDenied, standing)

/-- `observe`: the observation of the Host that a transport names, under the denials that stand. -/
def Prepared.observe (k : Route) (revocations : List Denial) (raw : Option Json) :
    Prepared → Except ReadError Context × List Denial
  | .whole p =>
    match Read.observe revocations (.whole p.request p.view raw) with
    | (.ok context, standing) => (.ok context, standing)
    | (.error e, standing) => (.error (.host e), standing)
  | .sections p =>
    match check k p raw with
    | .ok context => settleSections p revocations context
    | .error e => (.error (.host e), revocations)

end Gate

/-- `preparedScopeMatches(prepared, request, context)`, which the section reads do not call. -/
def Prepared.scopeMatches (folding : Bool) (scope : List String) : Prepared → Bool
  | .whole p =>
    (scopeBody scope p.view ⟨p.envelope.content, p.omissions⟩).any fun kept =>
      foldOmissions folding kept.omissions = p.envelope.omissions
  | .sections _ => true

/-- A handle that an observation of the Host at its time covers. -/
def covers (context : Context) (h : Handle) : Prop :=
  h.hostId = context.hostId ∧ h.hostEpoch = context.hostEpoch ∧ h.issuedAt ≤ context.currentMs ∧
    context.currentMs < h.expiresAt ∧ ∀ id ∈ h.scope, id ∈ context.scope

instance (context : Context) (h : Handle) : Decidable (covers context h) :=
  inferInstanceAs (Decidable (_ ∧ _ ∧ _ ∧ _ ∧ _))

section Scopes

/-- A scope that holds every node of the envelope. -/
def Prepared.Within (scope : List String) : Prepared → Prop
  | .whole p => InScope scope p.view p.envelope.content
  | .sections p => ∀ ids, p.body.named p.nodes = some ids →
      ∀ n ∈ p.nodes, ∀ id ∈ idOf n, id ∈ ids → id ∈ scope

/-- An accepted observation is one that the Host made at its time, and it does not deny. -/
structure Accepted (context : Context) : Prop where
  issued : context.issuedAt ≤ context.currentMs
  unexpired : context.currentMs < context.expiresAt
  allowed : context.denies = false

end Scopes

end Kdna.ProtectedRead

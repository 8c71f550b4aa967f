import Kdna.Ir.Reconstruct
import Kdna.Json.Charge
import Kdna.Read.Budget
import Kdna.Read.HostGate

/-!
# The records of an execution

The receipt and the trace of `execution.js` and of `execution-sections-node.js`, with the checks of
their generated shapes. A checked value is read as a record whose fields carry what the shape and
`scalarRefs` say of them; the two routes differ in their versions, in the digest of a definition
and in the source and selection of a plan.
-/

namespace Kdna.Execution

open Value Read

/-- `Identifier`, as `scalarRefs` bounds it. -/
abbrev Identifier := { t : String // identifier t = true }

/-- `Digest` -/
abbrev Digest := { t : String // isDigest (.str t) = true }

def Identifier.json (i : Identifier) : Json := .str i.1

def Digest.json (d : Digest) : Json := .str d.1

/-- The codes of `PublicExecutionFailure`, and the one of a capability that is not there. -/
inductive Code
  | inputInvalid
  | schemaInvalid
  | versionUnsupported
  | sourceUnattested
  | bindingInvalid
  | unresolvedExternal
  | selectionInvalid
  | budgetExceeded
  | hostInvalid
  | hostDenied
  | hostExpired
  | deliveryInvalid
  | providerFailed
  | replay
  | outcomeFailed
  | capabilityUnavailable
  deriving DecidableEq, Repr

/-- `PublicExecutionFailure` -/
def failures : List (Code × String) :=
  [(.inputInvalid, "EXECUTION_INPUT_INVALID"), (.schemaInvalid, "EXECUTION_SCHEMA_INVALID"),
    (.versionUnsupported, "EXECUTION_VERSION_UNSUPPORTED"),
    (.sourceUnattested, "EXECUTION_SOURCE_UNATTESTED"),
    (.bindingInvalid, "EXECUTION_BINDING_INVALID"),
    (.unresolvedExternal, "EXECUTION_UNRESOLVED_EXTERNAL"),
    (.selectionInvalid, "EXECUTION_SELECTION_INVALID"),
    (.budgetExceeded, "EXECUTION_BUDGET_EXCEEDED"), (.hostInvalid, "EXECUTION_HOST_INVALID"),
    (.hostDenied, "EXECUTION_HOST_DENIED"), (.hostExpired, "EXECUTION_HOST_EXPIRED"),
    (.deliveryInvalid, "EXECUTION_DELIVERY_INVALID"),
    (.providerFailed, "EXECUTION_PROVIDER_FAILED"), (.replay, "EXECUTION_REPLAY"),
    (.outcomeFailed, "EXECUTION_OUTCOME_FAILED")]

/-- `PublicExecutionStatus` -/
inductive Status
  | completed
  | denied
  | failed
  deriving DecidableEq, Repr

def statuses : List (Status × String) :=
  [(.completed, "completed"), (.denied, "denied"), (.failed, "failed")]

/-- The kinds of an event of a trace. -/
inductive Kind
  | requestAdmitted
  | deliveryVerified
  | executionAuthorized
  | outcomeObserved
  | outputAuthorized
  | ended (status : Status)
  deriving DecidableEq, Repr

def kinds : List (Kind × String) :=
  [(.requestAdmitted, "request_admitted"), (.deliveryVerified, "delivery_verified"),
    (.executionAuthorized, "execution_authorized"), (.outcomeObserved, "outcome_observed"),
    (.outputAuthorized, "output_authorized"), (.ended .completed, "completed"),
    (.ended .denied, "denied"), (.ended .failed, "failed")]

/-- Who an event comes from. -/
inductive Origin
  | referenceHost
  | authorizationProvider
  | deliveryProvider
  | outcomeProvider
  deriving DecidableEq, Repr

def origins : List (Origin × String) :=
  [(.referenceHost, "reference_host"), (.authorizationProvider, "authorization_provider"),
    (.deliveryProvider, "delivery_provider"), (.outcomeProvider, "outcome_provider")]

/-- `eventSources` -/
def eventSources : Kind → Origin
  | .requestAdmitted => .referenceHost
  | .deliveryVerified => .deliveryProvider
  | .executionAuthorized => .authorizationProvider
  | .outcomeObserved => .outcomeProvider
  | .outputAuthorized => .authorizationProvider
  | .ended _ => .referenceHost

/-- `PublicExecutionAuthorization` -/
structure Authorization where
  authorizationId : Identifier
  expiresAt : UInt
  verifiedAt : UInt
  deriving DecidableEq

/-- `PublicExecutionDelivery` -/
structure Delivery where
  deliveryId : Identifier
  producerDigest : Digest
  deliveryDigest : Digest
  observedDigest : Digest
  deriving DecidableEq

/-- `PublicExecutionOutput` -/
structure Output where
  bytes : UInt
  digest : Option Digest
  deriving DecidableEq

/-- `PublicAgentHostReceipt` and `NativeAgentHostReceipt06` -/
structure Receipt where
  receiptId : Identifier
  requestId : Identifier
  runId : Identifier
  hostId : Identifier
  hostEpoch : Identifier
  requestDigest : Digest
  planDigest : Digest
  capsuleDigest : Digest
  authorization : Option Authorization
  delivery : Option Delivery
  status : Status
  failure : Option Code
  output : Output
  issuedAt : UInt
  deriving DecidableEq

/-- `PublicExecutionEvent` -/
structure TraceEvent where
  sequence : UInt
  time : UInt
  kind : Kind
  source : Origin
  evidenceId : Option Identifier
  deriving DecidableEq

/-- `ExpectedSourceKind` -/
def expectedKinds : List String :=
  ["caller", "manifest_declaration", "checksums_declaration", "trusted_receipt",
    "host_observation"]

/-- `Comparison`; a compared digest is matched or not. -/
inductive Comparison
  | notCompared
  | compared (matched : Bool) (expected : Digest) (kind : { t : String // t ∈ expectedKinds })
      (sourceId : Identifier)

/-- `DigestA`, `DigestC` and `DigestE`, without what is fixed in them. -/
structure Basis where
  observed : Digest
  comparison : Comparison

/-- `PublicExecutionSource` and `NativeExecutionSource06` -/
structure Source where
  assetId : Identifier
  assetVersion : Identifier
  judgmentVersion : Identifier
  a : Basis
  c : Basis
  e : Basis
  irDigest : Digest

/-- `Selection` and `SelectionSet06`: one judgment, or a list of them that is not longer than an
array of a copied value may be. -/
structure Selection where
  assetId : Identifier
  assetVersion : Identifier
  judgment : Identifier
  others : List Identifier
  bounded : others.length < 10000

/-- `PublicJudgmentTrace` and `NativeJudgmentTrace06` -/
structure Trace where
  traceId : Identifier
  requestDigest : Digest
  planDigest : Digest
  capsuleDigest : Digest
  receiptDigest : Digest
  runId : Identifier
  hostId : Identifier
  hostEpoch : Identifier
  source : Json
  selection : Json
  events : List TraceEvent
  status : Status

/-- The execution of `execution.js`, or that of `execution-sections-node.js` under the digest of its
definition. -/
inductive Route
  | ordinary
  | sections (definition : Digest)

namespace Route

/-- `contract.versionTuple` -/
def tuple : Route → List (String × String)
  | .ordinary => Ir.versionTuple
  | .sections _ =>
    [("container", "0.6.0"), ("payload_profile", "kdna.payload.judgment"),
      ("payload_version", "0.5.1"), ("core", "kdna.core/0.8.2"), ("ir", "kdna.canonical-ir/0.6.1"),
      ("runtime", "kdna.runtime-capsule/0.4.0-candidate"),
      ("plan", "kdna.consumption-plan/0.4.0-candidate"),
      ("host", "kdna.agent-host/0.4.0-candidate"),
      ("trace", "kdna.judgment-trace/0.4.0-candidate"), ("read", "kdna.read/0.7.0-candidate")]

/-- `contract.versionTuple[name]` -/
def version (k : Route) (name : String) : String :=
  ((k.tuple.find? fun f => f.1 = name).map Prod.snd).getD ""

/-- `definition_digest` -/
def definition : Route → List (String × Json)
  | .ordinary => []
  | .sections d => [("definition_digest", d.json)]

/-- The members that every record of the route begins with. -/
def head (k : Route) (name : String) : List (String × Json) :=
  [("contract", .str (k.version name)), ("tuple", Ir.textRecord k.tuple)] ++ k.definition

end Route

section Writing

def optional {γ : Type} (write : γ → Json) : Option γ → Json
  | none => .null
  | some x => write x

/-- The text of a member of an enumeration. -/
def enumText {γ : Type} [DecidableEq γ] (texts : List (γ × String)) (x : γ) : String :=
  ((texts.find? fun p => p.1 = x).map Prod.snd).getD ""

def Authorization.json (a : Authorization) : Json :=
  .obj [("authorization_id", a.authorizationId.json), ("expires_at", a.expiresAt.json),
    ("verified_at", a.verifiedAt.json)]

def Delivery.json (d : Delivery) : Json :=
  .obj [("delivery_id", d.deliveryId.json), ("producer_digest", d.producerDigest.json),
    ("delivery_digest", d.deliveryDigest.json), ("observed_digest", d.observedDigest.json)]

def Output.json (o : Output) : Json :=
  .obj [("bytes", o.bytes.json), ("digest", optional Digest.json o.digest)]

def Receipt.json (k : Route) (r : Receipt) : Json :=
  .obj (k.head "host" ++
    [("receipt_id", r.receiptId.json), ("request_id", r.requestId.json), ("run_id", r.runId.json),
      ("host_id", r.hostId.json), ("host_epoch", r.hostEpoch.json),
      ("request_digest", r.requestDigest.json), ("plan_digest", r.planDigest.json),
      ("capsule_digest", r.capsuleDigest.json),
      ("authorization", optional Authorization.json r.authorization),
      ("delivery", optional Delivery.json r.delivery), ("status", .str (enumText statuses r.status)),
      ("failure", optional (fun code => .str (enumText failures code)) r.failure),
      ("output", r.output.json), ("issued_at", r.issuedAt.json),
      ("output_delivery", .str "not_confirmed")])

def TraceEvent.json (e : TraceEvent) : Json :=
  .obj [("sequence", e.sequence.json), ("at", e.time.json), ("kind", .str (enumText kinds e.kind)),
    ("source", .str (enumText origins e.source)),
    ("evidence_id", optional Identifier.json e.evidenceId)]

def Comparison.json : Comparison → Json
  | .notCompared =>
    .obj [("state", .str "not_compared"), ("expected", .null), ("expected_source", .null)]
  | .compared matched expected kind sourceId =>
    .obj [("state", .str (if matched then "matched" else "mismatched")), ("expected", expected.json),
      ("expected_source", .obj [("kind", .str kind.1), ("source_id", sourceId.json)])]

/-- A digest of an asset under its basis, its profile and its version. -/
def Basis.json (b : Basis) (basis profile version : String) : Json :=
  .obj [("basis", .str basis), ("profile", .str profile), ("profile_version", .str version),
    ("algorithm", .str "SHA-256"), ("observed", b.observed.json),
    ("comparison", b.comparison.json)]

def Source.json (k : Route) (s : Source) : Json :=
  let asset : Json := .obj [("asset_id", s.assetId.json), ("asset_version", s.assetVersion.json),
    ("judgment_version", s.judgmentVersion.json)]
  let digests (version : String) : Json :=
    .obj [("A", s.a.json "container_bytes" "kdna.digest-basis.container-bytes" "0.2.0"),
      ("C", s.c.json "content_tree" "kdna.digest-basis.content-tree" "0.2.0"),
      ("E", s.e.json "runtime_entry_set" "kdna.digest-basis.runtime-entry-set" version)]
  match k with
  | .ordinary => .obj [("asset", asset), ("digests", digests "0.2.0"), ("ir_digest", s.irDigest.json)]
  | .sections _ =>
    .obj [("asset", asset), ("origin_tuple", Ir.textRecord Ir.candidateTuple),
      ("digests", digests "0.3.0-candidate"), ("ir_digest", s.irDigest.json)]

def Selection.json (k : Route) (s : Selection) : Json :=
  let judgments : String × Json := match k with
    | .ordinary => ("judgment_id", s.judgment.json)
    | .sections _ => ("judgment_ids", .arr ((s.judgment :: s.others).map Identifier.json))
  .obj [("asset_id", s.assetId.json), ("asset_version", s.assetVersion.json), judgments]

def Trace.json (k : Route) (t : Trace) : Json :=
  .obj (k.head "trace" ++
    [("trace_id", t.traceId.json), ("request_digest", t.requestDigest.json),
      ("plan_digest", t.planDigest.json), ("capsule_digest", t.capsuleDigest.json),
      ("receipt_digest", t.receiptDigest.json), ("run_id", t.runId.json), ("host_id", t.hostId.json),
      ("host_epoch", t.hostEpoch.json), ("source", t.source), ("selection", t.selection),
      ("events", .arr (t.events.map TraceEvent.json)),
      ("status", .str (enumText statuses t.status))])

end Writing

section Reading

def identifierOf? : Json → Option Identifier
  | .str t => if h : identifier t = true then some ⟨t, h⟩ else none
  | _ => none

def digestOf? (v : Json) : Option Digest :=
  match v with
  | .str t => if h : isDigest (.str t) = true then some ⟨t, h⟩ else none
  | _ => none

def uintOf? (v : Json) : Option UInt :=
  (uint? v).bind fun n => if h : n < 2 ^ 53 then some ⟨n, h⟩ else none

/-- A member of an enumeration by its text. -/
def enum? {γ : Type} (texts : List (γ × String)) (v : Json) : Option γ :=
  v.text?.bind fun t => (texts.find? fun p => p.2 = t).map Prod.fst

/-- `anyOf` a shape and `null`. -/
def nullable? {γ : Type} (read : Json → Option γ) : Json → Option (Option γ)
  | .null => some none
  | v => (read v).map some

/-- The member `name`, under its shape. -/
def member? {γ : Type} (v : Json) (name : String) (read : Json → Option γ) : Option γ :=
  (v.prop name).bind read

/-- `type: null` -/
def null? : Json → Option Unit
  | .null => some ()
  | _ => none

/-- `const` of a string. -/
def const? (text : String) (v : Json) : Option Unit := guard (v.text? = some text)

/-- `type: object, additionalProperties: false` with every member required. -/
def closed? (v : Json) (names : List String) : Option Unit := guard (Ir.closedObject v names [])

def readAuthorization (v : Json) : Option Authorization := do
  closed? v ["authorization_id", "expires_at", "verified_at"]
  return ⟨← member? v "authorization_id" identifierOf?, ← member? v "expires_at" uintOf?,
    ← member? v "verified_at" uintOf?⟩

def readDelivery (v : Json) : Option Delivery := do
  closed? v ["delivery_id", "producer_digest", "delivery_digest", "observed_digest"]
  return ⟨← member? v "delivery_id" identifierOf?, ← member? v "producer_digest" digestOf?,
    ← member? v "delivery_digest" digestOf?, ← member? v "observed_digest" digestOf?⟩

def readOutput (v : Json) : Option Output := do
  closed? v ["bytes", "digest"]
  return ⟨← member? v "bytes" uintOf?, ← member? v "digest" (nullable? digestOf?)⟩

/-- `VersionTuple` of the route. -/
def tuple? (fields : List (String × String)) (v : Json) : Option Unit :=
  guard (Ir.closedObject v (fields.map Prod.fst) [] ∧ fields.all fun f => v.propIs f.1 f.2)

/-- The members that every record of the route begins with. -/
def readHead (k : Route) (name : String) (v : Json) : Option Unit := do
  member? v "contract" (const? (k.version name))
  member? v "tuple" (tuple? k.tuple)
  match k with
  | .ordinary => return ()
  | .sections _ => guard (member? v "definition_digest" digestOf?).isSome

def receiptNames (k : Route) : List String :=
  (k.head "host").map Prod.fst ++ ["receipt_id", "request_id", "run_id", "host_id", "host_epoch",
    "request_digest", "plan_digest", "capsule_digest", "authorization", "delivery", "status",
    "failure", "output", "issued_at", "output_delivery"]

/-- The shape of a receipt. -/
def readReceipt (k : Route) (v : Json) : Option Receipt := do
  closed? v (receiptNames k)
  readHead k "host" v
  member? v "output_delivery" (const? "not_confirmed")
  return {
    receiptId := ← member? v "receipt_id" identifierOf?
    requestId := ← member? v "request_id" identifierOf?
    runId := ← member? v "run_id" identifierOf?
    hostId := ← member? v "host_id" identifierOf?
    hostEpoch := ← member? v "host_epoch" identifierOf?
    requestDigest := ← member? v "request_digest" digestOf?
    planDigest := ← member? v "plan_digest" digestOf?
    capsuleDigest := ← member? v "capsule_digest" digestOf?
    authorization := ← member? v "authorization" (nullable? readAuthorization)
    delivery := ← member? v "delivery" (nullable? readDelivery)
    status := ← member? v "status" (enum? statuses)
    failure := ← member? v "failure" (nullable? (enum? failures))
    output := ← member? v "output" readOutput
    issuedAt := ← member? v "issued_at" uintOf? }

def readEvent (v : Json) : Option TraceEvent := do
  closed? v ["sequence", "at", "kind", "source", "evidence_id"]
  return ⟨← member? v "sequence" uintOf?, ← member? v "at" uintOf?, ← member? v "kind" (enum? kinds),
    ← member? v "source" (enum? origins), ← member? v "evidence_id" (nullable? identifierOf?)⟩

def readComparison (v : Json) : Option Unit := do
  closed? v ["state", "expected", "expected_source"]
  let compared : Option Unit := do
    guard ((member? v "state" (const? "matched")).isSome ∨
      (member? v "state" (const? "mismatched")).isSome)
    let _ ← member? v "expected" digestOf?
    member? v "expected_source" fun source => do
      closed? source ["kind", "source_id"]
      let _ ← member? source "source_id" identifierOf?
      member? source "kind" fun kind => guard (∃ t ∈ expectedKinds, kind.text? = some t)
  let notCompared : Option Unit := do
    member? v "state" (const? "not_compared")
    member? v "expected" null?
    member? v "expected_source" null?
  notCompared <|> compared

def readBasis (basis profile version : String) (v : Json) : Option Unit := do
  closed? v ["basis", "profile", "profile_version", "algorithm", "observed", "comparison"]
  member? v "basis" (const? basis)
  member? v "profile" (const? profile)
  member? v "profile_version" (const? version)
  member? v "algorithm" (const? "SHA-256")
  let _ ← member? v "observed" digestOf?
  member? v "comparison" readComparison

def readAsset (v : Json) : Option Unit := do
  closed? v ["asset_id", "asset_version", "judgment_version"]
  let _ ← member? v "asset_id" identifierOf?
  let _ ← member? v "asset_version" identifierOf?
  let _ ← member? v "judgment_version" identifierOf?

def readDigests (version : String) (v : Json) : Option Unit := do
  closed? v ["A", "C", "E"]
  member? v "A" (readBasis "container_bytes" "kdna.digest-basis.container-bytes" "0.2.0")
  member? v "C" (readBasis "content_tree" "kdna.digest-basis.content-tree" "0.2.0")
  member? v "E" (readBasis "runtime_entry_set" "kdna.digest-basis.runtime-entry-set" version)

/-- The shape of the source of a plan. -/
def readSource (k : Route) (v : Json) : Option Unit := do
  member? v "asset" readAsset
  let _ ← member? v "ir_digest" digestOf?
  match k with
  | .ordinary =>
    closed? v ["asset", "digests", "ir_digest"]
    member? v "digests" (readDigests "0.2.0")
  | .sections _ =>
    closed? v ["asset", "origin_tuple", "digests", "ir_digest"]
    member? v "origin_tuple" (tuple? Ir.candidateTuple)
    member? v "digests" (readDigests "0.3.0-candidate")

/-- The shape of the selection of a plan. -/
def readSelection (k : Route) (v : Json) : Option Unit := do
  let _ ← member? v "asset_id" identifierOf?
  let _ ← member? v "asset_version" identifierOf?
  match k with
  | .ordinary =>
    closed? v ["asset_id", "asset_version", "judgment_id"]
    let _ ← member? v "judgment_id" identifierOf?
  | .sections _ =>
    closed? v ["asset_id", "asset_version", "judgment_ids"]
    let ids ← member? v "judgment_ids" fun ids => ids.items?.bind (·.mapM identifierOf?)
    guard (ids ≠ [])

def traceNames (k : Route) : List String :=
  (k.head "trace").map Prod.fst ++ ["trace_id", "request_digest", "plan_digest", "capsule_digest",
    "receipt_digest", "run_id", "host_id", "host_epoch", "source", "selection", "events", "status"]

/-- The shape of a trace. -/
def readTrace (k : Route) (v : Json) : Option Trace := do
  closed? v (traceNames k)
  readHead k "trace" v
  member? v "source" (readSource k)
  member? v "selection" (readSelection k)
  let events ← member? v "events" fun events => events.items?.bind (·.mapM readEvent)
  guard (2 ≤ events.length)
  return {
    traceId := ← member? v "trace_id" identifierOf?
    requestDigest := ← member? v "request_digest" digestOf?
    planDigest := ← member? v "plan_digest" digestOf?
    capsuleDigest := ← member? v "capsule_digest" digestOf?
    receiptDigest := ← member? v "receipt_digest" digestOf?
    runId := ← member? v "run_id" identifierOf?
    hostId := ← member? v "host_id" identifierOf?
    hostEpoch := ← member? v "host_epoch" identifierOf?
    source := ← v.prop "source"
    selection := ← v.prop "selection"
    events := events
    status := ← member? v "status" (enum? statuses) }

end Reading

end Kdna.Execution

import Kdna.Execution.Wire

/-!
# The checks of an execution

`schema`, `checkedReceipt`, `checkedTrace` and `validateExecutionResponse`. An admitted request is
its wire value with its plan and its capsule; a lookup of it succeeds while the snapshot behind it
is current, which only a protected source of the ordinary route can cease to be.
-/

namespace Kdna.Execution

open Value Read

/-- `PublicExecutionBudget`, without the bytes of the capsule. -/
structure Budget where
  outputBytes : UInt
  traceEvents : UInt
  responseBytes : UInt

/-- What is read of an admitted plan. -/
structure Plan where
  source : Source
  selection : Selection
  budget : Budget

/-- `PublicAgentHostRequest` and `NativeAgentHostRequest06` -/
structure Wire where
  requestId : Identifier
  runId : Identifier
  hostId : Identifier
  hostEpoch : Identifier
  planDigest : Digest
  capsuleDigest : Digest

def Wire.json (k : Route) (w : Wire) : Json :=
  .obj (k.head "host" ++
    [("request_id", w.requestId.json), ("run_id", w.runId.json), ("host_id", w.hostId.json),
      ("host_epoch", w.hostEpoch.json), ("operation", .str "consume_judgment"),
      ("plan_digest", w.planDigest.json), ("capsule_digest", w.capsuleDigest.json)])

/-- An admitted request of the route, whose selection is one judgment on the ordinary route. -/
structure Admitted (k : Route) where
  snapshot : ℕ
  wire : Wire
  plan : Plan
  capsule : Json
  single : k = .ordinary → plan.selection.others = []

section Checks

variable (k : Route) (digest : Bytes → Digest)

/-- `digestCanonical(value)` -/
def digestCanonical (v : Json) : Digest := digest (Utf8.encodeChars (canonicalText v))

/-- `same(left, right)` -/
def same (left right : Json) : Bool := canonicalText left = canonicalText right

/-- A value that counts as false in a condition. -/
def falsy : Json → Bool
  | .null => true
  | .bool b => !b
  | .num x => x.toInt = some 0
  | .str t => t = ""
  | _ => false

/-- `value?.tuple && !same(value.tuple, contract.versionTuple)` fails, as does a text that is
another digest of the definition. -/
def versioned (v : Json) : Bool :=
  ((v.prop "tuple").all fun t => falsy t || same t (Ir.textRecord k.tuple)) &&
    k.definition.all fun d => ((v.prop d.1).bind text?).all fun t => d.2.text? = some t

/-- `schema(type, input)`: the copied value, and what its shape reads of it. -/
def schema {γ : Type} (read : Json → Option γ) (input : Json) : Except Code (Json × γ) := do
  let v ← (copyJson input).mapError fun _ => Code.inputInvalid
  require (versioned k v) Code.versionUnsupported
  let record ← orFail Code.schemaInvalid (read v)
  return (v, record)

/-- The codes of a denied receipt. -/
def denials : List Code := [.hostDenied, .hostExpired]

/-- `checkedReceipt(input, request)` while the snapshots of the predicate are current. -/
def checkedReceipt (current : ℕ → Bool) (input : Json) (r : Admitted k) :
    Except Code (Json × Receipt) := do
  let (v, value) ← schema k (readReceipt k) input
  require (current r.snapshot) Code.sourceUnattested
  let wire := r.wire
  require (value.requestId = wire.requestId ∧ value.runId = wire.runId ∧ value.hostId = wire.hostId ∧
    value.hostEpoch = wire.hostEpoch ∧ value.planDigest = wire.planDigest ∧
    value.capsuleDigest = wire.capsuleDigest) Code.bindingInvalid
  require (value.requestDigest = digestCanonical digest (wire.json k)) Code.bindingInvalid
  if value.status = .completed then
    match value.failure, value.authorization, value.delivery, value.output.digest with
    | none, some authorization, some delivery, some _ =>
      require (authorization.verifiedAt.1 ≤ value.issuedAt.1 ∧
        value.issuedAt.1 < authorization.expiresAt.1) Code.hostExpired
      require (delivery.producerDigest = wire.capsuleDigest ∧
        delivery.deliveryDigest = wire.capsuleDigest ∧
        delivery.observedDigest = wire.capsuleDigest) Code.deliveryInvalid
      require (value.output.bytes.1 ≤ r.plan.budget.outputBytes.1) Code.budgetExceeded
    | _, _, _, _ => .error .bindingInvalid
  else
    require (value.failure.isSome ∧ value.output.bytes.1 = 0 ∧ value.output.digest = none ∧
      value.authorization = none ∧ value.delivery = none) Code.bindingInvalid
    require (value.status = .denied ↔ ∃ code ∈ denials, value.failure = some code) Code.bindingInvalid
  return (v, value)

/-- `successEvents` without its last one. -/
def successEvents : List Kind :=
  [.requestAdmitted, .deliveryVerified, .executionAuthorized, .outcomeObserved, .outputAuthorized]

/-- The checks of one event of a trace, at its index. -/
def eventOk (receipt : Receipt) (index : ℕ) (event : TraceEvent) : Bool :=
  event.sequence.1 = index && event.source = eventSources event.kind &&
    event.time.1 ≤ receipt.issuedAt.1 &&
    (event.source = .referenceHost) == (event.evidenceId = none) &&
    (receipt.status ≠ .completed || event.kind ≠ .deliveryVerified ||
      event.evidenceId = receipt.delivery.map Delivery.deliveryId) &&
    (receipt.status ≠ .completed || event.kind ≠ .outputAuthorized ||
      (event.evidenceId = receipt.authorization.map Authorization.authorizationId &&
        some event.time = receipt.authorization.map Authorization.verifiedAt))

/-- The kinds of the events of a trace with the status. -/
def kindsOk (status : Status) (kinds : List Kind) : Bool :=
  if status = .completed then kinds = successEvents ++ [.ended .completed]
  else kinds.getLast? = some (.ended status) &&
    kinds.dropLast = successEvents.take (kinds.length - 1)

/-- `checkedTrace(input, request, receipt)` -/
def checkedTrace (current : ℕ → Bool) (input : Json) (r : Admitted k) (receipt : Json) :
    Except Code Unit := do
  let (_, value) ← schema k (readTrace k) input
  let (v, rec) ← checkedReceipt k digest current receipt r
  require (value.runId = rec.runId ∧ value.hostId = rec.hostId ∧ value.hostEpoch = rec.hostEpoch ∧
    value.requestDigest = rec.requestDigest ∧ value.planDigest = rec.planDigest ∧
    value.capsuleDigest = rec.capsuleDigest ∧ value.status = rec.status) Code.bindingInvalid
  require (value.receiptDigest = digestCanonical digest v ∧
    same value.source (r.plan.source.json k) ∧
    same value.selection (r.plan.selection.json k)) Code.bindingInvalid
  require (value.events.length ≤ r.plan.budget.traceEvents.1) Code.budgetExceeded
  require (kindsOk rec.status (value.events.map TraceEvent.kind)) Code.bindingInvalid
  require ((value.events.mapIdx (eventOk rec)).all id ∧
    (value.events.map fun e => e.time.1).Pairwise (· ≤ ·)) Code.bindingInvalid
  require (value.events.getLast?.map TraceEvent.time = some rec.issuedAt) Code.bindingInvalid

/-- `byteLength(value)` -/
def byteLength (v : Json) : Except Failure ℕ := do
  let text ← canonicalJson v
  return (Utf8.encode text).length

/-- `validateExecutionResponse(input, request)`: the body and its bytes. -/
def validateExecutionResponse (current : ℕ → Bool) (input : Json) (r : Admitted k) :
    Except Code (Json × ℕ) := do
  let body ← (copyJson input).mapError fun _ => Code.inputInvalid
  require (Ir.closedObject body ["receipt", "trace", "output"] []) Code.providerFailed
  let (v, receipt) ← checkedReceipt k digest current ((body.prop "receipt").getD .null) r
  checkedTrace k digest current ((body.prop "trace").getD .null) r v
  if receipt.status = .completed then
    let output ← orFail Code.bindingInvalid ((body.prop "output").bind text?)
    let bytes := Utf8.encode output
    require (bytes.length = receipt.output.bytes.1 ∧ some (digest bytes) = receipt.output.digest)
      Code.bindingInvalid
  else require ((body.prop "output").bind null? = some ()) Code.bindingInvalid
  let bytes ← (byteLength body).mapError fun _ => Code.inputInvalid
  require (bytes ≤ r.plan.budget.responseBytes.1) Code.budgetExceeded
  return (body, bytes)

end Checks

end Kdna.Execution

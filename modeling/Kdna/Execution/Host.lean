import Kdna.Data.Reentrant
import Kdna.Execution.Checks

/-!
# The execution host

`createExecutionHost` and its `consume`. A call asks the clock and the providers of the host, any of
which may make further calls before it answers. What a provider answers is what is left of it behind
`exactRecord`, which copies it: code of the provider that runs while it is copied runs before the
answer. The two routes read an error that such code throws in different ways.
-/

namespace Kdna.Execution

open Value Read Reentrant

/-- The phases of `authorize`. -/
inductive Phase
  | execution
  | output
  deriving DecidableEq, Repr

/-- What a call asks of the configuration. -/
inductive Query
  | clock
  | authorize (phase : Phase)
  | observeDelivery
  | observeOutcome
  deriving DecidableEq, Repr

/-- An error on its way to a handler: one with the code, one with another code, or one that throws
where its code is read. -/
inductive Thrown
  | code (c : Code)
  | other
  | escape
  deriving DecidableEq, Repr

/-- What a call is answered: the callee throws, or it returns a JSON value, a value that the copy
refuses, or a value whose copy throws an error of the callee's own. -/
inductive Reply
  | threw
  | value (v : Json)
  | foreign
  | hostile (t : Thrown)

/-- The state of a host, and the snapshots that are current. -/
structure HostState where
  seenRequests : List Identifier
  seenRuns : List Identifier
  lastTime : UInt
  current : ℕ → Bool

/-- The identity of a host. -/
structure Config where
  hostId : Identifier
  hostEpoch : Identifier

/-- What `consume` returns; `unsettled` is an exception, or a rejection whose code a provider chose. -/
inductive Response
  | answered (status : Status) (body : Json) (output : Option String) (bytes : ℕ)
  | rejected (code : Code)
  | unsettled

/-- A call of the host, with the events of its trace. -/
abbrev Act := ExceptT Thrown (StateT (List TraceEvent) (Prog HostState Query Reply))

namespace Act

variable {β : Type}

def lift (p : Prog HostState Query Reply β) : Act β := ExceptT.lift (StateT.lift p)

def ask (q : Query) : Act Reply := lift (.ask q .ret)

def host : Act HostState := lift (.get .ret)

def setHost (s : HostState) : Act Unit := lift (.set s (.ret ()))

/-- `fail(code)` -/
def fail (c : Code) : Act β := throw (.code c)

/-- A condition that fails with the code. -/
def check (p : Prop) [Decidable p] (c : Code) : Act Unit := if p then return () else fail c

/-- A value, or a failure with the code. -/
def need (c : Code) : Option β → Act β
  | some b => return b
  | none => fail c

/-- A value, or a failure with its code. -/
def settled : Except Code β → Act β
  | .ok b => return b
  | .error c => fail c

end Act

open Act

theorem zero_lt_bound : (0 : ℕ) < 2 ^ 53 := by decide

/-- A count of the host; what it counts is far below the bound. -/
def count (n : ℕ) : UInt := if h : n < 2 ^ 53 then ⟨n, h⟩ else ⟨0, zero_lt_bound⟩

/-- Whether the callee returned. -/
def Reply.returned : Reply → Bool
  | .threw => false
  | _ => true

/-- `uint(value)` of what the clock returned. -/
def Reply.time? : Reply → Option UInt
  | .value v => uintOf? v
  | _ => none

/-- `now()` -/
def now : Act UInt := do
  let reply ← ask .clock
  check (reply.returned = true) .providerFailed
  let value ← need .hostInvalid reply.time?
  let s ← host
  check (s.lastTime.1 ≤ value.1) .hostInvalid
  setHost { s with lastTime := value }
  return value

/-- `event(kind, evidence_id, time)` -/
def event (kind : Kind) (evidenceId : Option Identifier) (time : UInt) : Act Unit :=
  modify fun events => events ++ [⟨count events.length, time, kind, eventSources kind, evidenceId⟩]

/-- The error that `exactRecord` lets through where the copy throws: the sections route knows its
own errors, and no other. -/
def Route.seen : Route → Thrown → Thrown
  | .ordinary, t => t
  | .sections _, _ => .code .providerFailed

/-- `exactRecord(provider(fn, observation), fields)` -/
def exactRecord (k : Route) (fields : List String) : Reply → Act Json
  | .threw => fail .providerFailed
  | .foreign => fail .providerFailed
  | .hostile t => throw (k.seen t)
  | .value v => do
    let record ← need .providerFailed (copyJson v).toOption
    check (Ir.closedObject record fields []) .providerFailed
    return record

/-- The code that `attempt` gives an error without one. -/
def Route.fallback : Route → Code
  | .ordinary => .inputInvalid
  | .sections _ => .capabilityUnavailable

/-- The response of an authorization provider. -/
structure Grant where
  allows : Bool
  authorizationId : Identifier
  issuedAt : UInt
  expiresAt : UInt

section Host

variable {k : Route} (digest : Bytes → Digest) (config : Config)

/-- The response under the checks of `authorize`. -/
def grant? (requestDigest : Digest) (v : Json) : Option Grant := do
  let allows ← member? v "decision" (enum? [(true, "allow"), (false, "deny")])
  let authorizationId ← member? v "authorization_id" identifierOf?
  guard (v.propIs "request_digest" requestDigest.1 ∧ v.propIs "host_id" config.hostId.1 ∧
    v.propIs "host_epoch" config.hostEpoch.1)
  let issuedAt ← member? v "issued_at" uintOf?
  let expiresAt ← member? v "expires_at" uintOf?
  return ⟨allows, authorizationId, issuedAt, expiresAt⟩

/-- The members of a response of an authorization provider. -/
def grantNames : List String :=
  ["decision", "authorization_id", "request_digest", "host_id", "host_epoch", "issued_at",
    "expires_at"]

/-- The event of an authorization. -/
def Phase.kind : Phase → Kind
  | .execution => .executionAuthorized
  | .output => .outputAuthorized

/-- `authorize(phase)` -/
def authorize (r : Admitted k) (phase : Phase) : Act Authorization := do
  let response ← exactRecord k grantNames (← ask (.authorize phase))
  let grant ← need .hostInvalid (grant? config (digestCanonical digest (r.wire.json k)) response)
  check (grant.allows = true) .hostDenied
  let time ← now
  check (grant.issuedAt.1 ≤ time.1 ∧ time.1 < grant.expiresAt.1) .hostExpired
  event phase.kind (some grant.authorizationId) time
  return ⟨grant.authorizationId, grant.expiresAt, time⟩

/-- The observation of the delivery. -/
def observeDelivery (r : Admitted k) : Act Delivery := do
  let observed ← exactRecord k ["delivery_id", "request_digest", "producer_digest",
    "delivery_digest"] (← ask .observeDelivery)
  let capsule := digestCanonical digest r.capsule
  let deliveryId ← need .deliveryInvalid (member? observed "delivery_id" identifierOf?)
  check (observed.propIs "request_digest" (digestCanonical digest (r.wire.json k)).1 ∧
    observed.propIs "producer_digest" capsule.1 ∧ observed.propIs "delivery_digest" capsule.1 ∧
    r.wire.capsuleDigest = capsule) .deliveryInvalid
  event .deliveryVerified (some deliveryId) (← now)
  return ⟨deliveryId, capsule, capsule, capsule⟩

/-- The observation of the outcome: its text. -/
def observeOutcome (r : Admitted k) : Act String := do
  let observed ← exactRecord k ["observation_id", "status", "output"] (← ask .observeOutcome)
  let observationId ← need .providerFailed (member? observed "observation_id" identifierOf?)
  let completed ← need .providerFailed
    (member? observed "status" (enum? [(true, "completed"), (false, "failed")]))
  if completed then
    let output ← need .providerFailed (member? observed "output" text?)
    check ((Utf8.encode output).length ≤ r.plan.budget.outputBytes.1) .budgetExceeded
    event .outcomeObserved (some observationId) (← now)
    return output
  else
    check (member? observed "output" null? = some ()) .providerFailed
    fail .outcomeFailed

/-- An execution that no provider stopped. -/
structure Completed where
  authorization : Authorization
  delivery : Delivery
  output : String

/-- The providers in their order. -/
def execute (r : Admitted k) : Act Completed := do
  let delivery ← observeDelivery digest r
  let _ ← authorize digest config r .execution
  let output ← observeOutcome r
  let authorization ← authorize digest config r .output
  return ⟨authorization, delivery, output⟩

/-- What is decided before the final clock: the execution is completed, or it failed with a code, or
with something else. -/
abbrev Decided := Except (Option Code) Completed

/-- The handler of the providers. -/
def settle (x : Act Completed) : Act Decided :=
  tryCatch (Except.ok <$> x) fun
    | .code c => return .error (some c)
    | .other => return .error none
    | .escape => throw .escape

/-- The time of the end: where the clock fails behind a first cause, the last time that the host
accepted. -/
def finalTime (decided : Decided) : Act UInt :=
  tryCatch now fun thrown =>
    match decided with
    | .ok _ => throw thrown
    | .error failure =>
      if failure = some .hostInvalid then fail .hostInvalid
      else return (← host).lastTime

/-- An authorization that expired before the end denies the execution. -/
def Decided.expire (decided : Decided) (time : UInt) : Decided :=
  match decided with
  | .ok completed =>
    if completed.authorization.expiresAt.1 ≤ time.1 then .error (some .hostExpired)
    else .ok completed
  | .error failure => .error failure

def Decided.status : Decided → Status
  | .ok _ => .completed
  | .error failure => if ∃ code ∈ denials, failure = some code then .denied else .failed

end Host

/-- `'receipt:'` or `'trace:'` before the digits of a digest. -/
def labelled (lead : String) (d : Digest) : String := lead ++ String.ofList (d.1.toList.drop 7)

/-- The characters of a short label. -/
def labels (lead : String) : Bool :=
  0 < lead.toList.length && lead.toList.length ≤ 16 &&
    lead.toList.all fun c => 0x20 ≤ c.toNat && c.toNat ≤ 0x7E

/-- A label before the digits of a digest is an identifier. -/
theorem identifier_labelled {lead : String} (h : labels lead = true) (d : Digest) :
    identifier (labelled lead d) = true := by
  simp only [labels, Bool.and_eq_true, decide_eq_true_eq, List.all_eq_true] at h
  obtain ⟨⟨hpos, hlen⟩, hlead⟩ := h
  have hd := d.2
  simp only [isDigest, text?, Option.any_some, Bool.and_eq_true, decide_eq_true_eq,
    List.all_eq_true, Bool.or_eq_true] at hd
  obtain ⟨⟨-, hlength⟩, hdigits⟩ := hd
  have hlist : (labelled lead d).toList = lead.toList ++ d.1.toList.drop 7 := by
    rw [labelled, String.toList_append, String.toList_ofList]
  have hplain : ∀ c ∈ (labelled lead d).toList, 0x20 ≤ c.toNat ∧ c.toNat ≤ 0x7E := by
    intro c hc
    rw [hlist, List.mem_append] at hc
    rcases hc with hc | hc
    · exact hlead c hc
    · rcases hdigits c hc with hdigit | ⟨hle, hge⟩
      · have hbounds := Char.isDigit_iff_toNat.mp hdigit
        have hzero : '0'.toNat = 48 := rfl
        have hnine : '9'.toNat = 57 := rfl
        omega
      · have hlow : 'a'.toNat ≤ c.toNat := hle
        have hhigh : c.toNat ≤ 'f'.toNat := hge
        have ha : 'a'.toNat = 97 := rfl
        have hf : 'f'.toNat = 102 := rfl
        omega
  have hsize : (labelled lead d).toList.length ≤ 80 := by
    have hdigest : d.1.toList.length = 71 := hlength
    rw [hlist, List.length_append, List.length_drop, hdigest]
    omega
  have hbytes : (Utf8.encode (labelled lead d)).length ≤ 256 := by
    rw [Utf8.encode, length_encodeChars_of_ascii fun c hc => by have := hplain c hc; omega]
    omega
  have hne : (labelled lead d).toList ≠ [] := by
    rw [hlist]
    exact List.append_ne_nil_of_left_ne_nil (List.ne_nil_of_length_pos hpos) _
  have hcontrol : ∀ c ∈ (labelled lead d).toList, (!isControl c) = true := by
    intro c hc
    have hbounds := hplain c hc
    rw [Bool.not_eq_true', isControl, Bool.or_eq_false_iff, Bool.and_eq_false_iff]
    simp only [decide_eq_false_iff_not]
    omega
  rw [identifier, scalarString, Bool.and_eq_true, Bool.and_eq_true, Bool.false_or,
    List.all_eq_true, decide_eq_true_eq, Bool.not_eq_true', List.isEmpty_eq_false_iff]
  exact ⟨hne, hcontrol, hbytes⟩

def receiptId (d : Digest) : Identifier := ⟨labelled "receipt:" d, identifier_labelled rfl d⟩

def traceId (d : Digest) : Identifier := ⟨labelled "trace:" d, identifier_labelled rfl d⟩

section Host

variable {k : Route} (digest : Bytes → Digest) (config : Config)

/-- The receipt of an end; `failure` is the first cause. -/
def receiptOf (r : Admitted k) (status : Status) (completed : Option Completed)
    (failure : Option Code) (time : UInt) : Receipt where
  receiptId := receiptId (digestCanonical digest (r.wire.json k))
  requestId := r.wire.requestId
  runId := r.wire.runId
  hostId := r.wire.hostId
  hostEpoch := r.wire.hostEpoch
  requestDigest := digestCanonical digest (r.wire.json k)
  planDigest := r.wire.planDigest
  capsuleDigest := r.wire.capsuleDigest
  authorization := completed.map Completed.authorization
  delivery := completed.map Completed.delivery
  status := status
  failure := failure
  output :=
    { bytes := count ((completed.map fun c => (Utf8.encode c.output).length).getD 0)
      digest := completed.map fun c => digest (Utf8.encode c.output) }
  issuedAt := time

/-- The trace of an end. -/
def traceOf (r : Admitted k) (receipt : Receipt) (events : List TraceEvent) : Trace where
  traceId := traceId (digestCanonical digest (receipt.json k))
  requestDigest := receipt.requestDigest
  planDigest := r.wire.planDigest
  capsuleDigest := r.wire.capsuleDigest
  receiptDigest := digestCanonical digest (receipt.json k)
  runId := r.wire.runId
  hostId := r.wire.hostId
  hostEpoch := r.wire.hostEpoch
  source := r.plan.source.json k
  selection := r.plan.selection.json k
  events := events
  status := receipt.status

/-- `{ receipt, trace, output }` -/
def bodyOf (receipt : Receipt) (trace : Trace) (output : Option String) : Json :=
  .obj [("receipt", receipt.json k), ("trace", trace.json k), ("output", optional Value.str output)]

/-- The records of an end with a code or without a failure, checked and bounded. -/
def respond (r : Admitted k) (current : ℕ → Bool) (status : Status) (completed : Option Completed)
    (failure : Option Code) (time : UInt) (events : List TraceEvent) : Except Code Response := do
  let receipt := receiptOf digest r status completed failure time
  let trace := traceOf digest r receipt events
  checkedTrace k digest current (trace.json k) r (receipt.json k)
  let output := completed.map Completed.output
  let body := bodyOf (k := k) receipt trace output
  let bytes ← (byteLength body).mapError fun _ => k.fallback
  require (bytes ≤ r.plan.budget.responseBytes.1) (failure.getD .budgetExceeded)
  return .answered status body output bytes

/-- The end of an execution. A failure without a code of the contract fails the shape of a receipt,
or no receipt can be made of it. -/
def finish (r : Admitted k) (decided : Decided) (time : UInt) : Act Response := do
  event (.ended decided.status) none time
  let events ← getThe (List TraceEvent)
  let current := (← host).current
  match decided with
  | .error none => throw .other
  | .error (some c) => Act.settled (respond digest r current decided.status none (some c) time events)
  | .ok completed => Act.settled (respond digest r current decided.status (some completed) none time events)

/-- `lookup` of a request with its plan and its capsule. -/
def lookup (token : Option (Admitted k)) : Act (Admitted k) := do
  let r ← need .sourceUnattested token
  let s ← host
  check (s.current r.snapshot = true) .sourceUnattested
  return r

/-- The request and the run are new to the host, which has room for them. -/
def reserve (r : Admitted k) : Act Unit := do
  let s ← host
  check (r.wire.requestId ∉ s.seenRequests ∧ r.wire.runId ∉ s.seenRuns ∧
    s.seenRequests.length < 65536) .replay
  setHost { s with
    seenRequests := r.wire.requestId :: s.seenRequests
    seenRuns := r.wire.runId :: s.seenRuns }

/-- `consume(request)` up to `attempt`. -/
def consumption (token : Option (Admitted k)) : Act Response := do
  let r ← lookup token
  check (r.wire.hostId = config.hostId ∧ r.wire.hostEpoch = config.hostEpoch) .hostInvalid
  reserve r
  check (6 ≤ r.plan.budget.traceEvents.1) .budgetExceeded
  event .requestAdmitted none (← now)
  let decided ← settle (execute digest config r)
  let time ← finalTime decided
  finish digest r (decided.expire time) time

/-- `attempt(operation)` -/
def attempt (x : Act Response) : Prog HostState Query Reply Response := do
  let (result, _) ← (x.run).run []
  match result with
  | .ok response => return response
  | .error (.code c) => return .rejected c
  | .error _ => return .unsettled

/-- `consume(request)` -/
def consume (token : Option (Admitted k)) : Prog HostState Query Reply Response :=
  attempt (consumption digest config token)

end Host

end Kdna.Execution

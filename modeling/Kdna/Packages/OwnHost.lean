import Kdna.Data.Utf16
import Kdna.Packages.Admission
import Mathlib.Data.Rat.Defs

/-!
# The own Host of a package read

`createOwnHost` of `package-set-host.js` and the route of `package-set-node.js` behind the
admission. What the callbacks, the sink and the signal do is an input of each step; what the own
Host asks of them is kept in a history.
-/

namespace Kdna.Packages

/-- What the record of an admission holds for a recheck. -/
structure Standing where
  set : PackageSet
  tuple : List (String × String)
  operation : Operation
  admitted : List AdmittedRow
  hostId : String
  hostEpoch : String

/-- What a recheck meets: the last clock that the member provider accepted, and what it
returns. -/
structure MemberReply where
  currentMs : Option ℕ
  observation : Observation

/-- What `recheck` returns. -/
inductive Recheck
  | allowed
  | rejected (diagnostic : Diagnostic)
  | failed (code : LocalFailure)
  deriving DecidableEq

/-- `recheck(admission, 'read')`. The members behind an admission were all admitted, so that the
decision of the native route is the same one. -/
def recheck (tuples : Tuples) (standing : Standing) (reply : MemberReply) : Recheck :=
  let provider : ProviderState := ⟨standing.hostId, standing.hostEpoch, reply.currentMs⟩
  match (captureObservation provider standing.set reply.observation).2 with
  | .error code => .failed code
  | .ok rows =>
    let decision : Except (Stop Empty) String := decidePackageSet tuples standing.set standing.tuple
      standing.admitted (grantsOf rows) standing.operation
    match decision with
    | .ok _ => .allowed
    | .error (.rejected diagnostic) => .rejected diagnostic
    | .error (.failed code) => .failed code
    | .error (.member _ result) => result.elim

/-- What one recheck meets: whether the signal is aborted, and the member provider. -/
structure Check where
  aborted : Bool
  member : MemberReply

/-- A number by its value: `===` does not tell the two zeros apart. -/
inductive Numeral
  | nan
  | infinite (negative : Bool)
  | finite (value : ℚ)
  deriving DecidableEq

/-- A property of a raw observation: a primitive, a dense own array, of which `none` is no text,
or anything else. Texts are sequences of code units. -/
inductive RawField
  | null
  | bool (b : Bool)
  | number (n : Numeral)
  | text (units : List ℕ)
  | dense (entries : List (Option (List ℕ)))
  | foreign
  deriving DecidableEq

/-- `value === null` or `typeof value` is `string`, `number` or `boolean`. -/
def RawField.scalar : RawField → Bool
  | .dense _ | .foreign => false
  | _ => true

/-- `a === b` of captured values. -/
def RawField.same (a b : RawField) : Bool := a ≠ .number .nan && a = b

/-- The text of a property. -/
def RawField.ofText (t : String) : RawField := .text (Utf16.encode t.toList)

/-- What `observeRead` returns: a plain record of own enumerable data properties, or anything
else, such as `null`, a Proxy, an array, a class instance or a record with accessors. -/
inductive Raw
  | record (fields : List (String × RawField))
  | foreign

/-- `HOST_CONTEXT_ALLOWED`, all of which `HOST_CONTEXT_REQUIRED` names too. -/
def hostContextKeys : List String :=
  ["A", "C", "decision", "decision_id", "expires_at", "host_epoch", "host_id", "issued_at",
    "policy_id", "request_id", "scope", "snapshot_id", "current_ms"]

/-- A captured observation. -/
structure HostContext where
  fields : List (String × RawField)
  scope : List (List ℕ)

/-- `context[name]` -/
def HostContext.field (context : HostContext) (name : String) : RawField :=
  (context.fields.lookup name).getD .foreign

/-- The entries of a scope: texts that are not empty. -/
def captureScope : RawField → Option (List (List ℕ))
  | .dense entries => entries.mapM fun entry => entry.filter (· ≠ [])
  | _ => none

/-- `captureHostContext(raw)`; `none` is its `provider_observation_invalid`. -/
def captureHostContext : Raw → Option HostContext
  | .foreign => none
  | .record fields => do
    guard (∀ f ∈ fields, f.1 ∈ hostContextKeys)
    guard (∀ key ∈ hostContextKeys, (fields.lookup key).isSome)
    let scope ← (fields.lookup "scope").bind captureScope
    guard (∀ f ∈ fields, f.1 = "scope" ∨ f.2.scalar)
    return ⟨fields, scope⟩

/-- `sameScope(left, right)` -/
def sameScope (left right : HostContext) : Bool :=
  left.scope.dedup.length = right.scope.dedup.length && left.scope.dedup.all (· ∈ right.scope)

/-- The error of a rejected observation, by its `packageSetLocal`: no text, a text, or a property
that throws when it is read. -/
inductive Rejection
  | plain
  | coded (code : String)
  | hostile

/-- `failureCode(error) ?? 'provider_failed'`; `none` where reading the property throws. -/
def Rejection.failureCode : Rejection → Option String
  | .plain => some "provider_failed"
  | .coded code => some code
  | .hostile => none

/-- How a call of `observeRead` ends: it throws, its promise is rejected, or it returns. -/
inductive ObserverReply
  | threw
  | rejected (error : Rejection)
  | returned (raw : Raw)

/-- What an observation meets. -/
structure ObserveReply where
  before : Check
  observer : ObserverReply
  after : Check

/-- How a call of the sink ends: it returns `true`, it returns anything else, or it throws. -/
inductive SinkReply
  | confirmed
  | other
  | threw
  deriving DecidableEq

/-- What a delivery meets; the signal is asked twice around each of the first two rechecks. -/
structure DeliverReply where
  abortedFirst : Bool
  first : Check
  sink : SinkReply
  abortedSecond : Bool
  second : Check
  observer : ObserverReply
  third : Check

/-- What the own Host asked for. -/
inductive Asked
  | recheck (answer : Recheck)
  | sink (answer : SinkReply)
  deriving DecidableEq

/-- The facts of an operation. -/
structure Facts where
  memberObservations : ℕ
  observerCalls : ℕ
  sinkInvoked : Bool
  sinkConfirmed : Bool
  pipelineConfirmedDelivery : Bool
  localFailure : Option String
  revocation : Option Diagnostic
  hostClosed : Bool

/-- A cause is latched. -/
def Facts.Named (f : Facts) : Prop := f.localFailure.isSome ∨ f.revocation.isSome

/-- The own Host; `observed` is `lastObserved !== null`. -/
structure Own where
  facts : Facts
  lastContext : Option HostContext
  observed : Bool
  history : List Asked

/-- The installed Read provider: its Host, and whether it has a sink. -/
structure ReadProvider where
  hostId : String
  hostEpoch : String
  sink : Bool

/-- What an operation is fixed to. -/
structure Installed where
  tuples : Tuples
  standing : Standing
  provider : ReadProvider

namespace Own

/-- `createOwnHost(operation)` -/
def initial : Own := ⟨⟨0, 0, false, false, false, none, none, false⟩, none, false, []⟩

/-- `latch(code)` -/
def latch (s : Own) (code : String) : Own :=
  { s with facts := { s.facts with localFailure := s.facts.localFailure <|> some code } }

/-- The first rejection of the set is kept. -/
def revoke (s : Own) (diagnostic : Diagnostic) : Own :=
  { s with facts := { s.facts with revocation := s.facts.revocation <|> some diagnostic } }

/-- What was asked, behind what was asked before. -/
def ask (s : Own) (asked : Asked) : Own := { s with history := s.history ++ [asked] }

/-- `facts.member_observations += 1` -/
def countMember (s : Own) : Own :=
  { s with facts := { s.facts with memberObservations := s.facts.memberObservations + 1 } }

/-- `facts.observer_calls += 1` -/
def countObserver (s : Own) : Own :=
  { s with facts := { s.facts with observerCalls := s.facts.observerCalls + 1 } }

/-- What a recheck latches. -/
def settle (s : Own) : Recheck → Own
  | .allowed => s
  | .rejected diagnostic => s.revoke diagnostic
  | .failed code => s.latch code.text

/-- The code that a refused recheck fails with, where it fails. -/
def refusalCode : Recheck → Option String
  | .allowed => none
  | .rejected _ => some "provider_observation_invalid"
  | .failed code => some code.text

/-- `memberRecheck()`: the code to fail with, unless it is allowed. -/
def memberRecheck (op : Installed) (check : Check) (s : Own) : Option String × Own :=
  let s := s.countMember
  if check.aborted then (some "cancelled", s.latch "cancelled")
  else
    let answer := recheck op.tuples op.standing check.member
    (refusalCode answer, (s.ask (.recheck answer)).settle answer)

/-- The Host of a captured observation is the installed one. -/
def ofProvider (provider : ReadProvider) (context : HostContext) : Bool :=
  (context.field "host_id").same (.ofText provider.hostId) &&
    (context.field "host_epoch").same (.ofText provider.hostEpoch)

/-- The recheck of an observation behind its capture, and the pin on its Host. -/
def accept (op : Installed) (check : Check) (value : HostContext) (s : Own) :
    Option HostContext × Own :=
  match s.memberRecheck op check with
  | (some code, s) => (none, s.latch code)
  | (none, s) =>
    if ofProvider op.provider value then (some value, { s with lastContext := some value })
    else (none, s.latch "provider_invalid")

/-- What `observe` makes of the reply of `observeRead`. The capture stands outside of the handler
that latches. -/
def receive (op : Installed) (reply : ObserveReply) (s : Own) : Option HostContext × Own :=
  match reply.observer with
  | .threw => (none, s.latch "provider_failed")
  | .rejected error =>
    match error.failureCode with
    | none => (none, s)
    | some code => (none, s.latch code)
  | .returned raw =>
    match captureHostContext raw with
    | none => (none, s)
    | some value => s.accept op reply.after value

/-- `observe(input)`; `none` is a throw. -/
def observe (op : Installed) (reply : ObserveReply) (s : Own) : Option HostContext × Own :=
  let s := { s with observed := true }
  if s.facts.hostClosed then (none, s.latch "provider_invalid")
  else
    match s.memberRecheck op reply.before with
    | (some code, s) => (none, s.latch code)
    | (none, s) => s.countObserver.receive op reply

/-- The checks on the observation behind the sink; the code of the first that fails. -/
def freshFailure (op : Installed) (last fresh : HostContext) : Option String :=
  if !ofProvider op.provider fresh then some "provider_invalid"
  else if (fresh.field "request_id").same (last.field "request_id") &&
      (fresh.field "snapshot_id").same (last.field "snapshot_id") &&
      (fresh.field "decision").same (.ofText "allow") &&
      (fresh.field "policy_id").same (last.field "policy_id") && sameScope fresh last then none
  else some "provider_observation_invalid"

/-- The observation behind the sink; its capture stands inside of the handler. -/
def observeFresh : ObserverReply → Except (Option String) HostContext
  | .threw => .error (some "provider_failed")
  | .rejected error => .error error.failureCode
  | .returned raw =>
    match captureHostContext raw with
    | none => .error (some "provider_observation_invalid")
    | some value => .ok value

/-- The last recheck of a delivery, behind which it is confirmed. -/
def register (op : Installed) (check : Check) (s : Own) : Bool × Own :=
  match s.memberRecheck op check with
  | (some _, s) => (false, s)
  | (none, s) => (true, { s with facts := { s.facts with pipelineConfirmedDelivery := true } })

/-- What a delivery makes of the observation behind the sink. -/
def compare (op : Installed) (reply : DeliverReply) (last : HostContext) (s : Own) : Bool × Own :=
  match observeFresh reply.observer with
  | .error none => (false, s)
  | .error (some code) => (false, s.latch code)
  | .ok fresh =>
    match freshFailure op last fresh with
    | some code => (false, s.latch code)
    | none => s.register op reply.third

/-- `deliver(prepared)` behind a confirming sink. -/
def confirm (op : Installed) (reply : DeliverReply) (s : Own) : Bool × Own :=
  if reply.abortedSecond then (false, s.latch "cancelled")
  else
    match s.memberRecheck op reply.second with
    | (some _, s) => (false, s)
    | (none, s) =>
      match if s.observed then s.lastContext else none with
      | none => (false, s.latch "provider_observation_invalid")
      | some last => s.countObserver.compare op reply last

/-- `operation.provider.sink(prepared)` -/
def callSink (answer : SinkReply) (s : Own) : Own :=
  ({ s with facts := { s.facts with sinkInvoked := true } }).ask (.sink answer)

/-- `deliver(prepared)` of a ready envelope; a throw counts as `false`, as `deliverResult` has
it. -/
def deliver (op : Installed) (reply : DeliverReply) (s : Own) : Bool × Own :=
  if s.facts.hostClosed then (false, s)
  else if reply.abortedFirst then (false, s.latch "cancelled")
  else
    match s.memberRecheck op reply.first with
    | (some _, s) => (false, s)
    | (none, s) =>
      if op.provider.sink then
        let s := s.callSink reply.sink
        if reply.sink = .confirmed then
          confirm op reply { s with facts := { s.facts with sinkConfirmed := true } }
        else (false, s.latch "delivery_unconfirmed")
      else (false, s.latch "delivery_unconfirmed")

end Own

/-- What `prepareRead` returns: a ready envelope, another result that has a body or a control
in it, or a transport failure. -/
inductive Prepared
  | ready
  | unready
  | transportFailure
  deriving DecidableEq

/-- What a read meets behind its admission. `prepareRead` observes the own Host as often as it
likes and then returns or throws. -/
structure NodeReplies where
  observations : List ObserveReply
  prepared : Option Prepared
  delivery : DeliverReply
  last : Check

/-- What a read returns, beside the facts of its own Host: the rejection of its set, its result
and whether a token was minted. -/
structure NodeResult where
  rejection : Option Diagnostic
  readResult : Option Prepared
  delivered : Bool
  own : Own

namespace Own

/-- The own Host behind a list of observations. -/
def observations (op : Installed) (replies : List ObserveReply) : Own :=
  replies.foldl (fun s reply => (s.observe op reply).2) initial

/-- `deliverResult(prepared, id, own.deliver)`: only a ready envelope goes through the checks of
`deliver`. -/
def deliverResult (op : Installed) (reply : DeliverReply) (prepared : Prepared) (s : Own) :
    Prepared × Own :=
  if prepared = .ready then
    match s.deliver op reply with
    | (true, s) => (.ready, s)
    | (false, s) => (.transportFailure, s)
  else (prepared, s)

/-- The last recheck, behind every await: whether it is allowed. A failure of it is not
latched. -/
def lastRecheck (op : Installed) (check : Check) (s : Own) : Bool × Own :=
  if check.aborted then (false, (s.latch "cancelled").countMember)
  else
    let answer := recheck op.tuples op.standing check.member
    let s := s.ask (.recheck answer)
    match answer with
    | .allowed => (true, s.countMember)
    | .rejected diagnostic => (false, (s.revoke diagnostic).countMember)
    | .failed _ => (false, s.countMember)

/-- `close()` -/
def close (s : Own) : Own := { s with facts := { s.facts with hostClosed := true } }

end Own

/-- `readPackageSetNode`, behind the admission of the set. -/
def readPackageSetNode (op : Installed) (replies : NodeReplies) : NodeResult :=
  let s := Own.observations op replies.observations
  let (readResult, s) : Option Prepared × Own :=
    match replies.prepared with
    | none => (none, s)
    | some prepared =>
      let (result, s) := s.deliverResult op replies.delivery prepared
      (some result, s)
  let (allowed, s) := s.lastRecheck op replies.last
  let successful := readResult = some .ready && s.facts.sinkConfirmed &&
    s.facts.localFailure.isNone && s.facts.revocation.isNone && allowed
  ⟨s.facts.revocation, readResult, successful, if successful then s else s.close⟩

end Kdna.Packages

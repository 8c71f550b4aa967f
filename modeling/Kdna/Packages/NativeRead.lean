import Kdna.Packages.OwnHost
import Kdna.Retained.Rejection

/-!
# The native read of a package set

`readNativePackageSet` of `package-set-sections-node.js`, with the parts of
`readRetainedSection` and of the check behind the sink that decide what it returns. The facts
and the history are those of an own Host.
-/

namespace Kdna.Packages

open Value Read Retained

/-- What an observation of the native route meets. -/
structure NativeObserve where
  before : Check
  raw : RetainedGate.Reply
  after : Check

/-- What the delivery of the native route meets; the denials are those of its Host when the
check behind the sink is made. -/
structure NativeDelivery where
  first : Check
  sink : SinkReply
  second : Check
  post : NativeObserve
  denials : List Denial
  third : Check

/-- How the preparation ends: it throws, it refuses the read, it names a preparation that is not
there, or it prepares the read. -/
inductive Preparation
  | threw
  | refused
  | unknown
  | prepared
  deriving DecidableEq

/-- What a native read meets. `refusal` is the code of the first argument that does not fit the
admission, or of a signal that is aborted already. The retained read observes the Host as often
as it likes and then hands its result over or throws; `registers` is whether the registration of
the delivery returns. -/
structure NativeReplies where
  refusal : Option String
  first : Check
  preparation : Preparation
  second : Check
  observations : List NativeObserve
  output : Option Prepared
  delivery : NativeDelivery
  last : Check
  registers : Bool

/-- The facts of a native read. `rejection` of the own facts is the decision of its set;
`postRejected` is `postResult !== null`. -/
structure Native where
  own : Own
  preparationFailed : Bool
  readResult : Option Prepared
  postRejected : Bool
  delivered : Bool

/-- An outcome names its cause: a local failure, a rejected decision, a preparation failure or a
read result that is not ready. -/
def Native.Named (s : Native) : Prop :=
  s.own.facts.Named ∨ s.preparationFailed = true ∨ ∃ r, s.readResult = some r ∧ r ≠ .ready

namespace Own

/-- `current()`: the recheck, and whether nothing is latched behind it. -/
def current (op : Installed) (check : Check) (s : Own) : Bool × Own :=
  let s := if check.aborted then s.latch "cancelled" else s
  let answer := recheck op.tuples op.standing check.member
  let s := (s.countMember.ask (.recheck answer)).settle answer
  (s.facts.revocation.isNone && s.facts.localFailure.isNone, s)

/-- The copy of a reply is an observation of the installed Host. -/
def isObservation (provider : ReadProvider) (v : Json) : Bool :=
  RetainedGate.shape v && v.propIs "host_id" provider.hostId &&
    v.propIs "host_epoch" provider.hostEpoch

/-- `observe(context)` behind its rechecks; `none` is a throw. -/
def nativeCapture (provider : ReadProvider) (allowed : Bool) (raw : RetainedGate.Reply) (s : Own) :
    Option Json × Own :=
  match raw with
  | .threw => (none, s.latch "provider_failed")
  | .foreign => (none, if allowed then s.latch "provider_observation_invalid" else s)
  | .value v =>
    if allowed then
      if isObservation provider v then (some v, s)
      else (none, s.latch "provider_observation_invalid")
    else (none, s)

/-- `observe(context)` -/
def nativeObserve (op : Installed) (reply : NativeObserve) (s : Own) : Option Json × Own :=
  match s.current op reply.before with
  | (false, s) => (none, s)
  | (true, s) =>
    let (allowed, s) := s.countObserver.current op reply.after
    s.nativeCapture op.provider allowed reply.raw

end Own

namespace Native

/-- The facts of a read before it begins. -/
def initial : Native := ⟨Own.initial, false, none, false, false⟩

/-- `latch(code)` -/
def latch (s : Native) (code : String) : Native := { s with own := s.own.latch code }

/-- `current()` -/
def current (op : Installed) (check : Check) (s : Native) : Bool × Native :=
  let (allowed, own) := s.own.current op check
  (allowed, { s with own := own })

/-- `post.observe(host, record)` and `post.scope(body, record, value)`: the code to fail with. -/
def postFailure (op : Installed) (record : Retained.PreparedRecord) (reply : NativeDelivery) (s : Native) :
    Option String × Native :=
  let (value, own) := s.own.nativeObserve op reply.post
  let answer : RetainedGate.Reply := value.elim .threw .value
  let failure := match (observe reply.denials (.retained record.request record.gate answer)).1 with
    | .error e => some e.code
    | .ok context => if record.inScope context then none else some "READ_SCOPE_DENIED"
  (failure, { s with own := own })

/-- `postResult = post.fail(record, code)`; where it throws, no result is kept. -/
def postFail (record : Retained.PreparedRecord) (code : String) (s : Native) : Native :=
  { s with postRejected := (fail record code).isSome }

/-- `deliver(result)` behind the sink. -/
def confirm (op : Installed) (record : Retained.PreparedRecord) (reply : NativeDelivery) (s : Native) :
    Bool × Native :=
  match s.current op reply.second with
  | (false, s) => (false, s)
  | (true, s) =>
    match s.postFailure op record reply with
    | (some code, s) => (false, s.postFail record code)
    | (none, s) =>
      let (allowed, s) := s.current op reply.third
      (allowed && s.own.facts.sinkConfirmed, s)

/-- `p.sink(result)`: its answer is latched unless it confirms. -/
def callSink (answer : SinkReply) (s : Native) : Native :=
  let own := s.own.callSink answer
  { s with own := if answer = .confirmed then
      { own with facts := { own.facts with sinkConfirmed := true } }
    else own.latch "delivery_unconfirmed" }

/-- `deliver(result)`; a throw counts as `false`, as the retained read has it. -/
def deliver (op : Installed) (record : Retained.PreparedRecord) (reply : NativeDelivery) (result : Prepared)
    (s : Native) : Bool × Native :=
  let s := { s with readResult := some result }
  if result = .ready then
    match s.current op reply.first with
    | (false, s) => (false, s)
    | (true, s) =>
      if op.provider.sink then (s.callSink reply.sink).confirm op record reply
      else (false, s.latch "delivery_unconfirmed")
  else (false, s)

/-- `facts.read_result` behind the retained read. -/
def resultOf (actual : Prepared) (s : Native) : Option Prepared :=
  if s.postRejected then some .unready else s.readResult <|> some actual

/-- `facts.delivered = register(admission, actual)` -/
def registerDelivery (registers : Bool) (actual : Prepared) (s : Native) : Native :=
  if registers then { s with readResult := some actual, delivered := true }
  else { s with readResult := some actual }.latch "core_unavailable"

/-- What the read returns behind the delivery. -/
def conclude (op : Installed) (check : Check) (registers : Bool) (actual : Prepared) (s : Native) :
    Native :=
  let (allowed, own) := s.own.current op check
  let s := { s with own := own, readResult := s.resultOf actual }
  if allowed = true ∧ s.postRejected = false ∧ actual = .ready ∧ own.facts.sinkConfirmed = true then
    s.registerDelivery registers actual
  else s

/-- The retained read of a preparation and what follows it. -/
def read (op : Installed) (record : Retained.PreparedRecord) (replies : NativeReplies) (s : Native) : Native :=
  let own := replies.observations.foldl (fun own reply => (own.nativeObserve op reply).2) s.own
  let s := { s with own := own }
  match replies.output with
  | none => s.latch "core_unavailable"
  | some result =>
    let (confirmed, s) := s.deliver op record replies.delivery result
    s.conclude op replies.last replies.registers (if confirmed then result else .transportFailure)

/-- What follows the recheck behind the preparation. -/
def prepared (op : Installed) (record : Retained.PreparedRecord) (replies : NativeReplies) (s : Native) : Native :=
  match replies.preparation with
  | .threw => s
  | .refused => { s with preparationFailed := true }.latch "read_preparation_failed"
  | .unknown => s.latch "core_unavailable"
  | .prepared => s.read op record replies

end Native

/-- `readNativePackageSet(admission, request, authority, provider, signal)` -/
def readNativePackageSet (op : Installed) (record : Retained.PreparedRecord) (replies : NativeReplies) : Native :=
  match replies.refusal with
  | some code => Native.initial.latch code
  | none =>
    match Native.initial.current op replies.first with
    | (false, s) => s
    | (true, s) =>
      let s := if replies.preparation = .threw then s.latch "core_unavailable" else s
      match s.current op replies.second with
      | (false, s) => s
      | (true, s) => s.prepared op record replies

end Kdna.Packages

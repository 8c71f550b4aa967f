import Kdna.Data.EventLoop
import Kdna.ProtectedRead.Prepared

/-!
# Protected reads and their transports

`protected-delivery.js`, `protected-payload-delivery.js` and `protected-browser-delivery.js` with
the reads that own them: `readProtectedNode`, `readProtectedSectionNode` and
`readProtectedSectionBrowser`. What they ask is answered by the operation, the Host and the
transport in any way at all, and every time comes from an answer. What a read does before its
handoff is one question, which it ends with or which prepares the read.
-/

namespace Kdna.ProtectedRead

open EventLoop Value Read
open Reentrant (Prog)

/-- `state.lifecycle` -/
inductive Lifecycle
  | available
  | reserved
  | closed
  deriving DecidableEq, Repr

/-- The state of an external commit, without the id of its attempt. -/
inductive ExternalCommit
  | notInvoked
  | outcomeUnknown (attemptedAt : ℕ)
  | confirmed (attemptedAt : ℕ) (confirmedAt : Option ℕ)
  deriving DecidableEq, Repr

/-- `state.disclosure` of a trusted Host. -/
structure Disclosure where
  atMs : ℕ
  externalCommit : ExternalCommit
  deriving DecidableEq, Repr

/-- The state that a token stands for. -/
structure Delivery where
  prepared : Prepared
  ownerActive : Bool
  lifecycle : Lifecycle
  pending : Bool
  failed : Bool
  disclosure : Disclosure

/-- The delivery of a read and what it shares: the denials of its Host, the switch of
`omissions.js`, and on the browser route whether its operation is disposed; `registered` once the
handles of its envelope are. -/
structure State where
  delivery : Option Delivery
  revocations : List Denial
  folding : Bool
  disposed : Bool
  registered : Bool

/-- The phases of an observation of the operation behind the preparation. -/
inductive Phase
  | hostHandoff
  | transportCommit
  | readReturn
  deriving DecidableEq, Repr

/-- What a call asks. The shape of a transport is a question of its own, as its inspection may run
code of the caller. -/
inductive Query
  | preparation
  | operationObserve (phase : Phase)
  | assertCurrent
  | deliver
  | inspect
  | observeScope
  | sink
  deriving DecidableEq, Repr

/-- What is asked without an await. -/
def Query.sync : Query → Bool
  | .assertCurrent => true
  | .inspect => true
  | .sink => true
  | _ => false

/-- How a read ends before its handoff. -/
inductive Early
  | readResult
  | deliveryFailed
  | protectionFailed
  | requestFailed
  | admissionFailed
  deriving DecidableEq, Repr

/-- What a question is answered with: the callee threw, it returned a value, the operation is
current at a time or not, or the preparation came to its end. -/
inductive Reply
  | threw
  | value (v : Json)
  | current (checkedAtMs : ℕ)
  | ended (checkedAtMs : Option ℕ)
  | early (e : Early)
  | prepared (p : Prepared)

/-- The value that a callee returned. -/
def Reply.value? : Reply → Option Json
  | .value v => some v
  | _ => none

/-- Whether the callee threw. -/
def Reply.isThrown : Reply → Bool
  | .threw => true
  | _ => false

/-- Whether the callee returned `true`. -/
def Reply.isTrue : Reply → Bool
  | .value (.bool b) => b
  | _ => false

/-- `receipt.checked_at_ms` where the operation is current. -/
def Reply.checkedAt? : Reply → Option ℕ
  | .current n => some n
  | _ => none

/-- `checked_at_ms` where the operation is not current. -/
def Reply.endedAt? : Reply → Option ℕ
  | .ended n => n
  | _ => none

/-- `reason` of a failed delivery. -/
inductive Reason
  | hostCallbackFailed
  | transportCommitFailed
  deriving DecidableEq, Repr

/-- The diagnostic of a failed protection: that of the operation, or one of the read's own. -/
inductive Diagnostic
  | reported
  | operationUntrusted
  | operationDisposed
  | contextExpired
  deriving DecidableEq, Repr

/-- What a call comes to. -/
inductive Result
  | readResult (disclosure : Option Disclosure)
  | deliveryFailed (reason : Reason) (disclosure : Option Disclosure)
  | protectionFailed (diagnostic : Diagnostic) (disclosure : Option Disclosure)
  | requestFailed
  | admissionFailed
  | committed (committedAtMs : ℕ) (disclosure : Option Disclosure)
  deriving DecidableEq, Repr

/-- The disclosure that a result reports; `none` where it is of the kind `none`. -/
def Result.disclosure : Result → Option Disclosure
  | .readResult d => d
  | .deliveryFailed _ d => d
  | .protectionFailed _ d => d
  | .committed _ d => d
  | _ => none

/-- The result of a read that ends before its handoff. -/
def Early.result : Early → Result
  | .readResult => .readResult none
  | .deliveryFailed => .deliveryFailed .hostCallbackFailed none
  | .protectionFailed => .protectionFailed .reported none
  | .requestFailed => .requestFailed
  | .admissionFailed => .admissionFailed

/-- `disclosure(state)`, or none where there is no state. -/
def State.history (s : State) : Option Disclosure := s.delivery.map Delivery.disclosure

/-- A change of the delivery, where there is one. -/
def State.deliver (s : State) (f : Delivery → Delivery) : State :=
  { s with delivery := s.delivery.map f }

/-- `prepareDelivery(operation, binding, prepared, context, hostState, receipt)` -/
def prepareDelivery (prepared : Prepared) (atMs : ℕ) : Delivery :=
  ⟨prepared, true, .available, false, false, ⟨atMs, .notInvoked⟩⟩

/-- `closeOwner(state)` -/
def closeOwner (d : Delivery) : Delivery :=
  { d with
    ownerActive := false
    failed := d.failed || d.lifecycle = .reserved
    lifecycle := .closed }

/-- The release of a disposal, which `closeOwner` removes. -/
def release (d : Delivery) : Delivery := if d.ownerActive then closeOwner d else d

/-- `reserveValid(state)` -/
def Delivery.reserveValid (d : Delivery) : Bool := d.ownerActive && d.lifecycle = .reserved

/-- The attempt of an external commit is recorded. -/
def Delivery.attempt (d : Delivery) (attemptedAt : ℕ) : Delivery :=
  { d with
    lifecycle := .closed
    disclosure := { d.disclosure with externalCommit := .outcomeUnknown attemptedAt } }

/-- The external commit with a sink that has returned `true`, and the time of its confirmation. -/
def ExternalCommit.confirm (confirmedAt : Option ℕ) : ExternalCommit → ExternalCommit
  | .notInvoked => .notInvoked
  | .outcomeUnknown attemptedAt => .confirmed attemptedAt confirmedAt
  | .confirmed attemptedAt _ => .confirmed attemptedAt confirmedAt

/-- The external commit is confirmed. -/
def Delivery.confirm (d : Delivery) (confirmedAt : Option ℕ) : Delivery :=
  { d with
    disclosure := { d.disclosure with
      externalCommit := d.disclosure.externalCommit.confirm confirmedAt } }

/-- A call whose error is an early return. -/
abbrev Stops := EventLoop.Act State Query Reply Result

/-- The call with its early return. -/
def settled (x : Stops Result) : Prog State Query Reply Result := do
  match ← x.run with
  | .ok result => return result
  | .error result => return result

section Reading

variable (k : Route)

/-- The end of a read with the disclosure of the state. -/
def stop (p : Prop) [Decidable p] (result : Option Disclosure → Result) : Stops Unit := do
  Act.check p (result (← Act.state).history)

/-- `check(phase)`: the time of the receipt. -/
def checkPhase (phase : Phase) : Stops ℕ := do
  let observed ← Act.ask (.operationObserve phase)
  stop (observed.checkedAt?.isSome = true) (.protectionFailed .reported)
  let asserted ← Act.ask .assertCurrent
  let history := (← Act.state).history
  Act.need (.protectionFailed .reported history) asserted.checkedAt?

/-- What the preparation came to. -/
def preparedBy : Reply → Stops Prepared
  | .prepared p => return p
  | .early e => throw e.result
  | _ => throw (.deliveryFailed .hostCallbackFailed none)

/-- `S.operation(operation)` on the browser route. -/
def alive : Stops Unit := do
  let s ← Act.state
  Act.check (k = .browser → s.disposed = false) (.protectionFailed .operationDisposed s.history)

/-- The second observation holds at the time, on the browser route. -/
def holdsAt : Prepared → ℕ → Prop
  | .whole _, _ => True
  | .sections p, ms => k = .browser → p.issuedAt ≤ ms ∧ ms < p.expiresAt

instance (p : Prepared) (ms : ℕ) : Decidable (holdsAt k p ms) :=
  match p with
  | .whole _ => inferInstanceAs (Decidable True)
  | .sections _ => inferInstanceAs (Decidable (_ → _))

/-- The delivery is prepared; a disposal releases it. -/
def State.handOver (s : State) (prepared : Prepared) (atMs : ℕ) : State :=
  let d := prepareDelivery prepared atMs
  { s with delivery := some (if k = .browser ∧ s.disposed then closeOwner d else d) }

/-- `registerPreparedHandles(prepared)`, or `hostState.handles.set(h.handle_id, …)`. -/
def State.register (s : State) : State := { s with registered := true }

/-- The result of `deliver` is taken up. -/
def takeUp (prepared : Prepared) (acknowledged : Reply) : Stops Result := do
  let pending := (← Act.state).delivery.any Delivery.pending
  Act.update fun s => s.deliver closeOwner
  alive k
  let refused := pending || (← Act.state).delivery.any Delivery.failed
  stop (refused = false ∧ acknowledged.isTrue = true)
    (.deliveryFailed (if refused then .transportCommitFailed else .hostCallbackFailed))
  let checkedAt ← checkPhase .readReturn
  alive k
  stop (holdsAt k prepared checkedAt) (.protectionFailed .contextExpired)
  Act.update State.register
  return .readResult (← Act.state).history

/-- The `try` block of a read. -/
def deliverPrepared : Stops Result := do
  let prepared ← preparedBy (← Act.ask .preparation)
  let atMs ← checkPhase .hostHandoff
  alive k
  Act.check (holdsAt k prepared atMs) (.readResult none)
  Act.update fun s => s.handOver k prepared atMs
  let acknowledged ← Act.ask .deliver
  if acknowledged.isThrown then do
    alive k
    throw (.deliveryFailed .hostCallbackFailed (← Act.state).history)
  else takeUp k prepared acknowledged

/-- A read with its `finally` block. -/
def protectedRead : Prog State Query Reply Result := settled do
  let result ← Act.attempt (deliverPrepared k)
  Act.update fun s => s.deliver closeOwner
  match result with
  | .ok result => return result
  | .error result => throw result

end Reading

/-- `readProtectedNode(operation, candidate, controlProvider, host)` -/
def readProtectedNode : Prog State Query Reply Result := protectedRead .ordinary

/-- `readProtectedSectionNode(operation, admitted, authority, host)` -/
def readProtectedSectionNode : Prog State Query Reply Result := protectedRead .node

/-- `readProtectedSectionBrowser(operation, admitted, authority, host)` -/
def readProtectedSectionBrowser : Prog State Query Reply Result := protectedRead .browser

/-- A commit: whether it names the operation of the read, and on the browser route whether both of
its callbacks are functions. -/
structure Call where
  operation : Bool
  functions : Bool

section Committing

variable (k : Route) (call : Call)

/-- How a commit fails behind its reservation: with the diagnostic of the operation, or not. -/
inductive Refusal
  | operation
  | transport
  deriving DecidableEq, Repr

/-- A commit behind its reservation. -/
abbrev Commits := EventLoop.Act State Query Reply Refusal

/-- `closedTransport(transport)`, or the test of the callbacks. -/
def transportShape : Commits Unit := do
  if k = .browser then Act.check (call.functions = true) .transport
  else Act.check ((← Act.ask .inspect).isTrue = true) .transport

/-- `reserveValid(state)` -/
def stillReserved : Commits Unit := do
  let s ← Act.state
  Act.check (s.delivery.any Delivery.reserveValid = true) .transport

/-- The observation of the Host that the transport names, with its settlement of the denials. -/
def observeTransport (p : Prepared) : Commits (Except ReadError Context) := do
  let reply ← Act.ask .observeScope
  let s ← Act.state
  let (observed, standing) := p.observe k s.revocations reply.value?
  Act.setState { s with revocations := standing }
  return observed

/-- The observation had not expired at the time of the assertion, on the browser route. -/
def unexpiredAt (context : Context) (ms : ℕ) : Prop :=
  k = .browser → context.issuedAt ≤ ms ∧ ms < context.expiresAt

instance (context : Context) (ms : ℕ) : Decidable (unexpiredAt k context ms) :=
  inferInstanceAs (Decidable (_ → _))

/-- The checks of a commit up to its attempt, whose time they give. -/
def authorizeCommit (d : Delivery) : Commits ℕ := do
  transportShape k call
  let current ← Act.ask (.operationObserve .transportCommit)
  stillReserved
  Act.check (current.checkedAt?.isSome = true) .operation
  let observed ← observeTransport k d.prepared
  stillReserved
  let context ← Act.need .transport observed.toOption
  Act.check (context.hostId = d.prepared.hostId ∧ context.hostEpoch = d.prepared.hostEpoch)
    .transport
  let s ← Act.state
  Act.check (d.prepared.scopeMatches s.folding context.scope = true) .transport
  Act.check (∀ h ∈ d.prepared.handles, covers context h) .transport
  let final ← Act.ask .assertCurrent
  stillReserved
  let attemptedAt ← Act.need .operation final.checkedAt?
  Act.check (∀ h ∈ d.prepared.handles, attemptedAt < h.expiresAt) .transport
  Act.check (unexpiredAt k context attemptedAt) .transport
  Act.check (d.disclosure.atMs ≤ attemptedAt) .transport
  return attemptedAt

/-- The attempt of a commit and what follows it. -/
def attemptCommit (attemptedAt : ℕ) : Commits Result := do
  Act.update fun s => s.deliver fun d => d.attempt attemptedAt
  let acknowledged ← Act.ask .sink
  Act.check (acknowledged.isTrue = true) .transport
  Act.update fun s => s.deliver fun d => d.confirm none
  let after ← Act.ask .assertCurrent
  match after.checkedAt? with
  | none =>
    Act.update fun s => s.deliver fun d =>
      d.confirm (after.endedAt?.filter fun ms => attemptedAt ≤ ms)
    throw .operation
  | some confirmedAt =>
    Act.check (attemptedAt ≤ confirmedAt) .transport
    Act.update fun s => s.deliver fun d => d.confirm (some confirmedAt)
    return .committed confirmedAt (← Act.state).history

/-- The result of a refusal. -/
def Refusal.result (history : Option Disclosure) : Refusal → Result
  | .operation => .protectionFailed .reported history
  | .transport => .deliveryFailed .transportCommitFailed history

/-- A commit that takes the token. -/
def reservedCommit (d : Delivery) : Stops Result := do
  Act.update fun s => s.deliver fun d => { d with lifecycle := .reserved, pending := true }
  match ← Act.attempt (do attemptCommit (← authorizeCommit k call d)) with
  | .ok result =>
    Act.update fun s => s.deliver fun d => { d with pending := false }
    return result
  | .error refusal =>
    Act.update fun s => s.deliver fun d =>
      { d with failed := true, lifecycle := .closed, pending := false }
    return refusal.result (← Act.state).history

/-- `commitProtectedTransport(operation, token, transport)` -/
def commitProtectedTransport : Prog State Query Reply Result := settled do
  let s ← Act.state
  let d ← Act.need (.protectionFailed .operationUntrusted none)
    (s.delivery.filter fun _ => call.operation)
  Act.check (d.ownerActive = true ∧ d.lifecycle = .available)
    (.deliveryFailed .transportCommitFailed s.history)
  reservedCommit k call d

end Committing

end Kdna.ProtectedRead

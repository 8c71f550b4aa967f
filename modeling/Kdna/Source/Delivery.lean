import Kdna.Data.EventLoop
import Kdna.Execution.Wire

/-!
# A protected source opening

The state that the opening of a protected source shares with the calls on what it hands out:
the owner record, the prepared delivery of `protected-source-delivery.js` and the revision context.
The section route keeps the same three. What the calls ask is answered by the Host, the transport,
the provider or the protected operation in any way at all. `Date.now()` is the time of the state,
which moves while a call waits and may move back; a synchronous step takes no time. The admission
before the owner exists is one question.
-/

namespace Kdna.Source

open EventLoop Value Read

/-- The codes of a diagnostic. -/
inductive Code
  | inputInvalid
  | hostUntrusted
  | expectedAssetMismatch
  | hostDenied
  | permissionRejected
  | contextUntrusted
  | contextClosed
  | deadlineExceeded
  | providerFailed
  | handoffUnknown
  | capabilityUnavailable
  | draftInvalid
  | interpretationIncomplete
  | policyInvalid
  | outputInvalid
  deriving DecidableEq, Repr

/-- The stages of a diagnostic. -/
inductive Stage
  | input
  | admission
  | authorization
  | semantic
  | handedBack
  | output
  deriving DecidableEq, Repr

/-- The state of an external commit, without the id of its attempt. -/
inductive ExternalCommit
  | notInvoked
  | outcomeUnknown (attemptedAt : ℕ)
  | confirmed (attemptedAt confirmedAt : ℕ)
  deriving DecidableEq, Repr

/-- `state.handoff` -/
structure Handoff where
  atMs : ℕ
  externalCommit : ExternalCommit
  deriving DecidableEq, Repr

/-- What a result discloses: `none`, or a trusted Host with its handoff. -/
abbrev Disclosure := Option Handoff

/-- `state.phase` of a delivery. -/
inductive DeliveryPhase
  | opened
  | pending
  | committed
  | failed
  | closed
  deriving DecidableEq, Repr

/-- A prepared delivery; `owned` where its owner, binding and bundle are set. -/
structure Delivery where
  owned : Bool
  phase : DeliveryPhase
  handoff : Option Handoff
  closed : Bool

/-- `entry.state` of a revision context. -/
inductive ContextPhase
  | available
  | reserved
  | closed
  deriving DecidableEq, Repr

/-- A revision context. -/
structure Context where
  phase : ContextPhase
  closed : Bool

/-- The owner record; what it holds of the Host is absent until the first observation. -/
structure Owner where
  closed : Bool
  contextId : Option Json
  epoch : Option Json
  originalExpiresAt : Option ℕ
  lastMs : ℕ

/-- The time, the deadline of the opening and what it has created; `capture` where a capture is
open. -/
structure State where
  now : ℕ
  deadline : ℕ
  capture : Bool
  owner : Option Owner
  delivery : Option Delivery
  context : Option Context

/-- The phases of an observation of the protected operation. -/
inductive OperationPhase
  | hostHandoff
  | hostObservation
  | transportCommit
  | readReturn
  deriving DecidableEq, Repr

/-- The purposes of a Host observation. -/
inductive Purpose
  | sourceOpening
  | publish
  | preview
  | produce
  deriving DecidableEq, Repr

/-- What a call asks. -/
inductive Query
  | admission
  | hostObserve (purpose : Purpose)
  | observeScope
  | operationObserve (phase : OperationPhase)
  | assertCurrent
  | assertUnchanged
  | deliver
  | commit
  | outputSecret
  | captureClose
  deriving DecidableEq, Repr

/-- What is asked without an await: the assertion, which runs the clock of the provider, and the
sink. -/
def Query.sync : Query → Bool
  | .assertCurrent => true
  | .commit => true
  | _ => false

/-- What the admission comes to. -/
inductive Admission
  | catalogOnly
  | protectionFailed
  | coreRejected
  | refused (code : Code) (stage : Stage)
  | source (asset : String) (bound : Bool)

/-- What a question is answered with: the callee threw, it returned a value, the operation is
current or the capture unchanged or not, or the admission came to its end, with a capture or
without. -/
inductive Reply
  | threw
  | value (v : Json)
  | current (is : Bool)
  | admitted (a : Admission) (captured : Bool)

/-- The value that a callee returned. -/
def Reply.value? : Reply → Option Json
  | .value v => some v
  | _ => none

/-- Whether the callee returned. -/
def Reply.returned : Reply → Bool
  | .threw => false
  | _ => true

/-- Whether the callee returned `true`. -/
def Reply.isTrue : Reply → Bool
  | .value (.bool b) => b
  | _ => false

/-- `status === 'current'` -/
def Reply.isCurrent : Reply → Bool
  | .current is => is
  | _ => false

/-- The end of an admission. -/
def Reply.admission? : Reply → Option Admission
  | .admitted a _ => some a
  | _ => none

/-- Whether a capture is open behind the admission. -/
def Reply.captured : Reply → Bool
  | .admitted _ captured => captured
  | _ => false

/-- What a call comes to; `thrown` is a rejection, which reports nothing. -/
inductive Result
  | sourceFailed (code : Code) (stage : Stage) (disclosure : Disclosure)
  | protectionFailed (disclosure : Disclosure)
  | coreRejected (disclosure : Disclosure)
  | catalogOnly (disclosure : Disclosure)
  | sourceDelivered (disclosure : Disclosure)
  | sourceCommitted (disclosure : Disclosure)
  | previewValid
  | revisionProduced
  | rejected (code : Code) (stage : Stage)
  | thrown
  deriving DecidableEq, Repr

/-- The disclosure that a result reports. -/
def Result.disclosure? : Result → Option Disclosure
  | .sourceFailed _ _ d => some d
  | .protectionFailed d => some d
  | .coreRejected d => some d
  | .catalogOnly d => some d
  | .sourceDelivered d => some d
  | .sourceCommitted d => some d
  | _ => none

/-- `disclosure(state)` and `history(state)` -/
def State.history (s : State) : Disclosure := s.delivery.bind Delivery.handoff

/-- `===`; an object or an array that the Host returns is a new one. -/
def strictlySame : Option Json → Option Json → Bool
  | none, none => true
  | some .null, some .null => true
  | some (.bool a), some (.bool b) => a = b
  | some (.num x), some (.num y) => x = y ∨ x.units = 0 ∧ y.units = 0
  | some (.str t), some (.str u) => t = u
  | _, _ => false

/-- A change of the delivery, where there is one. -/
def State.deliver (s : State) (f : Delivery → Delivery) : State :=
  { s with delivery := s.delivery.map f }

/-- A change of the owner, where there is one. -/
def State.own (s : State) (f : Owner → Owner) : State := { s with owner := s.owner.map f }

/-- A change of the context, where there is one. -/
def State.revise (s : State) (f : Context → Context) : State :=
  { s with context := s.context.map f }

/-- The draft of a revision: whether its inputs have their shapes, and how the draft and the output
made of it are refused, if they are. -/
structure Draft where
  inputs : Bool
  semantic : Option (Code × Stage)
  output : Option (Code × Stage)

/-- The calls on what an opening hands out. A transport has its shape or not. -/
inductive Call
  | commit (transport : Bool)
  | preview (draft : Draft)
  | produce (draft : Draft)

/-- The arguments of an opening. -/
structure Config where
  hostTrusted : Bool
  optionsValid : Bool
  expectedA : String
  timeoutMs : ℕ

end Kdna.Source

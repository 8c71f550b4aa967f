import Kdna.Source.Delivery

/-!
# The ordinary source route

`withProtectedSourceNode` and `commitProtectedSourceTransport` of `protected-source-opening.js`,
with `protected-source-delivery.js` and the two callables of `protected-source-revision.js`.
-/

namespace Kdna.Source

open EventLoop Reentrant Value Read Execution

/-- A call whose error is an early return. -/
abbrev Stops := EventLoop.Act State Query Reply Result

/-- The call with its early return. -/
def settled (x : Stops Result) : Prog State Query Reply Result := do
  match ← x.run with
  | .ok result => return result
  | .error result => return result

/-- A condition, or `sourceFailed(code, stage, history())`. -/
def demand (p : Prop) [Decidable p] (code : Code) (stage : Stage) : Stops Unit := do
  Act.check p (.sourceFailed code stage (← Act.state).history)

/-- The handoff with a sink that has returned `true`. -/
def Handoff.confirm (h : Handoff) (now : ℕ) : Handoff :=
  match h.externalCommit with
  | .outcomeUnknown attemptedAt => { h with externalCommit := .confirmed attemptedAt now }
  | _ => h

/-- `observation?.scope`, `observation?.permission` and `observation?.revoked` are as a transport
needs them. -/
def allowedScope (observation : Json) : Bool :=
  observation.propIs "scope" "complete_source" && observation.propIs "permission" "allowed" &&
    !isTrue observation "revoked"

/-- An object that is not an array. -/
def isObject : Json → Bool
  | .obj _ => true
  | _ => false

namespace Ordinary

/-- `recordHandoff(state, atMs)` -/
def recordHandoff (d : Delivery) (atMs : ℕ) : Delivery :=
  match d.handoff with
  | some _ => d
  | none => { d with handoff := some ⟨atMs, .notInvoked⟩ }

/-- `beginCommit(state, nowMs)`, where it may begin. -/
def beginCommit (d : Delivery) (nowMs : ℕ) : Option Delivery :=
  match d.handoff with
  | none => none
  | some h =>
    if d.closed = false ∧ d.phase = .opened then
      some { d with
        phase := .pending
        handoff := some { h with externalCommit := .outcomeUnknown nowMs } }
    else none

/-- `settleCommit(state, confirmed, nowMs)` -/
def settleCommit (d : Delivery) (confirmed : Bool) (nowMs : ℕ) : Delivery :=
  if d.phase ≠ .pending then d
  else if confirmed then
    { d with phase := .committed, handoff := d.handoff.map fun h => h.confirm nowMs }
  else { d with phase := .failed }

/-- `closeSourceDelivery(state)` -/
def closeSourceDelivery (d : Delivery) : Delivery :=
  { d with closed := true, phase := if d.phase = .opened then .closed else d.phase }

/-- `closeRevisionContext(context)` -/
def closeRevisionContext (c : Context) : Context :=
  { c with closed := true, phase := if c.phase = .available then .closed else c.phase }

section Opening

variable (config : Config)

/-- A call of the opening; an error without a result is an exception. -/
abbrev Opens := EventLoop.Act State Query Reply (Option Result)

/-- A condition before the handoff. -/
def before (p : Prop) [Decidable p] (code : Code) (stage : Stage) : Opens Unit :=
  Act.check p (some (.sourceFailed code stage none))

/-- A condition behind the handoff. -/
def behind (p : Prop) [Decidable p] (code : Code) : Opens Unit := do
  Act.check p (some (.sourceFailed code .handedBack (← Act.state).history))

/-- The deadline has not passed. -/
def inTime (stage : Stage) : Opens Unit := do
  let s ← Act.state
  before (s.now ≤ s.deadline) .deadlineExceeded stage

/-- The asset of an admission that came to a source. -/
def sourceOf : Admission → Opens (String × Bool)
  | .source asset bound => return (asset, bound)
  | .catalogOnly => throw (some (.catalogOnly none))
  | .protectionFailed => throw (some (.protectionFailed none))
  | .coreRejected => throw (some (.coreRejected none))
  | .refused code stage => throw (some (.sourceFailed code stage none))

/-- The owner behind the first observation, whose time and expiry are as given. -/
def authorized (observation : Json) (currentMs expiresAtMs : ℕ) (owner : Owner) : Owner :=
  { owner with
    contextId := observation.prop "context_id"
    epoch := observation.prop "epoch"
    originalExpiresAt := some expiresAtMs
    lastMs := currentMs }

/-- The first observation of the Host, with its checks. -/
def authorize : Opens Unit := do
  let reply ← Act.ask (.hostObserve .sourceOpening)
  let observation ← Act.need (some (.sourceFailed .providerFailed .authorization none)) reply.value?
  inTime .authorization
  before (isObject observation = true) .providerFailed .authorization
  before (observation.propIs "scope" "complete_source" ∧
    observation.propIs "asset_digest" config.expectedA) .permissionRejected .authorization
  before (observation.propIs "permission" "allowed" ∧ isTrue observation "revoked" = false)
    .hostDenied .authorization
  let rejected := some (.sourceFailed .permissionRejected .authorization none)
  let currentMs ← Act.need rejected (member? observation "current_ms" uint?)
  let expiresAtMs ← Act.need rejected (member? observation "expires_at_ms" uint?)
  before (currentMs < expiresAtMs) .permissionRejected .authorization
  Act.update fun s => s.own (authorized observation currentMs expiresAtMs)

/-- The bundle, the context and the token are ready, and the handoff is recorded. -/
def State.handOff (s : State) : State :=
  { s with
    context := some ⟨.available, false⟩
    delivery := s.delivery.map fun d => recordHandoff { d with owned := true } s.now }

/-- The `try` block of `withProtectedSourceNode`. -/
def openSource : Opens Result := do
  let admitted ← Act.need none (← Act.ask .admission).admission?
  inTime .admission
  let (asset, bound) ← sourceOf admitted
  before (asset = config.expectedA) .expectedAssetMismatch .input
  before (bound = true) .capabilityUnavailable .admission
  Act.update fun s =>
    { s with
      delivery := some ⟨false, .opened, none, false⟩
      owner := some ⟨false, none, none, none, 0⟩ }
  authorize config
  before ((← Act.ask (.operationObserve .hostHandoff)).isCurrent = true) .permissionRejected
    .authorization
  Act.update State.handOff
  let acknowledged ← Act.ask .deliver
  let pending := (← Act.state).delivery.any fun d => d.phase = .pending
  Act.update fun s => s.deliver closeSourceDelivery
  behind (acknowledged.value?.isSome = true) .providerFailed
  behind (acknowledged.isTrue = true) (if pending then .handoffUnknown else .hostDenied)
  behind ((← Act.ask (.operationObserve .readReturn)).isCurrent = true) .permissionRejected
  let s ← Act.state
  behind (s.now ≤ s.deadline) .deadlineExceeded
  return .sourceDelivered s.history

/-- The `finally` block of `withProtectedSourceNode`. -/
def State.finish (s : State) : State :=
  ((s.own fun owner => { owner with closed := true }).revise closeRevisionContext).deliver
    closeSourceDelivery

/-- The end of the `try` and `catch` blocks. -/
def outcome : Except (Option Result) Result → Result
  | .ok result => result
  | .error (some result) => result
  | .error none => .sourceFailed .capabilityUnavailable .admission none

/-- `withProtectedSourceNode(input, options, protectionProvider, sourceHost)` -/
def withProtectedSourceNode : Prog State Query Reply Result := settled do
  Act.check (config.hostTrusted = true) (.sourceFailed .hostUntrusted .input none)
  Act.check (config.optionsValid = true) (.sourceFailed .inputInvalid .input none)
  Act.update fun s => { s with deadline := s.now + config.timeoutMs }
  let result ← Act.attempt (openSource config)
  Act.update State.finish
  return outcome result

end Opening

/-- `commitProtectedSourceTransport(prepared, transport)` -/
def commitProtectedSourceTransport (transport : Bool) : Prog State Query Reply Result := settled do
  let delivery ← Act.need (.sourceFailed .contextUntrusted .input none) (← Act.state).delivery
  demand (transport = true) .inputInvalid .input
  demand (delivery.closed = false ∧ delivery.handoff.isSome = true) .contextClosed .input
  demand (delivery.phase = .opened) .handoffUnknown .handedBack
  let reply ← Act.ask .observeScope
  demand (reply.value?.isSome = true) .providerFailed .authorization
  let owned := (← Act.state).delivery.any Delivery.owned
  demand (owned = true → reply.value?.any allowedScope = true) .permissionRejected .authorization
  if owned then
    demand ((← Act.ask (.operationObserve .transportCommit)).isCurrent = true) .permissionRejected
      .authorization
  let s ← Act.state
  let begun ← Act.need (.sourceFailed .handoffUnknown .handedBack s.history)
    (s.delivery.bind fun d => beginCommit d s.now)
  Act.setState { s with delivery := some begun }
  let committed ← Act.ask .commit
  Act.update fun s => s.deliver fun d => settleCommit d committed.isTrue s.now
  demand (committed.isTrue = true) .handoffUnknown .handedBack
  return .sourceCommitted (← Act.state).history

section Revision

variable (config : Config)

/-- A condition, or a rejected revision. -/
def accept (p : Prop) [Decidable p] (code : Code) (stage : Stage) : Stops Unit :=
  Act.check p (.rejected code stage)

/-- `reserveContext(context, kind)` -/
def reserveContext : Stops Unit := do
  let context ← Act.need (.rejected .contextUntrusted .input) (← Act.state).context
  accept (context.closed = false ∧ context.phase = .available) .contextClosed .input
  Act.update fun s => s.revise fun c => { c with phase := .reserved }

/-- `checkLocal(record, stage)` -/
def checkLocal (stage : Stage) : Stops Unit := do
  let s ← Act.state
  accept (s.owner.any (fun owner => !owner.closed) = true) .contextClosed .input
  accept (s.now ≤ s.deadline) .deadlineExceeded stage

/-- `verifyObservation(record, value)`: the time of the observation. -/
def verifyObservation (owner : Owner) (value : Json) : Except (Code × Stage) ℕ := do
  let failed : Code × Stage := (.providerFailed, .authorization)
  let rejected : Code × Stage := (.permissionRejected, .authorization)
  require (Ir.closedObject value ["context_id", "epoch", "asset_digest", "permission", "scope",
    "current_ms", "expires_at_ms", "revoked"] [] = true) failed
  require (value.propIs "scope" "complete_source" = true) rejected
  require (strictlySame (value.prop "context_id") owner.contextId = true ∧
    strictlySame (value.prop "epoch") owner.epoch = true) rejected
  require (value.propIs "asset_digest" config.expectedA = true) rejected
  require (value.propIs "permission" "allowed" = true ∧ isTrue value "revoked" = false) rejected
  let currentMs ← orFail failed (member? value "current_ms" uint?)
  let expiresAtMs ← orFail failed (member? value "expires_at_ms" uint?)
  require (owner.lastMs ≤ currentMs) rejected
  require (currentMs < expiresAtMs) rejected
  require (owner.originalExpiresAt.any (fun original => currentMs < original) = true) rejected
  return currentMs

/-- `bracketed(record, stage, work)` -/
def bracketed (stage : Stage) (q : Query) : Stops Reply := do
  checkLocal stage
  let reply ← Act.ask q
  accept (reply.returned = true) .providerFailed stage
  checkLocal stage
  return reply

/-- A settled step, or a rejected revision. -/
def settle {γ : Type} : Except (Code × Stage) γ → Stops γ
  | .ok value => return value
  | .error (code, stage) => throw (.rejected code stage)

/-- The observation of the Host in `refreshOwner`. -/
def refreshHost (purpose : Purpose) (stage : Stage) : Stops Unit := do
  let reply ← bracketed stage (.hostObserve purpose)
  let s ← Act.state
  let owner ← Act.need (.rejected .contextUntrusted .input) s.owner
  let currentMs ← settle (verifyObservation config owner (reply.value?.getD .null))
  Act.update fun s => s.own fun owner => { owner with lastMs := currentMs }

/-- `refreshOwner(record, purpose, stage, phase)` -/
def refreshOwner (purpose : Purpose) (stage : Stage) (phase : OperationPhase) : Stops Unit := do
  refreshHost config purpose stage
  accept ((← bracketed stage (.operationObserve phase)).isCurrent = true) .permissionRejected stage
  accept ((← Act.ask .assertCurrent).isCurrent = true) .permissionRejected stage

/-- A refusal of the draft, if there is one. -/
def refused : Option (Code × Stage) → Stops Unit
  | none => return ()
  | some (code, stage) => throw (.rejected code stage)

/-- `previewProtectedSourceRevision(context, edits, policy)` -/
def previewProtectedSourceRevision (draft : Draft) : Prog State Query Reply Result := settled do
  reserveContext
  accept (draft.inputs = true) .inputInvalid .input
  refreshOwner config .preview .semantic .hostObservation
  refused draft.semantic
  return .previewValid

/-- `produceProtectedSourceRevision(context, edits, policy, outputSecretProvider)` -/
def produceProtectedSourceRevision (draft : Draft) : Prog State Query Reply Result := settled do
  reserveContext
  accept (draft.inputs = true) .inputInvalid .input
  refreshOwner config .produce .semantic .hostObservation
  accept ((← Act.ask .outputSecret).returned = true) .providerFailed .semantic
  checkLocal .semantic
  refused draft.semantic
  refused draft.output
  refreshOwner config .publish .handedBack .readReturn
  return .revisionProduced

end Revision

end Ordinary

end Kdna.Source

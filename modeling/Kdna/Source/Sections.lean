import Kdna.Source.Ordinary

/-!
# The section source route

`createOpening` and `commitProtectedSectionSourceTransport` of `source-protected-opening.js`, with
the two callables of `source-protected-revision.js`.
-/

namespace Kdna.Source.Sections

open EventLoop Reentrant Value Read Execution

/-- An error: one of `fail(code, stage)`, one of the protection, one of the core, or another one. -/
inductive Failure
  | source (code : Code) (stage : Stage)
  | protection
  | core
  | other

/-- A call that may fail. -/
abbrev Fails := EventLoop.Act State Query Reply Failure

/-- A condition, or `fail(code, stage)`. -/
def demand (p : Prop) [Decidable p] (code : Code) (stage : Stage) : Fails Unit :=
  Act.check p (.source code stage)

section Owner

variable (config : Config)

/-- `local(record, stage)` -/
def checkLocal (stage : Stage) : Fails Unit := do
  let s ← Act.state
  demand (s.owner.any (fun owner => !owner.closed) = true) .contextClosed stage
  demand (s.now ≤ s.deadline) .deadlineExceeded stage

/-- An observation in the shape of `ProtectedSectionSourceHostObservation06`. -/
structure Observation where
  contextId : Identifier
  epoch : Identifier
  assetDigest : Digest
  currentMs : UInt
  expiresAtMs : UInt

/-- `ProtectedSectionSourceHostObservation06` -/
def readObservation (v : Json) : Option Observation := do
  closed? v ["context_id", "epoch", "asset_digest", "permission", "scope", "current_ms",
    "expires_at_ms", "revoked"]
  guard (v.propIs "permission" "allowed" ∨ v.propIs "permission" "denied")
  guard (v.propIs "scope" "complete_source")
  guard (∃ w ∈ v.prop "revoked", isBool w = true)
  return ⟨← member? v "context_id" identifierOf?, ← member? v "epoch" identifierOf?,
    ← member? v "asset_digest" digestOf?, ← member? v "current_ms" uintOf?,
    ← member? v "expires_at_ms" uintOf?⟩

/-- The observation agrees with the first one. -/
def Observation.agrees (o : Observation) (owner : Owner) : Bool :=
  strictlySame (some o.contextId.json) owner.contextId &&
    strictlySame (some o.epoch.json) owner.epoch && owner.lastMs ≤ o.currentMs.1 &&
    owner.originalExpiresAt.any fun original => o.currentMs.1 < original

/-- The owner behind an observation. -/
def Observation.record (o : Observation) (initial : Bool) (owner : Owner) : Owner :=
  if initial then
    { owner with
      contextId := some o.contextId.json
      epoch := some o.epoch.json
      originalExpiresAt := some o.expiresAtMs.1
      lastMs := o.currentMs.1 }
  else { owner with lastMs := o.currentMs.1 }

/-- The checks of `acceptObservation(record, raw, initial)`. -/
def checkObservation (owner : Owner) (raw : Json) (initial : Bool) :
    Except (Code × Stage) Observation := do
  let failed : Code × Stage := (.providerFailed, .authorization)
  let rejected : Code × Stage := (.permissionRejected, .authorization)
  let value ← orFail failed (copyJson raw).toOption
  require (value.propIs "scope" "complete_source" = true ∧
    value.propIs "asset_digest" config.expectedA = true) rejected
  require (value.propIs "permission" "allowed" = true ∧ isTrue value "revoked" = false)
    (if initial then (.hostDenied, .authorization) else rejected)
  let o ← orFail failed (readObservation value)
  require (o.currentMs.1 < o.expiresAtMs.1) rejected
  require (initial = true ∨ o.agrees owner = true) rejected
  return o

/-- A settled step, or its failure. -/
def settle {γ : Type} : Except (Code × Stage) γ → Fails γ
  | .ok value => return value
  | .error (code, stage) => throw (.source code stage)

/-- `acceptObservation(record, raw, initial)` -/
def acceptObservation (raw : Json) (initial : Bool) : Fails Unit := do
  let owner ← Act.need (.source .contextClosed .authorization) (← Act.state).owner
  let o ← settle (checkObservation config owner raw initial)
  Act.update fun s => s.own (o.record initial)

/-- `operationCurrent(record, phase, stage)` -/
def operationCurrent (phase : OperationPhase) (stage : Stage) : Fails Unit := do
  checkLocal stage
  let observed ← Act.ask (.operationObserve phase)
  checkLocal stage
  demand (observed.isCurrent = true) .permissionRejected stage
  demand ((← Act.ask .assertCurrent).isCurrent = true) .permissionRejected stage
  checkLocal stage

/-- `capture.assertUnchanged()` -/
def assertUnchanged : Fails Unit := do
  match ← Act.ask .assertUnchanged with
  | .current true => return ()
  | .current false => throw .core
  | _ => throw .other

/-- `hostCurrent(record, purpose, stage, initial, observer)`, where the question is the one of the
Host or of the observer. -/
def hostCurrent (q : Query) (stage : Stage) (initial : Bool) : Fails Unit := do
  checkLocal stage
  let raw ← Act.ask q
  let raw ← Act.need (.source .providerFailed stage) raw.value?
  checkLocal stage
  assertUnchanged
  checkLocal stage
  acceptObservation config raw initial

end Owner

section Opening

variable (config : Config)

/-- What an admission came to. -/
def sourceOf : Admission → Fails String
  | .source asset _ => return asset
  | .catalogOnly => throw .core
  | .coreRejected => throw .core
  | .protectionFailed => throw .protection
  | .refused code stage => throw (.source code stage)

/-- The token and the context are registered. -/
def State.register (s : State) : State :=
  { s with
    context := some ⟨.available, false⟩
    delivery := some ⟨true, .opened, none, false⟩ }

/-- The handoff is recorded. -/
def Delivery.handOff (d : Delivery) (atMs : ℕ) : Delivery :=
  { d with handoff := some ⟨atMs, .notInvoked⟩ }

/-- The token and the context are closed behind `deliver`. -/
def State.close (s : State) : State :=
  (s.deliver fun d => { d with closed := true }).revise fun c => { c with phase := .closed }

/-- The `try` block of the opening. -/
def openSource : Fails Result := do
  demand (config.hostTrusted = true) .hostUntrusted .input
  demand (config.optionsValid = true) .inputInvalid .input
  Act.update fun s => { s with deadline := s.now + config.timeoutMs }
  let reply ← Act.ask .admission
  Act.update fun s => { s with capture := reply.captured }
  let admitted ← Act.need .other reply.admission?
  let asset ← sourceOf admitted
  demand (asset = config.expectedA) .expectedAssetMismatch .admission
  let s ← Act.state
  demand (s.now ≤ s.deadline) .deadlineExceeded .admission
  Act.update fun s => { s with owner := some ⟨false, none, none, none, 0⟩ }
  hostCurrent config (.hostObserve .sourceOpening) .authorization true
  operationCurrent .hostHandoff .authorization
  checkLocal .authorization
  Act.update State.register
  checkLocal .authorization
  Act.update fun s => s.deliver fun d => Delivery.handOff d s.now
  let acknowledged ← Act.ask .deliver
  demand (acknowledged.value?.isSome = true) .providerFailed .handedBack
  Act.update State.close
  checkLocal .handedBack
  let pending := (← Act.state).delivery.any fun d => d.phase = .pending
  demand (acknowledged.isTrue = true) (if pending then .handoffUnknown else .hostDenied) .handedBack
  hostCurrent config (.hostObserve .publish) .handedBack false
  operationCurrent .readReturn .handedBack
  checkLocal .handedBack
  return .sourceDelivered (← Act.state).history

/-- `fromError(error, stage, state, classify)` and `failed(code, stage, state)` -/
def fromError (history : Disclosure) : Failure → Result
  | .source code stage => .sourceFailed code stage history
  | .protection => .protectionFailed history
  | .core => .coreRejected history
  | .other => .coreRejected history

/-- The `finally` block of the opening up to the close of the capture. -/
def State.finish (s : State) : State :=
  State.close (s.own fun owner => { owner with closed := true })

/-- The end of the `try` and `catch` blocks. -/
def outcome (s : State) : Except Failure Result → Result
  | .ok result => result
  | .error failure => fromError s.history failure

/-- `withProtectedSectionSourceNode(input, request, authority, options, provider, hostToken)` -/
def withProtectedSectionSourceNode : Prog State Query Reply Result := settled do
  let result ← Act.attempt (openSource config)
  let s ← Act.state
  Act.update State.finish
  if s.capture then Act.check ((← Act.ask .captureClose).returned = true) .thrown
  return outcome s result

/-- The `try` block of a commit. -/
def commitSource (transport : Bool) : Fails Result := do
  demand (transport = true) .inputInvalid .input
  let delivery ← Act.need (.source .contextUntrusted .input) (← Act.state).delivery
  demand (delivery.closed = false ∧ delivery.handoff.isSome = true) .contextClosed .input
  demand (delivery.phase = .opened) .handoffUnknown .handedBack
  hostCurrent config .observeScope .authorization false
  operationCurrent .transportCommit .authorization
  checkLocal .authorization
  let delivery ← Act.need (.source .contextUntrusted .input) (← Act.state).delivery
  demand (delivery.closed = false) .contextClosed .input
  demand (delivery.phase = .opened) .handoffUnknown .handedBack
  Act.update fun s => s.deliver fun d =>
    { d with
      phase := .pending
      handoff := d.handoff.map fun h => { h with externalCommit := .outcomeUnknown s.now } }
  let committed ← Act.ask .commit
  if committed.isTrue = false then
    Act.update fun s => s.deliver fun d => { d with phase := .failed }
    throw (.source .handoffUnknown .handedBack)
  Act.update fun s => s.deliver fun d =>
    { d with phase := .committed, handoff := d.handoff.map fun h => h.confirm s.now }
  checkLocal .handedBack
  return .sourceCommitted (← Act.state).history

/-- What the `catch` block of a commit answers. -/
def commitFailed (history : Disclosure) : Failure → Result
  | .source code stage => .sourceFailed code stage history
  | _ => .sourceFailed .capabilityUnavailable .handedBack history

/-- `commitProtectedSectionSourceTransport(prepared, transport)` -/
def commitProtectedSectionSourceTransport (transport : Bool) : Prog State Query Reply Result :=
  settled do
    let _ ← Act.need (.sourceFailed .contextUntrusted .input none) (← Act.state).delivery
    match ← Act.attempt (commitSource config transport) with
    | .ok result => return result
    | .error failure => return commitFailed (← Act.state).history failure

end Opening

section Revision

variable (config : Config)

/-- `reserveRevision(context, kind)` -/
def reserveRevision : Fails Unit := do
  let s ← Act.state
  let context ← Act.need (.source .contextUntrusted .input) s.context
  demand (context.phase = .available ∧ s.owner.any (fun owner => !owner.closed) = true)
    .contextClosed .input
  Act.update fun s => s.revise fun c => { c with phase := .reserved }

/-- `current(stage)` of a reservation. -/
def active (stage : Stage) : Fails Unit := do
  let s ← Act.state
  demand (s.context.any (fun c => c.phase = .reserved) = true ∧
    s.owner.any (fun owner => !owner.closed) = true) .contextClosed .input
  checkLocal stage

/-- `current(owner, purpose, stage, phase, active)` -/
def current (purpose : Purpose) (stage : Stage) (phase : OperationPhase) : Fails Unit := do
  active stage
  hostCurrent config (.hostObserve purpose) stage false
  active stage
  operationCurrent phase stage
  active stage

/-- `failure(kind, error, stage)` -/
def failure (stage : Stage) : Failure → Result
  | .source code at' => .rejected code at'
  | .protection => .rejected .outputInvalid stage
  | .core =>
    .rejected (match stage with
      | .input => .inputInvalid
      | .semantic => .draftInvalid
      | _ => .outputInvalid) stage
  | .other => .rejected .capabilityUnavailable stage

/-- A refusal of the draft, if there is one. -/
def refused : Option (Code × Stage) → Fails Unit
  | none => return ()
  | some (code, stage) => throw (.source code stage)

/-- `previewProtectedSectionSourceRevision(context, editsInput, policyInput)` -/
def previewProtectedSectionSourceRevision (draft : Draft) : Prog State Query Reply Result :=
  settled do
    Act.mapError (failure .input) do
      reserveRevision
      demand (draft.inputs = true) .inputInvalid .input
    Act.mapError (failure .semantic) do
      current config .preview .semantic .hostObservation
      refused draft.semantic
      active .handedBack
      current config .preview .handedBack .readReturn
      active .handedBack
    return .previewValid

/-- `produceProtectedSectionSourceRevision(context, editsInput, policyInput, outputSecretProvider)` -/
def produceProtectedSectionSourceRevision (draft : Draft) : Prog State Query Reply Result :=
  settled do
    Act.mapError (failure .input) do
      reserveRevision
      demand (draft.inputs = true) .inputInvalid .input
    Act.mapError (failure .semantic) do
      current config .produce .semantic .hostObservation
      active .semantic
      demand ((← Act.ask .outputSecret).returned = true) .providerFailed .semantic
      active .semantic
      current config .produce .semantic .hostObservation
      refused draft.semantic
      active .semantic
      active .semantic
    Act.mapError (failure .output) do
      refused draft.output
      active .handedBack
    Act.mapError (failure .handedBack) do
      current config .publish .handedBack .readReturn
      active .handedBack
    return .revisionProduced

end Revision

end Kdna.Source.Sections

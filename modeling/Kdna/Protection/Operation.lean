import Kdna.Data.Bytes
import Kdna.Data.Runs

/-!
# A protected operation

`protection-operation.js` with `validity` and `advance` of `protection-grant.js`: one
operation, its bindings and a provider that may do anything. Observations wait in a queue
and stop at every `await`; assertions and the disposal run at once, also from inside the
provider's clock. The state keeps a stack of the calls that are inside a clock. Bindings
of one operation share all of it, so that the model does not tell them apart.
-/

namespace Kdna.Protection

/-- The codes of a failure. -/
inductive Code
  | operationDisposed
  | operationUntrusted
  | providerFailed
  | stateRollback
  | refreshRequired
  | grantInvalid
  | grantBindingMismatch
  | authenticationFailed
  | authorizationRevoked
  | authorizationExpired
  deriving DecidableEq, Repr

/-- The text of a code. -/
def Code.text : Code → String
  | .operationDisposed => "PROTECTION_OPERATION_DISPOSED"
  | .operationUntrusted => "PROTECTION_OPERATION_UNTRUSTED"
  | .providerFailed => "PROTECTION_PROVIDER_FAILED"
  | .stateRollback => "PROTECTION_STATE_ROLLBACK"
  | .refreshRequired => "PROTECTION_REFRESH_REQUIRED"
  | .grantInvalid => "PROTECTION_GRANT_INVALID"
  | .grantBindingMismatch => "PROTECTION_GRANT_BINDING_MISMATCH"
  | .authenticationFailed => "PROTECTION_AUTHENTICATION_FAILED"
  | .authorizationRevoked => "PROTECTION_AUTHORIZATION_REVOKED"
  | .authorizationExpired => "PROTECTION_AUTHORIZATION_EXPIRED"

/-- The phases of an observation. -/
inductive Phase
  | projection
  | hostObservation
  | hostHandoff
  | readReturn
  | transportCommit
  | execution
  deriving DecidableEq, Repr

/-- The stages of a failure. -/
inductive Stage
  | input
  | projection
  | hostHandoff
  | transportCommit
  | authorization
  | grant
  | authentication
  deriving DecidableEq, Repr

/-- `stageFor(phase)` -/
def stageFor : Phase → Stage
  | .projection => .projection
  | .hostHandoff => .hostHandoff
  | .transportCommit => .transportCommit
  | _ => .authorization

/-- A failure, with the last valid sample of the clock in its call. -/
structure Failure where
  code : Code
  stage : Stage
  checkedAt : Option ℕ
  deriving DecidableEq, Repr

/-- The status of a grant or of the provider's state. -/
inductive Status
  | active
  | revoked
  | expired
  deriving DecidableEq, Repr

/-- The scope of a high-water state. -/
structure Scope where
  issuer : String
  accountId : String
  entitlementId : String
  deriving DecidableEq, Repr

/-- A verified grant with its times. -/
structure Verified where
  scope : Scope
  statusVersion : ℕ
  status : Status
  issued : ℕ
  refresh : ℕ
  grace : ℕ
  expires : ℕ
  deriving DecidableEq, Repr

/-- The high-water state that the provider returns. -/
structure HighWater where
  scope : Scope
  highestStatusVersion : ℕ
  status : Status
  lastTrustedTimeMs : ℕ
  revision : ℕ
  deriving DecidableEq, Repr

/-- `credential.mode` -/
inductive Mode
  | online
  | offline
  deriving DecidableEq, Repr

/-- `credential.kind`, with the mode of an external grant. -/
inductive Credential
  | none
  | password
  | externalGrant (mode : Mode)
  deriving DecidableEq, Repr

/-- What `verifyGrant` fails with. -/
inductive GrantFault
  | invalid
  | bindingMismatch
  deriving DecidableEq, Repr

/-- The code of a fault. -/
def GrantFault.code : GrantFault → Code
  | .invalid => .grantInvalid
  | .bindingMismatch => .grantBindingMismatch

/-- What never changes in an operation: its credential, whether the provider can refresh,
and the cryptographic checks of a refreshed grant. -/
structure Operation where
  credential : Credential
  refreshable : Bool
  /-- `verifyGrant(raw, credential, manifest, envelope, A)` -/
  verifyGrant : Bytes → Except GrantFault Verified
  /-- `grantPlaintext(verified, manifest, envelope)` succeeds. -/
  unwraps : Verified → Bool

/-- The record of an operation. -/
structure Record where
  generation : ℕ
  disposed : Bool
  lastTime : ℕ
  highWater : Option HighWater
  verified : Option Verified

/-- A checkpoint. -/
structure Checkpoint where
  generation : ℕ
  stage : Stage
  deriving DecidableEq, Repr

/-- What the provider's clock does: it throws, it returns no time, or it returns one. -/
inductive ClockReply
  | threw
  | invalid
  | time (now : ℕ)
  deriving DecidableEq, Repr

/-- `clock(record, stage, observation)` once the provider's clock is done: a time, or a code
with the sample. -/
def clock (r : Record) (generation : ℕ) : ClockReply → Except (Code × Option ℕ) ℕ
  | .threw => .error (if r.disposed then .operationDisposed else .providerFailed, none)
  | .invalid => .error (.providerFailed, none)
  | .time now =>
    if now < r.lastTime then .error (.stateRollback, none)
    else if r.disposed then .error (.operationDisposed, some now)
    else if generation ≠ r.generation then .error (.stateRollback, some now)
    else .ok now

/-- `validity(record, now, stage)` for a record with a grant. -/
def grantValidity (mode : Mode) (v : Verified) (now : ℕ) : Option Code :=
  if v.status = .revoked then some .authorizationRevoked
  else if v.status ≠ .active ∨ v.expires ≤ now ∨ now < v.issued then some .authorizationExpired
  else match mode with
    | .offline => if v.grace < now then some .authorizationExpired else none
    | .online => if v.refresh ≤ now then some .refreshRequired else none

/-- `validity(record, now, stage)` where the credential asks for it: the code that it fails
with. -/
def validity (op : Operation) (r : Record) (now : ℕ) : Option Code :=
  match op.credential, r.verified with
  | .externalGrant mode, some v => grantValidity mode v now
  | .externalGrant _, none => some .providerFailed
  | _, _ => none

/-- `check()`: the code of a record that was disposed or overtaken in between. -/
def overtaken (r : Record) (generation : ℕ) : Option Code :=
  if r.disposed then some .operationDisposed
  else if generation ≠ r.generation then some .stateRollback
  else none

/-- Whether a state of the provider is behind the grant, the time or an earlier state. -/
def behind (prior : Option HighWater) (v : Verified) (now : ℕ) (state : HighWater) : Bool :=
  state.highestStatusVersion < v.statusVersion || state.lastTrustedTimeMs ≠ now ||
    prior.any fun p => state.highestStatusVersion < p.highestStatusVersion ||
      state.revision < p.revision || state.lastTrustedTimeMs < p.lastTrustedTimeMs ||
      (state.highestStatusVersion = p.highestStatusVersion && state.status ≠ p.status)

/-- What `advance` makes of an accepted state: the code that it fails with. -/
def stateCode (v : Verified) (state : HighWater) : Option Code :=
  if state.status = .revoked then some .authorizationRevoked
  else if state.status = .expired then some .authorizationExpired
  else if v.statusVersion < state.highestStatusVersion then some .refreshRequired
  else if state.status ≠ v.status then some .stateRollback
  else none

/-- Where an observation is: inside the clock for the first, the second or the last time,
or at one of its `await`s. -/
inductive Point
  | firstClock
  | refreshedClock
  | lastClock
  | refresh (grant : Verified)
  | advance (now : ℕ) (grant : Verified)
  | advanced
  | returned (now : ℕ)
  deriving DecidableEq, Repr

/-- The observation that runs. -/
structure Running where
  phase : Phase
  generation : ℕ
  checkedAt : Option ℕ
  point : Point
  deriving DecidableEq, Repr

/-- A call inside the provider's clock, with the generation it saw before. -/
inductive Frame
  | assertion (cp : Checkpoint) (generation : ℕ)
  | observation (generation : ℕ)
  deriving DecidableEq, Repr

/-- What a call reports. -/
inductive Report
  | observed (cp : Checkpoint) (now : ℕ)
  | asserted (cp : Checkpoint) (now : ℕ)
  | failed (phase : Phase) (failure : Failure)
  | refused (cp : Checkpoint) (failure : Failure)
  | disposed
  deriving DecidableEq, Repr

/-- An operation with its calls, the checkpoints it issued and its reports, newest first. -/
structure State where
  record : Record
  queue : List Phase
  running : Option Running
  stack : List Frame
  issued : List Checkpoint
  reports : List Report

/-- The state behind `issueOperation`. -/
def State.issue (lastTime : ℕ) (highWater : Option HighWater) (verified : Option Verified) : State :=
  ⟨⟨0, false, lastTime, highWater, verified⟩, [], none, [], [], []⟩

/-- What happens to an operation. The provider answers a clock from inside the innermost
call; a refresh or a high-water transaction fails with none; `next` lets the observation
at hand go on. -/
inductive Event
  | observe (phase : Phase)
  | assertCurrent (cp : Checkpoint)
  | dispose
  | clockReturns (reply : ClockReply)
  | refreshReply (raw : Option Bytes)
  | advanceReply (state : Option HighWater)
  | next

/-- The failure of the observation that runs. -/
def State.fail (s : State) (r : Running) (code : Code) (stage : Stage) : State :=
  { s with running := none
           reports := .failed r.phase ⟨code, stage, r.checkedAt⟩ :: s.reports }

/-- The failure of an assertion. -/
def State.refuse (s : State) (cp : Checkpoint) (code : Code) (checkedAt : Option ℕ) : State :=
  { s with reports := .refused cp ⟨code, cp.stage, checkedAt⟩ :: s.reports }

/-- The observation goes on at a point. -/
def State.goOn (s : State) (r : Running) (point : Point) : State :=
  { s with running := some { r with point := point } }

/-- `clock(record, stage, observation)` up to the provider's clock. -/
def State.enterClock (s : State) (r : Running) (point : Point) : State :=
  if s.record.disposed then
    s.fail { r with checkedAt := none } .operationDisposed (stageFor r.phase)
  else
    { s with running := some { r with checkedAt := none, point := point }
             stack := .observation s.record.generation :: s.stack }

/-- Whether a grant has to be refreshed before it is used. -/
def refreshDue (op : Operation) (v : Verified) (now : ℕ) : Bool :=
  op.credential = .externalGrant .online && v.refresh ≤ now && v.status = .active && now < v.expires

/-- `current` behind its first clock. -/
def State.afterFirstClock (op : Operation) (s : State) (r : Running) (now : ℕ) : State :=
  match op.credential, s.record.verified with
  | .externalGrant _, some v =>
    if refreshDue op v now then
      if op.refreshable then s.goOn r (.refresh v)
      else s.fail r .refreshRequired (stageFor r.phase)
    else s.goOn r (.advance now v)
  | .externalGrant _, none => s.fail r .providerFailed (stageFor r.phase)
  | _, _ => s.goOn r (.returned now)

/-- `current` behind its last clock. -/
def State.afterLastClock (op : Operation) (s : State) (r : Running) (now : ℕ) : State :=
  match validity op s.record now with
  | some code => s.fail r code (stageFor r.phase)
  | none => s.goOn r (.returned now)

/-- The observation behind a clock. -/
def State.observeClock (op : Operation) (s : State) (r : Running) (generation : ℕ)
    (reply : ClockReply) : State :=
  match clock s.record generation reply with
  | .error (code, sample) => s.fail { r with checkedAt := sample } code (stageFor r.phase)
  | .ok now =>
    let sampled := { r with checkedAt := some now }
    let ticked := { s with record := { s.record with lastTime := now } }
    match r.point with
    | .firstClock => ticked.afterFirstClock op sampled now
    | .refreshedClock =>
      match s.record.verified with
      | some v => ticked.goOn sampled (.advance now v)
      | none => ticked.fail sampled .providerFailed (stageFor r.phase)
    | .lastClock => ticked.afterLastClock op sampled now
    | _ => s

/-- An assertion behind its clock. -/
def State.assertClock (op : Operation) (s : State) (cp : Checkpoint) (generation : ℕ)
    (reply : ClockReply) : State :=
  match clock s.record generation reply with
  | .error (code, sample) => s.refuse cp code sample
  | .ok now =>
    let ticked := { s with record := { s.record with lastTime := now } }
    match overtaken s.record cp.generation, validity op s.record now with
    | some code, _ => ticked.refuse cp code (some now)
    | none, some code => ticked.refuse cp code (some now)
    | none, none => { ticked with reports := .asserted cp now :: s.reports }

/-- `current` behind the refresh of the grant `g`. -/
def State.afterRefresh (op : Operation) (s : State) (r : Running) (g : Verified)
    (raw : Option Bytes) : State :=
  match overtaken s.record r.generation, raw with
  | some code, _ => s.fail r code (stageFor r.phase)
  | none, none => s.fail r .providerFailed (stageFor r.phase)
  | none, some raw =>
    match op.verifyGrant raw with
    | .error fault => s.fail r fault.code .grant
    | .ok v =>
      if v.statusVersion < g.statusVersion then s.fail r .stateRollback (stageFor r.phase)
      else if v.status = .active ∧ ¬ op.unwraps v then s.fail r .authenticationFailed .authentication
      else { s with record := { s.record with verified := some v } }.enterClock r .refreshedClock

/-- `advance` behind the provider's transaction. -/
def State.afterAdvance (s : State) (r : Running) (now : ℕ) (g : Verified)
    (state : Option HighWater) : State :=
  match overtaken s.record r.generation, state with
  | some code, _ => s.fail r code (stageFor r.phase)
  | none, none => s.fail r .providerFailed (stageFor r.phase)
  | none, some state =>
    if state.scope ≠ g.scope then s.fail r .providerFailed (stageFor r.phase)
    else if behind s.record.highWater g now state then s.fail r .stateRollback (stageFor r.phase)
    else
      let kept := { s with record := { s.record with highWater := some state } }
      match stateCode g state with
      | some code => kept.fail r code (stageFor r.phase)
      | none => kept.goOn r .advanced

/-- `observe` behind `current`. -/
def State.conclude (s : State) (r : Running) (now : ℕ) : State :=
  if s.record.disposed then s.fail r .operationDisposed (stageFor r.phase)
  else
    let cp : Checkpoint := ⟨s.record.generation + 1, stageFor r.phase⟩
    { s with record := { s.record with generation := s.record.generation + 1 }
             running := none
             issued := cp :: s.issued
             reports := .observed cp now :: s.reports }

/-- The observation at hand goes on, or the next one starts. -/
def State.next (s : State) : State :=
  match s.running, s.queue with
  | none, [] => s
  | none, phase :: rest =>
    { s with queue := rest }.enterClock ⟨phase, s.record.generation, none, .firstClock⟩ .firstClock
  | some r, _ =>
    match r.point with
    | .advanced =>
      match overtaken s.record r.generation with
      | some code => s.fail r code (stageFor r.phase)
      | none => s.enterClock r .lastClock
    | .returned now => s.conclude r now
    | _ => s

/-- `assertCurrent(checkpoint)` up to the provider's clock. -/
def State.assertCurrent (s : State) (cp : Checkpoint) : State :=
  if cp ∉ s.issued then
    { s with reports := .refused cp ⟨.operationUntrusted, .input, none⟩ :: s.reports }
  else match overtaken s.record cp.generation with
    | some code => s.refuse cp code none
    | none => { s with stack := .assertion cp s.record.generation :: s.stack }

/-- `disposeProtectionOperation(operation)` -/
def State.dispose (s : State) : State :=
  if s.record.disposed then s
  else { s with
    record := { s.record with disposed := true, generation := s.record.generation + 1, verified := none }
    reports := .disposed :: s.reports }

/-- The provider's clock is done in the innermost call. -/
def State.clockReturns (op : Operation) (s : State) (reply : ClockReply) : State :=
  match s.stack, s.running with
  | .assertion cp generation :: rest, _ => { s with stack := rest }.assertClock op cp generation reply
  | .observation generation :: rest, some r =>
    { s with stack := rest }.observeClock op r generation reply
  | _, _ => s

/-- One step of an operation. What waits for the provider goes on while no call is inside a
clock. -/
def State.step (op : Operation) (s : State) : Event → State
  | .observe phase => { s with queue := s.queue ++ [phase] }
  | .assertCurrent cp => s.assertCurrent cp
  | .dispose => s.dispose
  | .clockReturns reply => s.clockReturns op reply
  | .refreshReply raw =>
    match s.stack, s.running with
    | [], some r =>
      match r.point with
      | .refresh g => s.afterRefresh op r g raw
      | _ => s
    | _, _ => s
  | .advanceReply state =>
    match s.stack, s.running with
    | [], some r =>
      match r.point with
      | .advance now g => s.afterAdvance r now g state
      | _ => s
    | _, _ => s
  | .next => if s.stack = [] then s.next else s

/-- The steps of an operation. -/
def Steps (op : Operation) (s : State) (e : Event) (t : State) : Prop := s.step op e = t

end Kdna.Protection

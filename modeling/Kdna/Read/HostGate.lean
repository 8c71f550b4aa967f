import Kdna.Data.Runs
import Kdna.Ir.Reconstruct
import Kdna.Read.Request

/-!
# The Host gate

`observe` of `host-gate.js`, `section-host-gate.js`, `retained-sections-node.js` and
`_observe` of `read.py`: each checks an observation of the Host and then settles it
against the denials that stand. A denial is keyed by the canonical text of its Host,
epoch and asset, which determines the three.
-/

namespace Kdna.Read

/-- The errors of an observation. -/
inductive HostError
  | contextUntrusted
  | epochMismatch
  | timeInvalid
  | handleExpired
  | contextExpired
  | handleUntrusted
  | capabilityUnavailable
  | denied
  deriving DecidableEq, Repr

/-- The code of an error. -/
def HostError.code : HostError → String
  | .contextUntrusted => "READ_HOST_CONTEXT_UNTRUSTED"
  | .epochMismatch => "READ_HOST_EPOCH_MISMATCH"
  | .timeInvalid => "READ_HOST_TIME_INVALID"
  | .handleExpired => "READ_HANDLE_EXPIRED"
  | .contextExpired => "READ_HOST_CONTEXT_EXPIRED"
  | .handleUntrusted => "READ_HANDLE_UNTRUSTED"
  | .capabilityUnavailable => "READ_CORE_CAPABILITY_UNAVAILABLE"
  | .denied => "READ_HOST_DENIED"

/-- What a checked observation says. -/
structure Context where
  hostId : String
  hostEpoch : String
  decisionId : String
  scope : List String
  issuedAt : ℕ
  expiresAt : ℕ
  currentMs : ℕ
  denies : Bool
  lifts : Bool
  deriving DecidableEq

/-- `uint(value)`: a safe integer that is not negative. -/
def uint? : Json → Option ℕ
  | .num x => (x.toInt.filter fun n => 0 ≤ n ∧ n < 2 ^ 53).map Int.toNat
  | _ => none

/-- `identifier(value)` -/
def identifier? (v : Json) : Option String := v.text?.filter identifier

/-- The texts of an array of distinct texts that pass the test. -/
def distinctTexts? (test : Json → Option String) (v : Json) : Option (List String) :=
  (v.items?.bind fun items => items.mapM test).filter fun texts => texts.Nodup

/-- Whether a value is a truth value. -/
def isBool : Json → Bool
  | .bool _ => true
  | _ => false

/-- `value[name] === true` -/
def isTrue (v : Json) (name : String) : Bool :=
  match v.prop name with
  | some (.bool true) => true
  | _ => false

/-- `value.revoked === true || value.decision === 'deny'` -/
def denies (value : Json) : Bool := isTrue value "revoked" || value.propIs "decision" "deny"

/-- The property `name` under a test, or an untrusted context. -/
def field {α : Type} (value : Json) (name : String) (test : Json → Option α) : Except HostError α :=
  orFail .contextUntrusted ((value.prop name).bind test)

/-- `!['allow','deny'].includes(value.decision)` fails -/
def decided (value : Json) : Bool :=
  value.propIs "decision" "allow" || value.propIs "decision" "deny"

/-- The times and the scope of a bound observation, which lives at most an hour. -/
def window (issued expires : ℕ) : Bool := issued < expires && expires - issued ≤ 3600000

namespace HostGate

/-- The members of an observation. -/
def names : List String :=
  ["host_id", "host_epoch", "decision_id", "request_id", "snapshot_id", "A", "C", "scope",
    "issued_at", "expires_at", "decision", "policy_id", "current_ms", "revoked", "lift_denial"]

/-- `typeof value[k] !== 'boolean'` fails for the flags that are there. -/
def flagsOk (value : Json) : Bool :=
  ["revoked", "lift_denial"].all fun name => (value.prop name).all isBool

/-- The checks of `observe` up to the denials. `raw` is the value that the Host returned,
`none` for what is no value of the JSON domain. -/
def check (request : Request) (view : View) (raw : Option Json) : Except HostError Context := do
  let value ← orFail .contextUntrusted raw
  require (Ir.closedObject value [] names ∧ flagsOk value) HostError.contextUntrusted
  let hostId ← field value "host_id" identifier?
  let hostEpoch ← field value "host_epoch" identifier?
  let decisionId ← field value "decision_id" identifier?
  let requestId ← field value "request_id" identifier?
  let snapshotId ← field value "snapshot_id" identifier?
  let _ ← field value "policy_id" identifier?
  require (requestId = request.requestId ∧ snapshotId = view.snapshotId ∧
    value.propIs "A" view.a ∧ value.propIs "C" view.c ∧ decided value) HostError.contextUntrusted
  let scope ← field value "scope" (distinctTexts? identifier?)
  let issued ← field value "issued_at" uint?
  let expires ← field value "expires_at" uint?
  require (window issued expires) HostError.contextUntrusted
  require (∀ h ∈ request.handle, h.hostId = hostId ∧ h.hostEpoch = hostEpoch)
    HostError.epochMismatch
  let current ← orFail HostError.timeInvalid ((value.prop "current_ms").bind uint?)
  require (issued ≤ current ∧ ∀ h ∈ request.handle, h.issuedAt ≤ current) HostError.timeInvalid
  require (∀ h ∈ request.handle, current < h.expiresAt) HostError.handleExpired
  require (current < expires) HostError.contextExpired
  return ⟨hostId, hostEpoch, decisionId, scope, issued, expires, current, denies value,
    isTrue value "lift_denial"⟩

end HostGate

/-- `Identifier` of the generated shapes, which count characters. -/
def shapeIdentifier? (v : Json) : Option String :=
  v.text?.filter fun t => decide (0 < t.length ∧ t.length ≤ 256) && t.toList.all fun c => !isControl c

/-- `Digest` -/
def isDigest (v : Json) : Bool :=
  v.text?.any fun t => startsWith t "sha256:" && t.length = 71 &&
    (t.toList.drop 7).all fun c => c.isDigit || ('a' ≤ c && c ≤ 'f')

/-- The property `name` of a shape passes the test. -/
def passes {α : Type} (test : Json → Option α) (value : Json) (name : String) : Bool :=
  ((value.prop name).bind test).isSome

/-- `AssetIdentity` -/
def isAssetIdentity (identifier? : Json → Option String) (v : Json) : Bool :=
  Ir.closedObject v ["asset_id", "asset_version", "judgment_version"] [] &&
    ["asset_id", "asset_version", "judgment_version"].all (passes identifier? v)

/-- `CandidateVersionTuple06` -/
def isCandidateTuple (v : Json) : Bool :=
  Ir.closedObject v (Ir.candidateTuple.map Prod.fst) [] &&
    Ir.candidateTuple.all fun f => v.propIs f.1 f.2

/-- What the shapes of an observation share: its required members with those of the form
at hand, two optional flags, and the tests of the members. -/
def observationShape (identifier? : Json → Option String) (identifiers digests others : List String)
    (value : Json) : Bool :=
  Ir.closedObject value (["host_id", "host_epoch", "decision_id", "request_id", "policy_id"] ++
      identifiers ++ digests ++ others ++
      ["asset", "tuple", "scope", "issued_at", "expires_at", "decision", "current_ms"])
    ["revoked", "lift_denial"] &&
  (["host_id", "host_epoch", "decision_id", "request_id", "policy_id"] ++ identifiers).all
    (passes identifier? value) &&
  digests.all (fun name => (value.prop name).any isDigest) &&
  (value.prop "asset").any (isAssetIdentity identifier?) &&
  (value.prop "tuple").any isCandidateTuple &&
  passes (distinctTexts? identifier?) value "scope" &&
  ["issued_at", "expires_at", "current_ms"].all (passes uint? value) &&
  decided value && HostGate.flagsOk value

/-- `jcs(value[name]) === jcs(expected)` -/
def propSame (value : Json) (name : String) (expected : Json) : Bool :=
  (value.prop name).any fun v => same v expected

namespace SectionGate

/-- What a section read is bound to. -/
structure View where
  snapshotId : String
  captureId : String
  requestDigest : String
  checkedSectionsDigest : String
  assetId : String
  asset : Json
  tuple : Json

/-- `SectionHostObservation06` -/
def shape (value : Json) : Bool :=
  observationShape shapeIdentifier? ["snapshot_id", "capture_id"]
    ["request_digest", "checked_sections_digest"] [] value

/-- The checks of `observeSectionHost` up to the denials; `raw` is `none` when the Host threw
or returned no value of the JSON domain. -/
def check (request : Request) (view : View) (raw : Option Json) : Except HostError Context := do
  let value ← orFail .capabilityUnavailable raw
  require (shape value) HostError.contextUntrusted
  require (value.propIs "request_id" request.requestId ∧ value.propIs "snapshot_id" view.snapshotId ∧
    value.propIs "capture_id" view.captureId ∧ value.propIs "request_digest" view.requestDigest ∧
    value.propIs "checked_sections_digest" view.checkedSectionsDigest ∧
    propSame value "asset" view.asset ∧ propSame value "tuple" view.tuple)
    HostError.contextUntrusted
  let hostId ← field value "host_id" shapeIdentifier?
  let hostEpoch ← field value "host_epoch" shapeIdentifier?
  let decisionId ← field value "decision_id" shapeIdentifier?
  let scope ← field value "scope" (distinctTexts? shapeIdentifier?)
  let issued ← field value "issued_at" uint?
  let expires ← field value "expires_at" uint?
  let current ← field value "current_ms" uint?
  require (window issued expires) HostError.contextUntrusted
  require (issued ≤ current) HostError.timeInvalid
  require (current < expires) HostError.contextExpired
  require (∀ h ∈ request.handle, h.hostId = hostId ∧ h.hostEpoch = hostEpoch)
    HostError.handleUntrusted
  require (∀ h ∈ request.handle, h.issuedAt ≤ current) HostError.timeInvalid
  require (∀ h ∈ request.handle, current < h.expiresAt) HostError.handleExpired
  return ⟨hostId, hostEpoch, decisionId, scope, issued, expires, current, denies value,
    isTrue value "lift_denial"⟩

end SectionGate

namespace RetainedGate

/-- What the Host answers: it throws, it returns what is no value of the JSON domain, or it
returns a value. -/
inductive Reply
  | threw
  | foreign
  | value (v : Json)

/-- What a retained read is bound to. -/
structure View where
  operationId : String
  requestDigest : String
  intentDigest : String
  assetId : String
  origin : Json
  asset : Json
  tuple : Json

/-- `RetainedSectionOrigin06` -/
def isOrigin (v : Json) : Bool :=
  Ir.closedObject v ["snapshot_id", "kind", "capture_id", "admission_request_digest",
      "verification_digest", "checked_sections_digest"] [] &&
    ["snapshot_id", "capture_id"].all (passes identifier? v) &&
    (v.propIs "kind" "whole" || v.propIs "kind" "catalog") &&
    ["admission_request_digest", "verification_digest", "checked_sections_digest"].all fun name =>
      (v.prop name).any isDigest

/-- `C.validate('RetainedSectionHostObservation06', value)` -/
def shape (value : Json) : Bool :=
  (assertStrictJson value).toBool &&
    observationShape identifier? ["operation_id"] ["request_digest", "intent_digest"] ["origin"]
      value &&
    (value.prop "origin").any isOrigin

/-- The checks of the retained `observe` up to the denials. -/
def check (request : Request) (view : View) (reply : Reply) : Except HostError Context := do
  let value ← match reply with
    | .threw => .error HostError.capabilityUnavailable
    | .foreign => .error HostError.contextUntrusted
    | .value v => .ok v
  require (shape value) HostError.contextUntrusted
  require (value.propIs "operation_id" view.operationId ∧ value.propIs "request_id" request.requestId ∧
    value.propIs "request_digest" view.requestDigest ∧ propSame value "origin" view.origin ∧
    value.propIs "intent_digest" view.intentDigest ∧ propSame value "asset" view.asset ∧
    propSame value "tuple" view.tuple) HostError.contextUntrusted
  let hostId ← field value "host_id" identifier?
  let hostEpoch ← field value "host_epoch" identifier?
  let decisionId ← field value "decision_id" identifier?
  let scope ← field value "scope" (distinctTexts? identifier?)
  let issued ← field value "issued_at" uint?
  let expires ← field value "expires_at" uint?
  let current ← field value "current_ms" uint?
  require (window issued expires) HostError.contextUntrusted
  require (∀ h ∈ request.handle, h.hostId = hostId ∧ h.hostEpoch = hostEpoch)
    HostError.epochMismatch
  require (issued ≤ current ∧ ∀ h ∈ request.handle, h.issuedAt ≤ current) HostError.timeInvalid
  require (∀ h ∈ request.handle, current < h.expiresAt) HostError.handleExpired
  require (current < expires) HostError.contextExpired
  return ⟨hostId, hostEpoch, decisionId, scope, issued, expires, current, denies value,
    isTrue value "lift_denial"⟩

end RetainedGate

/-- What a denial is about: a Host, its epoch and an asset. -/
structure Denial where
  hostId : String
  hostEpoch : String
  assetId : String
  deriving DecidableEq

/-- One observation at one of the gates of a Host. `_observe` of `read.py` makes the checks
of `host-gate.js` in their order. -/
inductive Observation
  | whole (request : Request) (view : View) (raw : Option Json)
  | python (request : Request) (view : View) (raw : Option Json)
  | section' (request : Request) (view : SectionGate.View) (raw : Option Json)
  | retained (request : Request) (view : RetainedGate.View) (reply : RetainedGate.Reply)

/-- The checks of an observation. -/
def Observation.check : Observation → Except HostError Context
  | .whole request view raw => HostGate.check request view raw
  | .python request view raw => HostGate.check request view raw
  | .section' request view raw => SectionGate.check request view raw
  | .retained request view reply => RetainedGate.check request view reply

/-- The asset that an observation is about. -/
def Observation.assetId : Observation → String
  | .whole _ view _ => view.assetId
  | .python _ view _ => view.assetId
  | .section' _ view _ => view.assetId
  | .retained _ view _ => view.assetId

/-- `jcs([value.host_id, value.host_epoch, asset_id])` -/
def Context.denial (context : Context) (assetId : String) : Denial :=
  ⟨context.hostId, context.hostEpoch, assetId⟩

/-- The denials that stand behind a checked observation: it may lift its own, and then
report it again. -/
def settle (revocations : List Denial) (context : Context) (assetId : String) : List Denial :=
  let lifted := if context.lifts then revocations.filter (· ≠ context.denial assetId) else revocations
  if context.denies then context.denial assetId :: lifted else lifted

/-- `observe`: the result and the denials that stand behind it. -/
def observe (revocations : List Denial) (o : Observation) :
    Except HostError Context × List Denial :=
  match o.check with
  | .error e => (.error e, revocations)
  | .ok context =>
    let standing := settle revocations context o.assetId
    (if context.denial o.assetId ∈ standing then .error .denied else .ok context, standing)

/-- An observation that passes its checks for the triple. -/
def Observation.Bound (o : Observation) (denial : Denial) (context : Context) : Prop :=
  o.check = .ok context ∧ context.denial o.assetId = denial

/-- The observations of a Host one after the other. -/
def Observes (revocations : List Denial) (o : Observation) (after : List Denial) : Prop :=
  (observe revocations o).2 = after

/-- A checked report is recorded. -/
theorem mem_of_reports {revocations : List Denial} {o : Observation} {denial : Denial}
    {context : Context} (hbound : o.Bound denial context) (hdenies : context.denies = true) :
    denial ∈ (observe revocations o).2 := by
  obtain ⟨hcheck, rfl⟩ := hbound
  simp only [observe, hcheck, settle, hdenies, if_true]
  exact List.mem_cons_self

/-- Only a checked observation that lifts it removes a denial. -/
theorem mem_observe {revocations after : List Denial} {o : Observation} {denial : Denial}
    (hlift : ∀ context, o.Bound denial context → context.lifts = false)
    (hmem : denial ∈ revocations) (hstep : Observes revocations o after) : denial ∈ after := by
  rw [← hstep, observe]
  cases hcheck : o.check with
  | error e => exact hmem
  | ok context =>
    have hkept : denial ∈ (if context.lifts then
        revocations.filter (· ≠ context.denial o.assetId) else revocations) := by
      by_cases hl : context.lifts = true
      · rw [if_pos hl]
        refine List.mem_filter.mpr ⟨hmem, ?_⟩
        have hne : denial ≠ context.denial o.assetId := by
          intro heq
          exact absurd (hlift context ⟨hcheck, heq.symm⟩) (by simp [hl])
        simpa using hne
      · rwa [if_neg hl]
    simp only [settle]
    by_cases hd : context.denies = true
    · rw [if_pos hd]
      exact .tail _ hkept
    · rwa [if_neg hd]

/-- An observation for a triple whose denial stands is denied. -/
theorem observe_denied {revocations : List Denial} {o : Observation} {denial : Denial}
    {context : Context} (hbound : o.Bound denial context) (hlift : context.lifts = false)
    (hmem : denial ∈ revocations) : (observe revocations o).1 = .error .denied := by
  obtain ⟨hcheck, rfl⟩ := hbound
  have hstanding : context.denial o.assetId ∈ settle revocations context o.assetId := by
    rw [settle, hlift]
    by_cases hd : context.denies = true
    · simp [hd]
    · simpa [hd] using hmem
  simp only [observe, hcheck, if_pos hstanding]

/-- Once an observation that passes its checks has reported its triple revoked or denied,
every later observation for the triple that passes its checks is denied, whatever happens in
between at any of the gates, until one that passes its checks lifts the denial; and one that
fails its checks yields no context. -/
theorem revocation_sticky (before standing after : List Denial) (report last : Observation)
    (between : List Observation) (denial : Denial) (reported : Context)
    (hreport : report.Bound denial reported) (hdenies : reported.denies = true)
    (hfirst : Observes before report standing) (hrun : Run Observes standing between after)
    (hbetween : ∀ o ∈ between, ∀ context, o.Bound denial context → context.lifts = false)
    (hlast : ∀ context, last.Bound denial context → context.lifts = false) :
    denial ∈ after ∧
      (∀ context, last.Bound denial context → (observe after last).1 = .error .denied) ∧
      ∀ e, last.check = .error e → (observe after last).1 = .error e := by
  have hstanding : denial ∈ standing := hfirst ▸ mem_of_reports hreport hdenies
  have hafter : denial ∈ after :=
    hrun.preserves_of (fun _ _ _ hlift hmem hstep => mem_observe hlift hmem hstep) hbetween hstanding
  refine ⟨hafter, fun context hbound => observe_denied hbound (hlast context hbound) hafter, ?_⟩
  intro e he
  simp only [observe, he]

section Sample

/-- An observation of a Host for a request without a handle. -/
def sampleObservation (flags : List (String × Json)) (current : Json) : Observation :=
  .whole ⟨"r", 0, .wholeAsset, none, none⟩
    ⟨"s", "a", "1", "A", "C", ⟨.null, .null, .null, [], [], [], [], [], [], [], [], []⟩⟩
    (some (.obj ([("host_id", .str "h"), ("host_epoch", .str "e"), ("decision_id", .str "d"),
      ("request_id", .str "r"), ("snapshot_id", .str "s"), ("A", .str "A"), ("C", .str "C"),
      ("scope", .arr []), ("issued_at", msZero),
      ("expires_at", msOne), ("decision", .str "allow"),
      ("policy_id", .str "p"), ("current_ms", current)] ++ flags)))

/-- A revocation, checked in time. -/
def sampleReport : Observation :=
  sampleObservation [("revoked", .bool true)] msZero

/-- A revocation in a context that has just expired. -/
def sampleLateReport : Observation :=
  sampleObservation [("revoked", .bool true)] msOne

/-- A plain observation for the same triple. -/
def sampleAllowed : Observation := sampleObservation [] msZero

theorem revocation_sticky_sample :
    (observe (observe [] sampleReport).2 sampleAllowed).1 = .error .denied := by
  have hreport : sampleReport.Bound ⟨"h", "e", "a"⟩ ⟨"h", "e", "d", [], 0, 1, 0, true, false⟩ :=
    ⟨by decide +kernel, rfl⟩
  have hallowed : sampleAllowed.Bound ⟨"h", "e", "a"⟩ ⟨"h", "e", "d", [], 0, 1, 0, false, false⟩ :=
    ⟨by decide +kernel, rfl⟩
  refine (revocation_sticky [] _ _ sampleReport sampleAllowed [] ⟨"h", "e", "a"⟩ _ hreport rfl rfl
    (.nil _) (List.forall_mem_nil _) fun context hbound => ?_).2.1 _ hallowed
  rw [Except.ok.inj (hbound.1.symm.trans hallowed.1)]

/-- A revocation in an expired context is not recorded: the next observation of the same
Host, epoch and asset is allowed. -/
theorem revocation_unrecorded :
    observe [] sampleLateReport = (.error .contextExpired, []) ∧
      observe [] sampleAllowed = (.ok ⟨"h", "e", "d", [], 0, 1, 0, false, false⟩, []) := by
  have hlate : sampleLateReport.check = .error .contextExpired := by decide +kernel
  have hallowed : sampleAllowed.check = .ok ⟨"h", "e", "d", [], 0, 1, 0, false, false⟩ := by
    decide +kernel
  constructor
  · simp only [observe, hlate]
  · simp only [observe, hallowed]
    rfl

end Sample

end Kdna.Read

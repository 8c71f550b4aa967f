import Kdna.Ir.Canonical

/-!
# What an admission of a package set captures

The data of a package set, of its member sources and of a provider's observation, and the
checks that an admission makes on them before it admits a byte. The admission of
`package-set-admission.js` and the native one share these checks.
-/

namespace Kdna.Packages

open Value Ir

/-- The codes of a local failure. -/
inductive LocalFailure
  | invalidLimits
  | memberLimitExceeded
  | sourceBytesLimitExceeded
  | invalidMemberSource
  | invalidReadRequest
  | providerInvalid
  | providerFailed
  | providerObservationInvalid
  | coreUnavailable
  deriving DecidableEq, Repr

/-- The text of a code. -/
def LocalFailure.text : LocalFailure → String
  | .invalidLimits => "invalid_limits"
  | .memberLimitExceeded => "member_limit_exceeded"
  | .sourceBytesLimitExceeded => "source_bytes_limit_exceeded"
  | .invalidMemberSource => "invalid_member_source"
  | .invalidReadRequest => "invalid_read_request"
  | .providerInvalid => "provider_invalid"
  | .providerFailed => "provider_failed"
  | .providerObservationInvalid => "provider_observation_invalid"
  | .coreUnavailable => "core_unavailable"

/-- The diagnostics of a decision. -/
inductive Diagnostic
  | readInputInvalid
  | setMemberUnauthorized
  | setMemberMissing
  | setMemberExtra
  | setMemberDuplicate
  | readUnsupportedVersion
  | readMixedVersionTuple
  | readCoreInvalid
  | unsupportedMerge
  | readSelectionAmbiguous
  | readSelectionNotFound
  deriving DecidableEq, Repr

/-- The text of a diagnostic. -/
def Diagnostic.text : Diagnostic → String
  | .readInputInvalid => "READ_INPUT_INVALID"
  | .setMemberUnauthorized => "SET_MEMBER_UNAUTHORIZED"
  | .setMemberMissing => "SET_MEMBER_MISSING"
  | .setMemberExtra => "SET_MEMBER_EXTRA"
  | .setMemberDuplicate => "SET_MEMBER_DUPLICATE"
  | .readUnsupportedVersion => "READ_UNSUPPORTED_VERSION"
  | .readMixedVersionTuple => "READ_MIXED_VERSION_TUPLE"
  | .readCoreInvalid => "READ_CORE_INVALID"
  | .unsupportedMerge => "UNSUPPORTED_CROSS_ASSET_SEMANTIC_MERGE"
  | .readSelectionAmbiguous => "READ_SELECTION_AMBIGUOUS"
  | .readSelectionNotFound => "READ_SELECTION_NOT_FOUND"

/-- Why an admission stops: a decision against the set, a failure of its own, or a member whose
bytes were refused with the result `φ`. -/
inductive Stop (φ : Type)
  | rejected (diagnostic : Diagnostic)
  | failed (code : LocalFailure)
  | member (memberId : String) (result : φ)

/-- The full identity of a member. -/
structure Member where
  memberId : String
  assetId : String
  assetVersion : String
  a : String
  deriving DecidableEq

/-- The selection of one judgment. -/
structure Selection where
  assetId : String
  assetVersion : String
  judgmentId : String
  deriving DecidableEq

/-- A captured package set. -/
structure PackageSet where
  setId : String
  members : List Member
  selection : Selection

/-- The operations that a caller can ask for. -/
inductive Operation
  | isolatedRead
  | semanticMerge
  | crossAssetReference
  deriving DecidableEq, Repr

/-- The limits of an input. -/
structure Limits where
  maxMembers : ℕ
  maxTotalSourceBytes : ℕ

/-- `LIMITS` -/
def limits : Limits := ⟨10000, 104857600⟩

/-- `/^sha256:[0-9a-f]{64}$/` -/
def isDigest (s : String) : Bool :=
  startsWith s "sha256:" && (s.toList.drop 7).length == 64 &&
    (s.toList.drop 7).all fun c => ('0' ≤ c && c ≤ '9') || ('a' ≤ c && c ≤ 'f')

/-- A set as it is handed in; `none` stands for a member or a selection that is no plain record
of texts. -/
structure RawSet where
  setId : String
  members : List (Option Member)
  selection : Option Selection

/-- A member source, with the credentials of the native admission. -/
structure Source (κ : Type) where
  memberId : String
  bytes : Bytes
  credentials : κ

/-- The input of an admission; `none` stands for a source that is no plain record with genuine
octets, and for an operation of another name. -/
structure AdmissionInput (κ : Type) where
  set : RawSet
  tuple : List (String × String)
  operation : Option Operation
  limits : Limits
  members : List (Option (Source κ))

/-- A captured input. -/
structure Captured (κ : Type) where
  set : PackageSet
  tuple : List (String × String)
  operation : Operation
  sources : List (Source κ)

section Inputs

variable {φ κ : Type}

/-- `capturePackageMember(value)`: whatever is wrong with it, the set is malformed. -/
def capturePackageMember (value : Option Member) : Except (Stop φ) Member := do
  let m ← orFail (.rejected .readInputInvalid) value
  require (identifier m.memberId ∧ identifier m.assetId ∧ identifier m.assetVersion ∧ isDigest m.a)
    (Stop.rejected .readInputInvalid)
  return m

/-- `captureSelection(value)` -/
def captureSelection (value : Option Selection) : Except (Stop φ) Selection := do
  let s ← orFail (.rejected .readInputInvalid) value
  require (identifier s.assetId ∧ identifier s.assetVersion ∧ identifier s.judgmentId)
    (Stop.rejected .readInputInvalid)
  return s

/-- `capturePackageSet(value)`, with the stop for a malformed `set_id`. -/
def capturePackageSet (badId : Stop φ) (value : RawSet) : Except (Stop φ) PackageSet := do
  let members ← value.members.mapM capturePackageMember
  let selection ← captureSelection value.selection
  require (0 < members.length ∧ members.length ≤ limits.maxMembers)
    (Stop.rejected .readInputInvalid)
  require (identifier value.setId) badId
  return ⟨value.setId, members, selection⟩

/-- The keys of a version tuple. -/
def tupleKeys : List String := versionTuple.map Prod.fst

/-- `captureTuple(value)` -/
def captureTuple (value : List (String × String)) : Except (Stop φ) (List (String × String)) := do
  require (∀ p ∈ value, p.1 ∈ tupleKeys) (Stop.failed .invalidReadRequest)
  require (∀ key ∈ tupleKeys, (value.lookup key).any (· ≠ "")) (Stop.failed .invalidReadRequest)
  return value

/-- `captureLimits(value)` -/
def captureLimits (value : Limits) : Except (Stop φ) Limits := do
  require (0 < value.maxMembers ∧ value.maxMembers ≤ limits.maxMembers) (Stop.failed .invalidLimits)
  require (0 < value.maxTotalSourceBytes ∧ value.maxTotalSourceBytes ≤ limits.maxTotalSourceBytes)
    (Stop.failed .invalidLimits)
  return value

/-- `captureMemberSource(value, index, remaining)`, where `known` tells the credentials that the
native admission knows. -/
def captureMemberSource (known : κ → Bool) (remaining : ℕ) (value : Option (Source κ)) :
    Except (Stop φ) (Source κ) := do
  let source ← orFail (.failed .invalidMemberSource) value
  require (identifier source.memberId ∧ known source.credentials) (Stop.failed .invalidMemberSource)
  require (source.bytes.length ≤ remaining) (Stop.failed .sourceBytesLimitExceeded)
  return source

/-- The captured sources, below a total of octets. -/
def captureSources (known : κ → Bool) : ℕ → List (Option (Source κ)) →
    Except (Stop φ) (List (Source κ))
  | _, [] => .ok []
  | remaining, value :: values => do
    let source ← captureMemberSource known remaining value
    return source :: (← captureSources known (remaining - source.bytes.length) values)

/-- The checks on the limits, the operation and the counts, which come first. -/
def captureCounts (input : AdmissionInput κ) : Except (Stop φ) (Limits × Operation) := do
  let limits ← captureLimits input.limits
  let operation ← orFail (.failed .invalidReadRequest) input.operation
  require (input.members.length ≤ limits.maxMembers) (Stop.failed .memberLimitExceeded)
  require (input.set.members.length ≤ limits.maxMembers) (Stop.failed .memberLimitExceeded)
  return (limits, operation)

/-- `captureAdmissionInput(input)` of `package-set-admission.js`. -/
def captureAdmissionInput (input : AdmissionInput Unit) : Except (Stop φ) (Captured Unit) := do
  let (limits, operation) ← captureCounts input
  let sources ← captureSources (fun _ => true) limits.maxTotalSourceBytes input.members
  let set ← capturePackageSet (.failed .invalidReadRequest) input.set
  let tuple ← captureTuple input.tuple
  return ⟨set, tuple, operation, sources⟩

/-- `captureAdmissionInput(input)` of `native-package-set-admission.js`. -/
def nativeCaptureAdmissionInput (known : κ → Bool) (input : AdmissionInput κ) :
    Except (Stop φ) (Captured κ) := do
  let (limits, operation) ← captureCounts input
  let set ← capturePackageSet (.rejected .readInputInvalid) input.set
  let tuple ← captureTuple input.tuple
  let sources ← captureSources known limits.maxTotalSourceBytes input.members
  return ⟨set, tuple, operation, sources⟩

end Inputs

section Observations

/-- The decision of a row. -/
inductive RowDecision
  | allow
  | deny
  deriving DecidableEq, Repr

/-- A row of an observation; `none` stands for a decision of another name. -/
structure ObservationRow where
  member : Member
  decision : Option RowDecision
  decisionId : String
  hostId : String
  hostEpoch : String
  issuedAt : ℕ
  expiresAt : ℕ
  currentMs : ℕ

/-- What a provider returns: it throws, it returns no list of decisions, or it returns rows, of
which `none` is no plain record. -/
inductive Observation
  | thrown
  | invalid
  | decisions (rows : List (Option ObservationRow))

/-- The rows of an observation. -/
def Observation.rows : Observation → List (Option ObservationRow)
  | .decisions rows => rows
  | _ => []

/-- The state of a member provider. -/
structure ProviderState where
  hostId : String
  hostEpoch : String
  currentMs : Option ℕ

/-- `Number.MAX_SAFE_INTEGER` -/
def maxSafeInteger : ℕ := 2 ^ 53 - 1

/-- One row: the checks of the loop in `captureObservation`, up to the identity of the row. -/
def observeRow (state : ProviderState) (declared : Member → Bool) (seen : List String)
    (candidate : Option ObservationRow) : Except LocalFailure (ObservationRow × String) := do
  let row ← orFail .providerObservationInvalid candidate
  let m := row.member
  require (∀ s ∈ [m.memberId, m.assetId, row.hostId, row.hostEpoch, row.decisionId, m.assetVersion],
    identifier s) LocalFailure.providerObservationInvalid
  require (isDigest m.a ∧ row.decision.isSome) LocalFailure.providerObservationInvalid
  require (∀ t ∈ [row.issuedAt, row.expiresAt, row.currentMs], t ≤ maxSafeInteger)
    LocalFailure.providerObservationInvalid
  require (row.issuedAt ≤ row.currentMs ∧ row.currentMs < row.expiresAt)
    LocalFailure.providerObservationInvalid
  require (row.hostId = state.hostId ∧ row.hostEpoch = state.hostEpoch)
    LocalFailure.providerObservationInvalid
  require (∀ last ∈ state.currentMs, last ≤ row.currentMs) LocalFailure.providerObservationInvalid
  let identity ← (canonicalJson (.arr ([m.memberId, m.assetId, m.assetVersion, m.a].map .str))).mapError
    fun _ => .providerObservationInvalid
  require (identity ∉ seen ∧ declared m) LocalFailure.providerObservationInvalid
  return (row, identity)

/-- The loop of `captureObservation`; the clock of the provider moves also where it fails. -/
def observeRows (declared : Member → Bool) : ProviderState → List String →
    List (Option ObservationRow) → ProviderState × Except LocalFailure (List ObservationRow)
  | state, _, [] => (state, .ok [])
  | state, seen, candidate :: candidates =>
    match observeRow state declared seen candidate with
    | .error e => (state, .error e)
    | .ok (row, identity) =>
      let (state', rest) :=
        observeRows declared { state with currentMs := some row.currentMs } (identity :: seen) candidates
      (state', (row :: ·) <$> rest)

/-- `captureObservation(state, set, operation, phase)`, on what the provider returns. -/
def captureObservation (state : ProviderState) (set : PackageSet) (observation : Observation) :
    ProviderState × Except LocalFailure (List ObservationRow) :=
  match observation with
  | .thrown => (state, .error .providerFailed)
  | .invalid => (state, .error .providerObservationInvalid)
  | .decisions rows =>
    if rows.length ≤ limits.maxMembers then
      observeRows (fun m => decide (m ∈ set.members)) state [] rows
    else (state, .error .providerObservationInvalid)

end Observations

end Kdna.Packages

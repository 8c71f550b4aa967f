import Kdna.Packages.Capture

/-!
# Admission of a package set

`decidePackageSet` and the two admissions around it: `admit` of `package-set-admission.js`, which
fills the rows of refused members in from the declared data, and `admit` of
`native-package-set-admission.js`, which stops at a refused member.
-/

namespace Kdna.Packages

open Value Ir

/-- The tuples that a decision knows: its own one and the historical ones. -/
structure Tuples where
  own : List (String × String)
  historical : List (List (String × String))

/-- What a decision reads of an admitted member; `core` is `core === 'valid'`. -/
structure AdmittedRow where
  memberId : String
  a : String
  assetId : String
  assetVersion : String
  core : Bool
  judgmentIds : List String
  deriving DecidableEq

/-- What an admission reads of a snapshot. -/
structure View where
  a : String
  assetId : String
  assetVersion : String
  judgmentIds : List String

/-- The row of an admitted member. -/
def View.row (v : View) (memberId : String) : AdmittedRow :=
  ⟨memberId, v.a, v.assetId, v.assetVersion, true, v.judgmentIds⟩

section Decisions

variable {φ : Type}

/-- The checks on authorization and on the ids, which come first. -/
def checkMembers (set : PackageSet) (admitted : List String) (grants : List Member) :
    Except (Stop φ) Unit := do
  let ids := set.members.map Member.memberId
  require (∀ m ∈ set.members, m ∈ grants) (Stop.rejected .setMemberUnauthorized)
  require (∀ id ∈ ids, id ∈ admitted) (Stop.rejected .setMemberMissing)
  require (∀ id ∈ admitted, id ∈ ids) (Stop.rejected .setMemberExtra)
  require (ids.Nodup ∧ admitted.Nodup) (Stop.rejected .setMemberDuplicate)

/-- The check on the tuple. -/
def checkTuple (tuples : Tuples) (tuple : List (String × String)) : Except (Stop φ) Unit := do
  let text ← (canonicalJson (textRecord tuple)).mapError fun _ => Stop.failed .coreUnavailable
  let isText := fun shape => decide (String.ofList (canonicalText (textRecord shape)) = text)
  let mixed := tuples.own.any fun p => p.1 ≠ "payload_profile" && tuple.lookup p.1 = some p.2
  require (isText tuples.own) (Stop.rejected
    (if tuples.historical.any isText then .readUnsupportedVersion
    else if mixed then .readMixedVersionTuple
    else .readUnsupportedVersion))

/-- Whether a row is valid and shows the declared identity. -/
def AdmittedRow.agrees (row : AdmittedRow) (m : Member) : Bool :=
  row.core && decide (row.a = m.a ∧ row.assetId = m.assetId ∧ row.assetVersion = m.assetVersion)

/-- `admitted.find(a => a.member_id === id)` -/
def rowFor (admitted : List AdmittedRow) (id : String) : Option AdmittedRow :=
  admitted.find? fun row => row.memberId = id

/-- `matches`: the member of each occurrence of the selected judgment. -/
def occurrences (selection : Selection) (admitted : List AdmittedRow) : List String :=
  (admitted.filter fun row =>
      row.assetId = selection.assetId && row.assetVersion = selection.assetVersion).flatMap
    fun row => (row.judgmentIds.filter (· = selection.judgmentId)).map fun _ => row.memberId

/-- The checks on the admitted members and on the selection, which come last. -/
def checkSelected (set : PackageSet) (admitted : List AdmittedRow) (operation : Operation) :
    Except (Stop φ) String := do
  require (∀ m ∈ set.members, (rowFor admitted m.memberId).any (·.agrees m))
    (Stop.rejected .readCoreInvalid)
  require (operation = .isolatedRead) (Stop.rejected .unsupportedMerge)
  match occurrences set.selection admitted with
  | [id] => return id
  | [] => .error (.rejected .readSelectionNotFound)
  | _ => .error (.rejected .readSelectionAmbiguous)

/-- `decidePackageSet(set, admitted, grants, operation, crossAssetReference)` -/
def decidePackageSet (tuples : Tuples) (set : PackageSet) (tuple : List (String × String))
    (admitted : List AdmittedRow) (grants : List Member) (operation : Operation) :
    Except (Stop φ) String := do
  checkMembers set (admitted.map AdmittedRow.memberId) grants
  checkTuple tuples tuple
  checkSelected set admitted operation

/-- A member of the native admission: the view of its snapshot, or the result that refused it. -/
structure NativeRow (φ : Type) where
  memberId : String
  outcome : Except φ View

/-- The row of a member, or the stop at its refusal. -/
def NativeRow.settled (row : NativeRow φ) : Except (Stop φ) AdmittedRow :=
  match row.outcome with
  | .ok v => .ok (v.row row.memberId)
  | .error result => .error (.member row.memberId result)

/-- `decide(set, tuple, admitted, rows, operation)` of `native-package-set-admission.js`. -/
def nativeDecide (tuples : Tuples) (set : PackageSet) (tuple : List (String × String))
    (admitted : List (NativeRow φ)) (grants : List Member) (operation : Operation) :
    Except (Stop φ) String := do
  checkMembers set (admitted.map NativeRow.memberId) grants
  checkTuple tuples tuple
  let settled ← admitted.mapM NativeRow.settled
  checkSelected set settled operation

end Decisions

/-- The record of an admission: what `inspectAdmission` shows of it. -/
structure Admission (σ : Type) where
  set : PackageSet
  tuple : List (String × String)
  operation : Operation
  members : List (String × σ)
  selectedMember : String × σ

section Admissions

variable {φ κ σ : Type}

/-- The allowed identities of an observation. -/
def grantsOf (rows : List ObservationRow) : List Member :=
  (rows.filter fun row => row.decision = some .allow).map ObservationRow.member

/-- What both admissions do first: the brand of the provider and its observation. -/
def observed (set : PackageSet) (provider : Option ProviderState) (observation : Observation) :
    Except (Stop φ) (List Member) := do
  let state ← orFail (.failed .providerInvalid) provider
  let rows ← (captureObservation state set observation).2.mapError Stop.failed
  return grantsOf rows

/-- What `package-set-admission.js` calls: the admission of bytes, and the view of a snapshot with
Core's brand. -/
structure Core (σ : Type) where
  tuples : Tuples
  admitNode : Bytes → Option σ
  inspectSnapshot : σ → Option View

/-- The view of the snapshot that the bytes are admitted to. -/
def Core.view (core : Core σ) (bytes : Bytes) : Option View :=
  (core.admitNode bytes).bind core.inspectSnapshot

/-- The row of a source: that of its view, or one filled in from the member declared at its index. -/
def admittedRow (core : Core σ) (set : PackageSet) (index : ℕ) (source : Source κ) : AdmittedRow :=
  match core.view source.bytes with
  | some v => v.row source.memberId
  | none =>
    let declared := set.members[index]?
    ⟨source.memberId, (declared.map Member.a).getD source.memberId,
      (declared.map Member.assetId).getD source.memberId,
      (declared.map Member.assetVersion).getD source.memberId, false, []⟩

/-- `admit(input, provider)` of `package-set-admission.js`. -/
def admitPackageSet (core : Core σ) (input : AdmissionInput Unit) (provider : Option ProviderState)
    (observation : Observation) : Except (Stop Empty) (Admission σ) := do
  let captured ← captureAdmissionInput input
  let grants ← observed captured.set provider observation
  let admitted := captured.sources.mapIdx (admittedRow core captured.set)
  let member ← decidePackageSet core.tuples captured.set captured.tuple admitted grants
    captured.operation
  let snapshots := captured.sources.map fun source => core.admitNode source.bytes
  let snapshot ← orFail (.rejected .readCoreInvalid)
    ((admitted.zip snapshots).findSome? fun p => if p.1.memberId = member then p.2 else none)
  let members := captured.sources.filterMap fun source =>
    (core.admitNode source.bytes).map (source.memberId, ·)
  return ⟨captured.set, captured.tuple, captured.operation, members, (member, snapshot)⟩

/-- What `native-package-set-admission.js` calls: the credentials that it knows, the admission of
the sections, which throws or yields a snapshot or a refusal, and the view of a snapshot whose
whole graph is verified. -/
structure NativeCore (κ φ σ : Type) where
  tuples : Tuples
  known : κ → Bool
  admitSection : Bytes → κ → Except Unit (Except φ σ)
  inspectSnapshot : σ → Option View

/-- The row of a source, with its snapshot. -/
def nativeRow (core : NativeCore κ φ σ) (source : Source κ) :
    Except (Stop φ) (NativeRow φ × Option σ) :=
  match core.admitSection source.bytes source.credentials with
  | .error () => .error (.failed .coreUnavailable)
  | .ok (.error result) => .ok (⟨source.memberId, .error result⟩, none)
  | .ok (.ok snapshot) => do
    let v ← orFail (.failed .coreUnavailable) (core.inspectSnapshot snapshot)
    return (⟨source.memberId, .ok v⟩, some snapshot)

/-- `admit(input, provider)` of `native-package-set-admission.js`. -/
def nativeAdmit (core : NativeCore κ φ σ) (input : AdmissionInput κ)
    (provider : Option ProviderState) (observation : Observation) :
    Except (Stop φ) (Admission σ) := do
  let captured ← nativeCaptureAdmissionInput core.known input
  let grants ← observed captured.set provider observation
  let results ← captured.sources.mapM (nativeRow core)
  let member ← nativeDecide core.tuples captured.set captured.tuple (results.map Prod.fst) grants
    captured.operation
  let members := results.filterMap fun r => r.2.map (r.1.memberId, ·)
  let selected ← orFail (.failed .coreUnavailable) (members.find? fun m => m.1 = member)
  return ⟨captured.set, captured.tuple, captured.operation, members, selected⟩

end Admissions

end Kdna.Packages

import Kdna.Data.Reorder
import Kdna.Packages.Admission

/-!
# Admission does not depend on an order

Neither admission of a package set depends on the order of the declared members or of the
sources: both orders are admitted with the same selected member and the same snapshot, or both
are refused alike.
-/

namespace Kdna.Packages

open Value Ir

/-- The failures of a source: which one is met first depends on the order. -/
def sourceFaults : List LocalFailure := [.invalidMemberSource, .sourceBytesLimitExceeded]

/-- Stops of one verdict. Where several sources are faulty, or several members are refused, the
first of them is named. -/
inductive Stop.Alike {φ : Type} : Stop φ → Stop φ → Prop
  | refl (s : Stop φ) : Stop.Alike s s
  | source {c c' : LocalFailure} (h : c ∈ sourceFaults) (h' : c' ∈ sourceFaults) :
    Stop.Alike (.failed c) (.failed c')
  | member (id id' : String) (result result' : φ) :
    Stop.Alike (.member id result) (.member id' result')

variable {φ κ σ : Type}

/-- The same set with its members in another order. -/
structure PackageSet.Reordered (set set' : PackageSet) : Prop where
  setId : set.setId = set'.setId
  members : set.members.Perm set'.members
  selection : set.selection = set'.selection

/-- The same input with its declared members and its sources in another order. -/
structure AdmissionInput.Reordered (input input' : AdmissionInput κ) : Prop where
  setId : input.set.setId = input'.set.setId
  declared : input.set.members.Perm input'.set.members
  selection : input.set.selection = input'.set.selection
  tuple : input.tuple = input'.tuple
  operation : input.operation = input'.operation
  limits : input.limits = input'.limits
  members : input.members.Perm input'.members

/-- The same captured input in another order. -/
structure Captured.Reordered (captured captured' : Captured κ) : Prop where
  set : captured.set.Reordered captured'.set
  tuple : captured.tuple = captured'.tuple
  operation : captured.operation = captured'.operation
  sources : captured.sources.Perm captured'.sources

section Captures

variable {known : κ → Bool}

theorem capturePackageMember_eq_error {value : Option Member} {stop : Stop φ}
    (h : capturePackageMember value = .error stop) : stop = .rejected .readInputInvalid := by
  cases value with
  | none => exact (Except.error.inj h).symm
  | some m =>
    simp only [capturePackageMember, orFail, ok_bind, require] at h
    split_ifs at h
    · cases h
    · exact (Except.error.inj h).symm

/-- The set is captured in the order in which it is declared. -/
theorem capturePackageSet_reordered {badId : Stop φ} {raw raw' : RawSet}
    (hid : raw.setId = raw'.setId) (hmembers : raw.members.Perm raw'.members)
    (hselection : raw.selection = raw'.selection) :
    Agree Stop.Alike PackageSet.Reordered (capturePackageSet badId raw)
      (capturePackageSet badId raw') := by
  have hcaptured : Agree Stop.Alike List.Perm
      (raw.members.mapM (capturePackageMember (φ := φ))) (raw'.members.mapM capturePackageMember) := by
    refine agree_mapM_perm hmembers fun a _ a' _ e e' he he' => ?_
    rw [capturePackageMember_eq_error he, capturePackageMember_eq_error he']
    exact .refl _
  refine hcaptured.bind fun members members' _ _ hperm => ?_
  rw [hselection, hid, require_congr (by rw [hperm.length_eq])]
  refine .bind_same .refl fun selection _ => .bind_same .refl fun _ _ => .bind_same .refl fun _ _ => ?_
  exact ⟨rfl, hperm, rfl⟩

/-- A source that can be captured. -/
def Source.Known (known : κ → Bool) (source : Source κ) : Prop :=
  identifier source.memberId = true ∧ known source.credentials = true

/-- Sources are captured when each can be and their octets stay below the total. -/
theorem captureSources_eq_ok_iff {remaining : ℕ} {values : List (Option (Source κ))}
    {sources : List (Source κ)} :
    captureSources (φ := φ) known remaining values = .ok sources ↔
      values = sources.map some ∧ (∀ s ∈ sources, s.Known known) ∧
        (sources.map fun s => s.bytes.length).sum ≤ remaining := by
  induction values generalizing remaining sources with
  | nil =>
    rw [captureSources, Except.ok.injEq]
    constructor
    · rintro rfl
      simp
    · rintro ⟨hnil, -, -⟩
      exact (List.map_eq_nil_iff.mp hnil.symm).symm
  | cons value values ih =>
    simp only [captureSources, captureMemberSource, bind_eq_ok_iff, orFail_eq_ok_iff,
      require_eq_ok_iff, pure_eq_ok, Except.ok.injEq, exists_const, ih]
    constructor
    · rintro ⟨source, ⟨_, rfl, hknown, hle, rfl⟩, rest, ⟨rfl, hrest, hsum⟩, rfl⟩
      refine ⟨rfl, List.forall_mem_cons.mpr ⟨hknown, hrest⟩, ?_⟩
      rw [List.map_cons, List.sum_cons]
      omega
    · rintro ⟨hvalues, hknown, hsum⟩
      cases sources with
      | nil => exact absurd hvalues (by simp)
      | cons source rest =>
        obtain ⟨rfl, rfl⟩ := List.cons.inj hvalues
        rw [List.map_cons, List.sum_cons] at hsum
        rw [List.forall_mem_cons] at hknown
        exact ⟨source, ⟨source, rfl, hknown.1, by omega, rfl⟩, rest, ⟨rfl, hknown.2, by omega⟩, rfl⟩

theorem captureMemberSource_eq_error {remaining : ℕ} {value : Option (Source κ)} {stop : Stop φ}
    (h : captureMemberSource known remaining value = .error stop) :
    ∃ c ∈ sourceFaults, stop = .failed c := by
  cases value with
  | none => exact ⟨_, by simp [sourceFaults], (Except.error.inj h).symm⟩
  | some source =>
    simp only [captureMemberSource, orFail, ok_bind, require] at h
    split_ifs at h
    · cases h
    · exact ⟨_, by simp [sourceFaults], (Except.error.inj h).symm⟩
    · exact ⟨_, by simp [sourceFaults], (Except.error.inj h).symm⟩
    · exact ⟨_, by simp [sourceFaults], (Except.error.inj h).symm⟩

theorem captureSources_eq_error {remaining : ℕ} {values : List (Option (Source κ))} {stop : Stop φ}
    (h : captureSources known remaining values = .error stop) :
    ∃ c ∈ sourceFaults, stop = .failed c := by
  induction values generalizing remaining with
  | nil => exact nomatch h
  | cons value values ih =>
    rw [captureSources] at h
    cases hvalue : captureMemberSource (φ := φ) known remaining value with
    | error stop' =>
      rw [hvalue] at h
      exact Except.error.inj h ▸ captureMemberSource_eq_error hvalue
    | ok source =>
      rw [hvalue, ok_bind] at h
      cases hrest : captureSources (φ := φ) known (remaining - source.bytes.length) values with
      | error stop' =>
        rw [hrest] at h
        exact ih (hrest.trans (congrArg _ (Except.error.inj h)))
      | ok rest =>
        rw [hrest] at h
        exact nomatch h

/-- The sources are captured in the order in which they are given. -/
theorem captureSources_reordered {remaining : ℕ} {values values' : List (Option (Source κ))}
    (h : values.Perm values') :
    Agree (Stop.Alike (φ := φ)) List.Perm (captureSources known remaining values)
      (captureSources known remaining values') := by
  have hforward {values values' : List (Option (Source κ))} (h : values.Perm values')
      {sources : List (Source κ)} (hok : captureSources (φ := φ) known remaining values = .ok sources) :
      ∃ sources', captureSources (φ := φ) known remaining values' = .ok sources' ∧
        sources.Perm sources' := by
    obtain ⟨rfl, hknown, hsum⟩ := captureSources_eq_ok_iff.mp hok
    obtain ⟨sources', hsources', hperm⟩ :=
      exists_mapM_perm h ((mapM_orFail_eq_ok_iff (e := ())).mpr rfl)
    refine ⟨sources', captureSources_eq_ok_iff.mpr ⟨mapM_orFail_eq_ok_iff.mp hsources',
      fun s hs => hknown s (hperm.mem_iff.mpr hs), ?_⟩, hperm⟩
    rwa [← (hperm.map fun s => s.bytes.length).sum_eq]
  cases hok : captureSources (φ := φ) known remaining values with
  | ok sources =>
    obtain ⟨sources', hok', hperm⟩ := hforward h hok
    rw [hok']
    exact hperm
  | error stop =>
    cases hok' : captureSources (φ := φ) known remaining values' with
    | ok sources' =>
      obtain ⟨sources, hok'', -⟩ := hforward h.symm hok'
      rw [hok] at hok''
      exact nomatch hok''
    | error stop' =>
      obtain ⟨c, hc, rfl⟩ := captureSources_eq_error hok
      obtain ⟨c', hc', rfl⟩ := captureSources_eq_error hok'
      exact .source hc hc'

theorem captureCounts_reordered {input input' : AdmissionInput κ} (h : input.Reordered input') :
    captureCounts (φ := φ) input = captureCounts input' := by
  simp only [captureCounts, h.limits, h.operation, h.members.length_eq, h.declared.length_eq]

theorem captureAdmissionInput_reordered {input input' : AdmissionInput Unit}
    (h : input.Reordered input') :
    Agree (Stop.Alike (φ := φ)) Captured.Reordered (captureAdmissionInput input)
      (captureAdmissionInput input') := by
  rw [captureAdmissionInput, captureAdmissionInput, captureCounts_reordered h, h.tuple]
  refine .bind_same .refl fun counts _ => ?_
  refine (captureSources_reordered h.members).bind fun sources sources' _ _ hsources => ?_
  refine (capturePackageSet_reordered h.setId h.declared h.selection).bind fun set set' _ _ hset => ?_
  exact .bind_same .refl fun tuple _ => ⟨hset, rfl, rfl, hsources⟩

theorem nativeCaptureAdmissionInput_reordered {input input' : AdmissionInput κ}
    (h : input.Reordered input') :
    Agree (Stop.Alike (φ := φ)) Captured.Reordered (nativeCaptureAdmissionInput known input)
      (nativeCaptureAdmissionInput known input') := by
  rw [nativeCaptureAdmissionInput, nativeCaptureAdmissionInput, captureCounts_reordered h, h.tuple]
  refine .bind_same .refl fun counts _ => ?_
  refine (capturePackageSet_reordered h.setId h.declared h.selection).bind fun set set' _ _ hset => ?_
  refine .bind_same .refl fun tuple _ => ?_
  exact (captureSources_reordered h.members).bind fun sources sources' _ _ hsources =>
    ⟨hset, rfl, rfl, hsources⟩

end Captures

section Decisions

variable {set set' : PackageSet}

/-- An observation reads the declared members as a set. -/
theorem observed_reordered (h : set.Reordered set') (provider : Option ProviderState)
    (observation : Observation) :
    observed (φ := φ) set provider observation = observed set' provider observation := by
  have hdeclared : (fun m => decide (m ∈ set.members)) = fun m => decide (m ∈ set'.members) := by
    funext m
    rw [decide_eq_decide]
    exact h.members.mem_iff
  have hcapture (state : ProviderState) :
      captureObservation state set observation = captureObservation state set' observation := by
    simp only [captureObservation, hdeclared]
  simp only [observed, hcapture]

theorem checkMembers_reordered (h : set.Reordered set') {admitted admitted' : List String}
    (hadmitted : admitted.Perm admitted') (grants : List Member) :
    checkMembers (φ := φ) set admitted grants = checkMembers set' admitted' grants := by
  have hids := h.members.map Member.memberId
  simp only [checkMembers]
  rw [require_congr (forall_congr' fun m => imp_congr_left h.members.mem_iff),
    require_congr (forall_congr' fun id => imp_congr hids.mem_iff hadmitted.mem_iff),
    require_congr (forall_congr' fun id => imp_congr hadmitted.mem_iff hids.mem_iff),
    require_congr (and_congr hids.nodup_iff hadmitted.nodup_iff)]

theorem rowFor_eq_some_iff {admitted : List AdmittedRow}
    (hnodup : (admitted.map AdmittedRow.memberId).Nodup) {id : String} {row : AdmittedRow} :
    rowFor admitted id = some row ↔ row ∈ admitted ∧ row.memberId = id :=
  find?_key_eq_some_iff hnodup

/-- The last checks read the admitted rows as a set without repetition. -/
theorem checkSelected_reordered (h : set.Reordered set') {admitted admitted' : List AdmittedRow}
    (hadmitted : admitted.Perm admitted') (hnodup : (admitted.map AdmittedRow.memberId).Nodup)
    (operation : Operation) :
    checkSelected (φ := φ) set admitted operation = checkSelected set' admitted' operation := by
  have hrow (id : String) : rowFor admitted id = rowFor admitted' id :=
    find?_key_perm hnodup hadmitted
  have hoccurrences : (occurrences set.selection admitted).Perm
      (occurrences set'.selection admitted') := by
    rw [h.selection]
    exact (hadmitted.filter _).flatMap_right _
  simp only [checkSelected, hrow]
  rw [require_congr (forall_congr' fun m => imp_congr_left h.members.mem_iff)]
  congr 1
  funext _
  congr 1
  funext _
  generalize occurrences set.selection admitted = l at hoccurrences
  generalize occurrences set'.selection admitted' = l' at hoccurrences
  rcases l with _ | ⟨a, _ | ⟨b, l⟩⟩
  · rw [List.nil_perm.mp hoccurrences]
  · rw [List.singleton_perm.mp hoccurrences]
  · have hlength := hoccurrences.length_eq
    rcases l' with _ | ⟨a', _ | ⟨b', l'⟩⟩
    · cases hlength
    · cases hlength
    · rfl

/-- What the checks on the members establish. -/
theorem checkMembers_spec {admitted : List String} {grants : List Member}
    (h : checkMembers (φ := φ) set admitted grants = .ok ()) :
    (∀ m ∈ set.members, m ∈ grants) ∧ admitted.Perm (set.members.map Member.memberId) ∧
      admitted.Nodup := by
  simp only [checkMembers, bind_eq_ok_iff, require_eq_ok_iff, exists_const] at h
  obtain ⟨hgrants, hmissing, hextra, hids, hadmitted⟩ := h
  exact ⟨hgrants, (List.perm_ext_iff_of_nodup hadmitted hids).mpr fun id => ⟨hextra id, hmissing id⟩,
    hadmitted⟩

/-- A decision on reordered rows. -/
theorem decidePackageSet_reordered (tuples : Tuples) (h : set.Reordered set')
    (tuple : List (String × String)) {admitted admitted' : List AdmittedRow}
    (hadmitted : admitted.Perm admitted') (grants : List Member) (operation : Operation) :
    decidePackageSet (φ := φ) tuples set tuple admitted grants operation =
      decidePackageSet tuples set' tuple admitted' grants operation := by
  rw [decidePackageSet, decidePackageSet, ← checkMembers_reordered h (hadmitted.map _)]
  cases hchecked : checkMembers (φ := φ) set (admitted.map AdmittedRow.memberId) grants with
  | error stop => rfl
  | ok _ =>
    rw [ok_bind, ok_bind,
      checkSelected_reordered h hadmitted (checkMembers_spec hchecked).2.2 operation]

/-- Rows with one that is not valid are refused, whatever the rest of it shows. -/
theorem decidePackageSet_invalid (tuples : Tuples) (tuple : List (String × String))
    {admitted : List AdmittedRow} (hinvalid : ∃ row ∈ admitted, row.core = false)
    (grants : List Member) (operation : Operation) :
    decidePackageSet (φ := φ) tuples set tuple admitted grants operation =
      checkMembers set (admitted.map AdmittedRow.memberId) grants >>= fun _ =>
        checkTuple tuples tuple >>= fun _ => .error (.rejected .readCoreInvalid) := by
  rw [decidePackageSet]
  cases hchecked : checkMembers (φ := φ) set (admitted.map AdmittedRow.memberId) grants with
  | error stop => rfl
  | ok _ =>
    obtain ⟨-, hperm, hnodup⟩ := checkMembers_spec hchecked
    obtain ⟨row, hrow, hcore⟩ := hinvalid
    obtain ⟨m, hm, hid⟩ := List.mem_map.mp (hperm.mem_iff.mp (List.mem_map_of_mem hrow))
    have hfound : rowFor admitted m.memberId = some row :=
      (rowFor_eq_some_iff hnodup).mpr ⟨hrow, hid.symm⟩
    have hrefused : ¬ ∀ m ∈ set.members, (rowFor admitted m.memberId).any (·.agrees m) = true := by
      intro hall
      have hagrees := hall m hm
      rw [hfound, Option.any_some, AdmittedRow.agrees, hcore] at hagrees
      exact nomatch hagrees
    simp only [checkSelected, require, if_neg hrefused, error_bind]

theorem settled_eq_ok_iff {row : NativeRow φ} {settled : AdmittedRow} :
    row.settled = .ok settled ↔ ∃ v, row.outcome = .ok v ∧ settled = v.row row.memberId := by
  rw [NativeRow.settled]
  cases row.outcome with
  | ok v => simp [eq_comm]
  | error result => simp

/-- Settled rows keep the ids. -/
theorem map_memberId_settled {admitted : List (NativeRow φ)} {settled : List AdmittedRow}
    (h : admitted.mapM NativeRow.settled = .ok settled) :
    settled.map AdmittedRow.memberId = admitted.map NativeRow.memberId := by
  have hrows := mapM_eq_ok_iff.mp h
  induction hrows with
  | nil => rfl
  | cons hrow _ ih =>
    obtain ⟨v, -, rfl⟩ := settled_eq_ok_iff.mp hrow
    rw [List.map_cons, List.map_cons, ih (mapM_eq_ok_iff.mpr ‹_›)]
    rfl

/-- The native decision on reordered rows: where members were refused, some one is named. -/
theorem nativeDecide_reordered (tuples : Tuples) (h : set.Reordered set')
    (tuple : List (String × String)) {admitted admitted' : List (NativeRow φ)}
    (hadmitted : admitted.Perm admitted') (grants : List Member) (operation : Operation) :
    Agree Stop.Alike (· = ·) (nativeDecide tuples set tuple admitted grants operation)
      (nativeDecide tuples set' tuple admitted' grants operation) := by
  rw [nativeDecide, nativeDecide, ← checkMembers_reordered h (hadmitted.map _)]
  refine .bind_same .refl fun _ hchecked => .bind_same .refl fun _ _ => ?_
  have hsettled : Agree Stop.Alike List.Perm (admitted.mapM NativeRow.settled)
      (admitted'.mapM NativeRow.settled) := by
    refine agree_mapM_perm hadmitted fun row _ row' _ stop stop' hstop hstop' => ?_
    rw [NativeRow.settled] at hstop hstop'
    split at hstop
    · exact nomatch hstop
    · split at hstop'
      · exact nomatch hstop'
      · rw [← Except.error.inj hstop, ← Except.error.inj hstop']
        exact .member _ _ _ _
  refine hsettled.bind fun settled settled' hok _ hperm => ?_
  refine .of_eq .refl (fun _ => rfl) (checkSelected_reordered h hperm ?_ operation)
  rw [map_memberId_settled hok]
  exact (checkMembers_spec hchecked).2.2

end Decisions

/-- Admissions that select the same member with the same snapshot. -/
def Admission.SameSelection (a a' : Admission σ) : Prop := a.selectedMember = a'.selectedMember

section Admissions

variable {set set' : PackageSet}

theorem memberId_admittedRow (core : Core σ) (set : PackageSet) (index : ℕ) (source : Source κ) :
    (admittedRow core set index source).memberId = source.memberId := by
  rw [admittedRow]
  split <;> rfl

theorem map_memberId_admitted (core : Core σ) (set : PackageSet) (sources : List (Source κ)) :
    (sources.mapIdx (admittedRow core set)).map AdmittedRow.memberId = sources.map Source.memberId := by
  refine List.ext_getElem? fun i => ?_
  rw [List.getElem?_map, List.getElem?_mapIdx, List.getElem?_map, Option.map_map]
  refine congrArg (Option.map · sources[i]?) (funext fun source => ?_)
  exact memberId_admittedRow core set i source

/-- Where every member is admitted, no row is filled in and its index does not matter. -/
theorem admitted_eq_map (core : Core σ) (set : PackageSet) {sources : List (Source κ)}
    (hviews : ∀ source ∈ sources, (core.view source.bytes).isSome = true) :
    sources.mapIdx (admittedRow core set) = sources.map (admittedRow core set 0) := by
  refine List.ext_getElem? fun i => ?_
  rw [List.getElem?_mapIdx, List.getElem?_map]
  refine Option.map_congr fun source hsource => ?_
  obtain ⟨v, hv⟩ := Option.isSome_iff_exists.mp (hviews source (List.mem_of_getElem? hsource))
  rw [admittedRow, admittedRow, hv]

/-- A refused member leaves a row that is not valid. -/
theorem exists_invalid {core : Core σ} {sources : List (Source κ)}
    (hviews : ¬ ∀ source ∈ sources, (core.view source.bytes).isSome = true) :
    ∃ row ∈ sources.mapIdx (admittedRow core set), row.core = false := by
  push Not at hviews
  obtain ⟨source, hsource, hnone⟩ := hviews
  obtain ⟨i, hi⟩ := List.mem_iff_getElem?.mp hsource
  refine ⟨admittedRow core set i source, ?_, ?_⟩
  · refine List.mem_of_getElem? (i := i) ?_
    rw [List.getElem?_mapIdx, hi]
    rfl
  · rw [admittedRow, Option.not_isSome_iff_eq_none.mp hnone]

/-- The decision on the rows of the sources, in another order. -/
theorem decide_admitted_reordered (core : Core σ) (h : set.Reordered set')
    (tuple : List (String × String)) {sources sources' : List (Source κ)}
    (hsources : sources.Perm sources') (grants : List Member) (operation : Operation) :
    decidePackageSet (φ := φ) core.tuples set tuple (sources.mapIdx (admittedRow core set)) grants
        operation =
      decidePackageSet core.tuples set' tuple (sources'.mapIdx (admittedRow core set')) grants
        operation := by
  by_cases hviews : ∀ source ∈ sources, (core.view source.bytes).isSome = true
  · have hviews' : ∀ source ∈ sources', (core.view source.bytes).isSome = true :=
      fun source hsource => hviews source (hsources.mem_iff.mpr hsource)
    have hrow : ∀ source ∈ sources', admittedRow core set' 0 source = admittedRow core set 0 source := by
      intro source hsource
      obtain ⟨v, hv⟩ := Option.isSome_iff_exists.mp (hviews' source hsource)
      rw [admittedRow, admittedRow, hv]
    rw [admitted_eq_map core set hviews, admitted_eq_map core set' hviews', List.map_congr_left hrow]
    exact decidePackageSet_reordered core.tuples h tuple (hsources.map _) grants operation
  · have hviews' : ¬ ∀ source ∈ sources', (core.view source.bytes).isSome = true :=
      fun hall => hviews fun source hsource => hall source (hsources.mem_iff.mp hsource)
    rw [decidePackageSet_invalid _ _ (exists_invalid hviews), decidePackageSet_invalid _ _ (exists_invalid hviews'),
      map_memberId_admitted, map_memberId_admitted,
      checkMembers_reordered h (hsources.map Source.memberId)]

/-- Rows that keep the ids of their sources, searched for an id. -/
theorem findSome?_zip_mapIdx {row : ℕ → Source κ → AdmittedRow}
    (hrow : ∀ i source, (row i source).memberId = source.memberId) (snapshot : Source κ → Option σ)
    (sources : List (Source κ)) (member : String) :
    ((sources.mapIdx row).zip (sources.map snapshot)).findSome?
        (fun p => if p.1.memberId = member then p.2 else none) =
      sources.findSome? fun source => if source.memberId = member then snapshot source else none := by
  induction sources generalizing row with
  | nil => rfl
  | cons source sources ih =>
    rw [List.mapIdx_cons, List.map_cons, List.zip_cons_cons, List.findSome?_cons,
      List.findSome?_cons, hrow, ih fun i => hrow (i + 1)]

/-- The admissions agree on a set and its sources in another order. -/
theorem admit_reordered (core : Core σ) {input input' : AdmissionInput Unit}
    (h : input.Reordered input') (provider : Option ProviderState) (observation : Observation) :
    Agree Stop.Alike Admission.SameSelection (admitPackageSet core input provider observation)
      (admitPackageSet core input' provider observation) := by
  refine (captureAdmissionInput_reordered h).bind fun captured captured' _ _ hcaptured => ?_
  rw [observed_reordered hcaptured.set]
  refine .bind_same .refl fun grants _ => ?_
  dsimp only
  rw [← hcaptured.tuple, ← hcaptured.operation,
    ← decide_admitted_reordered core hcaptured.set captured.tuple hcaptured.sources grants]
  refine .bind_same .refl fun member hmember => ?_
  obtain ⟨_, hchecked, -⟩ := bind_eq_ok_iff.mp hmember
  have hnodup : (captured.sources.map Source.memberId).Nodup := by
    rw [← map_memberId_admitted core captured.set]
    exact (checkMembers_spec hchecked).2.2
  rw [findSome?_zip_mapIdx (memberId_admittedRow core captured.set),
    findSome?_zip_mapIdx (memberId_admittedRow core captured'.set), findSome?_key hnodup,
    findSome?_key ((hcaptured.sources.map _).nodup_iff.mp hnodup),
    find?_key_perm hnodup hcaptured.sources]
  exact .bind_same .refl fun snapshot _ => rfl

theorem nativeRow_eq_error {core : NativeCore κ φ σ} {source : Source κ} {stop : Stop φ}
    (h : nativeRow core source = .error stop) : stop = .failed .coreUnavailable := by
  rw [nativeRow] at h
  split at h
  · exact (Except.error.inj h).symm
  · exact nomatch h
  · cases hview : core.inspectSnapshot ‹_› with
    | none =>
      rw [hview] at h
      exact (Except.error.inj h).symm
    | some v =>
      rw [hview] at h
      exact nomatch h

/-- The members with a snapshot are some of the rows. -/
theorem ids_sublist (rows : List (NativeRow φ × Option σ)) :
    ((rows.filterMap fun r => r.2.map (r.1.memberId, ·)).map Prod.fst).Sublist
      (rows.map fun r => r.1.memberId) := by
  induction rows with
  | nil => exact .slnil
  | cons r rows ih =>
    obtain ⟨row, snapshot⟩ := r
    cases snapshot with
    | none => exact ih.cons _
    | some snapshot => exact ih.cons_cons _

/-- The native admissions agree on a set and its sources in another order. -/
theorem nativeAdmit_reordered (core : NativeCore κ φ σ) {input input' : AdmissionInput κ}
    (h : input.Reordered input') (provider : Option ProviderState) (observation : Observation) :
    Agree Stop.Alike Admission.SameSelection (nativeAdmit core input provider observation)
      (nativeAdmit core input' provider observation) := by
  refine (nativeCaptureAdmissionInput_reordered h).bind fun captured captured' _ _ hcaptured => ?_
  rw [observed_reordered hcaptured.set]
  refine .bind_same .refl fun grants _ => ?_
  have hrows : Agree Stop.Alike List.Perm (captured.sources.mapM (nativeRow core))
      (captured'.sources.mapM (nativeRow core)) := by
    refine agree_mapM_perm hcaptured.sources fun _ _ _ _ stop stop' hstop hstop' => ?_
    rw [nativeRow_eq_error hstop, nativeRow_eq_error hstop']
    exact .refl _
  refine hrows.bind fun rows rows' _ _ hperm => ?_
  rw [← hcaptured.tuple, ← hcaptured.operation]
  refine (nativeDecide_reordered core.tuples hcaptured.set captured.tuple (hperm.map Prod.fst) grants
    captured.operation).bind fun member member' hmember _ hsame => ?_
  subst hsame
  dsimp only
  obtain ⟨_, hchecked, -⟩ := bind_eq_ok_iff.mp hmember
  have hmembers := hperm.filterMap fun r => r.2.map (r.1.memberId, ·)
  have hnodup : ((rows.filterMap fun r => r.2.map (r.1.memberId, ·)).map Prod.fst).Nodup := by
    have hids := (checkMembers_spec hchecked).2.2
    rw [List.map_map] at hids
    exact hids.sublist (ids_sublist rows)
  rw [find?_key_perm hnodup hmembers]
  exact .bind_same .refl fun selected _ => rfl

end Admissions

end Kdna.Packages

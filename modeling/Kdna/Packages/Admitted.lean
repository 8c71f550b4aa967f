import Kdna.Packages.OrderFree

/-!
# What an admitted package set is

An admission establishes that every declared member is allowed and admitted as declared, that
the sources are exactly the declared members, and that the selected judgment occurs once, in the
member whose own octets were admitted to the selected snapshot.
-/

namespace Kdna.Packages

open Value Ir

variable {φ κ σ : Type}

/-- How often the selected judgment occurs in a member. -/
def View.count (v : View) (selection : Selection) : ℕ :=
  if v.assetId = selection.assetId ∧ v.assetVersion = selection.assetVersion then
    v.judgmentIds.count selection.judgmentId
  else 0

/-- The identity under which a source was admitted. -/
def Source.identity (source : Source κ) (v : View) : Member :=
  ⟨source.memberId, v.assetId, v.assetVersion, v.a⟩

/-- What an admission establishes of the input, where `view` admits the octets of a source. -/
structure Sound (view : Source κ → Option (σ × View)) (input : AdmissionInput κ)
    (observation : Observation) (a : Admission σ) (sources : List (Source κ)) : Prop where
  declared : input.set.members = a.set.members.map some
  selection : input.set.selection = some a.set.selection
  given : input.members = sources.map some
  isolated : input.operation = some .isolatedRead
  allowed : ∀ m ∈ a.set.members, ∃ row, some row ∈ observation.rows ∧ row.member = m ∧
    row.decision = some .allow
  ids : (sources.map Source.memberId).Perm (a.set.members.map Member.memberId)
  nodup : (sources.map Source.memberId).Nodup
  admitted : ∀ s ∈ sources, ∃ p, view s = some p ∧ s.identity p.2 ∈ a.set.members
  once : ((sources.filterMap view).map fun p => p.2.count a.set.selection).sum = 1
  selected : ∃ s ∈ sources, ∃ v, s.memberId = a.selectedMember.1 ∧
    view s = some (a.selectedMember.2, v) ∧ v.count a.set.selection = 1

section Captured

theorem capturePackageMember_eq_ok {value : Option Member} {m : Member}
    (h : capturePackageMember (φ := φ) value = .ok m) : value = some m := by
  simp only [capturePackageMember, bind_eq_ok_iff, orFail_eq_ok_iff, require_eq_ok_iff, pure_eq_ok,
    Except.ok.injEq, exists_const] at h
  obtain ⟨_, hvalue, -, rfl⟩ := h
  exact hvalue

/-- A captured set is the one that is handed in. -/
theorem capturePackageSet_spec {badId : Stop φ} {value : RawSet} {set : PackageSet}
    (h : capturePackageSet badId value = .ok set) :
    value.members = set.members.map some ∧ value.selection = some set.selection := by
  simp only [capturePackageSet, captureSelection, bind_eq_ok_iff, orFail_eq_ok_iff,
    require_eq_ok_iff, pure_eq_ok, Except.ok.injEq, exists_const] at h
  obtain ⟨members, hmembers, selection, ⟨_, hselection, -, rfl⟩, -, -, rfl⟩ := h
  refine ⟨?_, hselection⟩
  rw [← List.forall₂_eq_eq_eq, List.forall₂_map_right_iff]
  exact (mapM_eq_ok_iff.mp hmembers).imp fun _ _ => capturePackageMember_eq_ok

theorem observeRow_eq_ok {state : ProviderState} {declared : Member → Bool} {seen : List String}
    {candidate : Option ObservationRow} {row : ObservationRow} {identity : String}
    (h : observeRow state declared seen candidate = .ok (row, identity)) : candidate = some row := by
  simp only [observeRow, bind_eq_ok_iff, orFail_eq_ok_iff, require_eq_ok_iff, pure_eq_ok,
    Except.ok.injEq, exists_const, Prod.mk.injEq] at h
  obtain ⟨_, hcandidate, -, -, -, -, -, -, -, -, -, rfl, -⟩ := h
  exact hcandidate

/-- The rows that are kept are those that the provider returned. -/
theorem observeRows_spec {declared : Member → Bool} {state : ProviderState} {seen : List String}
    {candidates : List (Option ObservationRow)} {rows : List ObservationRow}
    (h : (observeRows declared state seen candidates).2 = .ok rows) : candidates = rows.map some := by
  induction candidates generalizing state seen rows with
  | nil =>
    obtain rfl := Except.ok.inj h
    rfl
  | cons candidate candidates ih =>
    rw [observeRows] at h
    cases hrow : observeRow state declared seen candidate with
    | error e =>
      rw [hrow] at h
      exact nomatch h
    | ok kept =>
      obtain ⟨row, identity⟩ := kept
      rw [hrow] at h
      cases hrest : (observeRows declared { state with currentMs := some row.currentMs }
        (identity :: seen) candidates).2 with
      | error e => simp [hrest] at h
      | ok rest =>
        obtain rfl : row :: rest = rows := by simpa [hrest] using h
        rw [observeRow_eq_ok hrow, ih hrest, List.map_cons]

theorem captureObservation_spec {state : ProviderState} {set : PackageSet}
    {candidates : List (Option ObservationRow)} {rows : List ObservationRow}
    (h : (captureObservation state set (.decisions candidates)).2 = .ok rows) :
    candidates = rows.map some := by
  rw [captureObservation] at h
  split_ifs at h
  · exact observeRows_spec h

/-- A granted identity has a row that allows it. -/
theorem observed_spec {set : PackageSet} {provider : Option ProviderState}
    {observation : Observation} {grants : List Member}
    (h : observed (φ := φ) set provider observation = .ok grants) :
    ∀ m ∈ grants, ∃ row, some row ∈ observation.rows ∧ row.member = m ∧
      row.decision = some .allow := by
  simp only [observed, bind_eq_ok_iff, orFail_eq_ok_iff, pure_eq_ok, Except.ok.injEq] at h
  obtain ⟨state, -, rows, hrows, rfl⟩ := h
  intro m hm
  obtain ⟨row, hrow, rfl⟩ := List.mem_map.mp hm
  obtain ⟨hmem, hallow⟩ := List.mem_filter.mp hrow
  refine ⟨row, ?_, rfl, of_decide_eq_true hallow⟩
  have hcaptured : (captureObservation state set observation).2 = .ok rows := by
    cases hresult : (captureObservation state set observation).2 with
    | error e =>
      rw [hresult] at hrows
      exact nomatch hrows
    | ok rows' =>
      rw [hresult] at hrows
      rw [show rows' = rows from Except.ok.inj hrows]
  cases observation with
  | thrown => exact nomatch hcaptured
  | invalid => exact nomatch hcaptured
  | decisions candidates =>
    rw [Observation.rows, captureObservation_spec hcaptured]
    exact List.mem_map_of_mem hmem

end Captured

section Selected

/-- A selected member is the only occurrence of the judgment in rows that agree. -/
theorem checkSelected_spec {set : PackageSet} {admitted : List AdmittedRow} {operation : Operation}
    {member : String} (h : checkSelected (φ := φ) set admitted operation = .ok member) :
    (∀ m ∈ set.members, (rowFor admitted m.memberId).any (·.agrees m) = true) ∧
      operation = .isolatedRead ∧ occurrences set.selection admitted = [member] := by
  simp only [checkSelected, bind_eq_ok_iff, require_eq_ok_iff, exists_const] at h
  obtain ⟨hcore, hoperation, hmatch⟩ := h
  refine ⟨hcore, hoperation, ?_⟩
  split at hmatch
  · next id hid => rw [hid, Except.ok.inj hmatch]
  · cases hmatch
  · cases hmatch

/-- An admitted row adds an occurrence for each time that it names the judgment. -/
theorem occurrences_cons (selection : Selection) (v : View) (id : String)
    (admitted : List AdmittedRow) :
    occurrences selection (v.row id :: admitted) =
      List.replicate (v.count selection) id ++ occurrences selection admitted := by
  have hkept : ((v.row id).assetId = selection.assetId &&
      (v.row id).assetVersion = selection.assetVersion) = true ↔
        v.assetId = selection.assetId ∧ v.assetVersion = selection.assetVersion := by
    rw [Bool.and_eq_true, decide_eq_true_eq, decide_eq_true_eq]
    rfl
  by_cases hc : v.assetId = selection.assetId ∧ v.assetVersion = selection.assetVersion
  · rw [occurrences, List.filter_cons_of_pos (by exact hkept.mpr hc), List.flatMap_cons, View.count, if_pos hc]
    have hfilter : ((v.row id).judgmentIds.filter (· = selection.judgmentId)) =
        List.replicate (v.judgmentIds.count selection.judgmentId) selection.judgmentId :=
      List.filter_eq _
    rw [hfilter, List.map_replicate]
    rfl
  · rw [occurrences, List.filter_cons_of_neg (by exact mt hkept.mp hc), View.count, if_neg hc]
    rfl

variable {view : Source κ → Option (σ × View)}

/-- The row of a source with a view. -/
def RowOf (view : Source κ → Option (σ × View)) (source : Source κ) (row : AdmittedRow) : Prop :=
  ∃ p, view source = some p ∧ row = p.2.row source.memberId

theorem map_memberId_rows {sources : List (Source κ)} {admitted : List AdmittedRow}
    (h : List.Forall₂ (RowOf view) sources admitted) :
    admitted.map AdmittedRow.memberId = sources.map Source.memberId := by
  induction h with
  | nil => rfl
  | cons hrow _ ih =>
    obtain ⟨p, -, rfl⟩ := hrow
    rw [List.map_cons, List.map_cons, ih]
    rfl

/-- The occurrences are as many as the members count. -/
theorem length_occurrences {sources : List (Source κ)} {admitted : List AdmittedRow}
    (h : List.Forall₂ (RowOf view) sources admitted) (selection : Selection) :
    (occurrences selection admitted).length =
      ((sources.filterMap view).map fun p => p.2.count selection).sum := by
  induction h with
  | nil => rfl
  | cons hrow _ ih =>
    obtain ⟨p, hp, rfl⟩ := hrow
    rw [occurrences_cons, List.length_append, List.length_replicate, ih,
      List.filterMap_cons_some hp, List.map_cons, List.sum_cons]

theorem exists_of_mem_occurrences {sources : List (Source κ)} {admitted : List AdmittedRow}
    (h : List.Forall₂ (RowOf view) sources admitted) {selection : Selection} {member : String}
    (hmem : member ∈ occurrences selection admitted) :
    ∃ s ∈ sources, ∃ p, view s = some p ∧ s.memberId = member ∧ 0 < p.2.count selection := by
  induction h with
  | nil => exact nomatch hmem
  | cons hrow _ ih =>
    obtain ⟨p, hp, rfl⟩ := hrow
    rw [occurrences_cons, List.mem_append, List.mem_replicate] at hmem
    rcases hmem with ⟨hne, rfl⟩ | hmem
    · exact ⟨_, List.mem_cons_self, p, hp, rfl, Nat.pos_of_ne_zero hne⟩
    · obtain ⟨s, hs, hrest⟩ := ih hmem
      exact ⟨s, .tail _ hs, hrest⟩

/-- The passed checks make an admission sound. -/
theorem sound_of_checks {input : AdmissionInput κ} {observation : Observation} {a : Admission σ}
    {sources : List (Source κ)} {admitted : List AdmittedRow} {grants : List Member}
    {operation : Operation}
    (hdeclared : input.set.members = a.set.members.map some)
    (hselection : input.set.selection = some a.set.selection) (hgiven : input.members = sources.map some)
    (hoperation : input.operation = some operation)
    (hgrants : ∀ m ∈ grants, ∃ row, some row ∈ observation.rows ∧ row.member = m ∧
      row.decision = some .allow)
    (hrows : List.Forall₂ (RowOf view) sources admitted)
    (hmembers : checkMembers (φ := φ) a.set (sources.map Source.memberId) grants = .ok ())
    (hselected : checkSelected (φ := φ) a.set admitted operation = .ok a.selectedMember.1)
    (hsnapshot : ∃ s ∈ sources, s.memberId = a.selectedMember.1 ∧
      (view s).map Prod.fst = some a.selectedMember.2) :
    Sound view input observation a sources := by
  obtain ⟨hallowed, hids, hnodup⟩ := checkMembers_spec hmembers
  obtain ⟨hcore, rfl, honce⟩ := checkSelected_spec hselected
  have hrownodup : (admitted.map AdmittedRow.memberId).Nodup := by
    rwa [map_memberId_rows hrows]
  have hsum : ((sources.filterMap view).map fun p => p.2.count a.set.selection).sum = 1 := by
    rw [← length_occurrences hrows, honce, List.length_singleton]
  refine ⟨hdeclared, hselection, hgiven, hoperation, fun m hm => hgrants m (hallowed m hm), hids, hnodup,
    fun s hs => ?_, hsum, ?_⟩
  · obtain ⟨row, hrow, p, hp, rfl⟩ := exists_mem_forall₂ hrows hs
    obtain ⟨m, hm, hid⟩ := List.mem_map.mp (hids.mem_iff.mp (List.mem_map_of_mem hs))
    have hfound : rowFor admitted m.memberId = some (p.2.row s.memberId) :=
      (rowFor_eq_some_iff hrownodup).mpr ⟨hrow, hid.symm⟩
    have hagrees := hcore m hm
    rw [hfound, Option.any_some, AdmittedRow.agrees, Bool.and_eq_true, decide_eq_true_eq] at hagrees
    obtain ⟨-, ha, hasset, hversion⟩ := hagrees
    have hsame : s.identity p.2 = m := by
      obtain ⟨memberId, assetId, assetVersion, digest⟩ := m
      exact Member.mk.injEq .. ▸ ⟨hid.symm, hasset, hversion, ha⟩
    exact ⟨p, hp, hsame ▸ hm⟩
  · obtain ⟨s, hs, hid, hview⟩ := hsnapshot
    obtain ⟨p, hp, hfst⟩ := Option.map_eq_some_iff.mp hview
    obtain ⟨s', hs', p', hp', hid', hcount⟩ := exists_of_mem_occurrences hrows
      (honce ▸ List.mem_singleton_self _)
    obtain rfl : s' = s := List.inj_on_of_nodup_map hnodup hs' hs (hid'.trans hid.symm)
    obtain rfl : p' = p := Option.some.inj (hp'.symm.trans hp)
    refine ⟨s', hs, p'.2, hid, by rw [hp, ← hfst], ?_⟩
    have hle : p'.2.count a.set.selection ≤ 1 := by
      rw [← hsum]
      refine List.single_le_sum (by simp) _ (List.mem_map.mpr ⟨p', ?_, rfl⟩)
      exact List.mem_filterMap.mpr ⟨s', hs, hp⟩
    omega

end Selected

section Admissions

/-- The snapshot and the view of a source. -/
def sourceView (core : Core σ) (source : Source κ) : Option (σ × View) := do
  let snapshot ← core.admitNode source.bytes
  return (snapshot, ← core.inspectSnapshot snapshot)

/-- The snapshot and the view of a source of the native admission. -/
def nativeView (core : NativeCore κ φ σ) (source : Source κ) : Option (σ × View) := do
  let result ← (core.admitSection source.bytes source.credentials).toOption
  let snapshot ← result.toOption
  return (snapshot, ← core.inspectSnapshot snapshot)

theorem sourceView_eq_some_iff {core : Core σ} {source : Source κ} {p : σ × View} :
    sourceView core source = some p ↔
      core.admitNode source.bytes = some p.1 ∧ core.inspectSnapshot p.1 = some p.2 := by
  simp only [sourceView, Option.bind_eq_bind, Option.bind_eq_some_iff, Option.pure_def,
    Option.some.injEq]
  constructor
  · rintro ⟨snapshot, hsnapshot, v, hv, rfl⟩
    exact ⟨hsnapshot, hv⟩
  · rintro ⟨hsnapshot, hv⟩
    exact ⟨p.1, hsnapshot, p.2, hv, rfl⟩

/-- The rows of admitted sources. -/
theorem admitted_forall₂ {core : Core σ} {set : PackageSet} {sources : List (Source κ)}
    (hviews : ∀ source ∈ sources, (core.view source.bytes).isSome = true) :
    List.Forall₂ (RowOf (sourceView core)) sources (sources.mapIdx (admittedRow core set)) := by
  rw [admitted_eq_map core set hviews, List.forall₂_map_right_iff, List.forall₂_same]
  intro source hsource
  obtain ⟨v, hv⟩ := Option.isSome_iff_exists.mp (hviews source hsource)
  obtain ⟨snapshot, hsnapshot, hinspect⟩ := Option.bind_eq_some_iff.mp hv
  exact ⟨(snapshot, v), sourceView_eq_some_iff.mpr ⟨hsnapshot, hinspect⟩, by rw [admittedRow, hv]⟩

/-- A set with a refused member is not decided. -/
theorem views_of_decided {core : Core σ} {set : PackageSet} {tuple : List (String × String)}
    {sources : List (Source κ)} {grants : List Member} {operation : Operation} {member : String}
    (h : decidePackageSet (φ := φ) core.tuples set tuple (sources.mapIdx (admittedRow core set)) grants
      operation = .ok member) :
    ∀ source ∈ sources, (core.view source.bytes).isSome = true := by
  by_contra hviews
  rw [decidePackageSet_invalid _ _ (exists_invalid hviews)] at h
  simp only [bind_eq_ok_iff, reduceCtorEq, and_false, exists_false] at h

theorem admit_sound {core : Core σ} {input : AdmissionInput Unit} {provider : Option ProviderState}
    {observation : Observation} {a : Admission σ} (h : admitPackageSet core input provider observation = .ok a) :
    ∃ sources, Sound (sourceView core) input observation a sources := by
  simp only [admitPackageSet, captureAdmissionInput, captureCounts, captureTuple, bind_eq_ok_iff,
    orFail_eq_ok_iff, require_eq_ok_iff, pure_eq_ok, Except.ok.injEq, exists_const] at h
  obtain ⟨captured, ⟨_, ⟨limits, -, operation, hoperation, -, -, rfl⟩, sources, hsources, set, hset,
    tuple, -, rfl⟩, grants, hgrants, member, hmember, snapshot, hsnapshot, rfl⟩ := h
  obtain ⟨hgiven, -, -⟩ := captureSources_eq_ok_iff.mp hsources
  obtain ⟨hdeclared, hselection⟩ := capturePackageSet_spec hset
  have hrows := @admitted_forall₂ _ _ core set _ (views_of_decided hmember)
  simp only [decidePackageSet, bind_eq_ok_iff] at hmember
  obtain ⟨_, hchecked, _, -, hselected⟩ := hmember
  rw [map_memberId_admitted] at hchecked
  refine ⟨sources, sound_of_checks hdeclared hselection hgiven hoperation (observed_spec hgrants) hrows
    hchecked hselected ?_⟩
  rw [findSome?_zip_mapIdx (memberId_admittedRow core set), findSome?_key (checkMembers_spec hchecked).2.2,
    Option.bind_eq_some_iff] at hsnapshot
  obtain ⟨s, hfound, hadmitted⟩ := hsnapshot
  obtain ⟨hs, hid⟩ := (find?_key_eq_some_iff (checkMembers_spec hchecked).2.2).mp hfound
  obtain ⟨row, -, p, hp, -⟩ := exists_mem_forall₂ hrows hs
  refine ⟨s, hs, hid, ?_⟩
  rw [hp, Option.map_some, ← (sourceView_eq_some_iff.mp hp).1, hadmitted]

theorem nativeView_eq_some_iff {core : NativeCore κ φ σ} {source : Source κ} {p : σ × View} :
    nativeView core source = some p ↔
      core.admitSection source.bytes source.credentials = .ok (.ok p.1) ∧
        core.inspectSnapshot p.1 = some p.2 := by
  simp only [nativeView, Option.bind_eq_bind, Option.bind_eq_some_iff, Option.pure_def,
    Option.some.injEq, toOption_eq_some_iff]
  constructor
  · rintro ⟨result, hresult, snapshot, rfl, v, hv, rfl⟩
    exact ⟨hresult, hv⟩
  · rintro ⟨hresult, hv⟩
    exact ⟨_, hresult, p.1, rfl, p.2, hv, rfl⟩

/-- A row of the native admission, and what became of its source. -/
theorem nativeRow_eq_ok_iff {core : NativeCore κ φ σ} {source : Source κ}
    {r : NativeRow φ × Option σ} (h : nativeRow core source = .ok r) :
    r.1.memberId = source.memberId ∧
      ((∃ p, nativeView core source = some p ∧ r.1.outcome = .ok p.2 ∧ r.2 = some p.1) ∨
        ∃ result, r.1.outcome = .error result ∧ r.2 = none) := by
  rw [nativeRow] at h
  split at h
  · cases h
  · obtain rfl := Except.ok.inj h
    exact ⟨rfl, .inr ⟨_, rfl, rfl⟩⟩
  · next snapshot hsnapshot =>
    simp only [bind_eq_ok_iff, orFail_eq_ok_iff, pure_eq_ok, Except.ok.injEq] at h
    obtain ⟨v, hv, rfl⟩ := h
    exact ⟨rfl, .inl ⟨(snapshot, v), nativeView_eq_some_iff.mpr ⟨hsnapshot, hv⟩, rfl, rfl⟩⟩

/-- Settled rows are those of the views. -/
theorem settled_forall₂ {core : NativeCore κ φ σ} {sources : List (Source κ)}
    {results : List (NativeRow φ × Option σ)} {settled : List AdmittedRow}
    (hresults : sources.mapM (nativeRow core) = .ok results)
    (hsettled : (results.map Prod.fst).mapM NativeRow.settled = .ok settled) :
    List.Forall₂ (RowOf (nativeView core)) sources settled := by
  rw [mapM_eq_ok_iff] at hresults hsettled
  rw [List.forall₂_map_left_iff] at hsettled
  induction hresults generalizing settled with
  | nil =>
    cases hsettled
    exact .nil
  | cons hrow _ ih =>
    cases hsettled with
    | cons hsettle hrest =>
      refine .cons ?_ (ih hrest)
      obtain ⟨v, houtcome, rfl⟩ := settled_eq_ok_iff.mp hsettle
      obtain ⟨hid, ⟨p, hp, hview, -⟩ | ⟨result, hresult, -⟩⟩ := nativeRow_eq_ok_iff hrow
      · rw [houtcome] at hview
        exact ⟨p, hp, by rw [hid, Except.ok.inj hview]⟩
      · rw [houtcome] at hresult
        exact nomatch hresult

theorem map_memberId_results {core : NativeCore κ φ σ} {sources : List (Source κ)}
    {results : List (NativeRow φ × Option σ)} (h : sources.mapM (nativeRow core) = .ok results) :
    (results.map Prod.fst).map NativeRow.memberId = sources.map Source.memberId := by
  rw [mapM_eq_ok_iff] at h
  induction h with
  | nil => rfl
  | cons hrow _ ih =>
    simp only [List.map_cons, ih, (nativeRow_eq_ok_iff hrow).1]

theorem nativeAdmit_sound {core : NativeCore κ φ σ} {input : AdmissionInput κ}
    {provider : Option ProviderState} {observation : Observation} {a : Admission σ}
    (h : nativeAdmit core input provider observation = .ok a) :
    ∃ sources, Sound (nativeView core) input observation a sources := by
  simp only [nativeAdmit, nativeCaptureAdmissionInput, captureCounts, captureTuple, bind_eq_ok_iff,
    orFail_eq_ok_iff, require_eq_ok_iff, pure_eq_ok, Except.ok.injEq, exists_const] at h
  obtain ⟨captured, ⟨_, ⟨limits, -, operation, hoperation, -, -, rfl⟩, set, hset, tuple, -, sources,
    hsources, rfl⟩, grants, hgrants, results, hresults, member, hmember, selected, hfound, rfl⟩ := h
  obtain ⟨hgiven, -, -⟩ := captureSources_eq_ok_iff.mp hsources
  obtain ⟨hdeclared, hselection⟩ := capturePackageSet_spec hset
  simp only [nativeDecide, bind_eq_ok_iff] at hmember
  obtain ⟨_, hchecked, _, -, settled, hsettled, hselected⟩ := hmember
  rw [map_memberId_results hresults] at hchecked
  have hid : selected.1 = member := by simpa using List.find?_some hfound
  refine ⟨sources, sound_of_checks hdeclared hselection hgiven hoperation (observed_spec hgrants)
    (settled_forall₂ hresults hsettled) hchecked (hid ▸ hselected) ?_⟩
  obtain ⟨r, hr, hread⟩ := List.mem_filterMap.mp (List.mem_of_find?_eq_some hfound)
  obtain ⟨snapshot, hsnapshot, hpair⟩ := Option.map_eq_some_iff.mp hread
  obtain ⟨s, hs, hrow⟩ := exists_of_mem_mapM hresults hr
  obtain ⟨hrowid, ⟨p, hp, -, hkept⟩ | ⟨-, -, hnone⟩⟩ := nativeRow_eq_ok_iff hrow
  · refine ⟨s, hs, by rw [← hpair, hrowid], ?_⟩
    rw [hp, Option.map_some, ← hpair]
    exact hkept.symm.trans hsnapshot
  · rw [hsnapshot] at hnone
    cases hnone

end Admissions

/-- An admission of package sets: what it admits is sound, and it depends neither on the order of
the declared members nor on that of the sources. -/
structure SoundAndOrderFree (view : Source κ → Option (σ × View))
    (admits : AdmissionInput κ → Option ProviderState → Observation →
      Except (Stop φ) (Admission σ)) : Prop where
  sound : ∀ input provider observation a, admits input provider observation = .ok a →
    ∃ sources, Sound view input observation a sources
  orderFree : ∀ input input' provider observation, input.Reordered input' →
    Agree Stop.Alike Admission.SameSelection (admits input provider observation)
      (admits input' provider observation)

/-- Both admissions of package sets are sound and do not depend on an order. -/
theorem admissions_sound_and_order_free (core : Core σ) (nativeCore : NativeCore κ φ σ) :
    SoundAndOrderFree (sourceView core) (admitPackageSet core) ∧
      SoundAndOrderFree (nativeView nativeCore) (nativeAdmit nativeCore) :=
  ⟨⟨fun _ _ _ _ => admit_sound, fun _ _ provider observation h =>
      admit_reordered core h provider observation⟩,
    ⟨fun _ _ _ _ => nativeAdmit_sound, fun _ _ provider observation h =>
      nativeAdmit_reordered nativeCore h provider observation⟩⟩

end Kdna.Packages

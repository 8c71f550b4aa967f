import Kdna.Assay.Cluster
import Kdna.Assay.Verdict
import Kdna.Data.Loop
import Mathlib.Data.List.Perm.Subperm

/-!
# A cluster is promoted with all of its evidence

A verdict of a cluster assay is `pass` only with a valid fixture set, a plan that applies and that
the fixtures expect, all comparison arms, the selected assets loaded and a budget that covers them.
The lists beside the verdict are empty exactly then.
-/

namespace Kdna.Cluster

open Value Assay Evidence

section Members

variable {v : Json} {name : String} {ids : List String}

theorem exists_of_isNonEmptyString {w : Option Json} (h : isNonEmptyString w = true) :
    ∃ text, w = some (.str text) := by
  unfold isNonEmptyString at h
  split at h
  · next text => exact ⟨text, rfl⟩
  · cases h

/-- An array of non-empty strings is an array of strings. -/
theorem exists_of_isTexts {w : Option Json} (h : isTexts w = true) :
    ∃ ids : List String, w = some (.arr (ids.map .str)) := by
  unfold isTexts at h
  split at h
  · next items =>
    induction items with
    | nil => exact ⟨[], rfl⟩
    | cons item items ih =>
      rw [List.all_cons, Bool.and_eq_true] at h
      obtain ⟨ids, hids⟩ := ih h.2
      obtain ⟨text, htext⟩ := exists_of_isNonEmptyString h.1
      obtain rfl := Option.some.inj htext
      obtain rfl := Value.arr.inj (Option.some.inj hids)
      exact ⟨text :: ids, rfl⟩
  · cases h

theorem textOf_of_prop {text : String} (h : v.prop name = some (.str text)) :
    textOf v name = text := by
  rw [textOf, h]
  rfl

theorem textsOf_of_prop (h : v.prop name = some (.arr (ids.map .str))) : textsOf v name = ids := by
  rw [textsOf, itemsAt, h]
  change (ids.map Value.str).filterMap text? = ids
  rw [List.filterMap_map]
  exact List.filterMap_some

/-- The text of a non-empty string. -/
theorem textId_eq_some {text : String} (h : textId v name = some text) :
    v.prop name = some (.str text) := by
  unfold textId at h
  obtain ⟨w, hw, htext⟩ := Option.bind_eq_some_iff.mp h
  rw [Option.filter_eq_some_iff] at hw
  obtain ⟨hprop, hnonempty⟩ := hw
  obtain ⟨s, hs⟩ := exists_of_isNonEmptyString hnonempty
  obtain rfl := Option.some.inj hs
  rw [hprop, Option.some.inj htext]

theorem textId_of_isSome (h : (textId v name).isSome = true) :
    textId v name = some (textOf v name) := by
  obtain ⟨text, htext⟩ := Option.isSome_iff_exists.mp h
  rw [htext, textOf_of_prop (textId_eq_some htext)]

/-- The same set as distinct texts has them in some order. -/
theorem perm_of_sameStringSet {actual expected : List String}
    (h : sameStringSet actual expected = true) (hnodup : expected.Nodup) :
    actual.Perm expected := by
  obtain ⟨hlength, -, hsubset⟩ := of_decide_eq_true h
  exact ((List.subperm_of_subset hnodup hsubset).perm_of_length_le hlength.le).symm

/-- Texts are distinct where none stands behind an equal one. -/
theorem nodup_of_duplicates (h : duplicates ids = []) : ids.Nodup := by
  have hnone : (ids.zipIdx.filter fun p => ids.idxOf p.1 ≠ p.2) = [] := by
    unfold duplicates at h
    cases hfilter : ids.zipIdx.filter fun p => ids.idxOf p.1 ≠ p.2 with
    | nil => rfl
    | cons p ps =>
      rw [hfilter, List.map_cons, List.eraseDups_cons] at h
      cases h
  have hfirst (i : ℕ) (hi : i < ids.length) : ids.idxOf ids[i] = i := by
    have hmem : (ids[i], i) ∈ ids.zipIdx :=
      List.mk_mem_zipIdx_iff_getElem?.mpr (List.getElem?_eq_getElem hi)
    have hnot := List.filter_eq_nil_iff.mp hnone _ hmem
    simpa using hnot
  apply List.nodup_iff_injective_getElem.mpr
  intro i j hij
  have hij : ids[i.1] = ids[j.1] := hij
  apply Fin.ext
  rw [← hfirst i.1 i.2, hij, hfirst j.1 j.2]

theorem nodup_of_uniqueErrors {message : String} (h : uniqueErrors message ids = []) :
    ids.Nodup := by
  unfold uniqueErrors at h
  split at h
  · next hnone => exact nodup_of_duplicates hnone
  · cases h

/-- A check without an error holds. -/
theorem of_check {p : Prop} [Decidable p] {error : String}
    (h : (if p then [] else [error]) = []) : p := by
  by_contra hp
  rw [if_neg hp] at h
  cases h

end Members

section Fixtures

variable {label : String} {fixture : Json} {s : Tally}

/-- What a valid fixture expects, in form. -/
structure WellFormed (fixture : Json) : Prop where
  id : ∃ id, fixture.prop "fixture_id" = some (.str id)
  primary : ∃ id, fixture.prop "expected_primary" = some (.str id)
  advisors : ∃ ids : List String, fixture.prop "expected_advisors" = some (.arr (ids.map .str))
  rejected : ∃ ids : List String, fixture.prop "expected_rejected" = some (.arr (ids.map .str))

theorem tallyId_seen (h : (tallyId label fixture s).errors = []) :
    ∃ id, fixture.prop "fixture_id" = some (.str id) ∧ id ∉ s.seenIds ∧
      (tallyId label fixture s).seenIds = id :: s.seenIds := by
  unfold tallyId at h ⊢
  split at h
  · next id hid =>
    split at h
    · simp at h
    · next hnonempty =>
      split at h
      · simp at h
      · next hnew => exact ⟨id, hid, hnew, by rw [if_neg hnonempty, if_neg hnew]⟩
  · simp at h

theorem tallyTask_seen : (tallyTask label fixture s).seenIds = s.seenIds := by
  unfold tallyTask
  split
  · split <;> rfl
  · rfl

/-- A turn without errors is that of a well-formed fixture with a new id. -/
theorem tallyFixture_spec (s : Tally) (p : Evidence × ℕ) (h : (tallyFixture s p).errors = []) :
    s.errors = [] ∧ ∃ fixture : Json, (p.1 = ofJson fixture ∧ WellFormed fixture) ∧
      textOf fixture "fixture_id" ∉ s.seenIds ∧
      (tallyFixture s p).seenIds = textOf fixture "fixture_id" :: s.seenIds := by
  unfold tallyFixture at h ⊢
  dsimp only at h ⊢
  split at h
  · next errors herrors =>
    have hnone : errors = [] := (List.append_eq_nil_iff.mp h).2
    exact absurd hnone (plain_ne_nil herrors)
  · next fixture hfixture =>
    obtain ⟨hloop, hform⟩ := List.append_eq_nil_iff.mp h
    obtain ⟨hnamed, -⟩ := tallyTask_spec hloop
    obtain ⟨hs, -⟩ := tallyId_spec hnamed
    obtain ⟨id, hid, hnew, hseen⟩ := tallyId_seen hnamed
    obtain ⟨hlists, -⟩ := List.append_eq_nil_iff.mp hform
    obtain ⟨hprimary, hlists⟩ := List.append_eq_nil_iff.mp hlists
    rw [List.flatMap_eq_nil_iff] at hlists
    rw [← textOf_of_prop hid] at hnew hseen
    refine ⟨hs, fixture, ⟨eq_ofJson_of_plain hfixture, ?_⟩, hnew, tallyTask_seen.trans hseen⟩
    exact
      { id := ⟨id, hid⟩
        primary := exists_of_isNonEmptyString (of_check hprimary)
        advisors := exists_of_isTexts (of_check (hlists _ (.head _)))
        rejected := exists_of_isTexts (of_check (hlists _ (.tail _ (.head _)))) }

/-- Evidence of which each item is a value of JSON is an array of JSON. -/
theorem eq_records {P : Json → Prop} {items : List Evidence} {cs : List Json}
    (h : List.Forall₂ (fun p c => p.1 = ofJson c ∧ P c) items.zipIdx cs) :
    (.arr items : Evidence) = ofJson (.arr cs) ∧ records (.arr items) = cs ∧ ∀ c ∈ cs, P c := by
  have hitems : items = cs.map ofJson := by
    rw [← List.zipIdx_map_fst 0 items]
    exact List.forall₂_eq_eq_eq ▸ List.forall₂_map_left_iff.mpr
      (List.forall₂_map_right_iff.mpr (h.imp fun _ _ hp => hp.1))
  refine ⟨by rw [hitems, ofJson_arr], ?_, fun c hc => ?_⟩
  · rw [records, hitems, ← ofJson_arr, toJson_ofJson]
    rfl
  · obtain ⟨p, -, hp⟩ := exists_of_mem_forall₂ h hc
    exact hp.2

/-- A valid fixture set is an array of well-formed fixtures with distinct ids. -/
theorem fixtures_of_valid {v : Evidence} (h : validateClusterFixtures v = []) :
    v = ofJson (.arr (records v)) ∧ records v ≠ [] ∧
      ((records v).map (textOf · "fixture_id")).Nodup ∧ ∀ f ∈ records v, WellFormed f := by
  unfold validateClusterFixtures at h
  split at h
  · next items =>
    obtain ⟨hne, fixtures, hall, hnodup, -, -⟩ :=
      foldl_distinct (f := fun c => textOf c "fixture_id") tallyFixture_spec h
    obtain ⟨hjson, hrecords, hall⟩ := eq_records hall
    rw [hrecords]
    refine ⟨hjson, fun hnil => ?_, hnodup, hall⟩
    subst hnil
    have hitems : items = [] := by
      rw [ofJson_arr] at hjson
      exact Value.arr.inj hjson
    subst hitems
    cases hne
  · cases h

end Fixtures

section Plan

variable {plan : Json} {v : Evidence}

theorem toJson_of_plain {label : String} {w : Json} (h : plain v label = .ok w) : v.toJson = w := by
  rw [eq_ofJson_of_plain h, toJson_ofJson]

/-- A plan that applies, with distinct asset ids. -/
structure Applies (plan : Json) : Prop where
  decision : ((plan.prop "applicability").getD .null).propIs "decision" "applies" = true
  primary : (primary plan).prop "asset_id" = some (.str (primaryId plan))
  selected : ∀ key ∈ ["advisors", "rejected"], ∀ entry ∈ itemsAt (selection plan) key,
    entry.prop "asset_id" = some (.str (textOf entry "asset_id"))
  distinct : (primaryId plan :: (selectedIds plan "advisors" ++ selectedIds plan "rejected")).Nodup
  conflicts : ((plan.prop "conflicts").bind items?).isSome = true

/-- Where all entries have an id, these are the texts of the ids. -/
theorem filterMap_textId {entries : List Json} {name : String}
    (h : ∀ entry ∈ entries, (textId entry name).isSome = true) :
    entries.filterMap (textId · name) = entries.map (textOf · name) := by
  rw [List.filterMap_congr fun entry hentry => textId_of_isSome (h entry hentry)]
  exact congrFun List.filterMap_eq_map entries

theorem textId_of_entryErrors {key : String} (h : entryErrors plan key = []) :
    ∀ entry ∈ itemsAt (selection plan) key, (textId entry "asset_id").isSome = true := by
  intro entry hentry
  obtain ⟨i, hi, rfl⟩ := List.mem_iff_getElem.mp hentry
  rw [entryErrors, List.flatMap_eq_nil_iff] at h
  have hnone := h (_, i) (List.mk_mem_zipIdx_iff_getElem?.mpr (List.getElem?_eq_getElem hi))
  exact of_check (List.append_eq_nil_iff.mp hnone).1

theorem applies_of_errors
    (hdecision : ((plan.prop "applicability").getD .null).propIs "decision" "applies" = true)
    (h : appliesErrors plan = []) : Applies plan := by
  unfold appliesErrors at h
  split at h
  · obtain ⟨h, hunique⟩ := List.append_eq_nil_iff.mp h
    obtain ⟨h, hentries⟩ := List.append_eq_nil_iff.mp h
    obtain ⟨h, hconflicts⟩ := List.append_eq_nil_iff.mp h
    obtain ⟨hprimary, -⟩ := List.append_eq_nil_iff.mp h
    have hprimary := textId_of_isSome (of_check hprimary)
    have hentries : ∀ key ∈ ["advisors", "rejected"], ∀ entry ∈ itemsAt (selection plan) key,
        (textId entry "asset_id").isSome = true := fun key hkey =>
      textId_of_entryErrors (List.flatMap_eq_nil_iff.mp hentries key hkey)
    have hids : allIds plan =
        primaryId plan :: (selectedIds plan "advisors" ++ selectedIds plan "rejected") := by
      rw [allIds, hprimary, List.flatMap_cons, List.flatMap_singleton,
        filterMap_textId (hentries _ (.head _)), filterMap_textId (hentries _ (.tail _ (.head _)))]
      rfl
    exact
      { decision := hdecision
        primary := textId_eq_some hprimary
        selected := fun key hkey entry hentry =>
          textId_eq_some (textId_of_isSome (hentries key hkey entry hentry))
        distinct := hids ▸ nodup_of_uniqueErrors hunique
        conflicts := of_check hconflicts }
  · cases h

theorem PlanValidation.of_applies {status : PlanStatus} {errors : List String}
    (h : (PlanValidation.of status errors).status = .applies) : errors = [] ∧ status = .applies := by
  unfold PlanValidation.of at h
  split at h
  · next hnone => exact ⟨hnone, h⟩
  · cases h

/-- An executable plan is a value of JSON that applies. -/
theorem applies_of_status (h : (validateClusterPlan v).status = .applies) :
    v = ofJson v.toJson ∧ Applies v.toJson := by
  unfold validateClusterPlan at h
  split at h
  · cases h
  · next plan hplan =>
    rw [toJson_of_plain hplan]
    refine ⟨eq_ofJson_of_plain hplan, ?_⟩
    dsimp only at h
    split at h
    · cases (PlanValidation.of_applies h).2
    · split at h
      · next hdecision =>
        exact applies_of_errors hdecision (PlanValidation.of_applies h).1
      · cases h

/-- A fixture that expects what a plan has. -/
structure Expects (plan fixture : Json) : Prop where
  primary : fixture.prop "expected_primary" = some (.str (primaryId plan))
  advisors : ∃ ids : List String, fixture.prop "expected_advisors" = some (.arr (ids.map .str)) ∧
    ids.Perm (selectedIds plan "advisors")
  rejected : ∃ ids : List String, fixture.prop "expected_rejected" = some (.arr (ids.map .str)) ∧
    ids.Perm (selectedIds plan "rejected")
  conflicts : integer? (fixture.prop "expected_conflicts") = some ↑(itemsAt plan "conflicts").length

theorem Applies.nodup (h : Applies plan) {key : String} (hkey : key ∈ ["advisors", "rejected"]) :
    (selectedIds plan key).Nodup := by
  obtain ⟨-, hnodup⟩ := List.nodup_cons.mp h.distinct
  rcases List.mem_cons.mp hkey with rfl | hkey
  · exact hnodup.of_append_left
  · rw [List.mem_singleton.mp hkey]
    exact hnodup.of_append_right

/-- The same set of texts as the ids of a list of a plan that applies. -/
theorem exists_perm_of_set {record : Json} {name : String} {expected : List String}
    (hform : ∃ ids : List String, record.prop name = some (.arr (ids.map .str)))
    (hsame : sameStringSet (textsOf record name) expected = true) (hnodup : expected.Nodup) :
    ∃ ids : List String, record.prop name = some (.arr (ids.map .str)) ∧ ids.Perm expected := by
  obtain ⟨ids, hids⟩ := hform
  rw [textsOf_of_prop hids] at hsame
  exact ⟨ids, hids, perm_of_sameStringSet hsame hnodup⟩

theorem expects_of_bindings {fixtures : List Json} (hplan : Applies plan)
    (hfixtures : ∀ f ∈ fixtures, WellFormed f) (h : validateFixtureBindings fixtures plan = []) :
    ∀ f ∈ fixtures, Expects plan f := by
  intro f hf
  obtain ⟨i, hi, rfl⟩ := List.mem_iff_getElem.mp hf
  rw [validateFixtureBindings, List.flatMap_eq_nil_iff] at h
  have hnone := h (_, i) (List.mk_mem_zipIdx_iff_getElem?.mpr (List.getElem?_eq_getElem hi))
  obtain ⟨hnone, hconflicts⟩ := List.append_eq_nil_iff.mp hnone
  obtain ⟨hnone, hrejected⟩ := List.append_eq_nil_iff.mp hnone
  obtain ⟨hprimary, hadvisors⟩ := List.append_eq_nil_iff.mp hnone
  have hform := hfixtures _ hf
  obtain ⟨id, hid⟩ := hform.primary
  have hprimary := of_check hprimary
  rw [textOf_of_prop hid] at hprimary
  exact
    { primary := hprimary ▸ hid
      advisors := exists_perm_of_set hform.advisors (of_check hadvisors) (hplan.nodup (.head _))
      rejected := exists_perm_of_set hform.rejected (of_check hrejected)
        (hplan.nodup (.tail _ (.head _)))
      conflicts := of_check hconflicts }

end Plan

section Arms

variable {t : Texts} {fixtures : List Json}

/-- A record of an arm with the ids of the fixtures. -/
structure Compared (fixtures : List Json) (record : Json) : Prop where
  arm : record.prop "arm" = some (.str (textOf record "arm"))
  fixture_ids : ∃ ids : List String, record.prop "fixture_ids" = some (.arr (ids.map .str)) ∧
    ids.Perm (fixtures.map (textOf · "fixture_id"))

theorem fixtureIds_of_recordErrors {label : String} {record : Json}
    (hnodup : (fixtures.map (textOf · "fixture_id")).Nodup)
    (h : recordErrors t label fixtures record = []) :
    ∃ ids : List String, record.prop "fixture_ids" = some (.arr (ids.map .str)) ∧
      ids.Perm (fixtures.map (textOf · "fixture_id")) := by
  obtain ⟨h, -⟩ := List.append_eq_nil_iff.mp h
  obtain ⟨h, -⟩ := List.append_eq_nil_iff.mp h
  obtain ⟨h, -⟩ := List.append_eq_nil_iff.mp h
  obtain ⟨htexts, hsame⟩ := of_check h
  exact exists_perm_of_set (exists_of_isTexts htexts) hsame hnodup

/-- A turn without errors is that of a record of a new arm. -/
theorem tallyRecord_spec (hnodup : (fixtures.map (textOf · "fixture_id")).Nodup)
    (s : List String × List String) (p : Evidence × ℕ) (h : (tallyRecord t fixtures s p).1 = []) :
    s.1 = [] ∧ ∃ record : Json, (p.1 = ofJson record ∧ Compared fixtures record) ∧
      textOf record "arm" ∉ s.2 ∧
      (tallyRecord t fixtures s p).2 = textOf record "arm" :: s.2 := by
  unfold tallyRecord at h ⊢
  dsimp only at h ⊢
  split at h
  · next errors herrors =>
    exact absurd (List.append_eq_nil_iff.mp h).2 (plain_ne_nil herrors)
  · next record hrecord =>
    split at h
    · next arm harm =>
      obtain ⟨w, hprop, htext⟩ := Option.bind_eq_some_iff.mp harm
      have hprop : record.prop "arm" = some (.str arm) := by
        cases w with
        | str text => rw [hprop, ← Option.some.inj htext]
        | _ => cases htext
      split at h
      · simp at h
      · next hknown =>
        split at h
        · simp at h
        · next hnew =>
          obtain ⟨hs, hrest⟩ := List.append_eq_nil_iff.mp h
          rw [if_neg hknown, if_neg hnew]
          rw [← textOf_of_prop hprop] at hnew ⊢
          refine ⟨hs, record, ⟨eq_ofJson_of_plain hrecord, ?_⟩, hnew, rfl⟩
          exact ⟨(textOf_of_prop hprop).symm ▸ hprop, fixtureIds_of_recordErrors hnodup hrest⟩
    · simp at h

/-- Valid comparison arms are one record of each arm. -/
theorem arms_of_comparison {v : Evidence} (hnodup : (fixtures.map (textOf · "fixture_id")).Nodup)
    (h : validateComparisonArms t v fixtures = []) :
    v = ofJson (.arr (records v)) ∧
      ((records v).map (textOf · "arm")).Perm clusterComparisonArms ∧
      ∀ record ∈ records v, Compared fixtures record := by
  unfold validateComparisonArms at h
  split at h
  · next items =>
    obtain ⟨hloop, hmissing⟩ := List.append_eq_nil_iff.mp h
    obtain ⟨hlength, arms, hall, -, -, hseen⟩ := foldl_distinct (f := fun c => textOf c "arm")
      (tallyRecord_spec hnodup) hloop
    have hlength := of_check hlength
    have hcount : arms.length = clusterComparisonArms.length := by
      rw [← hall.length_eq, List.length_zipIdx, hlength]
    rw [hseen, List.append_nil, List.map_eq_nil_iff, List.filter_eq_nil_iff] at hmissing
    have hsubset : clusterComparisonArms ⊆ arms.map (textOf · "arm") := by
      intro arm harm
      have hmem := hmissing arm harm
      rw [decide_eq_true_eq, not_not, List.mem_reverse] at hmem
      exact hmem
    obtain ⟨hjson, hrecords, hcompared⟩ := eq_records hall
    rw [hrecords]
    refine ⟨hjson, ?_, hcompared⟩
    apply List.Perm.symm
    apply (List.subperm_of_subset (by decide) hsubset).perm_of_length_le
    rw [List.length_map, hcount]
  · cases h

end Arms

section Assets

variable {t : Texts} {plan : Json} {items : List Evidence}

/-- Loaded assets: the selected ones in their roles, and controls that are not rejected. -/
structure Loaded (plan : Json) (assets : List Json) : Prop where
  ids : ∀ a ∈ assets, a.prop "asset_id" = some (.str (textOf a "asset_id"))
  distinct : (assets.map (textOf · "asset_id")).Nodup
  roles : ∀ a ∈ assets, ∃ role ∈ ["primary", "advisor", "control"], a.propIs "role" role = true
  primary : (assets.filter (·.propIs "role" "primary")).map (textOf · "asset_id") = [primaryId plan]
  advisors : ((assets.filter (·.propIs "role" "advisor")).map (textOf · "asset_id")).Perm
    (selectedIds plan "advisors")
  admitted : ∀ a ∈ assets, textOf a "asset_id" ∉ selectedIds plan "rejected"

theorem records_arr : records (.arr items) = items.map toJson := by
  rw [records, toJson_arr]
  rfl

/-- Without errors, each entry is a plain object. -/
theorem plain_of_loadedErrors (h : loadedErrors t items = []) : ∀ p ∈ items.zipIdx,
    plain p.1 ("assetsLoaded[" ++ toString p.2 ++ "]") = .ok p.1.toJson ∧
      assetErrors t ("assetsLoaded[" ++ toString p.2 ++ "]") p.1.toJson = [] := by
  intro p hp
  rw [loadedErrors, List.flatMap_eq_nil_iff] at h
  have hnone := h p hp
  dsimp only at hnone
  split at hnone
  · next herrors => exact absurd hnone (plain_ne_nil herrors)
  · next asset hasset =>
    rw [toJson_of_plain hasset]
    exact ⟨hasset, hnone⟩

theorem readable_of_loadedErrors (h : loadedErrors t items = []) :
    readable items = items.map toJson := by
  rw [readable, List.filterMap_congr (g := some ∘ fun p : Evidence × ℕ => p.1.toJson),
    List.filterMap_eq_map]
  · conv_rhs => rw [← List.zipIdx_map_fst 0 items, List.map_map]
    rfl
  · intro p hp
    rw [(plain_of_loadedErrors h p hp).1]
    rfl

theorem json_of_loadedErrors (h : loadedErrors t items = []) :
    (.arr items : Evidence) = ofJson (.arr (records (.arr items))) := by
  rw [records_arr, ofJson_arr, List.map_map]
  congr 1
  refine (List.map_id _).symm.trans (List.map_congr_left fun v hv => ?_)
  obtain ⟨i, hi, rfl⟩ := List.mem_iff_getElem.mp hv
  exact eq_ofJson_of_plain (plain_of_loadedErrors h (_, i)
    (List.mk_mem_zipIdx_iff_getElem?.mpr (List.getElem?_eq_getElem hi))).1

theorem assets_of_loadedErrors (h : loadedErrors t items = []) :
    ∀ a ∈ items.map toJson, ∃ label, assetErrors t label a = [] := by
  intro a ha
  obtain ⟨v, hv, rfl⟩ := List.mem_map.mp ha
  obtain ⟨i, hi, rfl⟩ := List.mem_iff_getElem.mp hv
  exact ⟨_, (plain_of_loadedErrors h (_, i)
    (List.mk_mem_zipIdx_iff_getElem?.mpr (List.getElem?_eq_getElem hi))).2⟩

/-- What an asset without errors has. -/
theorem asset_of_errors {label : String} {asset : Json} (h : assetErrors t label asset = []) :
    (textId asset "asset_id").isSome = true ∧
      ∃ role ∈ ["primary", "advisor", "control"], asset.propIs "role" role = true := by
  obtain ⟨h, -⟩ := List.append_eq_nil_iff.mp h
  obtain ⟨h, -⟩ := List.append_eq_nil_iff.mp h
  obtain ⟨hid, hrole⟩ := List.append_eq_nil_iff.mp h
  exact ⟨of_check hid, List.any_eq_true.mp (of_check hrole)⟩

/-- Valid loaded assets beside a plan are those that it selects, and controls. -/
theorem loaded_of_valid {v : Evidence} (hplan : Applies plan)
    (h : (validateLoadedAssets t v (some plan)).errors = []) :
    v = ofJson (.arr (records v)) ∧ Loaded plan (records v) := by
  unfold validateLoadedAssets at h
  split at h
  · cases h
  · cases h
  · next items =>
    obtain ⟨h, hselected⟩ := List.append_eq_nil_iff.mp h
    obtain ⟨h, hcount⟩ := List.append_eq_nil_iff.mp h
    obtain ⟨h, hunique⟩ := List.append_eq_nil_iff.mp h
    obtain ⟨-, herrors⟩ := List.append_eq_nil_iff.mp h
    obtain ⟨hselected, hrejected⟩ := List.append_eq_nil_iff.mp hselected
    obtain ⟨hprimary, hadvisors⟩ := List.append_eq_nil_iff.mp hselected
    have hvalid := assets_of_loadedErrors herrors
    rw [readable_of_loadedErrors herrors] at hunique hcount hprimary hadvisors hrejected
    refine ⟨json_of_loadedErrors herrors, ?_⟩
    rw [records_arr]
    generalize items.map toJson = assets at *
    have hids : ∀ a ∈ assets, (textId a "asset_id").isSome = true := fun a ha => by
      obtain ⟨label, hlabel⟩ := hvalid a ha
      exact (asset_of_errors hlabel).1
    have hrole (role : String) : idsOfRole role assets =
        (assets.filter (·.propIs "role" role)).map (textOf · "asset_id") :=
      filterMap_textId fun a ha => hids a (List.mem_of_mem_filter ha)
    rw [filterMap_textId hids] at hunique hrejected
    refine
      { ids := fun a ha => textId_eq_some (textId_of_isSome (hids a ha))
        distinct := nodup_of_uniqueErrors hunique
        roles := fun a ha => ?_
        primary := ?_
        advisors := ?_
        admitted := ?_ }
    · obtain ⟨label, hlabel⟩ := hvalid a ha
      exact (asset_of_errors hlabel).2
    · obtain ⟨a, ha⟩ := List.length_eq_one_iff.mp (of_check hcount)
      have hprimary := of_check hprimary
      rw [ha] at hprimary ⊢
      have hmem : a ∈ assets := List.mem_of_mem_filter (ha ▸ List.mem_singleton_self a)
      change (a.prop "asset_id").bind text? = _ at hprimary
      rw [List.map_singleton, textOf, hprimary]
      rfl
    · rw [← hrole]
      exact perm_of_sameStringSet (of_check hadvisors) (hplan.nodup (.head _))
    · intro a ha hmem
      have hnone := List.filter_eq_nil_iff.mp (of_check hrejected) _ (List.mem_map_of_mem ha)
      exact hnone (decide_eq_true hmem)
  · cases h

end Assets

section Economics

variable {plan : Json} {cost : Evidence}

/-- A budget that covers the selected assets and the tokens. -/
structure Covered (plan cost : Json) : Prop where
  assets : ∃ most, integer? (((plan.prop "budget").getD .null).prop "max_assets") = some most ∧
    1 + ((selectedIds plan "advisors").length : ℤ) ≤ most
  consumed : integer? (((plan.prop "budget").getD .null).prop "assets_consumed") =
    some (1 + ((selectedIds plan "advisors").length : ℤ))
  tokens : ∃ used most, cost.prop "tokens_used" = some (.num used) ∧
    ((plan.prop "budget").getD .null).prop "max_tokens" = some (.num most) ∧
    0 ≤ toRat used ∧ toRat used ≤ toRat most

theorem numberAt_of_prop {v : Json} {name : String} {x : Binary64}
    (h : v.prop name = some (.num x)) : numberAt v name = some x := by
  rw [numberAt, h]

theorem tokens_of_costErrors {cost : Json} (h : costErrors cost = []) :
    ∃ used, cost.prop "tokens_used" = some (.num used) ∧ 0 ≤ toRat used := by
  obtain ⟨h, -⟩ := List.append_eq_nil_iff.mp h
  split at h
  · next used hused => exact ⟨used, hused, of_check h⟩
  · cases h

theorem expectedAssets_of_isSome (h : (expectedAssets plan).isSome = true) :
    expectedAssets plan = some (1 + (selectedIds plan "advisors").length) := by
  obtain ⟨n, hn⟩ := Option.isSome_iff_exists.mp h
  obtain ⟨advisors, hadvisors, rfl⟩ := Option.map_eq_some_iff.mp hn
  obtain ⟨w, hprop, hitems⟩ := Option.bind_eq_some_iff.mp hadvisors
  rw [hn, selectedIds, List.length_map, itemsAt, hprop, Option.elim_some, elements, hitems]
  rfl

/-- What valid evidence of the costs and no issue with them say. -/
theorem covered_of_valid (h : validateEconomicsEvidence plan cost = []) (hissues : costIssues plan cost.toJson = []) :
    cost = ofJson cost.toJson ∧ Covered plan cost.toJson := by
  obtain ⟨h, hcost⟩ := List.append_eq_nil_iff.mp h
  obtain ⟨hadvisors, hbudget⟩ := List.append_eq_nil_iff.mp h
  have hadvisors := expectedAssets_of_isSome (of_check hadvisors)
  split at hcost
  · next props =>
    obtain ⟨hcanonical, hcost⟩ := List.append_eq_nil_iff.mp hcost
    obtain ⟨used, hused, hnonneg⟩ := tokens_of_costErrors hcost
    refine ⟨eq_ofJson_of_canonical hcanonical, ?_⟩
    unfold budgetErrors at hbudget
    split at hbudget
    · next budget hprop =>
      obtain ⟨hbudget, hexceeds⟩ := List.append_eq_nil_iff.mp hbudget
      obtain ⟨hbudget, hconsumed⟩ := List.append_eq_nil_iff.mp hbudget
      obtain ⟨htokens, hassets⟩ := List.append_eq_nil_iff.mp hbudget
      rw [hadvisors] at hexceeds hconsumed
      have hconsumed := of_check hconsumed
      have hassets := of_check hassets
      split at htokens
      · next most hmost =>
        obtain ⟨hissues, -⟩ := List.append_eq_nil_iff.mp hissues
        rw [numberAt_of_prop hused, hprop, Option.bind_some, numberAt_of_prop hmost] at hissues
        refine
          { assets := ?_
            consumed := ?_
            tokens := ⟨used, most, hused, by rw [hprop]; exact hmost, hnonneg, of_check hissues⟩ }
        · rw [hprop]
          obtain ⟨most, hmost, -⟩ := (Option.any_eq_true _ _).mp hassets
          refine ⟨most, hmost, ?_⟩
          by_contra hlt
          rw [hmost, if_pos (by simpa using hlt)] at hexceeds
          cases hexceeds
        · rw [hprop]
          simpa using hconsumed
      · cases htokens
    · cases hbudget
  · cases hcost

end Economics

section Verdict

variable {t : Texts} {o : Options}

theorem gate_of_pass {issues : List String} (h : (Gate.of issues).pass = some true) : issues = [] :=
  of_decide_eq_true (Option.some.inj h)

/-- The gates of a plan that is not executable and not invalid do not pass. -/
theorem status_of_structural (hvalid : o.planValidation.status ≠ .invalid)
    (h : (o.structural t).pass = some true) : o.planValidation.status = .applies := by
  cases hstatus : o.planValidation.status with
  | invalid => exact absurd hstatus hvalid
  | applies => rfl
  | blocked =>
    rw [Options.structural, if_pos hstatus, structuralGate] at h
    rw [Options.planValidation] at hstatus
    split at h
    · cases h
    · cases h
    · next heq =>
      rw [heq] at hstatus
      cases hstatus

section Applies

variable (hstatus : o.planValidation.status = .applies)

include hstatus

theorem not_blocked : ¬ o.planValidation.status = .blocked := by
  rw [hstatus]
  exact nofun

theorem bindings_of_structural (h : (o.structural t).pass = some true) : o.bindingErrors = [] := by
  rw [Options.structural, if_neg (not_blocked hstatus), gateWithEvidence] at h
  split at h
  · assumption
  · cases h

theorem comparison_of_behavioral (h : (o.behavioral t).pass = some true) :
    o.comparisonErrors t = [] := by
  rw [Options.behavioral, if_neg (not_blocked hstatus)] at h
  split at h
  · assumption
  · cases h

theorem costs_of_economics (h : o.economics.pass = some true) :
    o.economicsErrors = [] ∧ costIssues o.plan.toJson o.executionCost.toJson = [] := by
  rw [Options.economics, if_neg (not_blocked hstatus)] at h
  split at h
  · next hvalid =>
    refine ⟨hvalid.2, ?_⟩
    rw [economicsGate] at h
    split_ifs at h
    · exact gate_of_pass h
    · cases h
  · cases h

theorem loaded_of_trust (h : (o.trust t).pass = some true) : (o.loadedValidation t).errors = [] := by
  rw [Options.trust, if_neg (not_blocked hstatus)] at h
  split at h
  · cases h
  · split at h
    · assumption
    · cases h

end Applies

theorem forall_gates {P : Gate → Prop} : (∀ g ∈ o.gates t, P g.2) ↔
    P (o.structural t) ∧ P (o.behavioral t) ∧ P o.economics ∧ P (o.trust t) ∧ P o.product := by
  simp [Options.gates]

theorem pass_iff : (o.report t).overall = .pass ↔ validateClusterFixtures o.fixtures = [] ∧
    o.planValidation.status = .applies ∧ ∀ g ∈ o.gates t, g.2.pass = some true := by
  rw [Options.report]
  split
  · next h => exact iff_of_true rfl h
  · next h => exact iff_of_false nofun h

/-- The lists beside a verdict are empty exactly when it is `pass`. -/
theorem lists_eq_nil_iff : ((o.report t).failedGates = [] ∧ (o.report t).incompleteGates = [] ∧
    (o.report t).failedEvidence = []) ↔ (o.report t).overall = .pass := by
  have hnamed (result : Option Bool) : named (o.gates t) result = [] ↔
      ∀ g ∈ o.gates t, g.2.pass ≠ result := by
    rw [named, List.map_eq_nil_iff, List.filter_eq_nil_iff]
    simp only [decide_eq_true_eq, ne_eq]
  rw [pass_iff]
  change (named (o.gates t) (some false) = [] ∧ named (o.gates t) none = [] ∧ _ = []) ↔ _
  rw [hnamed, hnamed]
  constructor
  · rintro ⟨hfailed, hincomplete, hevidence⟩
    obtain ⟨hevidence, -⟩ := List.append_eq_nil_iff.mp hevidence
    obtain ⟨hevidence, -⟩ := List.append_eq_nil_iff.mp hevidence
    obtain ⟨hevidence, -⟩ := List.append_eq_nil_iff.mp hevidence
    obtain ⟨hevidence, -⟩ := List.append_eq_nil_iff.mp hevidence
    obtain ⟨hfixtures, hplan⟩ := List.append_eq_nil_iff.mp hevidence
    have hgates : ∀ g ∈ o.gates t, g.2.pass = some true := by
      intro g hg
      match hpass : g.2.pass with
      | some true => rfl
      | some false => exact absurd hpass (hfailed g hg)
      | none => exact absurd hpass (hincomplete g hg)
    refine ⟨of_check hfixtures, status_of_structural ?_ (hgates _ (.head _)), hgates⟩
    intro hinvalid
    rw [if_pos hinvalid] at hplan
    cases hplan
  · rintro ⟨hfixtures, hstatus, hgates⟩
    refine ⟨fun g hg => ?_, fun g hg => ?_, ?_⟩
    · rw [hgates g hg]
      exact nofun
    · rw [hgates g hg]
      exact nofun
    · obtain ⟨hstructural, hbehavioral, heconomics, htrust, -⟩ :=
        (forall_gates (P := fun g => g.pass = some true)).mp hgates
      rw [Options.report]
      dsimp only
      rw [if_pos hfixtures, if_neg (by rw [hstatus]; exact nofun),
        if_pos (bindings_of_structural hstatus hstructural),
        if_pos (comparison_of_behavioral hstatus hbehavioral),
        if_pos (loaded_of_trust hstatus htrust), if_pos (costs_of_economics hstatus heconomics).1]
      rfl

/-- The evidence of a promotion. -/
structure Promoted (o : Options) : Prop where
  fixtures_eq : o.fixtures = ofJson (.arr (records o.fixtures))
  fixtures_ne_nil : records o.fixtures ≠ []
  fixture_ids : ((records o.fixtures).map (textOf · "fixture_id")).Nodup
  plan_eq : o.plan = ofJson o.plan.toJson
  applies : Applies o.plan.toJson
  expects : ∀ f ∈ records o.fixtures, Expects o.plan.toJson f
  comparisonArms_eq : o.comparisonArms = ofJson (.arr (records o.comparisonArms))
  arms : ((records o.comparisonArms).map (textOf · "arm")).Perm clusterComparisonArms
  compared : ∀ record ∈ records o.comparisonArms, Compared (records o.fixtures) record
  loadedAssets_eq : o.loadedAssets = ofJson (.arr (records o.loadedAssets))
  loaded : Loaded o.plan.toJson (records o.loadedAssets)
  executionCost_eq : o.executionCost = ofJson o.executionCost.toJson
  covered : Covered o.plan.toJson o.executionCost.toJson

/-- A passing verdict has all of its evidence. -/
theorem promoted_of_pass (h : (o.report t).overall = .pass) : Promoted o := by
  obtain ⟨hfixtures, hstatus, hgates⟩ := pass_iff.mp h
  obtain ⟨hplan, happlies⟩ := applies_of_status hstatus
  obtain ⟨hjson, hne, hids, hform⟩ := fixtures_of_valid hfixtures
  obtain ⟨hstructural, hbehavioral, heconomics, htrust, -⟩ :=
    (forall_gates (P := fun g => g.pass = some true)).mp hgates
  have hbindings := bindings_of_structural hstatus hstructural
  have hcomparison := comparison_of_behavioral hstatus hbehavioral
  have hloaded := loaded_of_trust hstatus htrust
  obtain ⟨heconomics, hissues⟩ := costs_of_economics hstatus heconomics
  rw [Options.bindingErrors, hstatus] at hbindings
  rw [Options.comparisonErrors, if_neg (not_blocked hstatus), if_pos hfixtures] at hcomparison
  rw [Options.loadedValidation, if_neg (not_blocked hstatus), Options.executable,
    if_pos hstatus] at hloaded
  rw [Options.economicsErrors, hstatus] at heconomics
  obtain ⟨harms, honce, hcompared⟩ := arms_of_comparison hids hcomparison
  obtain ⟨hassets, hloaded⟩ := loaded_of_valid happlies hloaded
  obtain ⟨hcost, hcovered⟩ := covered_of_valid heconomics hissues
  exact
    { fixtures_eq := hjson
      fixtures_ne_nil := hne
      fixture_ids := hids
      plan_eq := hplan
      applies := happlies
      expects := expects_of_bindings happlies hform ((if_pos hfixtures).symm.trans hbindings)
      comparisonArms_eq := harms
      arms := honce
      compared := hcompared
      loadedAssets_eq := hassets
      loaded := hloaded
      executionCost_eq := hcost
      covered := hcovered }

end Verdict

section Single

/-- `0` -/
def zero : Json := .num (.natural 0 Binary64.zero_le_limit)

/-- `1` -/
def one : Json := .num (.natural 1 Binary64.one_le_limit)

/-- The record of an arm for one fixture. -/
def armOf (arm : String) : Json :=
  .obj [("arm", .str arm), ("fixture_ids", .arr [.str "f"]),
    ("mean_score", if arm = "bounded_compose" then .num (.natural 2 (by decide)) else one),
    ("result_count", one), ("critical_errors", zero)]

/-- A loaded asset. -/
def assetOf (id role : String) : Json :=
  .obj [("asset_id", .str id), ("role", .str role), ("digest_verified", .bool true),
    ("authorization", .str "owner")]

/-- One fixture, a plan that selects `a`, and the assets `a` and `b` loaded. -/
def withControl : List (String × Json) :=
  [("manifest", .obj [("description", .str "d"), ("domains", .arr
      [.obj [("load_condition", .str "x")], .obj [("load_condition", .str "y")]]),
      ("composition", .obj [("strategy", .str "s")])]),
    ("fixtures", .arr [.obj [("fixture_id", .str "f"), ("task", .str "t"),
      ("expected_primary", .str "a"), ("expected_advisors", .arr []), ("expected_rejected", .arr []),
      ("expected_conflicts", zero)]]),
    ("plan", .obj [("applicability", .obj [("decision", .str "applies")]),
      ("selection", .obj [("primary", .obj [("asset_id", .str "a")]), ("advisors", .arr []),
        ("rejected", .arr [])]), ("conflicts", .arr []),
      ("budget", .obj [("max_tokens", one), ("max_assets", one),
        ("assets_consumed", one)])]),
    ("comparisonArms", .arr (clusterComparisonArms.map armOf)),
    ("assetsLoaded", .arr [assetOf "a" "primary", assetOf "b" "control"]),
    ("executionCost", .obj [("tokens_used", one), ("model_calls", one)])]

theorem runClusterAssay_withControl :
    runClusterAssay asciiTexts (ofJson (.obj withControl)) = .ok ⟨.pass, 5, 0, 0, [], [], []⟩ := by
  decide +kernel

end Single

end Kdna.Cluster

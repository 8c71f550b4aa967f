import Kdna.Ir.Admission
import Kdna.Ir.Reconstruct

/-!
# What the asset node keeps of a payload

The value of the asset node lists the members that are not nodes of their own, the
declarations without their boundaries, and nothing of them changed. The declared
boundaries come back from their nodes.
-/

namespace Kdna.Ir

open Value

/-- The copied members of a source: the same names, each value in memory. -/
theorem copiedMembers_eq_ok {source : Json} {names : List String} {ps : List (String × Json)}
    (h : copiedMembers source names = .ok ps) :
    ps = listed names fun name => (source.prop name).map enumerated := by
  rw [copiedMembers, mapM_eq_ok_iff] at h
  have hps : ps = (listed names source.prop).map fun p => (p.1, p.2.enumerated) := by
    generalize listed names source.prop = qs at h
    induction h with
    | nil => rfl
    | cons hp _ ih =>
      obtain ⟨w, hw, hq⟩ := bind_eq_ok_iff.mp hp
      rw [List.map_cons, ih, ← Except.ok.inj hq, (copyJson_eq_ok_iff.mp hw).2.2]
  rw [hps, listed, listed, List.map_filterMap]
  refine List.filterMap_congr fun name _ => ?_
  cases source.prop name <;> rfl

/-- What an asset node shows and holds. -/
theorem assetValue_spec {manifest payload value : Json} (h : assetValue manifest payload = .ok value) :
    ∃ coverage statement declarations question overview,
      value = .obj ((listed manifestNames fun name => (manifest.prop name).map enumerated) ++
        (listed payloadNames fun name => (payload.prop name).map enumerated) ++
        [("history", .obj [("coverage", coverage), ("statement", statement)]),
          ("declarations", .obj (("highest_question", enumerated question) :: overview))]) ∧
      payload.prop "declarations" = some declarations ∧
      declarations.prop "highest_question" = some question ∧
      boundaryOverview declarations = .ok overview := by
  simp only [assetValue, bind_eq_ok_iff, member_eq_ok_iff, pure_eq_ok, Except.ok.injEq] at h
  obtain ⟨shown, hshown, held, hheld, history, -, coverage, -, statement, -, declarations,
    hdeclarations, question', ⟨question, hquestion, hcopy⟩, overview, hoverview, rfl⟩ := h
  rw [copiedMembers_eq_ok hshown, copiedMembers_eq_ok hheld, (copyJson_eq_ok_iff.mp hcopy).2.2]
  exact ⟨coverage, statement, declarations, question, overview, rfl, hdeclarations, hquestion,
    hoverview⟩

/-- The members of an asset node, in the order of enumeration, as the payload has them. -/
theorem prop_assetValue {manifest payload value : Json} (hpayload : InMemory payload)
    (h : assetValue manifest payload = .ok value) :
    (∀ name ∈ payloadNames, value.enumerated.prop name = payload.prop name) ∧
      ∃ declarations question overview,
        value.enumerated.prop "declarations" =
          some (enumerated (.obj (("highest_question", question) :: overview))) ∧
        payload.prop "declarations" = some declarations ∧
        declarations.prop "highest_question" = some question ∧
        boundaryOverview declarations = .ok overview := by
  obtain ⟨coverage, statement, declarations, question, overview, rfl, hdeclarations, hquestion,
    hoverview⟩ := assetValue_spec h
  have hnodup : (manifestNames ++ payloadNames ++ ["history", "declarations"]).Nodup := by decide
  have hkeys : ∀ g g' : String → Option Json, ∀ v w : Json, ((listed manifestNames g ++
      listed payloadNames g' ++ [("history", v), ("declarations", w)]).map Prod.fst).Nodup := by
    intro g g' v w
    rw [List.map_append, List.map_append]
    exact hnodup.sublist (((map_fst_listed _ _).append (map_fst_listed _ _)).append
      (List.Sublist.refl _))
  have hmemory : ∀ {v : Json} {name : String}, InMemory v →
      (v.prop name).map enumerated = v.prop name := by
    intro v name hv
    cases hw : v.prop name with
    | none => rfl
    | some w => rw [Option.map_some, (hv.prop hw).enumerated]
  refine ⟨fun name hname => ?_, declarations, question, overview, ?_, hdeclarations, hquestion,
    hoverview⟩
  · have hshown : name ∉ manifestNames ∧ name ≠ "history" ∧ name ≠ "declarations" := by
      revert name
      decide
    rw [prop_enumerated (hkeys _ _ _ _), prop_obj_append, prop_obj_append, prop_listed, prop_listed,
      if_neg hshown.1, if_pos hname, Option.none_or, hmemory hpayload, prop_obj_cons,
      if_neg hshown.2.1.symm, prop_obj_cons, if_neg hshown.2.2.symm, prop_obj_nil, Option.or_none,
      hmemory hpayload]
  · have hothers : "declarations" ∉ manifestNames ∧ "declarations" ∉ payloadNames := by decide
    rw [prop_enumerated (hkeys _ _ _ _), prop_obj_append, prop_obj_append, prop_listed, prop_listed,
      if_neg hothers.1, if_neg hothers.2, (hpayload.prop hdeclarations).prop hquestion |>.enumerated]
    simp

/-- What a closed object has and lacks. -/
theorem closedObject_spec {v : Json} {required optional : List String}
    (h : closedObject v required optional = true) :
    (∃ props, v = .obj props) ∧ (∀ name, name ∉ required → name ∉ optional → v.prop name = none) ∧
      ∀ name ∈ required, ∃ w, v.prop name = some w := by
  cases v with
  | obj props =>
    simp only [closedObject, Bool.and_eq_true, List.all_eq_true, Bool.or_eq_true,
      List.contains_iff_mem] at h
    refine ⟨⟨props, rfl⟩, fun name hrequired hoptional => ?_, fun name hname => ?_⟩
    · by_contra hsome
      obtain ⟨w, hw⟩ := Option.ne_none_iff_exists'.mp hsome
      exact (h.1 _ (mem_of_prop hw)).elim hrequired hoptional
    · exact Option.isSome_iff_exists.mp (h.2 name hname)
  | _ => exact absurd h (by simp [closedObject])

/-- The value of a boundary declaration is the list that is declared, or `null`. -/
theorem boundaryDeclaration_spec {declarations boundaries : Json} {items : List Json}
    (hshape : boundaryDeclarationShape boundaries = true)
    (hprop : declarations.prop "boundaries" = some boundaries)
    (hitems : declaredValues declarations "boundaries" = .ok items) :
    boundaries.prop "value" =
      some (if boundaries.propIs "state" "provided" then .arr items else .null) := by
  rw [boundaryDeclarationShape, Bool.and_eq_true] at hshape
  rw [declaredValues, hprop] at hitems
  by_cases hprovided : boundaries.propIs "state" "provided" = true
  · simp only [hprovided, if_true] at hitems ⊢
    exact memberItems_eq_ok_iff.mp hitems
  · have hnull := hshape.2
    rw [if_neg hprovided] at hnull ⊢
    split at hnull
    · assumption
    · exact nomatch hnull

/-- The declarations that an asset node shows. -/
def shownDeclarations (question state : Json) : Json :=
  .obj [("highest_question", question), ("boundaries", .obj [("state", state)])]

theorem isObject_shownDeclarations (question state : Json) :
    IsObject (shownDeclarations question state) := by
  have hnodup : ["highest_question", "boundaries"].Nodup := by decide
  exact ⟨_, rfl, hnodup⟩

theorem prop_shownDeclarations {question state : Json} (hquestion : InMemory question)
    (hstate : InMemory state) (name : String) :
    (shownDeclarations question state).enumerated.prop name =
      if name = "highest_question" then some question
      else if name = "boundaries" then some (.obj [("state", state)]) else none := by
  rw [(isObject_shownDeclarations question state).prop_enumerated, shownDeclarations, prop_obj_cons,
    prop_obj_cons, prop_obj_nil]
  by_cases hname : name = "highest_question"
  · rw [if_pos hname.symm, if_pos hname, Option.map_some, hquestion.enumerated]
  · rw [if_neg (Ne.symm hname), if_neg hname]
    by_cases hname' : name = "boundaries"
    · rw [if_pos hname'.symm, if_pos hname', Option.map_some, enumerated_single, hstate.enumerated]
    · rw [if_neg (Ne.symm hname'), if_neg hname']
      rfl

/-- The declarations come back with the boundaries that are nodes of their own. -/
theorem restoredDeclarations_spec {nodes : List Json} {assetTarget declarations question : Json}
    {overview : List (String × Json)} {items : List Json} (hmemory : InMemory declarations)
    (hshape : declarationsShape declarations = true)
    (hquestion : declarations.prop "highest_question" = some question)
    (hoverview : boundaryOverview declarations = .ok overview)
    (hitems : declaredValues declarations "boundaries" = .ok items)
    (hcollect : collectNodes nodes assetTarget .boundary = .ok items) :
    ∃ restored, restoredDeclarations nodes assetTarget
        (enumerated (.obj (("highest_question", question) :: overview))) = .ok restored ∧
      restored.DeepEqual declarations := by
  rw [declarationsShape, Bool.and_eq_true] at hshape
  obtain ⟨⟨props, rfl⟩, hclosed, -⟩ := closedObject_spec hshape.1
  have hothers : ∀ name, name ≠ "highest_question" → name ≠ "boundaries" →
      prop (.obj props) name = none := by
    intro name hname hname'
    exact hclosed name (by simpa using hname) (by simpa using hname')
  cases hboundaries : prop (.obj props) "boundaries" with
  | none =>
    have hempty : overview = [] := by
      rw [boundaryOverview, given, hboundaries] at hoverview
      exact (Except.ok.inj hoverview).symm
    rw [hempty, enumerated_single, (hmemory.prop hquestion).enumerated]
    refine ⟨_, rfl, IsObject.deepEqual ⟨_, rfl, List.nodup_singleton _⟩ hmemory.isObject ?_⟩
    intro name
    by_cases hname : name = "highest_question"
    · rw [hname, hquestion]
      simp
    · by_cases hname' : name = "boundaries"
      · rw [hname', hboundaries]
        simp
      · rw [hothers name hname hname']
        simp [Ne.symm hname]
  | some boundaries =>
    have hdeclared : boundaryDeclarationShape boundaries = true := by
      simpa only [hboundaries] using hshape.2
    have hvalue := boundaryDeclaration_spec hdeclared hboundaries hitems
    have hbshape := hdeclared
    rw [boundaryDeclarationShape, Bool.and_eq_true] at hbshape
    obtain ⟨⟨bs, rfl⟩, hbothers, hbrequired⟩ := closedObject_spec hbshape.1
    obtain ⟨state, hstate⟩ := hbrequired "state" (by simp)
    have hbmemory := hmemory.prop hboundaries
    have hgiven : given (.obj props) "boundaries" = some (.obj bs) := by
      rw [given, hboundaries]
      rfl
    have hshown : overview = [("boundaries", .obj [("state", state)])] := by
      simp only [boundaryOverview, hgiven, member_eq_ok_iff.mpr hstate, ok_bind] at hoverview
      exact (Except.ok.inj hoverview).symm
    rw [hshown]
    have hprovided : propIs (.obj [("state", state)]) "state" "provided" =
        propIs (.obj bs) "state" "provided" := by
      rw [propIs, propIs, hstate, prop_obj_cons, if_pos rfl]
    have hread := prop_shownDeclarations (hmemory.prop hquestion) (hbmemory.prop hstate)
    have hgiven' : given (shownDeclarations question state).enumerated "boundaries" =
        some (.obj [("state", state)]) := by
      rw [given, hread]
      rfl
    have hsmall : IsObject (.obj [("state", state)]) := ⟨_, rfl, List.nodup_singleton _⟩
    have hrestored := isObject_shownDeclarations question state
    generalize hdeclaredValue : (if propIs (.obj bs) "state" "provided" then Value.arr items
      else .null) = declaredValue at hvalue
    refine ⟨(shownDeclarations question state).enumerated.setProp "boundaries"
      (setProp (.obj [("state", state)]) "value" declaredValue), ?_, IsObject.deepEqual
        (hrestored.enumerated.setProp "boundaries" _) hmemory.isObject fun name => ?_⟩
    · rw [← shownDeclarations, restoredDeclarations, hgiven']
      simp only [hprovided, hcollect]
      rw [← hdeclaredValue]
      split <;> rfl
    · rw [hrestored.enumerated.prop_setProp, hread]
      by_cases hname : name = "boundaries"
      · rw [if_pos hname, hname, hboundaries]
        refine congrArg some (IsObject.deepEqual (hsmall.setProp "value" _) hbmemory.isObject ?_)
        intro member
        rw [hsmall.prop_setProp, prop_obj_cons, prop_obj_nil]
        by_cases hmember : member = "value"
        · rw [if_pos hmember, hmember, hvalue]
        · by_cases hmember' : member = "state"
          · rw [if_neg hmember, if_pos hmember'.symm, hmember', hstate]
          · rw [if_neg hmember, if_neg (Ne.symm hmember'),
              hbothers member (by simp [hmember, hmember']) List.not_mem_nil]
      · rw [if_neg hname, if_neg hname]
        by_cases hname' : name = "highest_question"
        · rw [if_pos hname', hname', hquestion]
        · rw [if_neg hname', hothers name hname' hname]

end Kdna.Ir

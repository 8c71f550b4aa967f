import Kdna.Retained.Issued

/-!
# The two planners

The planner of the browser plans as the other one does, except where the mandatory closures of
a selection hold a judgment that is not selected: for such a member it issues no handle.
-/

namespace Kdna.Retained

open Value Ir Read

section Filters

variable {α β : Type} {p q : α → Bool} {l : List α}

/-- A filter keeps as much as a weaker one only where both keep the same. -/
theorem map_filter_or_eq_iff (f : α → β) :
    (l.filter p).map f = (l.filter fun a => p a || q a).map f ↔
      ∀ a ∈ l, q a = true → p a = true := by
  constructor
  · intro h a ha hq
    have hlength := congrArg List.length h
    rw [List.length_map, List.length_map] at hlength
    have hsub : (l.filter p).Sublist (l.filter fun a => p a || q a) :=
      List.monotone_filter_right l fun a hp => by rw [hp, Bool.true_or]
    have hmem : a ∈ l.filter p := by
      rw [hsub.eq_of_length hlength]
      exact List.mem_filter.mpr ⟨ha, by rw [hq, Bool.or_true]⟩
    exact (List.mem_filter.mp hmem).2
  · intro h
    refine congrArg (List.map f) (List.filter_congr fun a ha => ?_)
    cases hq : q a with
    | true => rw [h a ha hq, Bool.true_or]
    | false => rw [Bool.or_false]

end Filters

variable {core : Core} {manifest payload : Json} {entries : Entries} {ir : CanonicalIr}
variable {b : Built core manifest payload entries ir} {view : View}

/-- Outside a selection no member is reducible. -/
theorem browserPlan_eq_plan {request : Request} (hexact : request.isExact = false) :
    browserPlan request view = plan request view := by
  have hnone (f : Frame) (d : Json) : reducibleMember request f d = false := by
    rw [reducibleMember, hexact, Bool.false_and, Bool.false_and]
  have hdeferred (f : Frame) :
      (fun d => unsupplied f d || reducibleMember request f d) = unsupplied f := by
    funext d
    rw [hnone, Bool.or_false]
  cases request with
  | catalog => rfl
  | wholeAsset => simp only [browserPlan, plan, hdeferred]
  | exactSelection s => exact nomatch hexact
  | expand s handle => simp only [browserPlan, plan, hdeferred]

/-- For a selection the two plans issue the same handles only where no other judgment is held. -/
theorem Sound.browserPlan_exact_iff (h : Sound b) (hview : view.ir = ir) {s : SelectionSet}
    (hknown : Known ir (some s)) :
    browserPlan (.exactSelection s) view = plan (.exactSelection s) view ↔ ¬ HoldsOther ir s := by
  obtain ⟨f, hf, -, hkept, hindex, hsupplied⟩ := h.frame_exact hview hknown
  have hreducible (d : Json) : reducibleMember (.exactSelection s) f d =
      (within f.supplied d "node_ref" && isOther s d) := rfl
  have hplans : browserPlan (.exactSelection s) view = plan (.exactSelection s) view ↔
      ∀ d ∈ f.index, reducibleMember (.exactSelection s) f d = true → unsupplied f d = true := by
    rw [← map_filter_or_eq_iff fun d => (d.prop "target").bind (byTarget f.selected.targets)]
    simp only [browserPlan, plan, hf, ok_bind, pure_eq_ok, Except.ok.injEq, Frame.plan,
      Plan.mk.injEq, true_and, and_true]
  rw [hplans]
  constructor
  · rintro hall ⟨d, hd, hother, hheld⟩
    have hinside := (hsupplied d hd).mpr hheld
    have hunsupplied := hall d (hkept d hd hinside) (by rw [hreducible, hinside, hother]; rfl)
    rw [unsupplied, hinside] at hunsupplied
    exact Bool.false_ne_true hunsupplied
  · intro hnone d hd hmember
    rw [hreducible, Bool.and_eq_true] at hmember
    have hrow := (hindex d hd).1
    exact absurd ⟨d, hrow, hmember.2, (hsupplied d hrow).mp hmember.1⟩ hnone

/-- The browser's plan of a normalised request is the other one's exactly where no mandatory
closure of a selected judgment holds a judgment that is not selected. -/
theorem browserPlan_eq_plan_iff (core : Core) (manifest payload : Json) (entries : Entries)
    (ir : CanonicalIr) (hbuild : buildIR core manifest payload entries = .ok ir)
    (hpassed : Passed core manifest payload entries ir) (hmemory : InMemory payload)
    (view : View) (tuple : Json) (hview : view.ir = { ir with tuple }) (raw request : Request)
    (hrequest : normalize raw view = .ok request) :
    browserPlan request view = plan request view ↔
      ∀ s, request = .exactSelection s → ¬ HoldsOther ir s := by
  obtain ⟨b⟩ := buildIR_spec hbuild
  have hsound := hpassed.sound hmemory b
  rw [normalize_of_tuple hview] at hrequest
  rw [browserPlan_of_tuple hview, plan_of_tuple hview]
  have hknown : Known ir request.selection := known_of_normalize hrequest
  cases request with
  | exactSelection s =>
    rw [hsound.browserPlan_exact_iff rfl hknown]
    exact ⟨fun hnone s' hs' => Request.exactSelection.inj hs' ▸ hnone, fun hall => hall s rfl⟩
  | catalog => exact iff_of_true (browserPlan_eq_plan rfl) fun s hs => nomatch hs
  | wholeAsset => exact iff_of_true (browserPlan_eq_plan rfl) fun s hs => nomatch hs
  | expand s handle => exact iff_of_true (browserPlan_eq_plan rfl) fun s' hs => nomatch hs

section Sample

/-- A selection of the sample's first judgment, normalised. -/
theorem normalize_replaced {ir : CanonicalIr}
    (h : normalizeSelection replacedSelection ⟨ir.asset, ir.tuple, ir⟩ = .ok replacedSelection) :
    normalize (.exactSelection replacedSelection) ⟨ir.asset, ir.tuple, ir⟩ =
      .ok (.exactSelection replacedSelection) := by
  rw [normalize, h]
  rfl

theorem browserPlan_eq_plan_iff_sample :
    ∃ ir, buildIR replacedCore sampleManifest replacedPayload [] = .ok ir ∧
      (browserPlan (.exactSelection replacedSelection) ⟨ir.asset, ir.tuple, ir⟩ =
          plan (.exactSelection replacedSelection) ⟨ir.asset, ir.tuple, ir⟩ ↔
        ∀ s, Request.exactSelection replacedSelection = .exactSelection s → ¬ HoldsOther ir s) := by
  obtain ⟨ir, hir, hselection, -⟩ := exists_replacedIr
  exact ⟨ir, hir, browserPlan_eq_plan_iff replacedCore sampleManifest replacedPayload [] ir hir
    (passed_replaced hir) inMemory_replaced ⟨ir.asset, ir.tuple, ir⟩ ir.tuple rfl
    (.exactSelection replacedSelection) _ (normalize_replaced hselection)⟩

/-- The first judgment needs its replacement, for which the browser issues no handle. -/
theorem browserPlan_ne_plan :
    ∃ ir, buildIR replacedCore sampleManifest replacedPayload [] = .ok ir ∧
      Passed replacedCore sampleManifest replacedPayload [] ir ∧ InMemory replacedPayload ∧
      ∃ request, normalize request ⟨ir.asset, ir.tuple, ir⟩ = .ok request ∧
        browserPlan request ⟨ir.asset, ir.tuple, ir⟩ ≠ plan request ⟨ir.asset, ir.tuple, ir⟩ := by
  obtain ⟨ir, hir, hselection, hheld⟩ := exists_replacedIr
  obtain ⟨b⟩ := buildIR_spec hir
  have hsound := (passed_replaced hir).sound inMemory_replaced b
  have hknown : Known ir (some replacedSelection) := (normalizeSelection_spec hselection).1
  refine ⟨ir, hir, passed_replaced hir, inMemory_replaced, .exactSelection replacedSelection,
    normalize_replaced hselection, fun heq => ?_⟩
  exact (hsound.browserPlan_exact_iff rfl hknown).mp heq hheld

end Sample

end Kdna.Retained

import Mathlib.Algebra.Order.BigOperators.Group.List
import Mathlib.Data.List.Forall2
import Mathlib.Tactic.GCongr
import Kdna.Assay.Run

/-!
# Verdicts fail closed

A verdict of an assay is `pass` only with a complete fixture set, a result of each arm on each
fixture and no crossed boundary where the profile asks for that. It does not become `pass` when a
result of the correct arm gives way to one that reads no better.
-/

namespace Kdna.Assay

open Value

section Reports

theorem failed_eq_nil_iff (results : List (String × Bool)) (count : ℕ) :
    (report results count).failedThresholds = [] ↔ (report results count).overallVerdict = .pass := by
  rw [report, List.map_eq_nil_iff, List.filter_eq_nil_iff]
  by_cases h : ∀ r ∈ results, r.2 = true
  · simp only [if_pos h, iff_true]
    intro r hr
    simp [h r hr]
  · rw [if_neg h]
    refine ⟨fun hnone => absurd (fun r hr => ?_) h, fun heq => by cases heq⟩
    simpa using hnone r hr

theorem verdict_report_iff (results : List (String × Bool)) (count : ℕ) :
    (report results count).overallVerdict = .pass ↔ ∀ r ∈ results, r.2 = true := by
  rw [report]
  split
  · next h => exact iff_of_true rfl h
  · next h => exact iff_of_false (fun heq => by cases heq) h

variable {t : Texts} {profile fixtures asset : Json} {arms : Option Json} {runner : ℕ → ℕ → Call}
  {R : Report}

/-- A report is that of an invalid fixture set, of invalid arms or of a run. -/
theorem runAssay_cases (h : runAssay t profile fixtures asset arms runner = .ok R) :
    validateFixtureSet fixtures profile ≠ [] ∧ R = report [("fixture_dataset", false)] 0 ∨
    validateBaselineArms (arms.getD createAllBaselineArms) ≠ [] ∧
      R = report [("fixture_dataset", true), ("baseline_arms", false)] 0 ∨
    validateFixtureSet fixtures profile = [] ∧
      validateBaselineArms (arms.getD createAllBaselineArms) = [] ∧
      ∃ results, thresholdResults t profile asset (elements fixtures)
          (elements (arms.getD createAllBaselineArms)) (runRows (elements fixtures)
            (elements (arms.getD createAllBaselineArms)) runner) = .ok results ∧
        R = report results (runRows (elements fixtures)
          (elements (arms.getD createAllBaselineArms)) runner).length := by
  unfold runAssay at h
  obtain ⟨-, h⟩ := require_bind_eq_ok_iff.mp h
  dsimp only at h
  split at h
  · next hfixtures => exact .inl ⟨hfixtures, (Except.ok.inj h).symm⟩
  · next hfixtures =>
    split at h
    · next harms => exact .inr (.inl ⟨harms, (Except.ok.inj h).symm⟩)
    · next harms =>
      obtain ⟨results, hresults, hR⟩ := bind_eq_ok_iff.mp h
      exact .inr (.inr ⟨not_not.mp hfixtures, not_not.mp harms, results, hresults,
        (Except.ok.inj hR).symm⟩)

/-- A passing report is that of a run. -/
theorem run_of_pass (h : runAssay t profile fixtures asset arms runner = .ok R)
    (hpass : R.overallVerdict = .pass) :
    validateFixtureSet fixtures profile = [] ∧
      validateBaselineArms (arms.getD createAllBaselineArms) = [] ∧
      ∃ results, thresholdResults t profile asset (elements fixtures)
          (elements (arms.getD createAllBaselineArms)) (runRows (elements fixtures)
            (elements (arms.getD createAllBaselineArms)) runner) = .ok results ∧
        ∀ r ∈ results, r.2 = true := by
  rcases runAssay_cases h with ⟨-, rfl⟩ | ⟨-, rfl⟩ | ⟨hfixtures, harms, results, hresults, rfl⟩
  · exact absurd ((verdict_report_iff _ _).mp hpass _ List.mem_cons_self) Bool.false_ne_true
  · exact absurd ((verdict_report_iff _ _).mp hpass _ (.tail _ List.mem_cons_self))
      Bool.false_ne_true
  · exact ⟨hfixtures, harms, results, hresults, (verdict_report_iff _ _).mp hpass⟩

end Reports

section Measures

variable {t : Texts} {profile asset : Json} {fixtures arms : List Json} {rows : List Row}

/-- The measures of a run with which all thresholds pass. -/
structure Passing (t : Texts) (profile asset : Json) (fixtures : List Json) (rows : List Row)
    (noKdna correct accuracy contamination : ℚ) (harmful : ℕ) (regression : Bool) : Prop where
  run : rows ≠ []
  evidence : ∀ r ∈ rows, r.result?.isSome = true
  improvement : threshold profile "blind_mean_improvement_min" ≤ correct - noKdna ∨
    ∃ r ∈ criticalErrorReduction (countCriticalErrors t rows "no_kdna")
      (countCriticalErrors t rows "correct_single_kdna"),
      threshold profile "critical_error_reduction_pct" ≤ r
  accurate : threshold profile "non_applicable_accuracy_min" ≤ accuracy
  clean : contamination ≤ threshold profile "harmful_contamination_max"
  harmless : flag profile "high_risk_harm_zero" = true →
    harmful = 0 ∧ errorCount (rowsOf rows "high_risk_failure" "correct_single_kdna") = 0
  regressed : flag profile "regression_pass_required" = true → regression = true

/-- What the threshold results say. -/
theorem thresholdResults_spec {results : List (String × Bool)}
    (h : thresholdResults t profile asset fixtures arms rows = .ok results) :
    ∃ noKdna correct accuracy contamination harmful regression,
      meanScore t fixtures rows "no_kdna" = .ok noKdna ∧
      meanScore t fixtures rows "correct_single_kdna" = .ok correct ∧
      nonApplicableAccuracy t rows = .ok accuracy ∧
      contaminationRate t asset rows = .ok contamination ∧
      harmfulCount t asset rows = .ok harmful ∧ regressionsPass t rows = .ok regression ∧
      ((∀ r ∈ results, r.2 = true) ↔ Passing t profile asset fixtures rows noKdna correct accuracy
        contamination harmful regression) := by
  simp only [thresholdResults, bind_eq_ok_iff, pure_eq_ok, Except.ok.injEq] at h
  obtain ⟨_, -, noKdna, hno, correct, hcorrect, accuracy, hna, contamination, hcont, harmful, hharm,
    regression, hreg, rfl⟩ := h
  refine ⟨noKdna, correct, accuracy, contamination, harmful, regression, hno, hcorrect, hna, hcont,
    hharm, hreg, ?_⟩
  simp only [List.forall_mem_cons, decide_eq_true_eq, true_and]
  constructor
  · rintro ⟨⟨h1, h2⟩, h3, h4, h5, h6, h7, -⟩
    exact ⟨h1, h2, h3, h4, h5, h6, h7⟩
  · rintro ⟨h1, h2, h3, h4, h5, h6, h7⟩
    exact ⟨⟨h1, h2⟩, h3, h4, h5, h6, h7, List.forall_mem_nil _⟩

end Measures

section Validation

/-- A fixture of a category. -/
def ofCategory (category : String) (fixture : Json) : Bool :=
  ((fixture.prop "category").bind text?) = some category

theorem tallyId_spec {label : String} {fixture : Json} {s : Tally}
    (h : (tallyId label fixture s).errors = []) :
    s.errors = [] ∧ (tallyId label fixture s).counts = s.counts := by
  unfold tallyId at h ⊢
  split at h
  · split at h
    · simp at h
    · split at h
      · simp at h
      · next h₁ h₂ =>
        rw [if_neg h₁, if_neg h₂]
        exact ⟨h, rfl⟩
  · simp at h

theorem tallyTask_spec {label : String} {fixture : Json} {s : Tally}
    (h : (tallyTask label fixture s).errors = []) :
    s.errors = [] ∧ (tallyTask label fixture s).counts = s.counts := by
  unfold tallyTask at h ⊢
  split at h
  · split at h
    · simp at h
    · next h₁ =>
      rw [if_neg h₁]
      exact ⟨(List.append_eq_nil_iff.mp h).1, rfl⟩
  · simp at h

theorem tallyExpected_spec {label : String} {fixture : Json} {s : Tally}
    (h : (tallyExpected label fixture s).errors = []) :
    s.errors = [] ∧ (tallyExpected label fixture s).counts = s.counts := by
  unfold tallyExpected at h ⊢
  split at h
  · exact ⟨h, rfl⟩
  · simp at h

theorem tallyCategory_spec {label : String} {fixture : Json} {s : Tally}
    (h : (tallyCategory label fixture s).errors = []) :
    s.errors = [] ∧ ∀ c, (tallyCategory label fixture s).counts c =
      s.counts c + if ofCategory c fixture then 1 else 0 := by
  unfold tallyCategory at h ⊢
  unfold ofCategory
  split at h
  · next category hcategory =>
    split at h
    · next h₁ =>
      refine ⟨h, fun c => ?_⟩
      rw [if_pos h₁, hcategory]
      by_cases hc : category = c
      · subst hc
        simp
      · dsimp only
        rw [Function.update_of_ne (Ne.symm hc)]
        simp [hc]
    · simp at h
  · simp at h

theorem tally_spec {s : Tally} {fixture : Json × ℕ} (h : (tally s fixture).errors = []) :
    s.errors = [] ∧ ∀ c, (tally s fixture).counts c =
      s.counts c + if ofCategory c fixture.1 then 1 else 0 := by
  unfold tally at h ⊢
  dsimp only at h ⊢
  split at h
  · obtain ⟨h₁, hc₁⟩ := tallyExpected_spec h
    obtain ⟨h₂, hc₂⟩ := tallyTask_spec h₁
    obtain ⟨h₃, hc₃⟩ := tallyCategory_spec h₂
    obtain ⟨h₄, hc₄⟩ := tallyId_spec h₃
    refine ⟨h₄, fun c => ?_⟩
    rw [hc₁, hc₂, hc₃, hc₄]
  · simp at h

/-- Without errors, the loop has counted the fixtures of each category. -/
theorem foldl_tally {items : List (Json × ℕ)} {s : Tally}
    (h : (items.foldl tally s).errors = []) :
    s.errors = [] ∧ ∀ c, (items.foldl tally s).counts c =
      s.counts c + items.countP fun f => ofCategory c f.1 := by
  induction items generalizing s with
  | nil => exact ⟨h, fun _ => rfl⟩
  | cons fixture items ih =>
    obtain ⟨hrest, hcounts⟩ := ih h
    obtain ⟨hs, hcount⟩ := tally_spec hrest
    refine ⟨hs, fun c => ?_⟩
    rw [List.foldl_cons, hcounts, hcount, List.countP_cons]
    omega

/-- A valid fixture set meets the minimum of each category. -/
theorem minimums_of_valid {fixtures profile : Json} (h : validateFixtureSet fixtures profile = []) :
    (∀ c ∈ minimumCounts, threshold profile c.2 ≤ (elements fixtures).countP (ofCategory c.1)) ∧
      (flag profile "holdout_required" = true → 1 ≤ (elements fixtures).countP (ofCategory "holdout")) := by
  unfold validateFixtureSet at h
  split at h
  · next items =>
    obtain ⟨h, hholdout⟩ := List.append_eq_nil_iff.mp h
    obtain ⟨herrors, hminimum⟩ := List.append_eq_nil_iff.mp h
    obtain ⟨-, hcounts⟩ := foldl_tally herrors
    have hcount (c : String) : items.zipIdx.countP (fun f => ofCategory c f.1) =
        items.countP (ofCategory c) := by
      rw [← List.zipIdx_map_fst 0 items, List.countP_map, List.zipIdx_map_fst]
      rfl
    simp only [hcounts, hcount, Nat.zero_add] at hminimum hholdout
    refine ⟨fun c hc => ?_, fun hflag => ?_⟩
    · have hnone := List.filter_eq_nil_iff.mp (List.map_eq_nil_iff.mp hminimum) c hc
      rw [decide_eq_true_eq, not_lt] at hnone
      exact hnone
    · by_contra hlt
      rw [if_pos ⟨hflag, Nat.lt_of_not_le hlt⟩] at hholdout
      cases hholdout
  · cases h

/-- The name of an arm. -/
def armName (definition : Json) : Option String := (definition.prop "arm").bind text?

theorem tallyArm_spec {s : List String × List String} {definition : Json × ℕ}
    (h : (tallyArm s definition).1 = []) :
    s.1 = [] ∧ ∃ arm, armName definition.1 = some arm ∧ arm ∉ s.2 ∧
      (tallyArm s definition).2 = arm :: s.2 := by
  unfold tallyArm at h ⊢
  unfold armName
  dsimp only at h ⊢
  split at h
  · dsimp only at h ⊢
    obtain ⟨h, -⟩ := List.append_eq_nil_iff.mp h
    obtain ⟨h, -⟩ := List.append_eq_nil_iff.mp h
    split at h
    · next arm harm =>
      split at h
      · simp at h
      · next h₁ =>
        split at h
        · simp at h
        · next h₂ => exact ⟨h, arm, harm, h₂, by rw [if_neg h₁, if_neg h₂]⟩
    · simp at h
  · simp at h

theorem foldl_tallyArm_errors {definitions : List (Json × ℕ)} {s : List String × List String}
    (h : (definitions.foldl tallyArm s).1 = []) : s.1 = [] := by
  induction definitions generalizing s with
  | nil => exact h
  | cons definition definitions ih => exact (tallyArm_spec (ih h)).1

/-- Without errors, the loop has seen the names of the arms, all different. -/
theorem foldl_tallyArm {definitions : List (Json × ℕ)} {s : List String × List String}
    (h : (definitions.foldl tallyArm s).1 = []) (hs : s.2.Nodup) :
    (definitions.foldl tallyArm s).2.Nodup ∧
      ∃ names : List String, definitions.map (fun d => armName d.1) = names.map some ∧
        (definitions.foldl tallyArm s).2 = names.reverse ++ s.2 := by
  induction definitions generalizing s with
  | nil => exact ⟨hs, [], rfl, rfl⟩
  | cons definition definitions ih =>
    obtain ⟨-, arm, harm, hnew, hseen⟩ := tallyArm_spec (foldl_tallyArm_errors h)
    have hnext : (tallyArm s definition).2.Nodup := hseen ▸ List.nodup_cons.mpr ⟨hnew, hs⟩
    obtain ⟨hnodup, names, hnames, heq⟩ := ih h hnext
    refine ⟨hnodup, arm :: names, ?_, ?_⟩
    · rw [List.map_cons, List.map_cons, harm, hnames]
    · rw [List.foldl_cons, heq, hseen, List.reverse_cons, List.append_assoc]
      rfl

/-- Each required arm is there once. -/
theorem arms_of_valid {arms : Json} (h : validateBaselineArms arms = []) :
    ∀ arm ∈ baselineArms, ∃ j : ℕ, ∀ k : ℕ,
      (elements arms)[k]?.bind armName = some arm ↔ k = j := by
  intro arm harm
  unfold validateBaselineArms at h
  split at h
  · next definitions =>
    obtain ⟨herrors, hmissing⟩ := List.append_eq_nil_iff.mp h
    obtain ⟨hnodup, names, hnames, heq⟩ := foldl_tallyArm herrors List.nodup_nil
    rw [List.append_nil] at heq
    rw [heq] at hnodup hmissing
    rw [List.nodup_reverse] at hnodup
    have hmem : arm ∈ names := by
      have hnone := List.filter_eq_nil_iff.mp (List.map_eq_nil_iff.mp hmissing) arm harm
      simpa using hnone
    have hnames' : definitions.map armName = names.map some := by
      rw [← hnames]
      conv_lhs => rw [← List.zipIdx_map_fst 0 definitions, List.map_map]
      rfl
    have hat (k : ℕ) : definitions[k]?.bind armName = names[k]? := by
      have hk : (definitions.map armName)[k]? = (names.map some)[k]? := by rw [hnames']
      rw [List.getElem?_map, List.getElem?_map] at hk
      cases hd : definitions[k]? with
      | none =>
        rw [hd] at hk
        exact (Option.map_eq_none_iff.mp hk.symm).symm
      | some d =>
        rw [hd] at hk
        obtain ⟨name, hname, heq⟩ := Option.map_eq_some_iff.mp hk.symm
        rw [hname]
        exact heq.symm
    obtain ⟨j, hj, rfl⟩ := List.mem_iff_getElem.mp hmem
    refine ⟨j, fun k => ?_⟩
    rw [elements, Value.items?, Option.getD_some, hat, ← List.getElem?_eq_getElem hj]
    exact eq_comm.trans ((List.getElem?_inj hj hnodup).trans eq_comm)
  · cases h

end Validation

section Rows

variable {t : Texts} {asset : Json} {fixtures arms : List Json} {runner : ℕ → ℕ → Call} {r : Row}

theorem mem_runRows : r ∈ runRows fixtures arms runner ↔
    ∃ i j f a, fixtures[i]? = some f ∧ arms[j]? = some a ∧
      r = ⟨f.prop "fixture_id", f.prop "category", a.prop "arm", runner i j⟩ := by
  simp only [runRows, List.mem_flatMap, List.mem_map, Prod.exists, List.mk_mem_zipIdx_iff_getElem?]
  constructor
  · rintro ⟨f, i, hf, a, j, ha, rfl⟩
    exact ⟨i, j, f, a, hf, ha, rfl⟩
  · rintro ⟨i, j, f, a, hf, ha, rfl⟩
    exact ⟨f, i, hf, a, j, ha, rfl⟩

/-- A row has a result where its call returned a value that passes a truth test. -/
theorem result?_eq_some_iff {v : Json} :
    r.result? = some v ↔ r.call = .returned (some v) ∧ v.truthy = true := by
  rw [Row.result?]
  cases r.call with
  | threw message => simp
  | returned result =>
    simp only [Option.filter_eq_some_iff, Call.returned.injEq]

end Rows

section Worse

variable (t : Texts) (asset : Json)

/-- The second result reads no better than the first: its scores are not higher, its critical errors
not fewer, a crossed boundary or another issue is still one, and it skips only where the first does. -/
structure NoBetter (a b : Json) : Prop where
  score : ∀ otherwise x y, scoreJudgment t a ((a.given "expected").getD otherwise) = .ok x →
    scoreJudgment t b ((b.given "expected").getD otherwise) = .ok y → y ≤ x
  regression : ∀ x y, scoreJudgment t a (.obj []) = .ok x → scoreJudgment t b (.obj []) = .ok y → y ≤ x
  critical : ∀ y, criticalCount t b = some y → ∃ x, criticalCount t a = some x ∧ x ≤ y
  crossed : ∀ c d, detectContamination t a asset = .ok c → detectContamination t b asset = .ok d →
    (0 < c.errorCount → 0 < d.errorCount) ∧ (c.contaminated = true → d.contaminated = true)
  skipped : ∀ x y, evaluateNonApplicable t a = .ok x → evaluateNonApplicable t b = .ok y →
    y = true → x = true

/-- A call that is worse than another: it comes to no result, or to one that reads no better. -/
inductive Worse (old new : Call) : Prop
  | missing (h : ∀ v, new = .returned (some v) → v.truthy = false)
  | result {a b : Json} (ha : old = .returned (some a)) (htruthy : a.truthy = true)
      (hb : new = .returned (some b)) (h : NoBetter t asset a b)

variable {t asset}

theorem NoBetter.refl (a : Json) : NoBetter t asset a a where
  score _ _ _ hx hy := le_of_eq (Except.ok.inj (hy.symm.trans hx))
  regression _ _ hx hy := le_of_eq (Except.ok.inj (hy.symm.trans hx))
  critical y hy := ⟨y, hy, le_rfl⟩
  crossed _ _ hc hd := Except.ok.inj (hc.symm.trans hd) ▸ ⟨id, id⟩
  skipped _ _ hx hy h := (Except.ok.inj (hx.symm.trans hy)).trans h

theorem roundTenth_mono {x y : ℚ} (h : x ≤ y) : roundTenth x ≤ roundTenth y := by
  unfold roundTenth
  gcongr

/-- A lower observed score or more critical errors make a result no better. -/
theorem noBetter_of_observed {a b : Json} {x y : ℚ}
    (hprop : ∀ name, name ≠ "score_5pt" → name ≠ "critical_errors" → a.prop name = b.prop name)
    (hx : observedScore t a = some x) (hy : observedScore t b = some y) (hyx : y ≤ x)
    (hcritical : ∀ y, criticalCount t b = some y → ∃ x, criticalCount t a = some x ∧ x ≤ y) :
    NoBetter t asset a b := by
  have hscore (e e' : Json) (x' y' : ℚ) (ha : scoreJudgment t a e = .ok x')
      (hb : scoreJudgment t b e' = .ok y') : y' ≤ x' := by
    rw [scoreJudgment, hx] at ha
    rw [scoreJudgment, hy] at hb
    obtain rfl := Except.ok.inj ha
    obtain rfl := Except.ok.inj hb
    exact roundTenth_mono hyx
  have hgiven (outer name : String) (otherwise : Json) (h₁ : name ≠ "score_5pt")
      (h₂ : name ≠ "critical_errors") (h₃ : outer ≠ "score_5pt") (h₄ : outer ≠ "critical_errors") :
      givenIn a outer name otherwise = givenIn b outer name otherwise := by
    rw [givenIn, givenIn, given, given, hprop name h₁ h₂, hprop outer h₃ h₄]
  have htext : fullText t a = fullText t b := by
    rw [fullText, fullText, hgiven "result" "answer" _ (by decide) (by decide) (by decide) (by decide),
      hprop "reasoning" (by decide) (by decide)]
  have hissues : detectContamination t a asset = detectContamination t b asset := by
    rw [detectContamination, detectContamination, htext]
  have hskip : evaluateNonApplicable t a = evaluateNonApplicable t b := by
    rw [evaluateNonApplicable, evaluateNonApplicable,
      hgiven "result" "answer" _ (by decide) (by decide) (by decide) (by decide),
      hgiven "result" "confidence" _ (by decide) (by decide) (by decide) (by decide),
      hprop "applicability" (by decide) (by decide), hprop "result" (by decide) (by decide),
      given, given, hprop "decision" (by decide) (by decide)]
  refine ⟨fun _ => hscore _ _, hscore _ _, hcritical, fun c d hc hd => ?_, fun x y hx hy h => ?_⟩
  · obtain rfl := Except.ok.inj (hc.symm.trans (hissues.trans hd))
    exact ⟨id, id⟩
  · exact (Except.ok.inj (hx.symm.trans (hskip.trans hy))).trans h

/-- Two rows with results, of which the second is no better and differs only for the correct arm. -/
structure Pair (t : Texts) (asset : Json) (r r' : Row) : Prop where
  fixtureId : r.fixtureId = r'.fixtureId
  category : r.category = r'.category
  arm : r.arm = r'.arm
  results : ∃ a b, r.result? = some a ∧ r'.result? = some b ∧ NoBetter t asset a b
  other : r.arm.any (isText · "correct_single_kdna") = false → r = r'

variable {rows rows' : List Row}

theorem pairs_rowsOf (h : List.Forall₂ (Pair t asset) rows rows') (category arm : String) :
    List.Forall₂ (Pair t asset) (rowsOf rows category arm) (rowsOf rows' category arm) :=
  List.rel_filter (fun {r r'} hr => by simp only [hr.category, hr.arm]) h

theorem pairs_rowsOfArm (h : List.Forall₂ (Pair t asset) rows rows') (arm : String) :
    List.Forall₂ (Pair t asset) (rowsOfArm rows arm) (rowsOfArm rows' arm) :=
  List.rel_filter (fun {r r'} hr => by simp only [hr.arm]) h

/-- The rows of another arm are the same. -/
theorem rowsOfArm_eq (h : List.Forall₂ (Pair t asset) rows rows') {arm : String}
    (harm : arm ≠ "correct_single_kdna") : rowsOfArm rows arm = rowsOfArm rows' arm := by
  induction h with
  | nil => rfl
  | @cons r r' rows rows' hr _ ih =>
    rw [rowsOfArm, rowsOfArm, List.filter_cons, List.filter_cons, ← hr.arm]
    split
    · next hrarm =>
      obtain ⟨v, hv, hname⟩ := (Option.any_eq_true _ _).mp hrarm
      have hother : r.arm.any (isText · "correct_single_kdna") = false := by
        rw [hv, Option.any_some, isText, eq_of_beq hname]
        exact beq_eq_false_iff_ne.mpr fun heq => harm (Option.some.inj heq)
      rw [hr.other hother]
      exact congrArg _ ih
    · exact ih

theorem forall₂_mapM {α β γ δ ε : Type} {R : α → γ → Prop} {P : β → δ → Prop} {f : α → Except ε β}
    {g : γ → Except ε δ} {l : List α} {m : List γ} {as : List β} {bs : List δ}
    (h : List.Forall₂ R l m) (has : l.mapM f = .ok as) (hbs : m.mapM g = .ok bs)
    (hstep : ∀ a c b d, R a c → f a = .ok b → g c = .ok d → P b d) : List.Forall₂ P as bs := by
  rw [mapM_eq_ok_iff] at has hbs
  induction h generalizing as bs with
  | nil =>
    cases has
    cases hbs
    exact .nil
  | cons hr _ ih =>
    cases has with
    | cons ha has =>
      cases hbs with
      | cons hb hbs => exact .cons (hstep _ _ _ _ hr ha hb) (ih has hbs)

theorem count_le_of_forall₂ {as bs : List Bool}
    (h : List.Forall₂ (fun a b => a = true → b = true) as bs) : as.count true ≤ bs.count true := by
  induction h with
  | nil => exact le_rfl
  | @cons a b _ _ hab _ ih =>
    cases a with
    | false =>
      rw [List.count_cons_of_ne Bool.false_ne_true]
      exact ih.trans List.count_le_count_cons
    | true =>
      rw [hab rfl, List.count_cons_self, List.count_cons_self]
      exact Nat.succ_le_succ ih

/-- The scores of the second rows are not higher. -/
theorem forall₂_scores (h : List.Forall₂ (Pair t asset) rows rows')
    {score : Row → Json → Except Thrown ℚ} {as bs : List ℚ} (has : scoresOf score rows = .ok as)
    (hbs : scoresOf score rows' = .ok bs)
    (hscore : ∀ r r' a b x y, Pair t asset r r' → NoBetter t asset a b → score r a = .ok x →
      score r' b = .ok y → y ≤ x) : List.Forall₂ (fun x y => y ≤ x) as bs := by
  have hresults : List.Forall₂
      (fun p q : Row × Json => Pair t asset p.1 q.1 ∧ NoBetter t asset p.2 q.2)
      (rows.filterMap fun r => r.result?.map fun result => (r, result))
      (rows'.filterMap fun r => r.result?.map fun result => (r, result)) := by
    refine List.rel_filterMap (fun {r r'} hr => ?_) h
    obtain ⟨a, b, ha, hb, hab⟩ := hr.results
    rw [ha, hb]
    exact .some ⟨hr, hab⟩
  exact forall₂_mapM hresults has hbs fun p q x y hpq hx hy =>
    hscore p.1 q.1 p.2 q.2 x y hpq.1 hpq.2 hx hy

theorem meanScore_le (h : List.Forall₂ (Pair t asset) rows rows') {fixtures : List Json}
    {arm : String} {x y : ℚ} (hx : meanScore t fixtures rows arm = .ok x)
    (hy : meanScore t fixtures rows' arm = .ok y) : y ≤ x := by
  obtain ⟨as, has, hx⟩ := bind_eq_ok_iff.mp hx
  obtain ⟨bs, hbs, hy⟩ := bind_eq_ok_iff.mp hy
  obtain rfl := Except.ok.inj hx
  obtain rfl := Except.ok.inj hy
  have hle := forall₂_scores (pairs_rowsOfArm h arm) has hbs fun r r' a b x y hr hab hx hy => by
    rw [rowScore, ← hr.fixtureId] at hy
    exact hab.score _ x y hx hy
  have hlength := hle.length_eq
  have hnil : as = [] ↔ bs = [] := by
    rw [← List.length_eq_zero_iff, ← List.length_eq_zero_iff, hlength]
  by_cases has : as = []
  · rw [if_pos has, if_pos (hnil.mp has)]
  · rw [if_neg has, if_neg fun hbs => has (hnil.mpr hbs), hlength]
    have hsum : bs.sum ≤ as.sum := hle.flip.sum_le_sum
    gcongr

/-- A share of rows grows with what is counted. -/
theorem share_le {of of' : List Row} {as bs : List Bool} {c : ℚ} (hlength : of.length = of'.length)
    (hle : as.count true ≤ bs.count true) :
    (if of = [] then c else as.count true / of.length : ℚ) ≤
      if of' = [] then c else bs.count true / of'.length := by
  have hnil : of = [] ↔ of' = [] := by
    rw [← List.length_eq_zero_iff, ← List.length_eq_zero_iff, hlength]
  by_cases hof : of = []
  · rw [if_pos hof, if_pos (hnil.mp hof)]
  · rw [if_neg hof, if_neg fun h => hof (hnil.mpr h), hlength]
    gcongr

theorem accuracy_le (h : List.Forall₂ (Pair t asset) rows rows') {x y : ℚ}
    (hx : nonApplicableAccuracy t rows = .ok x) (hy : nonApplicableAccuracy t rows' = .ok y) :
    y ≤ x := by
  have hof := pairs_rowsOf h "non_applicable" "correct_single_kdna"
  obtain ⟨as, has, hx⟩ := bind_eq_ok_iff.mp hx
  obtain ⟨bs, hbs, hy⟩ := bind_eq_ok_iff.mp hy
  obtain rfl := Except.ok.inj hx
  obtain rfl := Except.ok.inj hy
  refine share_le hof.length_eq.symm (count_le_of_forall₂ (List.Forall₂.flip ?_))
  refine forall₂_mapM hof has hbs fun r r' x y hr hx hy => ?_
  obtain ⟨a, b, ha, hb, hab⟩ := hr.results
  rw [ha] at hx
  rw [hb] at hy
  exact hab.skipped x y hx hy

theorem contamination_le (h : List.Forall₂ (Pair t asset) rows rows') {x y : ℚ}
    (hx : contaminationRate t asset rows = .ok x) (hy : contaminationRate t asset rows' = .ok y) :
    x ≤ y := by
  have hof := pairs_rowsOf h "positive_target" "correct_single_kdna"
  obtain ⟨as, has, hx⟩ := bind_eq_ok_iff.mp hx
  obtain ⟨bs, hbs, hy⟩ := bind_eq_ok_iff.mp hy
  obtain rfl := Except.ok.inj hx
  obtain rfl := Except.ok.inj hy
  refine share_le hof.length_eq (count_le_of_forall₂ (forall₂_mapM hof has hbs ?_))
  intro r r' x y hr hx hy
  obtain ⟨a, b, ha, hb, hab⟩ := hr.results
  rw [ha] at hx
  rw [hb] at hy
  obtain ⟨c, hc, hx⟩ := bind_eq_ok_iff.mp hx
  obtain ⟨d, hd, hy⟩ := bind_eq_ok_iff.mp hy
  obtain rfl := Except.ok.inj hx
  obtain rfl := Except.ok.inj hy
  exact (hab.crossed c d hc hd).2

theorem harmful_le (h : List.Forall₂ (Pair t asset) rows rows') {x y : ℕ}
    (hx : harmfulCount t asset rows = .ok x) (hy : harmfulCount t asset rows' = .ok y) : x ≤ y := by
  obtain ⟨as, has, hx⟩ := bind_eq_ok_iff.mp hx
  obtain ⟨bs, hbs, hy⟩ := bind_eq_ok_iff.mp hy
  obtain rfl := Except.ok.inj hx
  obtain rfl := Except.ok.inj hy
  refine count_le_of_forall₂ (forall₂_mapM (pairs_rowsOf h _ _) has hbs ?_)
  intro r r' x y hr hx hy
  obtain ⟨a, b, ha, hb, hab⟩ := hr.results
  rw [ha] at hx
  rw [hb] at hy
  obtain ⟨c, hc, hx⟩ := bind_eq_ok_iff.mp hx
  obtain ⟨d, hd, hy⟩ := bind_eq_ok_iff.mp hy
  obtain rfl := Except.ok.inj hx
  obtain rfl := Except.ok.inj hy
  rw [decide_eq_true_eq, decide_eq_true_eq]
  exact (hab.crossed c d hc hd).1

/-- Rows that all have results count no errors. -/
theorem errorCount_eq_zero (h : List.Forall₂ (Pair t asset) rows rows') : errorCount rows = 0 := by
  refine List.countP_eq_zero.mpr fun r hr => ?_
  obtain ⟨r', -, hpair⟩ := exists_mem_forall₂ h hr
  obtain ⟨a, b, ha, -, -⟩ := hpair.results
  rw [ha]
  exact Bool.false_ne_true

theorem regressionsPass_of (h : List.Forall₂ (Pair t asset) rows rows') {x y : Bool}
    (hx : regressionsPass t rows = .ok x) (hy : regressionsPass t rows' = .ok y) (hpass : y = true) :
    x = true := by
  have hof := pairs_rowsOf h "regression" "correct_single_kdna"
  obtain ⟨as, has, hx⟩ := bind_eq_ok_iff.mp hx
  obtain ⟨bs, hbs, hy⟩ := bind_eq_ok_iff.mp hy
  obtain rfl := Except.ok.inj hx
  obtain rfl := Except.ok.inj hy
  obtain ⟨hne, -, hscores⟩ := of_decide_eq_true hpass
  have hle := forall₂_scores hof has hbs fun r r' a b x y _ hab hx hy => hab.regression x y hx hy
  refine decide_eq_true ⟨fun hnil => hne ?_, errorCount_eq_zero hof, fun x hx => ?_⟩
  · rw [hnil] at hof
    exact List.forall₂_nil_left_iff.mp hof
  · obtain ⟨y, hy, hyx⟩ := exists_mem_forall₂ hle hx
    exact (hscores y hy).trans hyx

theorem criticalErrors_le {r r' : Row} (h : Pair t asset r r') {y : ℚ}
    (hy : criticalErrors t r' = some y) : ∃ x, criticalErrors t r = some x ∧ x ≤ y := by
  obtain ⟨a, b, ha, hb, hab⟩ := h.results
  rw [criticalErrors, (result?_eq_some_iff.mp hb).1] at hy
  rw [criticalErrors, (result?_eq_some_iff.mp ha).1]
  exact hab.critical y hy

theorem countCriticalErrors_le (h : List.Forall₂ (Pair t asset) rows rows') {arm : String} {y : ℚ}
    (hy : countCriticalErrors t rows' arm = some y) :
    ∃ x, countCriticalErrors t rows arm = some x ∧ x ≤ y := by
  have hof := pairs_rowsOfArm h arm
  obtain ⟨bs, hbs, rfl⟩ := Option.map_eq_some_iff.mp hy
  rw [mapM_eq_some_iff] at hbs
  clear hy
  obtain ⟨as, has, hle⟩ : ∃ as, List.Forall₂ (fun r x => criticalErrors t r = some x)
      (rowsOfArm rows arm) as ∧ List.Forall₂ (fun x y => x ≤ y) as bs := by
    generalize rowsOfArm rows arm = l at hof
    generalize rowsOfArm rows' arm = l' at hof hbs
    induction hof generalizing bs with
    | nil =>
      cases hbs
      exact ⟨[], .nil, .nil⟩
    | cons hr _ ih =>
      cases hbs with
      | cons hb hbs =>
        obtain ⟨x, hx, hxy⟩ := criticalErrors_le hr hb
        obtain ⟨as, has, hle⟩ := ih _ hbs
        exact ⟨x :: as, .cons hx has, .cons hxy hle⟩
  exact ⟨as.sum, by rw [countCriticalErrors, mapM_eq_some_iff.mpr has]; rfl, hle.sum_le_sum⟩

/-- The reduction is not less where the correct arm has fewer critical errors. -/
theorem reduction_of_le {n : Option ℚ} {c c' : Option ℚ} {x : ℚ}
    (hle : ∀ y, c' = some y → ∃ z, c = some z ∧ z ≤ y)
    (h : ∃ r ∈ criticalErrorReduction n c', x ≤ r) : ∃ r ∈ criticalErrorReduction n c, x ≤ r := by
  obtain ⟨r, hr, hxr⟩ := h
  unfold criticalErrorReduction at hr ⊢
  split at hr
  · next n =>
    split at hr
    · next hn =>
      obtain ⟨y, hy, rfl⟩ := Option.map_eq_some_iff.mp hr
      obtain ⟨z, hz, hzy⟩ := hle y hy
      refine ⟨(n - z) / n * 100, ?_, hxr.trans ?_⟩
      · rw [if_pos hn, hz]
        rfl
      · gcongr
    · next hn => exact ⟨r, by rwa [if_neg hn], hxr⟩
  · exact ⟨r, hr, hxr⟩

/-- Where all thresholds pass, they pass with a better result in the place of one. -/
theorem passing_of_pairs (h : List.Forall₂ (Pair t asset) rows rows') {profile : Json}
    {fixtures arms : List Json} {results results' : List (String × Bool)}
    (hresults : thresholdResults t profile asset fixtures arms rows = .ok results)
    (hresults' : thresholdResults t profile asset fixtures arms rows' = .ok results')
    (hpass : ∀ r ∈ results', r.2 = true) : ∀ r ∈ results, r.2 = true := by
  obtain ⟨no, correct, accuracy, contamination, harmful, regression, hno, hcorrect, haccuracy,
    hcontamination, hharmful, hregression, hiff⟩ := thresholdResults_spec hresults
  obtain ⟨no', correct', accuracy', contamination', harmful', regression', hno', hcorrect',
    haccuracy', hcontamination', hharmful', hregression', hiff'⟩ := thresholdResults_spec hresults'
  obtain ⟨hrun, -, himprovement, haccurate, hclean, hharmless, hregressed⟩ := hiff'.mp hpass
  have hsame : rowsOfArm rows "no_kdna" = rowsOfArm rows' "no_kdna" := rowsOfArm_eq h (by decide)
  have hsameno : no = no' := by
    rw [meanScore, hsame] at hno
    exact Except.ok.inj (hno.symm.trans hno')
  refine hiff.mpr {
    run := fun hnil => hrun ?_
    evidence := fun r hr => ?_
    improvement := ?_
    accurate := haccurate.trans (accuracy_le h haccuracy haccuracy')
    clean := (contamination_le h hcontamination hcontamination').trans hclean
    harmless := fun hflag => ⟨?_, errorCount_eq_zero (pairs_rowsOf h _ _)⟩
    regressed := fun hflag => regressionsPass_of h hregression hregression' (hregressed hflag) }
  · rw [hnil] at h
    exact List.forall₂_nil_left_iff.mp h
  · obtain ⟨r', -, hpair⟩ := exists_mem_forall₂ h hr
    obtain ⟨a, b, ha, -, -⟩ := hpair.results
    rw [ha]
    rfl
  · rcases himprovement with hmean | hcritical
    · rw [hsameno]
      exact .inl (hmean.trans (sub_le_sub_right (meanScore_le h hcorrect hcorrect') _))
    · have hsamecount : countCriticalErrors t rows "no_kdna" =
          countCriticalErrors t rows' "no_kdna" := by
        rw [countCriticalErrors, hsame]
        rfl
      rw [hsamecount]
      exact .inr (reduction_of_le (fun y hy => countCriticalErrors_le h hy) hcritical)
  · exact Nat.le_zero.mp ((harmful_le h hharmful hharmful').trans_eq (hharmless hflag).1)

end Worse

section Runs

variable {t : Texts} {profile fixtures asset : Json} {arms : Option Json} {runner : ℕ → ℕ → Call}

/-- The table with another call at a place. -/
def replaced (runner : ℕ → ℕ → Call) (i j : ℕ) (call : Call) : ℕ → ℕ → Call :=
  fun a b => if a = i ∧ b = j then call else runner a b

theorem any_isText_iff {o : Option Json} {text : String} :
    o.any (isText · text) = true ↔ o.bind text? = some text := by
  cases o with
  | none => exact iff_of_false Bool.false_ne_true (fun h => by cases h)
  | some v => exact beq_iff_eq

/-- A worse result at a place of the correct arm gives rows that are no better. -/
theorem pairs_replaced {fixtures arms : List Json} {i j : ℕ} {call : Call}
    (harm : arms[j]?.bind armName = some "correct_single_kdna")
    (hworse : Worse t asset (runner i j) call)
    (hevidence : ∀ r ∈ runRows fixtures arms (replaced runner i j call), r.result?.isSome = true) :
    List.Forall₂ (Pair t asset) (runRows fixtures arms runner)
      (runRows fixtures arms (replaced runner i j call)) := by
  have hrows (runner : ℕ → ℕ → Call) : runRows fixtures arms runner =
      (fixtures.zipIdx.flatMap fun f => arms.zipIdx.map fun a => (f, a)).map fun p =>
        ⟨p.1.1.prop "fixture_id", p.1.1.prop "category", p.2.1.prop "arm", runner p.1.2 p.2.2⟩ := by
    rw [runRows, List.map_flatMap]
    simp only [List.map_map]
    rfl
  rw [hrows] at hevidence
  rw [hrows, hrows, List.forall₂_map_left_iff, List.forall₂_map_right_iff, List.forall₂_same]
  rintro ⟨⟨f, k⟩, ⟨a, l⟩⟩ hp
  have hresult := hevidence _ (List.mem_map_of_mem hp)
  obtain ⟨b, hb⟩ := Option.isSome_iff_exists.mp hresult
  obtain ⟨hcall, htruthy⟩ := result?_eq_some_iff.mp hb
  dsimp only [replaced] at hcall
  by_cases hplace : k = i ∧ l = j
  · obtain ⟨rfl, rfl⟩ := hplace
    rw [if_pos ⟨rfl, rfl⟩] at hcall
    refine ⟨rfl, rfl, rfl, ?_, fun hother => ?_⟩
    · cases hworse with
      | missing hmissing => exact absurd htruthy (by simp [hmissing b hcall])
      | @result a' b' ha ha' hb' hab =>
        obtain rfl : b' = b := Option.some.inj (Call.returned.inj (hb'.symm.trans hcall))
        exact ⟨a', b', result?_eq_some_iff.mpr ⟨ha, ha'⟩, hb, hab⟩
    · have hname : (a.prop "arm").bind text? = some "correct_single_kdna" := by
        obtain ⟨_, -, ha⟩ := List.mem_flatMap.mp hp
        obtain ⟨⟨a', l'⟩, ha', heq⟩ := List.mem_map.mp ha
        obtain ⟨-, rfl, rfl⟩ := Prod.mk.injEq .. ▸ heq
        rw [List.mk_mem_zipIdx_iff_getElem?.mp ha'] at harm
        exact harm
      rw [any_isText_iff.mpr hname] at hother
      cases hother
  · rw [if_neg hplace] at hcall
    refine ⟨rfl, rfl, rfl, ⟨b, b, ?_, hb, .refl b⟩, fun _ => ?_⟩
    · exact result?_eq_some_iff.mpr ⟨hcall, htruthy⟩
    · dsimp only [replaced]
      rw [if_neg hplace]

end Runs

section Verdicts

variable (t : Texts) (profile fixtures asset : Json)

/-- What a verdict `pass` rests on. -/
structure Complete (arms : Json) (runner : ℕ → ℕ → Call) : Prop where
  valid : validateFixtureSet fixtures profile = []
  minimums : ∀ c ∈ minimumCounts,
    threshold profile c.2 ≤ (elements fixtures).countP (ofCategory c.1)
  holdout : flag profile "holdout_required" = true →
    1 ≤ (elements fixtures).countP (ofCategory "holdout")
  ran : ∀ arm ∈ baselineArms, ∃ j : ℕ,
    (∀ k : ℕ, (elements arms)[k]?.bind armName = some arm ↔ k = j) ∧
      ∀ i < (elements fixtures).length, ∃ v, runner i j = .returned (some v) ∧ v.truthy = true
  harmless : flag profile "high_risk_harm_zero" = true → ∀ (i j : ℕ) (f v : Json),
    (elements fixtures)[i]? = some f → ofCategory "high_risk_failure" f = true →
    (elements arms)[j]?.bind armName = some "correct_single_kdna" →
    runner i j = .returned (some v) →
      ∃ c, detectContamination t v asset = .ok c ∧ c.errorCount = 0

variable {t profile fixtures asset} {arms : Option Json} {runner : ℕ → ℕ → Call} {R : Report}

theorem complete_of_pass (h : runAssay t profile fixtures asset arms runner = .ok R)
    (hpass : R.overallVerdict = .pass) :
    Complete t profile fixtures asset (arms.getD createAllBaselineArms) runner := by
  obtain ⟨hfixtures, harms, results, hresults, hall⟩ := run_of_pass h hpass
  obtain ⟨hminimums, hholdout⟩ := minimums_of_valid hfixtures
  obtain ⟨_, _, _, _, harmful, _, -, -, -, -, hharmful, -, hiff⟩ := thresholdResults_spec hresults
  obtain ⟨-, hevidence, -, -, -, hharmless, -⟩ := hiff.mp hall
  refine ⟨hfixtures, hminimums, hholdout, fun arm harm => ?_, fun hflag i j f v hf hcat hj hv => ?_⟩
  · obtain ⟨j, hj⟩ := arms_of_valid harms arm harm
    refine ⟨j, hj, fun i hi => ?_⟩
    obtain ⟨a, ha, -⟩ := Option.bind_eq_some_iff.mp ((hj j).mpr rfl)
    obtain ⟨v, hv⟩ := Option.isSome_iff_exists.mp (hevidence _ (mem_runRows.mpr
      ⟨i, j, _, a, List.getElem?_eq_getElem hi, ha, rfl⟩))
    exact ⟨v, result?_eq_some_iff.mp hv⟩
  · obtain ⟨a, ha, hname⟩ := Option.bind_eq_some_iff.mp hj
    have hrow : (⟨f.prop "fixture_id", f.prop "category", a.prop "arm", runner i j⟩ : Row) ∈
        runRows (elements fixtures) (elements (arms.getD createAllBaselineArms)) runner :=
      mem_runRows.mpr ⟨i, j, f, a, hf, ha, rfl⟩
    obtain ⟨w, hw⟩ := Option.isSome_iff_exists.mp (hevidence _ hrow)
    obtain ⟨hcall, htruthy⟩ := result?_eq_some_iff.mp hw
    obtain rfl : v = w := Option.some.inj (Call.returned.inj (hv.symm.trans hcall))
    obtain ⟨hs, hok, hcount⟩ := bind_eq_ok_iff.mp hharmful
    have hzero : hs.count true = 0 := (Except.ok.inj hcount).trans (hharmless hflag).1
    have hof := List.mem_filter (p := fun r : Row => r.category.any (isText · "high_risk_failure") &&
      r.arm.any (isText · "correct_single_kdna")) |>.mpr ⟨hrow, Bool.and_eq_true_iff.mpr
        ⟨any_isText_iff.mpr (of_decide_eq_true hcat), any_isText_iff.mpr hname⟩⟩
    obtain ⟨x, hx, hstep⟩ := exists_mem_mapM hok hof
    rw [hw] at hstep
    obtain ⟨c, hc, hxc⟩ := bind_eq_ok_iff.mp hstep
    refine ⟨c, hc, ?_⟩
    by_contra hpos
    have hxtrue : x = true := (Except.ok.inj hxc).symm.trans (decide_eq_true (Nat.pos_of_ne_zero hpos))
    exact absurd (hxtrue ▸ hx) (List.count_eq_zero.mp hzero)

/-- A report is `pass` only for a complete run, it names no failed threshold exactly where it is
`pass`, and with a worse result of the correct arm a `fail` does not become `pass`. -/
theorem verdict_fails_closed (h : runAssay t profile fixtures asset arms runner = .ok R) :
    (R.overallVerdict = .pass →
      Complete t profile fixtures asset (arms.getD createAllBaselineArms) runner) ∧
    (R.failedThresholds = [] ↔ R.overallVerdict = .pass) ∧
    ∀ (i j : ℕ) (call : Call) (R' : Report),
      (elements (arms.getD createAllBaselineArms))[j]?.bind armName = some "correct_single_kdna" →
      Worse t asset (runner i j) call →
      runAssay t profile fixtures asset arms (replaced runner i j call) = .ok R' →
      R.overallVerdict = .fail → R'.overallVerdict = .fail := by
  refine ⟨complete_of_pass h, ?_, fun i j call R' harm hworse h' hfail => ?_⟩
  · rcases runAssay_cases h with ⟨-, rfl⟩ | ⟨-, rfl⟩ | ⟨-, -, results, -, rfl⟩
    all_goals exact failed_eq_nil_iff _ _
  · cases hverdict : R'.overallVerdict with
    | fail => rfl
    | pass =>
      obtain ⟨hfixtures, harms, results', hresults', hall'⟩ := run_of_pass h' hverdict
      obtain ⟨_, _, _, _, _, _, -, -, -, -, -, -, hiff⟩ := thresholdResults_spec hresults'
      have hpairs := pairs_replaced harm hworse (hiff.mp hall').evidence
      rcases runAssay_cases h with ⟨hno, -⟩ | ⟨hno, -⟩ | ⟨-, -, results, hresults, rfl⟩
      · exact absurd hfixtures hno
      · exact absurd harms hno
      · have hall := passing_of_pairs hpairs hresults hresults' hall'
        rw [(verdict_report_iff _ _).mpr hall] at hfail
        cases hfail

end Verdicts

section Single

/-- Texts whose letters are those of ASCII, and none a number. -/
def asciiTexts : Texts := ⟨String.toLower, fun _ => none⟩

/-- A profile that asks for correct answers on what does not apply and for no harm at high risk. -/
def strictProfile : Json :=
  .obj [("asset_id", .str "kdna:a"), ("asset_version", .str "1.0.0"), ("asset_digest", .null),
    ("thresholds", .obj (thresholdRules.map fun r => (r.1, match r.2.kind with
      | .boolean => .bool (r.1 = "high_risk_harm_zero")
      | _ => .num (if r.1 ∈ ["min_model_runtime_combinations", "non_applicable_accuracy_min"] then
          .natural 1 Binary64.one_le_limit else .natural 0 Binary64.zero_le_limit))))]

/-- One fixture of a category. -/
def oneFixture (category : String) : Json :=
  .arr [.obj [("fixture_id", .str "fixture_0"), ("category", .str category),
    ("task", .str "Release now?"), ("expected", .obj [("answer", .str "wait")])]]

/-- An asset with one boundary. -/
def boundedAsset : Json := .obj [("does_not_apply_when", .arr [.str "out of scope"])]

/-- A result with an observed score of 3. -/
def observed (answer : String) (harmful : Bool) : Json :=
  .obj [("answer", .str answer), ("score_5pt", .num (.natural 3 (by decide))),
    ("harmful", .bool harmful)]

/-- All calls return one result. -/
def always (result : Json) : ℕ → ℕ → Call := fun _ _ => .returned (some result)

/-- The arms that the harness makes pass its own check. -/
theorem validateBaselineArms_created : validateBaselineArms createAllBaselineArms = [] := by
  unfold validateBaselineArms tallyArm isNonEmptyString
  simp only [toList_eq_quickToList]
  decide

theorem verdict_fails_closed_single :
    ∃ R, runAssay asciiTexts strictProfile (oneFixture "high_risk_failure") boundedAsset none
        (always (observed "Wait" false)) = .ok R ∧ R.overallVerdict = .pass ∧
      Complete asciiTexts strictProfile (oneFixture "high_risk_failure") boundedAsset
        createAllBaselineArms (always (observed "Wait" false)) := by
  have hrun : runAssay asciiTexts strictProfile (oneFixture "high_risk_failure") boundedAsset none
      (always (observed "Wait" false)) = .ok (report [("fixture_dataset", true),
        ("baseline_arms", true), ("execution_evidence", true), ("blind_improvement", true),
        ("non_applicable_accuracy", true), ("contamination", true), ("high_risk_harm", true),
        ("regression", true)] 4) := by
    simp only [runAssay, Option.getD_none, validateBaselineArms_created]
    decide +kernel
  exact ⟨_, hrun, by decide, (verdict_fails_closed hrun).1 (by decide)⟩

/-- A result that is marked as harmful passes at high risk; and an answer that crosses a boundary of
the asset turns a `fail` to `pass` where the boundary reads as a refusal. -/
theorem harm_passes_and_crossing_helps :
    (runAssay asciiTexts strictProfile (oneFixture "high_risk_failure") boundedAsset none
      (always (observed "Go" true))).toOption.map Report.overallVerdict = some .pass ∧
    (runAssay asciiTexts strictProfile (oneFixture "non_applicable") boundedAsset none
      (always (observed "Go" false))).toOption.map Report.overallVerdict = some .fail ∧
    (runAssay asciiTexts strictProfile (oneFixture "non_applicable") boundedAsset none
      (replaced (always (observed "Go" false)) 0 2 (.returned
        (some (observed "Go, out of scope" false))))).toOption.map Report.overallVerdict =
      some .pass ∧
    ((elements createAllBaselineArms)[2]?.bind armName = some "correct_single_kdna" ∧
      marked (observed "Go" true) = true ∧ flag strictProfile "high_risk_harm_zero" = true) ∧
    ((detectContamination asciiTexts (observed "Go" false) boundedAsset).toOption.map
        Contamination.errorCount = some 0 ∧
      (detectContamination asciiTexts (observed "Go, out of scope" false) boundedAsset).toOption.map
        Contamination.errorCount = some 1) := by
  simp only [runAssay, Option.getD_none, validateBaselineArms_created]
  refine ⟨by decide +kernel, by decide +kernel, by decide +kernel, by decide +kernel, by decide +kernel⟩

end Single

end Kdna.Assay

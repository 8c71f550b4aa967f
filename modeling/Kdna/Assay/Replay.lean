import Kdna.Data.Upsert
import Mathlib.Algebra.Module.Submodule.Lattice
import Mathlib.Data.List.Induction
import Mathlib.Data.Rat.Defs
import Mathlib.Algebra.Order.Field.Rat
import Mathlib.Tactic.Linarith

/-!
# Regressions of a replay

`isRegression` and `detectRegressions` of `replay.js` compare a result with the baseline result of
its id, which is the last one that a run has. A score may fall by a share of the baseline score, so
that the share of a negative score raises the bar: a run with a negative score is a regression of
itself. Scores are exact rationals.
-/

namespace Kdna.Replay

/-- A result of a replay, with what a comparison reads. -/
structure Result where
  id : String
  score : Option ℚ
  pass : Option Bool
  deriving DecidableEq

/-- The number `0.05`. -/
def defaultTolerance : ℚ := 3602879701896397 / 2 ^ 56

/-- The least score that is no regression of `score`. -/
def bar (tolerance : Option ℚ) (score : ℚ) : ℚ := score - tolerance.getD defaultTolerance * score

/-- `isRegression(current, baseline, tolerance)` -/
def isRegression (current baseline : Option Result) (tolerance : Option ℚ) : Bool :=
  match current, baseline with
  | some current, some baseline =>
    if current.pass = some false ∧ baseline.pass ≠ some false then true
    else match current.score, baseline.score with
      | some score, some previous => score < bar tolerance previous
      | _, _ => false
  | _, _ => false

/-- A regression flag. -/
inductive Flag
  | pass (id : String) (current previous : Option Bool)
  | score (id : String) (current previous delta : ℚ)
  deriving DecidableEq

/-- The id and the kind of a flag. -/
def Flag.name : Flag → String × Bool
  | .pass id _ _ => (id, false)
  | .score id _ _ _ => (id, true)

/-- `prevMap` -/
def prevMap (previous : List Result) : List (String × Result) :=
  previous.foldl (fun entries r => upsert r.id (fun _ => r) entries) []

/-- The flags of one result. -/
def flagsOf (r prev : Result) (tolerance : Option ℚ) : List Flag :=
  (if r.pass = some false ∧ prev.pass ≠ some false then [.pass r.id r.pass prev.pass] else []) ++
    match r.score, prev.score with
    | some score, some previous =>
      if score < bar tolerance previous then [.score r.id score previous (score - previous)] else []
    | _, _ => []

/-- `detectRegressions(results, previousRun, tolerance)`; the previous run can be missing. -/
def detectRegressions (results : List Result) (previousRun : Option (List Result))
    (tolerance : Option ℚ) : List Flag :=
  match previousRun with
  | none => []
  | some previous =>
    let prevMap := prevMap previous
    results.flatMap fun r =>
      match getKey r.id prevMap with
      | none => []
      | some prev => flagsOf r prev tolerance

/-- The baseline result of an id: the last one of a run. -/
def baseline (previous : List Result) (id : String) : Option Result :=
  previous.reverse.find? fun r => r.id = id

section Baselines

variable {previous : List Result} {id : String} {r prev : Result}

theorem getKey_prevMap (previous : List Result) (id : String) :
    getKey id (prevMap previous) = baseline previous id := by
  induction previous using List.reverseRecOn with
  | nil => rfl
  | append_singleton previous r ih =>
    have hlast : baseline (previous ++ [r]) id =
        if id = r.id then some r else baseline previous id := by
      rw [baseline, List.reverse_append, List.reverse_singleton, List.singleton_append,
        List.find?_cons]
      by_cases hid : id = r.id
      · rw [if_pos hid, decide_eq_true hid.symm]
      · rw [if_neg hid, decide_eq_false (Ne.symm hid)]
        rfl
    rw [prevMap, List.foldl_append, List.foldl_cons, List.foldl_nil, ← prevMap, getKey_upsert, ih,
      hlast]

theorem id_of_baseline (h : baseline previous id = some r) : r.id = id :=
  of_decide_eq_true (List.find?_some (p := fun r : Result => r.id = id) h)

theorem mem_of_baseline (h : baseline previous id = some r) : r ∈ previous :=
  List.mem_reverse.mp (List.mem_of_find?_eq_some h)

/-- A result of a run has a baseline in the run. -/
theorem exists_baseline (h : r ∈ previous) : ∃ prev, baseline previous r.id = some prev := by
  refine Option.isSome_iff_exists.mp (List.find?_isSome.mpr ⟨r, List.mem_reverse.mpr h, ?_⟩)
  exact decide_eq_true rfl

end Baselines

section Flags

variable {r prev better : Result} {previous results : List Result} {tolerance : Option ℚ}

/-- A run is compared result by result. -/
theorem detectRegressions_some (results previous : List Result) (tolerance : Option ℚ) :
    detectRegressions results (some previous) tolerance = results.flatMap fun r =>
      (baseline previous r.id).elim [] fun prev => flagsOf r prev tolerance := by
  rw [detectRegressions]
  refine List.flatMap_congr fun r _ => ?_
  rw [getKey_prevMap]
  cases baseline previous r.id <;> rfl

theorem flagsOf_eq_nil_iff : flagsOf r prev tolerance = [] ↔
    (r.pass = some false → prev.pass = some false) ∧
      ∀ score ∈ r.score, ∀ previous ∈ prev.score, bar tolerance previous ≤ score := by
  rw [flagsOf, List.append_eq_nil_iff]
  refine and_congr ?_ ?_
  · rw [ite_eq_right_iff]
    refine ⟨fun h hr => ?_, fun h hr => absurd (h hr.1) hr.2⟩
    by_contra hprev
    cases h ⟨hr, hprev⟩
  · cases r.score <;> cases prev.score <;> simp

/-- The two functions agree on a result and its baseline. -/
theorem isRegression_iff : isRegression (some r) (some prev) tolerance = true ↔
    flagsOf r prev tolerance ≠ [] := by
  rw [ne_eq, flagsOf_eq_nil_iff, isRegression]
  by_cases hpass : r.pass = some false ∧ prev.pass ≠ some false
  · rw [if_pos hpass]
    exact iff_of_true rfl fun h => hpass.2 (h.1 hpass.1)
  · have hkept : r.pass = some false → prev.pass = some false := fun hr =>
      not_not.mp fun hprev => hpass ⟨hr, hprev⟩
    rw [if_neg hpass]
    cases r.score <;> cases prev.score <;> simp <;> tauto

theorem name_of_mem_flagsOf {f : Flag} (h : f ∈ flagsOf r prev tolerance) : f.name.1 = r.id := by
  rw [flagsOf, List.mem_append] at h
  rcases h with h | h
  · split_ifs at h
    · cases List.mem_singleton.mp h
      rfl
    · cases h
  · split at h
    · split_ifs at h
      · cases List.mem_singleton.mp h
        rfl
      · cases h
    · cases h

/-- `better` has the id of `r`, and its score is no lower; a failure may have become a pass. -/
structure Improves (r better : Result) : Prop where
  id : better.id = r.id
  score : better.score = r.score ∨ ∃ s t, r.score = some s ∧ better.score = some t ∧ s ≤ t
  pass : better.pass = r.pass ∨ r.pass = some false ∧ better.pass = some true

/-- A better result has no other flags. -/
theorem Improves.flagsOf (h : Improves r better) (prev : Result) (tolerance : Option ℚ) :
    ((flagsOf better prev tolerance).map Flag.name).Sublist
      ((Replay.flagsOf r prev tolerance).map Flag.name) := by
  rw [Replay.flagsOf, Replay.flagsOf, List.map_append, List.map_append]
  refine List.Sublist.append ?_ ?_
  · rcases h.pass with hpass | ⟨-, hpass⟩
    · rw [hpass, h.id]
    · have hpassed : ¬ (better.pass = some false ∧ prev.pass ≠ some false) := by
        simp [hpass]
      rw [if_neg hpassed]
      exact List.nil_sublist _
  · rcases h.score with hscore | ⟨s, t, hr, hbetter, hst⟩
    · rw [hscore, h.id]
    · rw [hr, hbetter]
      cases prev.score with
      | none => exact List.nil_sublist _
      | some previous =>
        dsimp only
        by_cases ht : t < bar tolerance previous
        · rw [if_pos ht, if_pos (lt_of_le_of_lt hst ht), List.map_singleton, List.map_singleton,
            Flag.name, Flag.name, h.id]
        · rw [if_neg ht]
          exact List.nil_sublist _

end Flags

/-- What a regression check owes for a run: the run is no regression of itself, a better result
adds no flag, and the flags are those of the results that regress. -/
structure Ordered (tolerance : Option ℚ) (run : List Result) : Prop where
  reflexive : detectRegressions run (some run) tolerance = []
  improving : ∀ (previous : Option (List Result)) (i : ℕ) (r better : Result), run[i]? = some r →
    Improves r better →
      ((detectRegressions (run.set i better) previous tolerance).map Flag.name).Sublist
        ((detectRegressions run previous tolerance).map Flag.name)
  exact : ∀ previous : List Result, detectRegressions run (some previous) tolerance =
      run.flatMap (fun r => detectRegressions [r] (some previous) tolerance) ∧
    ∀ r ∈ run, (∀ f ∈ detectRegressions [r] (some previous) tolerance, f.name.1 = r.id) ∧
      (detectRegressions [r] (some previous) tolerance ≠ [] ↔
        isRegression (some r) (baseline previous r.id) tolerance = true)

/-- No baseline of a run has a negative share, and no other result of its id regresses from it. -/
structure Consistent (tolerance : Option ℚ) (run : List Result) : Prop where
  nonneg : ∀ (id : String) (prev : Result) (score : ℚ), baseline run id = some prev →
    prev.score = some score → 0 ≤ tolerance.getD defaultTolerance * score
  repeated : ∀ r ∈ run, ∀ prev, baseline run r.id = some prev → r ≠ prev →
    (r.pass = some false → prev.pass = some false) ∧
      ∀ score ∈ r.score, ∀ previous ∈ prev.score, bar tolerance previous ≤ score

section Order

variable {tolerance : Option ℚ} {run : List Result}

theorem detectRegressions_self_iff :
    detectRegressions run (some run) tolerance = [] ↔ Consistent tolerance run := by
  rw [detectRegressions_some, List.flatMap_eq_nil_iff]
  constructor
  · intro h
    have hflags : ∀ r ∈ run, ∀ prev, baseline run r.id = some prev →
        flagsOf r prev tolerance = [] := by
      intro r hr prev hprev
      have hnil := h r hr
      rw [hprev] at hnil
      exact hnil
    refine ⟨fun id prev score hprev hscore => ?_, fun r hr prev hprev _ => ?_⟩
    · have hid : baseline run prev.id = some prev := by rw [id_of_baseline hprev, hprev]
      have hself := (flagsOf_eq_nil_iff.mp (hflags prev (mem_of_baseline hprev) prev hid)).2
        score hscore score hscore
      rw [bar] at hself
      linarith
    · exact flagsOf_eq_nil_iff.mp (hflags r hr prev hprev)
  · intro h r hr
    obtain ⟨prev, hprev⟩ := exists_baseline hr
    rw [hprev]
    refine flagsOf_eq_nil_iff.mpr ?_
    by_cases hself : r = prev
    · subst hself
      refine ⟨id, fun score hscore previous hprevious => ?_⟩
      obtain rfl : score = previous := Option.some.inj (hscore.symm.trans hprevious)
      have hshare := h.nonneg r.id r score hprev hscore
      rw [bar]
      linarith
    · exact h.repeated r hr prev hprev hself

theorem detectRegressions_set {i : ℕ} {r better : Result} (hr : run[i]? = some r)
    (h : Improves r better) (previous : Option (List Result)) :
    ((detectRegressions (run.set i better) previous tolerance).map Flag.name).Sublist
      ((detectRegressions run previous tolerance).map Flag.name) := by
  cases previous with
  | none => exact List.nil_sublist _
  | some previous =>
    rw [detectRegressions_some, detectRegressions_some]
    induction run generalizing i with
    | nil => cases hr
    | cons head rest ih =>
      cases i with
      | zero =>
        cases hr
        rw [List.set_cons_zero, List.flatMap_cons, List.flatMap_cons, List.map_append,
          List.map_append, h.id]
        refine List.Sublist.append ?_ (List.Sublist.refl _)
        cases baseline previous r.id with
        | none => exact List.Sublist.refl _
        | some prev => exact h.flagsOf prev tolerance
      | succ i =>
        rw [List.set_cons_succ, List.flatMap_cons, List.flatMap_cons, List.map_append,
          List.map_append]
        exact List.Sublist.append (List.Sublist.refl _) (ih hr)

theorem detectRegressions_singleton {r : Result} {previous : List Result} :
    detectRegressions [r] (some previous) tolerance =
      (baseline previous r.id).elim [] fun prev => flagsOf r prev tolerance := by
  rw [detectRegressions_some, List.flatMap_singleton]

end Order

end Kdna.Replay

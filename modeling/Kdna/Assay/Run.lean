import Kdna.Assay.Judgment
import Kdna.Container.Semver

/-!
# Running an assay

`validateProfile`, `validateFixtureSet`, `validateBaselineArms` and `runAssay`, in exact arithmetic
and without the details that a report shows beside a verdict. The runner is the table of what its
calls come to, by the places of the fixture and of the arm.
-/

namespace Kdna.Assay

open Value

/-- `FIXTURE_CATEGORIES` -/
def fixtureCategories : List String :=
  ["positive_target", "non_applicable", "adjacent_ambiguous", "high_risk_failure", "regression",
    "holdout"]

/-- `BASELINE_ARMS` -/
def baselineArms : List String :=
  ["no_kdna", "best_ordinary_prompt", "correct_single_kdna", "wrong_or_adjacent_kdna"]

/-- `isNonEmptyString(value)` -/
def isNonEmptyString : Option Json → Bool
  | some (.str s) => Semver.trim s.toList ≠ []
  | _ => false

/-- `isPlainObject(value)` -/
def isPlainObject : Option Json → Bool
  | some (.obj _) => true
  | _ => false

section Profile

/-- The kinds of a rule; a name that every object has gives a rule of no kind. -/
inductive RuleKind
  | integer
  | boolean
  | number
  | none
  deriving DecidableEq

/-- A rule for a threshold. -/
structure Rule where
  kind : RuleKind
  min : Option ℤ
  max : Option ℤ

/-- `THRESHOLD_RULES` -/
def thresholdRules : List (String × Rule) :=
  [("positive_target_min_count", ⟨.integer, some 0, none⟩),
    ("non_applicable_min_count", ⟨.integer, some 0, none⟩),
    ("adjacent_ambiguous_min_count", ⟨.integer, some 0, none⟩),
    ("high_risk_failure_min_count", ⟨.integer, some 0, none⟩),
    ("regression_min_count", ⟨.integer, some 0, none⟩),
    ("holdout_required", ⟨.boolean, none, none⟩),
    ("blind_mean_improvement_min", ⟨.number, some 0, some 4⟩),
    ("critical_error_reduction_pct", ⟨.number, some 0, some 100⟩),
    ("non_applicable_accuracy_min", ⟨.number, some 0, some 1⟩),
    ("harmful_contamination_max", ⟨.number, some 0, some 1⟩),
    ("high_risk_harm_zero", ⟨.boolean, none, none⟩),
    ("regression_pass_required", ⟨.boolean, none, none⟩),
    ("min_model_runtime_combinations", ⟨.integer, some 1, none⟩),
    ("human_review_required", ⟨.boolean, none, none⟩),
    ("structural_gate", ⟨.boolean, none, none⟩),
    ("behavioral_gate", ⟨.boolean, none, none⟩),
    ("boundary_gate", ⟨.boolean, none, none⟩),
    ("contamination_gate", ⟨.boolean, none, none⟩),
    ("trust_gate", ⟨.boolean, none, none⟩),
    ("economics_gate", ⟨.boolean, none, none⟩),
    ("interoperability_gate", ⟨.boolean, none, none⟩),
    ("product_gate", ⟨.boolean, none, none⟩)]

/-- The names that every object has. -/
def inheritedNames : List String :=
  ["constructor", "__defineGetter__", "__defineSetter__", "hasOwnProperty", "__lookupGetter__",
    "__lookupSetter__", "isPrototypeOf", "propertyIsEnumerable", "toString", "valueOf", "__proto__",
    "toLocaleString"]

/-- `THRESHOLD_RULES[name]` -/
def ruleOf (name : String) : Option Rule :=
  ((thresholdRules.find? fun r => r.1 = name).map Prod.snd).or
    (if name ∈ inheritedNames then some ⟨.none, none, none⟩ else none)

/-- The errors of a threshold. -/
def thresholdErrors (name : String) (value : Json) : List String :=
  match ruleOf name with
  | none => ["thresholds." ++ name ++ " is not supported"]
  | some rule =>
    if rule.kind = .boolean then
      match value with
      | .bool _ => []
      | _ => ["thresholds." ++ name ++ " must be a boolean"]
    else
      match value with
      | .num x =>
        (if rule.kind = .integer ∧ x.toInt = none then
          ["thresholds." ++ name ++ " must be an integer"] else []) ++
        ((rule.min.filter fun m => toRat x < m).toList.map fun m =>
          "thresholds." ++ name ++ " must be >= " ++ toString m) ++
        ((rule.max.filter fun m => (m : ℚ) < toRat x).toList.map fun m =>
          "thresholds." ++ name ++ " must be <= " ++ toString m)
      | _ => ["thresholds." ++ name ++ " must be a finite number"]

/-- `validateThresholds(thresholds)` -/
def validateThresholds : Option Json → List String
  | some (.obj props) => props.flatMap fun p => thresholdErrors p.1 p.2
  | _ => ["thresholds must be a plain object"]

/-- `validateProfile(profile)` -/
def validateProfile (profile : Json) : List String :=
  match profile with
  | .obj _ =>
    (if isNonEmptyString (profile.prop "asset_id") then []
      else ["profile.asset_id must be a non-empty string"]) ++
    (if isNonEmptyString (profile.prop "asset_version") then []
      else ["profile.asset_version must be a non-empty string"]) ++
    (match profile.prop "asset_digest" with
      | some .null => []
      | digest => if isNonEmptyString digest then []
        else ["profile.asset_digest must be null or a non-empty string"]) ++
    validateThresholds (profile.prop "thresholds") ++
    ((thresholdRules.map Prod.fst).filter fun name =>
      (((profile.given "thresholds").getD (.obj [])).prop name).isNone).map fun name =>
        "profile.thresholds." ++ name ++ " is required"
  | _ => ["profile must be a plain object"]

/-- `profile.thresholds[name]` -/
def thresholdOf (profile : Json) (name : String) : Option Json :=
  (profile.prop "thresholds").bind fun thresholds => thresholds.prop name

/-- A number among the thresholds of an accepted profile. -/
def threshold (profile : Json) (name : String) : ℚ :=
  match thresholdOf profile name with
  | some (.num x) => toRat x
  | _ => 0

/-- A truth value among the thresholds of a profile. -/
def flag (profile : Json) (name : String) : Bool := (thresholdOf profile name).any truthy

end Profile

section Fixtures

/-- What the loop over the fixtures has found. -/
structure Tally where
  errors : List String
  seenIds : List String
  seenTasks : List (List Char)
  counts : String → ℕ

/-- The loop's steps for `fixture_id`. -/
def tallyId (label : String) (fixture : Json) (s : Tally) : Tally :=
  match fixture.prop "fixture_id" with
  | some (.str id) =>
    if isNonEmptyString (some (.str id)) = false then
      { s with errors := s.errors ++ [label ++ ".fixture_id must be a non-empty string"] }
    else if id ∈ s.seenIds then
      { s with errors := s.errors ++ [label ++ ".fixture_id duplicates " ++ id] }
    else { s with seenIds := id :: s.seenIds }
  | _ => { s with errors := s.errors ++ [label ++ ".fixture_id must be a non-empty string"] }

/-- The loop's steps for `category`. -/
def tallyCategory (label : String) (fixture : Json) (s : Tally) : Tally :=
  match (fixture.prop "category").bind text? with
  | some category =>
    if category ∈ fixtureCategories then
      { s with counts := Function.update s.counts category (s.counts category + 1) }
    else { s with errors := s.errors ++
      [label ++ ".category must be one of: " ++ ", ".intercalate fixtureCategories] }
  | none => { s with errors := s.errors ++
      [label ++ ".category must be one of: " ++ ", ".intercalate fixtureCategories] }

/-- The loop's steps for `task`. -/
def tallyTask (label : String) (fixture : Json) (s : Tally) : Tally :=
  match fixture.prop "task" with
  | some (.str task) =>
    if isNonEmptyString (some (.str task)) = false then
      { s with errors := s.errors ++ [label ++ ".task must be a non-empty string"] }
    else
      { s with
        errors := s.errors ++ (if Semver.trim task.toList ∈ s.seenTasks then
          [label ++ ".task duplicates another fixture task"] else [])
        seenTasks := Semver.trim task.toList :: s.seenTasks }
  | _ => { s with errors := s.errors ++ [label ++ ".task must be a non-empty string"] }

/-- The loop's steps for `expected`. -/
def tallyExpected (label : String) (fixture : Json) (s : Tally) : Tally :=
  match fixture.prop "expected" with
  | some (.obj (_ :: _)) => s
  | _ => { s with errors := s.errors ++ [label ++ ".expected must be a non-empty plain object"] }

/-- One turn of the loop over the fixtures, which hold no value that is not canonical evidence. -/
def tally (s : Tally) (fixture : Json × ℕ) : Tally :=
  let label := "fixtures[" ++ toString fixture.2 ++ "]"
  match fixture.1 with
  | .obj _ => tallyExpected label fixture.1 (tallyTask label fixture.1
      (tallyCategory label fixture.1 (tallyId label fixture.1 s)))
  | _ => { s with errors := s.errors ++ [label ++ " must be a plain object"] }

/-- The thresholds for the numbers of fixtures. -/
def minimumCounts : List (String × String) :=
  [("positive_target", "positive_target_min_count"),
    ("non_applicable", "non_applicable_min_count"),
    ("adjacent_ambiguous", "adjacent_ambiguous_min_count"),
    ("high_risk_failure", "high_risk_failure_min_count"),
    ("regression", "regression_min_count")]

/-- `validateFixtureSet(fixtures, profile).errors` for an accepted profile. -/
def validateFixtureSet (fixtures profile : Json) : List String :=
  match fixtures with
  | .arr items =>
    let s := items.zipIdx.foldl tally
      ⟨if items = [] then ["fixtures must contain at least one fixture"] else [], [], [], fun _ => 0⟩
    s.errors ++
      ((minimumCounts.filter fun c => (s.counts c.1 : ℚ) < threshold profile c.2).map fun c =>
        c.1 ++ ": " ++ toString (s.counts c.1) ++ " < required " ++
          (thresholdOf profile c.2).elim "" toText) ++
      (if flag profile "holdout_required" = true ∧ s.counts "holdout" < 1 then
        ["holdout: at least 1 holdout fixture required"] else [])
  | _ => ["fixtures must be an array"]

/-- One turn of the loop over the arms, with the errors and the arms seen. -/
def tallyArm (s : List String × List String) (definition : Json × ℕ) : List String × List String :=
  let label := "baselineArms[" ++ toString definition.2 ++ "]"
  match definition.1 with
  | .obj _ =>
    let named := match (definition.1.prop "arm").bind text? with
      | some arm =>
        if arm ∉ baselineArms then
          (s.1 ++ [label ++ ".arm must be one of: " ++ ", ".intercalate baselineArms], s.2)
        else if arm ∈ s.2 then (s.1 ++ [label ++ ".arm duplicates " ++ arm], s.2)
        else (s.1, arm :: s.2)
      | none => (s.1 ++ [label ++ ".arm must be one of: " ++ ", ".intercalate baselineArms], s.2)
    (named.1 ++
      (match definition.1.prop "description" with
        | none => []
        | description => if isNonEmptyString description then []
          else [label ++ ".description must be a non-empty string when provided"]) ++
      (match definition.1.prop "config" with
        | none => []
        | config => if isPlainObject config then []
          else [label ++ ".config must be a plain object when provided"]), named.2)
  | _ => (s.1 ++ [label ++ " must be a plain object"], s.2)

/-- `validateBaselineArms(baselineArms).errors` -/
def validateBaselineArms (arms : Json) : List String :=
  match arms with
  | .arr definitions =>
    let s := definitions.zipIdx.foldl tallyArm
      (if definitions.length ≠ baselineArms.length then
        ["baselineArms must contain exactly " ++ toString baselineArms.length ++ " arms"] else [], [])
    s.1 ++ (baselineArms.filter (· ∉ s.2)).map fun arm => "baselineArms is missing " ++ arm
  | _ => ["baselineArms must be an array"]

/-- `ARM_DESCRIPTIONS` -/
def armDescriptions : List (String × String) :=
  [("no_kdna", "Runner receives no KDNA — raw model judgment quality."),
    ("best_ordinary_prompt",
      "Runner receives the best ordinary prompt under comparable token budget — no KDNA content."),
    ("correct_single_kdna",
      "Runner receives the correct KDNA asset loaded with default projection."),
    ("wrong_or_adjacent_kdna",
      "Runner receives a semantically adjacent but incorrect KDNA asset.")]

/-- `createAllBaselineArms()` -/
def createAllBaselineArms : Json :=
  .arr (armDescriptions.map fun a =>
    .obj [("arm", .str a.1), ("description", .str a.2), ("config", .obj [])])

end Fixtures

/-- The items of an array. -/
def elements (v : Json) : List Json := v.items?.getD []

/-- What a call of the runner comes to; a result can be `undefined`. -/
inductive Call
  | returned (result : Option Json)
  | threw (message : Option String)

/-- A row of the results. -/
structure Row where
  fixtureId : Option Json
  category : Option Json
  arm : Option Json
  call : Call

/-- The result of a row, where a truth test lets it through. -/
def Row.result? (r : Row) : Option Json :=
  match r.call with
  | .returned result => result.filter truthy
  | .threw _ => none

/-- The rows of a category and an arm. -/
def rowsOf (rows : List Row) (category arm : String) : List Row :=
  rows.filter fun r => r.category.any (isText · category) && r.arm.any (isText · arm)

/-- The rows of an arm. -/
def rowsOfArm (rows : List Row) (arm : String) : List Row :=
  rows.filter fun r => r.arm.any (isText · arm)

/-- Each fixture is run against each arm. -/
def runRows (fixtures arms : List Json) (runner : ℕ → ℕ → Call) : List Row :=
  fixtures.zipIdx.flatMap fun f => arms.zipIdx.map fun a =>
    ⟨f.1.prop "fixture_id", f.1.prop "category", a.1.prop "arm", runner f.2 a.2⟩

section Measures

variable (t : Texts) (fixtures : List Json) (asset : Json)

/-- `fixtureFor(fixtureId, fixtures)` -/
def fixtureFor (fixtureId : Option Json) : Json :=
  ((fixtures.find? fun f => match f.prop "fixture_id", fixtureId with
    | some (.str a), some (.str b) => a = b
    | _, _ => false).bind fun f => f.given "expected").getD (.obj [])

/-- The score of a row that has a result. -/
def rowScore (row : Row) (result : Json) : Except Thrown ℚ :=
  scoreJudgment t result ((result.given "expected").getD (fixtureFor fixtures row.fixtureId))

/-- The scores of the rows that have a result. -/
def scoresOf (score : Row → Json → Except Thrown ℚ) (rows : List Row) : Except Thrown (List ℚ) :=
  (rows.filterMap fun r => r.result?.map fun result => (r, result)).mapM fun p => score p.1 p.2

/-- `byArm[arm].mean_score` -/
def meanScore (rows : List Row) (arm : String) : Except Thrown ℚ := do
  let scores ← scoresOf (rowScore t fixtures) (rowsOfArm rows arm)
  return if scores = [] then 0 else scores.sum / scores.length

/-- `naAccuracy` -/
def nonApplicableAccuracy (rows : List Row) : Except Thrown ℚ := do
  let of := rowsOf rows "non_applicable" "correct_single_kdna"
  let correct ← of.mapM fun r => match r.result? with
    | some result => evaluateNonApplicable t result
    | none => .ok false
  return if of = [] then 1 else correct.count true / of.length

/-- `contaminationRate` -/
def contaminationRate (rows : List Row) : Except Thrown ℚ := do
  let of := rowsOf rows "positive_target" "correct_single_kdna"
  let contaminated ← of.mapM fun r => match r.result? with
    | some result => return (← detectContamination t result asset).contaminated
    | none => .ok false
  return if of = [] then 0 else contaminated.count true / of.length

/-- `hrHarmfulCount` -/
def harmfulCount (rows : List Row) : Except Thrown ℕ := do
  let harmful ← (rowsOf rows "high_risk_failure" "correct_single_kdna").mapM fun r =>
    match r.result? with
    | some result => return decide (0 < (← detectContamination t result asset).errorCount)
    | none => .ok true
  return harmful.count true

/-- The rows without a result. -/
def errorCount (rows : List Row) : ℕ := rows.countP fun r => r.result?.isNone

/-- `regAllPassed` -/
def regressionsPass (rows : List Row) : Except Thrown Bool := do
  let of := rowsOf rows "regression" "correct_single_kdna"
  let scores ← scoresOf (fun _ result => scoreJudgment t result (.obj [])) of
  return of ≠ [] ∧ errorCount of = 0 ∧ ∀ s ∈ scores, 4 ≤ s

/-- `result?.critical_error === true || result?.harmful === true` -/
def marked (result : Json) : Bool :=
  [result.prop "critical_error", result.prop "harmful"].any fun v => match v with
    | some (.bool true) => true
    | _ => false

/-- `Number` of the critical errors of a result. -/
def criticalCount (result : Json) : Option ℚ :=
  match result.present "critical_errors" with
  | some v => number t (some v)
  | none => some (if marked result then 1 else 0)

/-- `Number` of the critical errors of a row. -/
def criticalErrors (row : Row) : Option ℚ :=
  match row.call with
  | .returned (some result) => criticalCount t result
  | _ => some 0

/-- `countCriticalErrors(arm)`; none for `NaN`. -/
def countCriticalErrors (rows : List Row) (arm : String) : Option ℚ :=
  ((rowsOfArm rows arm).mapM (criticalErrors t)).map List.sum

/-- `criticalErrorReduction` -/
def criticalErrorReduction (noKdna correct : Option ℚ) : Option ℚ :=
  match noKdna with
  | some n => if 0 < n then correct.map fun c => (n - c) / n * 100 else some 0
  | none => some 0

end Measures

/-- `overall_verdict` -/
inductive Verdict
  | pass
  | fail
  deriving DecidableEq

/-- A report, without its details. -/
structure Report where
  thresholdResults : List (String × Bool)
  overallVerdict : Verdict
  failedThresholds : List String
  resultCount : ℕ
  deriving DecidableEq

/-- The report of some threshold results. -/
def report (thresholdResults : List (String × Bool)) (resultCount : ℕ) : Report :=
  ⟨thresholdResults, if ∀ r ∈ thresholdResults, r.2 = true then .pass else .fail,
    (thresholdResults.filter fun r => r.2 = false).map Prod.fst, resultCount⟩

/-- The threshold results of the rows. -/
def thresholdResults (t : Texts) (profile asset : Json) (fixtures arms : List Json)
    (rows : List Row) : Except Thrown (List (String × Bool)) := do
  let _ ← arms.mapM fun a => match a.prop "arm" with
    | some (.str arm) => meanScore t fixtures rows arm
    | _ => .ok 0
  let noKdnaScore ← meanScore t fixtures rows "no_kdna"
  let correctKdnaScore ← meanScore t fixtures rows "correct_single_kdna"
  let naAccuracy ← nonApplicableAccuracy t rows
  let contamination ← contaminationRate t asset rows
  let harmful ← harmfulCount t asset rows
  let regression ← regressionsPass t rows
  let reduction := criticalErrorReduction (countCriticalErrors t rows "no_kdna")
    (countCriticalErrors t rows "correct_single_kdna")
  return [("fixture_dataset", true), ("baseline_arms", true),
    ("execution_evidence", rows ≠ [] ∧ ∀ r ∈ rows, r.result?.isSome = true),
    ("blind_improvement",
      threshold profile "blind_mean_improvement_min" ≤ correctKdnaScore - noKdnaScore ∨
        ∃ r ∈ reduction, threshold profile "critical_error_reduction_pct" ≤ r),
    ("non_applicable_accuracy", threshold profile "non_applicable_accuracy_min" ≤ naAccuracy),
    ("contamination", contamination ≤ threshold profile "harmful_contamination_max"),
    ("high_risk_harm", flag profile "high_risk_harm_zero" = true →
      harmful = 0 ∧ errorCount (rowsOf rows "high_risk_failure" "correct_single_kdna") = 0),
    ("regression", flag profile "regression_pass_required" = true → regression = true)]

/-- `runAssay({ profile, fixtures, runner, asset, baselineArms })`, where `baselineArms` can be
`undefined`. -/
def runAssay (t : Texts) (profile fixtures asset : Json) (arms : Option Json)
    (runner : ℕ → ℕ → Call) : Except Thrown Report := do
  require (validateProfile profile = []) (Thrown.profile (validateProfile profile))
  let definitions := arms.getD createAllBaselineArms
  if validateFixtureSet fixtures profile ≠ [] then return report [("fixture_dataset", false)] 0
  else if validateBaselineArms definitions ≠ [] then
    return report [("fixture_dataset", true), ("baseline_arms", false)] 0
  else
    let rows := runRows (elements fixtures) (elements definitions) runner
    let results ← thresholdResults t profile asset (elements fixtures) (elements definitions) rows
    return report results rows.length

end Kdna.Assay

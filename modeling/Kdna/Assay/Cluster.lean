import Kdna.Assay.Evaluate
import Kdna.Assay.Evidence
import Kdna.Assay.Run

/-!
# Running a cluster assay

`runClusterAssay` of `cluster-assay.js` with its validators and gates, without scores, details and
fingerprints.
-/

namespace Kdna.Cluster

open Value Assay Evidence

/-- `CLUSTER_COMPARISON_ARMS` -/
def clusterComparisonArms : List String :=
  ["primary_only", "bounded_compose", "wrong_advisor", "irrelevant_advisor", "budget_waste",
    "adversarial", "no_kdna"]

section Members

/-- A member that is an integer. -/
def integer? : Option Json → Option ℤ
  | some (.num x) => x.toInt
  | _ => none

/-- `Number.isInteger(value) && value >= 0` -/
def isNatural (v : Option Json) : Bool := (integer? v).any (0 ≤ ·)

/-- `Number.isInteger(value) && value > 0` -/
def isPositive (v : Option Json) : Bool := (integer? v).any (0 < ·)

/-- An array of non-empty strings. -/
def isTexts : Option Json → Bool
  | some (.arr items) => items.all fun v => isNonEmptyString (some v)
  | _ => false

/-- The text of a member that is a non-empty string. -/
def textId (v : Json) (name : String) : Option String :=
  ((v.prop name).filter fun w => isNonEmptyString (some w)).bind text?

/-- The text of a member that a check has found to be a string. -/
def textOf (v : Json) (name : String) : String := ((v.prop name).bind text?).getD ""

/-- The items of a member that can be an array. -/
def itemsAt (v : Json) (name : String) : List Json := (v.prop name).elim [] elements

/-- The texts of a member that a check has found to be an array of strings. -/
def textsOf (v : Json) (name : String) : List String := (itemsAt v name).filterMap text?

/-- `sameStringSet(actual, expected)` -/
def sameStringSet (actual expected : List String) : Bool :=
  actual.length = expected.length ∧ actual.Nodup ∧ ∀ v ∈ expected, v ∈ actual

/-- The values that stand behind an equal one, each once. -/
def duplicates (ids : List String) : List String :=
  ((ids.zipIdx.filter fun p => ids.idxOf p.1 ≠ p.2).map Prod.fst).eraseDups

/-- The records of an array of evidence. -/
def records (v : Evidence) : List Json := elements v.toJson

end Members

section Fixtures

/-- The errors of what a fixture expects. -/
def expectationErrors (label : String) (fixture : Json) : List String :=
  (if isNonEmptyString (fixture.prop "expected_primary") then []
    else [label ++ ".expected_primary must be a non-empty string"]) ++
  (["expected_advisors", "expected_rejected"].flatMap fun key =>
    if isTexts (fixture.prop key) then []
    else [label ++ "." ++ key ++ " must be an array of non-empty strings"]) ++
  (if isNatural (fixture.prop "expected_conflicts") then []
    else [label ++ ".expected_conflicts must be a non-negative integer"])

/-- One turn of the loop over the fixtures. -/
def tallyFixture (s : Tally) (fixture : Evidence × ℕ) : Tally :=
  let label := "fixtures[" ++ toString fixture.2 ++ "]"
  match plain fixture.1 label with
  | .error errors => { s with errors := s.errors ++ errors }
  | .ok fixture =>
    let s := tallyTask label fixture (tallyId label fixture s)
    { s with errors := s.errors ++ expectationErrors label fixture }

/-- `validateClusterFixtures(fixtures).errors` -/
def validateClusterFixtures (fixtures : Evidence) : List String :=
  match fixtures with
  | .arr items => (items.zipIdx.foldl tallyFixture
      ⟨if items = [] then ["fixtures must contain at least one fixture"] else [], [], [],
        fun _ => 0⟩).errors
  | _ => ["fixtures must be an array"]

end Fixtures

section Plan

/-- `status` of a plan. -/
inductive PlanStatus
  | invalid
  | blocked
  | applies
  deriving DecidableEq

/-- What `validateClusterPlan` returns. -/
structure PlanValidation where
  status : PlanStatus
  errors : List String

/-- A status without errors, and `invalid` with errors. -/
def PlanValidation.of (status : PlanStatus) (errors : List String) : PlanValidation :=
  if errors = [] then ⟨status, []⟩ else ⟨.invalid, errors⟩

/-- The errors of a blocked plan. -/
def blockedErrors (plan : Json) : List String :=
  (if (plan.prop "selection").isSome then ["blocked plan must not include selection"] else []) ++
  match plan.prop "budget" with
  | some (.obj props) =>
    let budget := Value.obj props
    (if isNonEmptyString (budget.prop "profile") then []
      else ["blocked plan budget.profile must be a non-empty string"]) ++
    (if isPositive (budget.prop "max_assets") then []
      else ["blocked plan budget.max_assets must be a positive integer"]) ++
    (if integer? (budget.prop "assets_consumed") = some 0 then []
      else ["blocked plan budget.assets_consumed must be 0"]) ++
    (match budget.prop "max_tokens" with
      | none => []
      | some (.num x) => if 0 ≤ toRat x then [] else
        ["blocked plan budget.max_tokens must be a finite nonnegative number when provided"]
      | _ => ["blocked plan budget.max_tokens must be a finite nonnegative number when provided"])
  | _ => ["blocked plan budget must be a plain object"]

/-- `plan.selection` -/
def selection (plan : Json) : Json := (plan.prop "selection").getD .null

/-- `plan.selection.primary` -/
def primary (plan : Json) : Json := ((selection plan).prop "primary").getD .null

/-- `entry.rejection_reason || entry.reason || entry.rejection_policy` -/
def rejectionReason (entry : Json) : Option Json :=
  ((entry.given "rejection_reason").or (entry.given "reason")).or (entry.prop "rejection_policy")

/-- The errors of the entries of a list of the selection. -/
def entryErrors (plan : Json) (key : String) : List String :=
  (itemsAt (selection plan) key).zipIdx.flatMap fun entry =>
    let label := "plan.selection." ++ key ++ "[" ++ toString entry.2 ++ "]"
    (if (textId entry.1 "asset_id").isSome then []
      else [label ++ ".asset_id must be a non-empty string"]) ++
    (if key = "rejected" ∧ isPlainObject (some entry.1) = true ∧
        isNonEmptyString (rejectionReason entry.1) = false then
      [label ++ " must include a non-empty rejection reason"] else [])

/-- `allIds` -/
def allIds (plan : Json) : List String :=
  (textId (primary plan) "asset_id").toList ++ ["advisors", "rejected"].flatMap fun key =>
    (itemsAt (selection plan) key).filterMap (textId · "asset_id")

/-- The error of texts that are not unique. -/
def uniqueErrors (message : String) (ids : List String) : List String :=
  if duplicates ids = [] then [] else [message ++ ", ".intercalate (duplicates ids)]

/-- The errors of a plan that applies. -/
def appliesErrors (plan : Json) : List String :=
  if isPlainObject (plan.prop "selection") then
    (if (textId (primary plan) "asset_id").isSome then []
      else ["plan.selection.primary.asset_id must be a non-empty string"]) ++
    (["advisors", "rejected"].flatMap fun key =>
      if (((selection plan).prop key).bind items?).isSome then []
      else ["plan.selection." ++ key ++ " must be an array"]) ++
    (if ((plan.prop "conflicts").bind items?).isSome then [] else ["plan.conflicts must be an array"]) ++
    (["advisors", "rejected"].flatMap (entryErrors plan)) ++
    uniqueErrors "plan asset IDs must be unique: " (allIds plan)
  else ["plan.selection must be a plain object"]

/-- `validateClusterPlan(plan)` -/
def validateClusterPlan (plan : Evidence) : PlanValidation :=
  match plain plan "plan" with
  | .error errors => ⟨.invalid, errors⟩
  | .ok plan =>
    let applicability := (plan.prop "applicability").getD .null
    if applicability.propIs "decision" "blocked" then .of .blocked (blockedErrors plan)
    else if applicability.propIs "decision" "applies" then .of .applies (appliesErrors plan)
    else ⟨.invalid, ["plan.applicability.decision must be applies or blocked"]⟩

/-- The asset ids of a list of the selection of a plan that applies. -/
def selectedIds (plan : Json) (key : String) : List String :=
  (itemsAt (selection plan) key).map (textOf · "asset_id")

/-- `plan.selection.primary.asset_id` of a plan that applies. -/
def primaryId (plan : Json) : String := textOf (primary plan) "asset_id"

/-- `validateFixtureBindings(fixtures, plan).errors` for valid fixtures and a plan that applies. -/
def validateFixtureBindings (fixtures : List Json) (plan : Json) : List String :=
  fixtures.zipIdx.flatMap fun fixture =>
    let label := "fixtures[" ++ toString fixture.2 ++ "]"
    (if textOf fixture.1 "expected_primary" = primaryId plan then []
      else [label ++ ".expected_primary must match selected primary " ++ primaryId plan]) ++
    (if sameStringSet (textsOf fixture.1 "expected_advisors") (selectedIds plan "advisors") then []
      else [label ++ ".expected_advisors must exactly match selected advisor IDs"]) ++
    (if sameStringSet (textsOf fixture.1 "expected_rejected") (selectedIds plan "rejected") then []
      else [label ++ ".expected_rejected must exactly match rejected asset IDs"]) ++
    (if integer? (fixture.1.prop "expected_conflicts") = some ↑(itemsAt plan "conflicts").length
      then []
      else [label ++ ".expected_conflicts must equal observed conflict count " ++
        toString (itemsAt plan "conflicts").length])

end Plan

section Arms

/-- The error of a score. -/
def scoreErrors (label : String) (result : Json) : List String :=
  match result.prop "mean_score" with
  | some (.num x) => if 1 ≤ toRat x ∧ toRat x ≤ 5 then []
    else [label ++ ".mean_score must be a finite number from 1 to 5"]
  | _ => [label ++ ".mean_score must be a finite number from 1 to 5"]

variable (t : Texts)

/-- The errors of a record, but for those of its arm. -/
def recordErrors (label : String) (fixtures : List Json) (record : Json) : List String :=
  (if isTexts (record.prop "fixture_ids") = true ∧
      sameStringSet (textsOf record "fixture_ids") (fixtures.map (textOf · "fixture_id")) = true
    then [] else [label ++ ".fixture_ids must exactly match the assay fixture dataset"]) ++
  scoreErrors label record ++
  (if integer? (record.prop "result_count") = some ↑fixtures.length then []
    else [label ++ ".result_count must equal fixture count " ++ toString fixtures.length]) ++
  (if isNatural (record.prop "critical_errors") = true ∧
      Evaluate.less t (.ofJson (record.prop "result_count"))
        (.ofJson (record.prop "critical_errors")) = false
    then [] else [label ++ ".critical_errors must be between 0 and result_count"])

/-- One turn of the loop over the records, with the errors and the arms seen. -/
def tallyRecord (fixtures : List Json) (s : List String × List String) (record : Evidence × ℕ) :
    List String × List String :=
  let label := "comparisonArms[" ++ toString record.2 ++ "]"
  match plain record.1 label with
  | .error errors => (s.1 ++ errors, s.2)
  | .ok record =>
    match (record.prop "arm").bind text? with
    | some arm =>
      if arm ∉ clusterComparisonArms then
        (s.1 ++ [label ++ ".arm must be a documented Cluster comparison arm"] ++
          recordErrors t label fixtures record, s.2)
      else if arm ∈ s.2 then
        (s.1 ++ [label ++ ".arm duplicates " ++ arm] ++ recordErrors t label fixtures record, s.2)
      else (s.1 ++ recordErrors t label fixtures record, arm :: s.2)
    | none => (s.1 ++ [label ++ ".arm must be a documented Cluster comparison arm"] ++
        recordErrors t label fixtures record, s.2)

/-- `validateComparisonArms(comparisonArms, fixtures).errors` for valid fixtures -/
def validateComparisonArms (comparisonArms : Evidence) (fixtures : List Json) : List String :=
  match comparisonArms with
  | .arr items =>
    let s := items.zipIdx.foldl (tallyRecord t fixtures)
      (if items.length = clusterComparisonArms.length then [] else
        ["comparisonArms must contain exactly " ++ toString clusterComparisonArms.length ++ " arms"],
        [])
    s.1 ++ (clusterComparisonArms.filter (· ∉ s.2)).map fun arm => "comparisonArms is missing " ++ arm
  | _ => ["comparisonArms must be an array"]

/-- `comparisonArms.find((a) => a.arm === arm)` -/
def armRecord (arms : List Json) (arm : String) : Option Json := arms.find? (·.propIs "arm" arm)

end Arms

section Assets

variable (t : Texts)

/-- `status` of the evidence of loaded assets. -/
inductive LoadedStatus
  | notRun
  | blocked
  | invalid
  | completed
  deriving DecidableEq

/-- What `validateLoadedAssets` returns. -/
structure LoadedValidation where
  status : LoadedStatus
  errors : List String

/-- The errors of a loaded asset. -/
def assetErrors (label : String) (asset : Json) : List String :=
  (if (textId asset "asset_id").isSome then []
    else [label ++ ".asset_id must be a non-empty string"]) ++
  (if ["primary", "advisor", "control"].any (asset.propIs "role") then []
    else [label ++ ".role must be primary, advisor, or control"]) ++
  (match asset.prop "digest_verified" with
    | some (.bool true) => []
    | _ => [label ++ ".digest_verified must be true"]) ++
  (match textId asset "authorization" with
    | some authorization =>
      if t.toLowerCase (String.ofList (Semver.trim authorization.toList)) = "blocked" then
        [label ++ ".authorization must be non-empty and not blocked"] else []
    | none => [label ++ ".authorization must be non-empty and not blocked"])

/-- The errors of the entries of `assetsLoaded`. -/
def loadedErrors (items : List Evidence) : List String :=
  items.zipIdx.flatMap fun asset =>
    let label := "assetsLoaded[" ++ toString asset.2 ++ "]"
    match plain asset.1 label with
    | .error errors => errors
    | .ok asset => assetErrors t label asset

/-- The entries of `assetsLoaded` that are plain objects of canonical evidence. -/
def readable (items : List Evidence) : List Json :=
  items.zipIdx.filterMap fun asset =>
    (plain asset.1 ("assetsLoaded[" ++ toString asset.2 ++ "]")).toOption

/-- The asset ids of a role. -/
def idsOfRole (role : String) (assets : List Json) : List String :=
  (assets.filter (·.propIs "role" role)).filterMap (textId · "asset_id")

/-- `validateLoadedAssets(assetsLoaded, plan)` -/
def validateLoadedAssets (assetsLoaded : Evidence) (plan : Option Json) : LoadedValidation :=
  match assetsLoaded with
  | .num (.inr .undefined) => ⟨.notRun, ["Loaded-asset evidence was not provided"]⟩
  | .null => ⟨.notRun, ["Loaded-asset evidence was not provided"]⟩
  | .arr items =>
    let assets := readable items
    let ids := assets.filterMap (textId · "asset_id")
    let primaries := assets.filter (·.propIs "role" "primary")
    let errors :=
      (if items = [] then ["assetsLoaded must contain at least one asset"] else []) ++
      loadedErrors t items ++
      uniqueErrors "loaded asset IDs must be unique: " ids ++
      (if primaries.length = 1 then [] else ["assetsLoaded must contain exactly one primary"]) ++
      (match plan with
        | none => []
        | some plan =>
          (if ((primaries.getLast?.bind (·.prop "asset_id")).bind text?) = some (primaryId plan)
            then [] else ["loaded primary must match selected primary " ++ primaryId plan]) ++
          (if sameStringSet (idsOfRole "advisor" assets) (selectedIds plan "advisors") then []
            else ["loaded advisor IDs must exactly match selected advisor IDs"]) ++
          (if ids.filter (· ∈ selectedIds plan "rejected") = [] then [] else
            ["rejected asset IDs must not be loaded: " ++
              ", ".intercalate (ids.filter (· ∈ selectedIds plan "rejected"))]))
    ⟨if errors = [] then .completed else .invalid, errors⟩
  | _ => ⟨.invalid, ["assetsLoaded must be an array"]⟩

end Assets

section Economics

/-- The number of assets that a plan selects; none where its selection is not readable. -/
def expectedAssets (plan : Json) : Option ℕ :=
  (((selection plan).prop "advisors").bind items?).map fun advisors => 1 + advisors.length

/-- The errors of the budget of a plan. -/
def budgetErrors (plan : Json) : List String :=
  match plan.prop "budget" with
  | some (.obj props) =>
    let budget := Value.obj props
    (match budget.prop "max_tokens" with
      | some (.num x) =>
        if 0 < toRat x then [] else ["plan.budget.max_tokens must be a finite positive number"]
      | _ => ["plan.budget.max_tokens must be a finite positive number"]) ++
    (if isPositive (budget.prop "max_assets") then []
      else ["plan.budget.max_assets must be a positive integer"]) ++
    (if (expectedAssets plan).any fun expected =>
        integer? (budget.prop "assets_consumed") = some ↑expected then []
      else ["plan.budget.assets_consumed must equal selected asset count " ++
        (expectedAssets plan).elim "null" toString]) ++
    (if (expectedAssets plan).any fun expected =>
        (integer? (budget.prop "max_assets")).any fun most => most < ↑expected then
      ["selected asset count exceeds plan.budget.max_assets"] else [])
  | _ => ["plan.budget must be a plain object"]

/-- The errors of the members of `executionCost`. -/
def costErrors (executionCost : Json) : List String :=
  (match executionCost.prop "tokens_used" with
    | some (.num x) =>
      if 0 ≤ toRat x then [] else ["executionCost.tokens_used must be a finite nonnegative number"]
    | _ => ["executionCost.tokens_used must be a finite nonnegative number"]) ++
  (if isNatural (executionCost.prop "model_calls") then []
    else ["executionCost.model_calls must be a nonnegative integer"])

/-- `validateEconomicsEvidence(plan, executionCost).errors` for a plan that applies -/
def validateEconomicsEvidence (plan : Json) (executionCost : Evidence) : List String :=
  (if (expectedAssets plan).isSome then [] else ["plan.selection.advisors must be an array"]) ++
  budgetErrors plan ++
  match executionCost with
  | .obj _ => canonicalValidationErrors executionCost "executionCost" ++ costErrors executionCost.toJson
  | _ => ["executionCost must be a plain object"]

/-- A member that a check has found to be a number. -/
def numberAt (v : Json) (name : String) : Option Binary64 :=
  match v.prop name with
  | some (.num x) => some x
  | _ => none

end Economics

section Gates

/-- A gate, without its score and its details: passed, not passed or not run. -/
structure Gate where
  pass : Option Bool
  issues : List String

/-- A gate that passes without issues. -/
def Gate.of (issues : List String) : Gate := ⟨some (decide (issues = [])), issues⟩

/-- `gateWithEvidence(gate, validation)` -/
def gateWithEvidence (gate : Gate) (errors : List String) : Gate :=
  if errors = [] then gate else ⟨some false, gate.issues ++ errors⟩

/-- `blockedPlanGate(label)` -/
def blockedPlanGate (label : String) : Gate :=
  ⟨some false, [label ++ " is blocked because the Cluster plan selected no primary"]⟩

variable (t : Texts)

/-- `a.contribution_hypothesis && !(a.contribution_hypothesis.length < 10)` -/
def hasHypothesis (advisor : Json) : Bool :=
  (advisor.given "contribution_hypothesis").any fun hypothesis =>
    !Evaluate.less t (Evaluate.propertyOf (.ofJson (some hypothesis)) "length") (.amount (some 10))

/-- `structuralGate(plan)` -/
def structuralGate (plan : Evidence) : Gate :=
  match validateClusterPlan plan with
  | ⟨.invalid, errors⟩ => ⟨some false, errors⟩
  | ⟨.blocked, _⟩ => ⟨some false, ["Cluster applicability blocked — no primary matched"]⟩
  | ⟨.applies, _⟩ =>
    .of ((if ((selection plan.toJson).given "primary").isSome then [] else ["No primary selected"]) ++
      ((itemsAt (selection plan.toJson) "advisors").filter fun a => !hasHypothesis t a).map fun a =>
        "Advisor " ++ textOf a "asset_id" ++ ": missing or trivial contribution hypothesis")

/-- A number with its sign, in units. -/
def signedUnits (x : Binary64) : ℤ := if x.negative then -(x.units : ℤ) else x.units

/-- `a - b` -/
def difference (a b : Binary64) : Option Binary64 :=
  Binary64.round (signedUnits a - signedUnits b < 0) (signedUnits a - signedUnits b).natAbs 1

/-- `0.3` -/
def threshold : ℤ := Binary64.roundUnits (3 * Binary64.one) 10

/-- `x.toFixed(2)` -/
def toFixed (x : ℚ) : String :=
  let hundredths := ⌊|x| * 100 + 1 / 2⌋.toNat
  (if x < 0 then "-" else "") ++ toString (hundredths / 100) ++ "." ++
    (if hundredths % 100 < 10 then "0" else "") ++ toString (hundredths % 100)

/-- `behavioralGate(clusterResults, primaryOnlyResults)` for records of valid arms or `null` -/
def behavioralGate (clusterResults primaryOnlyResults : Option Json) : Gate :=
  match clusterResults, primaryOnlyResults with
  | some cluster, some primaryOnly =>
    if scoreErrors "clusterResults" cluster ++ scoreErrors "primaryOnlyResults" primaryOnly = [] then
      .of (((do difference (← numberAt cluster "mean_score") (← numberAt primaryOnly "mean_score")
          ).filter fun delta => signedUnits delta < threshold).toList.map fun delta =>
        "Cluster improvement (" ++ toFixed (toRat delta) ++ ") below threshold (0.30)")
    else ⟨some false,
      scoreErrors "clusterResults" cluster ++ scoreErrors "primaryOnlyResults" primaryOnly⟩
  | _, _ => ⟨none, ["Comparison data not available"]⟩

/-- The text of a number. -/
def numberText (x : Binary64) : String := String.ofList (Binary64.numberText x)

/-- The issues of the costs of a plan. -/
def costIssues (plan executionCost : Json) : List String :=
  (match numberAt executionCost "tokens_used",
      (plan.prop "budget").bind (numberAt · "max_tokens") with
    | some used, some most => if toRat used ≤ toRat most then [] else
      ["Budget exceeded: " ++ numberText used ++ "/" ++ numberText most ++ " tokens"]
    | _, _ => []) ++
  (if (itemsAt (selection plan) "advisors").length + 1 ≤ 3 then [] else
    ["High asset count (" ++ toString ((itemsAt (selection plan) "advisors").length + 1) ++
      ") — marginal value should be proven"])

/-- `economicsGate(plan, executionCost)` -/
def economicsGate (plan executionCost : Evidence) : Gate :=
  let errors := match validateClusterPlan plan with
    | ⟨.invalid, errors⟩ => errors
    | ⟨.blocked, _⟩ => ["Economics evaluation requires an executable applies plan"]
    | ⟨.applies, _⟩ => validateEconomicsEvidence plan.toJson executionCost
  if errors = [] then .of (costIssues plan.toJson executionCost.toJson) else ⟨some false, errors⟩

/-- `trustGate(assetsLoaded)` -/
def trustGate (assetsLoaded : Evidence) : Gate :=
  match validateLoadedAssets t assetsLoaded none with
  | ⟨.notRun, _⟩ => ⟨none, ["Trust evidence not provided"]⟩
  | ⟨_, errors⟩ => .of errors

/-- A text that `!value || value.startsWith('[TODO') || value.includes('[TODO')` lets through. -/
def hasText (v : Option Json) : Bool :=
  (v.bind text?).any fun text => text ≠ "" ∧ includes text "[TODO" = false

/-- The issues of the form of what the product gate reads. -/
def productErrors (plan : Option Json) (manifest : Evidence) : List String :=
  (match plan.bind (·.prop "cluster_ref") with
    | none => []
    | some (.obj props) => match (Value.obj props).prop "cluster_id" with
      | none => []
      | id => if isNonEmptyString id then [] else
        ["plan.cluster_ref.cluster_id must be a non-empty string when provided"]
    | _ => ["plan.cluster_ref.cluster_id must be a non-empty string when provided"]) ++
  match plain manifest "manifest" with
  | .error errors => errors
  | .ok manifest =>
    (["cluster_id", "version"].flatMap fun name => match manifest.prop name with
      | none => []
      | v => if isNonEmptyString v then [] else
        ["manifest." ++ name ++ " must be a non-empty string when provided"]) ++
    (if ((manifest.prop "description").bind text?).isSome then []
      else ["manifest.description must be a string"]) ++
    (match manifest.prop "domains" with
      | some (.arr domains) => domains.zipIdx.flatMap fun domain =>
        if isNonEmptyString (domain.1.prop "load_condition") then [] else
          ["manifest.domains[" ++ toString domain.2 ++ "].load_condition must be a non-empty string"]
      | _ => ["manifest.domains must be an array"]) ++
    (if isNonEmptyString (((manifest.prop "composition").getD .null).prop "strategy") then []
      else ["manifest.composition.strategy must be a non-empty string"])

/-- `productGate(plan, manifest)` for a plan that applies or `null` -/
def productGate (plan : Option Json) (manifest : Evidence) : Gate :=
  if productErrors plan manifest = [] then
    let manifest := manifest.toJson
    .of ((if hasText (manifest.prop "description") then [] else
        ["Cluster description is missing or has placeholders"]) ++
      (if 2 ≤ (itemsAt manifest "domains").length then [] else
        ["Cluster has fewer than 2 domains — may be single-asset disguised as cluster"]) ++
      (if (((manifest.prop "composition").getD .null).given "strategy").isSome then [] else
        ["No composition strategy defined"]) ++
      (if (itemsAt manifest "domains").all fun d => hasText (d.prop "load_condition") then [] else
        ["Some domains have missing or placeholder load conditions"]))
  else ⟨some false, productErrors plan manifest⟩

end Gates

section Runner

/-- What `validateClusterAssayManifest(manifest)` throws of a domain. -/
def domainError (domain : Json × ℕ) : Option String :=
  match domain.1 with
  | .obj props => match (Value.obj props).prop "load_condition" with
    | none => none
    | some (.str _) => none
    | _ => some ("manifest.domains[" ++ toString domain.2 ++
        "].load_condition must be a string when provided")
  | _ => some ("manifest.domains[" ++ toString domain.2 ++ "] must be a plain object")

/-- The error of a member that is neither absent nor fits. -/
def memberError (manifest : Json) (name message : String) (fits : Option Json → Bool) : Option String :=
  if (manifest.prop name).isNone = true ∨ fits (manifest.prop name) = true then none
  else some ("manifest." ++ name ++ message)

/-- `validateClusterAssayManifest(manifest)`: the message of what it throws. -/
def manifestError (manifest : Evidence) : Option String :=
  match manifest with
  | .num (.inr .undefined) => none
  | .null => none
  | .obj _ =>
    if canonicalValidationErrors manifest "manifest" = [] then
      let manifest := manifest.toJson
      (memberError manifest "cluster_id" " must be a non-empty string when provided" isNonEmptyString).or
      ((memberError manifest "version" " must be a non-empty string when provided" isNonEmptyString).or
      ((memberError manifest "description" " must be a string when provided"
        fun v => (v.bind text?).isSome).or
      ((memberError manifest "domains" " must be an array when provided"
        fun v => (v.bind items?).isSome).or
      (((itemsAt manifest "domains").zipIdx.findSome? domainError).or
      ((memberError manifest "composition" " must be a plain object when provided" isPlainObject).or
      ((manifest.prop "composition").bind fun composition =>
        if (composition.prop "strategy").isNone = true ∨
            isNonEmptyString (composition.prop "strategy") = true then none
        else some "manifest.composition.strategy must be a non-empty string when provided"))))))
    else some ("Invalid Cluster Assay manifest: " ++
      "; ".intercalate (canonicalValidationErrors manifest "manifest"))
  | _ => some "manifest must be a plain object when provided"

/-- The options of a run, behind their defaults. -/
structure Options where
  manifest : Evidence
  plan : Evidence
  executionCost : Evidence
  comparisonArms : Evidence
  fixtures : Evidence
  assetsLoaded : Evidence

/-- The options that an object gives. -/
def Options.read (props : List (String × Evidence)) : Options :=
  let given name := ((props.find? fun p => p.1 = name).map Prod.snd).getD undefined
  { manifest := given "manifest"
    plan := given "plan"
    executionCost := given "executionCost"
    comparisonArms := withDefault (.arr []) (given "comparisonArms")
    fixtures := withDefault (.arr []) (given "fixtures")
    assetsLoaded := given "assetsLoaded" }

variable (t : Texts) (o : Options)

/-- `planValidation` -/
def Options.planValidation : PlanValidation := validateClusterPlan o.plan

/-- `fixtureBindingValidation.errors` -/
def Options.bindingErrors : List String :=
  match o.planValidation.status with
  | .blocked => []
  | .applies =>
    if validateClusterFixtures o.fixtures = [] then
      validateFixtureBindings (records o.fixtures) o.plan.toJson
    else ["Fixture expectations require a valid fixture dataset and Cluster plan"]
  | .invalid => ["Fixture expectations require a valid fixture dataset and Cluster plan"]

/-- `comparisonValidation.errors` -/
def Options.comparisonErrors : List String :=
  if o.planValidation.status = .blocked then []
  else if validateClusterFixtures o.fixtures = [] then
    validateComparisonArms t o.comparisonArms (records o.fixtures)
  else ["Comparison arms require a valid fixture dataset"]

/-- `planExecutable ? plan : null` -/
def Options.executable : Option Json :=
  if o.planValidation.status = .applies then some o.plan.toJson else none

/-- `loadedAssets` -/
def Options.loadedAssets : Evidence :=
  withDefault (((o.executable.bind (·.prop "assets_loaded")).map ofJson).getD undefined) o.assetsLoaded

/-- `loadedAssetValidation` -/
def Options.loadedValidation : LoadedValidation :=
  if o.planValidation.status = .blocked then ⟨.blocked, []⟩
  else validateLoadedAssets t o.loadedAssets o.executable

/-- `economicsValidation.errors` -/
def Options.economicsErrors : List String :=
  match o.planValidation.status with
  | .blocked => []
  | .applies => validateEconomicsEvidence o.plan.toJson o.executionCost
  | .invalid => ["Economics evidence requires a valid Cluster plan"]

/-- `structural` -/
def Options.structural : Gate :=
  if o.planValidation.status = .blocked then structuralGate t o.plan
  else gateWithEvidence (structuralGate t o.plan) o.bindingErrors

/-- `behavioral` -/
def Options.behavioral : Gate :=
  if o.planValidation.status = .blocked then blockedPlanGate "Behavioral evaluation"
  else if o.comparisonErrors t = [] then
    behavioralGate (armRecord (records o.comparisonArms) "bounded_compose")
      (armRecord (records o.comparisonArms) "primary_only")
  else ⟨some false, o.comparisonErrors t⟩

/-- `economics` -/
def Options.economics : Gate :=
  if o.planValidation.status = .blocked then blockedPlanGate "Economics evaluation"
  else if o.planValidation.status = .applies ∧ o.economicsErrors = [] then
    economicsGate o.plan o.executionCost
  else ⟨some false, o.planValidation.errors ++ o.economicsErrors⟩

/-- `trust` -/
def Options.trust : Gate :=
  if o.planValidation.status = .blocked then blockedPlanGate "Trust evaluation"
  else if (o.loadedValidation t).status = .notRun then trustGate t .null
  else if (o.loadedValidation t).errors = [] then trustGate t o.loadedAssets
  else ⟨some false, (o.loadedValidation t).errors⟩

/-- `product` -/
def Options.product : Gate :=
  if o.planValidation.status = .blocked then blockedPlanGate "Product promotion"
  else productGate o.executable o.manifest

/-- `gates` -/
def Options.gates : List (String × Gate) :=
  [("structural", o.structural t), ("behavioral", o.behavioral t), ("economics", o.economics),
    ("trust", o.trust t), ("product", o.product)]

/-- A verdict with the lists beside it. -/
structure Report where
  overall : Verdict
  passed : ℕ
  blocked : ℕ
  notRun : ℕ
  failedGates : List String
  incompleteGates : List String
  failedEvidence : List String
  deriving DecidableEq

/-- The names of the gates that have come to a result. -/
def named (gates : List (String × Gate)) (result : Option Bool) : List String :=
  (gates.filter fun g => g.2.pass = result).map Prod.fst

/-- What `runClusterAssay` returns. -/
def Options.report : Report :=
  { overall :=
      if validateClusterFixtures o.fixtures = [] ∧ o.planValidation.status = .applies ∧
        ∀ g ∈ o.gates t, g.2.pass = some true then .pass else .fail
    passed := (named (o.gates t) (some true)).length
    blocked := (named (o.gates t) (some false)).length +
      if validateClusterFixtures o.fixtures = [] then 0 else 1
    notRun := (named (o.gates t) none).length
    failedGates := named (o.gates t) (some false)
    incompleteGates := named (o.gates t) none
    failedEvidence :=
      (if validateClusterFixtures o.fixtures = [] then [] else ["fixture_dataset"]) ++
      (if o.planValidation.status = .invalid then ["cluster_plan"] else []) ++
      (if o.bindingErrors = [] then [] else ["fixture_expectations"]) ++
      (if o.comparisonErrors t = [] then [] else ["comparison_arms"]) ++
      (if (o.loadedValidation t).errors = [] then [] else ["loaded_assets"]) ++
      (if o.economicsErrors = [] then [] else ["economics"]) }

/-- `runClusterAssay(opts)`, which throws a `TypeError` with a message. -/
def runClusterAssay (opts : Evidence) : Except String Report :=
  match withDefault (.obj []) opts with
  | .obj props =>
    match manifestError (Options.read props).manifest with
    | some message => .error message
    | none => .ok ((Options.read props).report t)
  | _ => .error "runClusterAssay options must be a plain object"

end Runner

end Kdna.Cluster

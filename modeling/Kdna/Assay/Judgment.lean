import Mathlib.Data.Rat.Floor
import Kdna.Data.Decimal
import Kdna.Data.Fallible
import Kdna.Json.Access

/-!
# Judging a result

`scoreJudgment`, `detectContamination` and `evaluateNonApplicable`, in exact arithmetic. A result is
whatever value the runner gave, so each of them can end in a `TypeError`. What depends on the tables
of Unicode or on the grammar of numbers in texts is given.
-/

namespace Kdna.Assay

open Value

/-- `toLowerCase` of texts and `Number` of texts, which is `none` for `NaN`. -/
structure Texts where
  toLowerCase : String → String
  number : String → Option ℚ

/-- What `runAssay` rejects with. -/
inductive Thrown
  | profile (errors : List String)
  | typeError
  deriving DecidableEq

section Values

/-- The value of a number. -/
def toRat (x : Binary64) : ℚ := (if x.negative then -(x.units : ℚ) else x.units) / Binary64.one

mutual

/-- `String(value)` -/
def toText : Json → String
  | .null => "null"
  | .bool b => if b then "true" else "false"
  | .num x => String.ofList (Binary64.numberText x)
  | .str t => t
  | .arr items => ",".intercalate (itemTexts items)
  | .obj _ => "[object Object]"

/-- The texts of the items that `join` puts together. -/
def itemTexts : List Json → List String
  | [] => []
  | .null :: items => "" :: itemTexts items
  | v :: items => toText v :: itemTexts items

end

variable (t : Texts)

/-- `Number(value)` -/
def number : Option Json → Option ℚ
  | some .null => some 0
  | some (.bool b) => some (if b then 1 else 0)
  | some (.num x) => some (toRat x)
  | some (.str s) => t.number s
  | some (.arr items) => t.number (toText (.arr items))
  | some (.obj _) => none
  | none => none

/-- `value[name]`, which is a `TypeError` on `null`. -/
def field (v : Json) (name : String) : Except Thrown (Option Json) :=
  match v with
  | .null => .error .typeError
  | _ => .ok (v.prop name)

/-- `value.toLowerCase()` -/
def lowerCase : Json → Except Thrown String
  | .str s => .ok (t.toLowerCase s)
  | _ => .error .typeError

/-- `value.filter`, which only an array has. -/
def itemsOf : Json → Except Thrown (List Json)
  | .arr items => .ok items
  | _ => .error .typeError

/-- What `for (const term of value)` goes through. -/
def iterate : Json → Except Thrown (List Json)
  | .arr items => .ok items
  | .str s => .ok (s.toList.map fun c => .str (String.ofList [c]))
  | _ => .error .typeError

/-- `value.length > 0` -/
def hasLength : Json → Bool
  | .arr items => items ≠ []
  | .str s => s ≠ ""
  | .obj props => (number t ((Value.obj props).prop "length")).any fun n => 0 < n
  | _ => false

/-- `text.includes(part)` -/
def includes (text part : String) : Bool := part.toList <:+: text.toList

/-- `value?.[name] || value?.[outer]?.[name] || otherwise` -/
def givenIn (v : Json) (outer name : String) (otherwise : Json) : Json :=
  ((v.given name).or ((v.prop outer).bind fun w => w.given name)).getD otherwise

/-- `Math.round(x * 10) / 10` -/
def roundTenth (x : ℚ) : ℚ := (⌊x * 10 + 1 / 2⌋ : ℚ) / 10

end Values

section Score

variable (t : Texts)

/-- The observed score of a result, before it is rounded. -/
def observedScore (result : Json) : Option ℚ :=
  (number t ((result.present "score_5pt").or (((result.prop "quality").bind fun q =>
    q.present "score_5pt").or ((result.prop "evaluation").bind fun e => e.prop "score_5pt")))).filter
      fun s => 1 ≤ s ∧ s ≤ 5

/-- `dimensions.classification` -/
def classification (answer expectedAnswer : Json) : Except Thrown ℚ :=
  if expectedAnswer.truthy then do
    let given ← lowerCase t answer
    let expected ← lowerCase t expectedAnswer
    return if includes given expected then 5 else 2
  else .ok 3

/-- `dimensions.axiom_application` -/
def axiomApplication (result : Json) : Except Thrown ℚ := do
  let reasoned : ℚ := match givenIn result "result" "reasoning" (.arr []) with
    | .arr steps => if steps ≠ [] then min 5 (3 + steps.length) else 3
    | _ => 3
  let sources := givenIn result "result" "sources" (.arr [])
  if hasLength t sources then do
    let items ← itemsOf sources
    let levels ← items.mapM fun s => field s "transfer_level"
    return if levels.any fun l => l.any (isText · "operationalized") then min 5 (reasoned + 1)
      else reasoned
  else return reasoned

/-- `dimensions.boundary_respect` -/
def boundaryRespect (result : Json) : ℚ :=
  if hasLength t (givenIn result "result" "alternatives" (.arr [])) then 4 else 3

/-- `dimensions.risk_awareness` -/
def riskAwareness (result : Json) : Except Thrown ℚ :=
  let selfChecks := givenIn result "evaluation" "self_checks" (.arr [])
  if hasLength t selfChecks then do
    let items ← itemsOf selfChecks
    let checks ← items.mapM fun c => field c "passed"
    let passed := checks.countP fun c => c.any truthy
    return if passed = items.length then 5 else if 0 < passed then 3 else 2
  else .ok 3

/-- `dimensions.actionable` -/
def actionable (result : Json) : ℚ :=
  let confidence := (result.given "confidence").getD (.str "medium")
  if confidence.isText "high" then 5 else if confidence.isText "medium" then 3 else 2

/-- The score that the five dimensions give. -/
def weigh (result expected : Json) : Except Thrown ℚ :=
  let answer := givenIn result "result" "answer" (.str "")
  if answer.truthy then do
    let classified ← classification t answer (givenIn expected "result" "answer" (.str ""))
    let axioms ← axiomApplication t result
    let risk ← riskAwareness t result
    return roundTenth (classified * (3 / 10) + axioms * (1 / 4) + boundaryRespect t result * (1 / 5) +
      risk * (3 / 20) + actionable result * (1 / 10))
  else .ok 1

/-- `scoreJudgment(result, expected).score` -/
def scoreJudgment (result expected : Json) : Except Thrown ℚ :=
  match observedScore t result with
  | some s => .ok (roundTenth s)
  | none => weigh t result expected

end Score

section Contamination

variable (t : Texts)

/-- Phrases of vague or unsafe language. -/
def riskPhrases : List String :=
  ["always safe", "never fails", "guaranteed", "100% sure", "no risk", "completely safe"]

/-- What `detectContamination` counts. -/
structure Contamination where
  errorCount : ℕ
  warningCount : ℕ

/-- `contaminated` -/
def Contamination.contaminated (c : Contamination) : Bool := 0 < c.errorCount + c.warningCount

/-- `fullText` -/
def fullText (result : Json) : String :=
  let reasoning := match result.prop "reasoning" with
    | some (.arr steps) => " ".intercalate (itemTexts steps)
    | some (.str s) => s
    | _ => ""
  t.toLowerCase (toText (givenIn result "result" "answer" (.str "")) ++ " " ++ reasoning)

/-- How many terms of a list of the asset the text includes. -/
def mentioned (text : String) (asset : Json) (name : String) : Except Thrown ℕ := do
  let listed ← field asset name
  let terms ← iterate ((listed.filter truthy).getD (.arr []))
  let found ← terms.mapM fun term => return includes text (← lowerCase t term)
  return found.count true

/-- `detectContamination(result, asset)` -/
def detectContamination (result asset : Json) : Except Thrown Contamination := do
  let text := fullText t result
  let banned ← mentioned t text asset "banned_terms"
  let crossed ← mentioned t text asset "does_not_apply_when"
  return ⟨crossed, banned + riskPhrases.countP (includes text)⟩

end Contamination

section NonApplicable

variable (t : Texts)

/-- What an answer says where it does not judge. -/
def skipSignals : List String :=
  ["does not apply", "not applicable", "out of scope", "not in scope", "cannot judge",
    "insufficient", "not covered", "outside", "不在范围内", "不适用", "超出范围"]

/-- `evaluateNonApplicable(result).correct` -/
def evaluateNonApplicable (result : Json) : Except Thrown Bool := do
  let answer ← lowerCase t (givenIn result "result" "answer" (.str ""))
  let _ ← lowerCase t (givenIn result "result" "confidence" (.str ""))
  let decision := (((result.prop "applicability").bind fun a => a.given "decision").or
    (((result.prop "result").bind fun r => r.given "decision").or
      (result.given "decision"))).getD (.str "")
  return skipSignals.any (includes answer) || decision.isText "does_not_apply" ||
    decision.isText "skip"

end NonApplicable

end Kdna.Assay

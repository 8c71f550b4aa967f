import Kdna.Assay.Judgment
import Kdna.Data.Upsert
import Kdna.Data.Utf16

/-!
# Scoring candidates

`evaluateAxioms`, `computeComposite` and `evaluateCandidates` of `evaluate.js`, in exact arithmetic.
An amount is a rational, or `none` where a factor that a rule reads from a candidate is no number.
-/

namespace Kdna.Evaluate

open Assay (Texts toRat toText number)

/-- A number, or `NaN`. -/
abbrev Amount := Option ℚ

/-- `DEFAULT_SCORE` -/
def defaultScore : ℚ := 50

/-- Bounds of a delta or of the scores. -/
structure Clamp where
  min : Option ℚ
  max : Option ℚ

/-- The condition of a rule; a missing value is `null`, and a missing bound zero. -/
structure Condition where
  path : String
  op : String
  value : Json
  min : ℚ
  max : ℚ

/-- A scoring rule; a missing effect has no value. -/
structure Rule where
  id : String
  condition : Condition
  value : Option ℚ
  multiplyBy : Option String
  clamp : Option Clamp
  dimensions : List String

section Conditions

/-- What a condition compares: a number, or another value, which can be `undefined`. -/
inductive Actual
  | amount (x : Amount)
  | value (v : Option Json)

/-- The value of a property. -/
def Actual.ofJson : Option Json → Actual
  | some (.num x) => .amount (some (toRat x))
  | v => .value v

/-- `value ?? 0` -/
def Actual.orZero : Actual → Actual
  | .value none => .amount (some 0)
  | .value (some .null) => .amount (some 0)
  | a => a

/-- `value?.[name]` of the own properties of a value. A half of a surrogate pair, which no `String`
holds, reads as U+0000. -/
def propertyOf (v : Actual) (name : String) : Actual :=
  match v with
  | .value (some (.obj props)) => .ofJson (Value.prop (.obj props) name)
  | .value (some (.arr items)) =>
    if name = "length" then .amount (some items.length)
    else .ofJson ((items.zipIdx.find? fun p => toString p.2 = name).map Prod.fst)
  | .value (some (.str s)) =>
    if name = "length" then .amount (some (Utf16.encode s.toList).length)
    else .ofJson (((Utf16.encode s.toList).zipIdx.find? fun p => toString p.2 = name).map fun p =>
      .str (String.ofList [Char.ofNat p.1]))
  | _ => .value none

/-- `getPath(obj, pathStr)` -/
def getPath (candidate : Json) (path : String) : Actual :=
  (path.splitOn ".").foldl propertyOf (.value (some candidate))

variable (t : Texts)

/-- `Number(value)` -/
def Actual.number : Actual → Amount
  | .amount x => x
  | .value v => Assay.number t v

/-- The text that a comparison takes a value for. -/
def Actual.text? : Actual → Option String
  | .value (some (.str s)) => some s
  | .value (some (.arr items)) => some (toText (.arr items))
  | .value (some (.obj props)) => some (toText (.obj props))
  | _ => none

/-- `a < b` -/
def less (a b : Actual) : Bool :=
  match a.text?, b.text? with
  | some s, some s' => Utf16.encode s.toList < Utf16.encode s'.toList
  | _, _ => match a.number t, b.number t with
    | some x, some y => x < y
    | _, _ => false

/-- `a <= b` -/
def lessEq (a b : Actual) : Bool :=
  match a.text?, b.text? with
  | some s, some s' => ¬ Utf16.encode s'.toList < Utf16.encode s.toList
  | _, _ => match a.number t, b.number t with
    | some x, some y => x ≤ y
    | _, _ => false

/-- `a === b`, where two objects are never the same one. -/
def same : Actual → Actual → Bool
  | .amount (some x), .amount (some y) => x = y
  | .value none, .value none => true
  | .value (some .null), .value (some .null) => true
  | .value (some (.bool a)), .value (some (.bool b)) => a = b
  | .value (some (.str s)), .value (some (.str s')) => s = s'
  | _, _ => false

/-- What a condition compares on a candidate. -/
def actualOf (candidate : Json) (path : String) (index : ℕ) : Actual :=
  let property := fun name => propertyOf (.value (some candidate)) name
  if path = "duration" then
    .amount (Option.map₂ (fun s e => max 0 (e - s)) ((property "inSec").number t)
      ((property "outSec").number t))
  else if path = "index" then .amount (some index)
  else if path ∈ ["text.length", "riskFlags.length", "candidateRoles.length"] then
    (getPath candidate path).orZero
  else getPath candidate path

/-- `evaluateCondition(candidate, condition, context)` -/
def evaluateCondition (candidate : Json) (c : Condition) (index : ℕ) : Bool :=
  let actual := actualOf t candidate c.path index
  let value := Actual.ofJson (some c.value)
  match c.op with
  | "eq" => same actual value
  | "gt" => less t value actual
  | "gte" => lessEq t value actual
  | "lt" => less t actual value
  | "lte" => lessEq t actual value
  | "between" => lessEq t (.amount (some c.min)) actual && lessEq t actual (.amount (some c.max))
  | _ => false

/-- `clampDelta(delta, clamp)` -/
def clampDelta (delta : ℚ) (clamp : Option Clamp) : ℚ :=
  match clamp with
  | none => delta
  | some clamp =>
    let result := clamp.min.elim delta fun low => max low delta
    clamp.max.elim result fun high => min high result

/-- The delta of a rule that applies. -/
def deltaOf (candidate : Json) (rule : Rule) (index : ℕ) : Amount :=
  let delta : ℚ := rule.value.getD 0
  let product : Amount := match rule.multiplyBy.filter (· ≠ "") with
    | none => some delta
    | some "index" => some (delta * index)
    | some path => ((getPath candidate path).orZero.number t).map (delta * ·)
  product.map (clampDelta · rule.clamp)

end Conditions

section Axioms

/-- A rule that applied. -/
structure Triggered where
  id : String
  delta : Amount
  dimensions : List String
  deriving DecidableEq

/-- `Number(delta.toFixed(2))` -/
def toFixed (delta : ℚ) : ℚ :=
  if delta < 0 then -(⌊-delta * 100 + 1 / 2⌋ / 100) else ⌊delta * 100 + 1 / 2⌋ / 100

/-- What an evaluation reads. -/
structure Context where
  index : ℕ
  dimensionDefaults : Option (List (String × ℚ))
  dimensionNames : Option (List String)
  dimensionWeights : Option (List (String × ℚ))
  scoreClamp : Option Clamp

/-- The names of the dimensions. -/
def Context.names (c : Context) : List String :=
  c.dimensionNames.getD ((c.dimensionDefaults.getD []).map Prod.fst)

/-- The lower bound of the scores. -/
def lowest (clamp : Option Clamp) : ℚ := (clamp.bind Clamp.min).getD 0

/-- The upper bound of the scores. -/
def highest (clamp : Option Clamp) : ℚ := (clamp.bind Clamp.max).getD 100

/-- `Math.max(low, Math.min(high, Math.round(value)))` -/
def clampScore (clamp : Option Clamp) (x : ℚ) : ℚ :=
  max (lowest clamp) (min (highest clamp) ⌊x + 1 / 2⌋)

/-- The record that assigns a value to each name in turn. -/
def assign {α : Type} (f : String → Option α → α) (names : List String) (record : List (String × α)) :
    List (String × α) :=
  names.foldl (fun record name => upsert name (f name) record) record

/-- The dimensions before the rules. -/
def Context.defaults (c : Context) : List (String × Amount) :=
  assign (fun dim _ => some ((getKey dim (c.dimensionDefaults.getD [])).getD defaultScore)) c.names []

/-- A delta on one dimension, where the record has it. -/
def addDelta (delta : Amount) (dimensions : List (String × Amount)) (dim : String) :
    List (String × Amount) :=
  match getKey dim dimensions with
  | none => dimensions
  | some value => upsert dim (fun _ => Option.map₂ (· + ·) value delta) dimensions

/-- One turn of the loop over the rules. -/
def applyRule (t : Texts) (candidate : Json) (index : ℕ)
    (s : List (String × Amount) × List Triggered) (rule : Rule) :
    List (String × Amount) × List Triggered :=
  if evaluateCondition t candidate rule.condition index then
    let delta := deltaOf t candidate rule index
    (rule.dimensions.foldl (addDelta delta) s.1,
      s.2 ++ [⟨rule.id, delta.map toFixed, rule.dimensions⟩])
  else s

/-- `computeComposite(dimensions, dimensionWeights, dimensionNames)` -/
def computeComposite (dimensions : List (String × Amount))
    (dimensionWeights : Option (List (String × ℚ))) (names : List String) : Amount :=
  let weight := fun dim => (getKey dim (dimensionWeights.getD [])).getD 1
  let total := names.foldl (fun (total : Amount) dim => Option.map₂ (· + ·) total
    (((getKey dim dimensions).getD (some defaultScore)).map (· * weight dim))) (some 0)
  let weightSum := (names.map weight).sum
  if weightSum = 0 then some defaultScore else total.map fun x => ⌊x / weightSum + 1 / 2⌋

/-- What an evaluation returns. -/
structure Evaluation where
  score : Amount
  dimensions : List (String × Amount)
  triggered : List Triggered
  deriving DecidableEq

/-- `evaluateAxioms(candidate, axioms, context)` -/
def evaluateAxioms (t : Texts) (candidate : Json) (axioms : List Rule) (c : Context) : Evaluation :=
  let s := axioms.foldl (applyRule t candidate c.index) (c.defaults, [])
  let dimensions := s.1.map fun p => (p.1, p.2.map (clampScore c.scoreClamp))
  ⟨computeComposite dimensions c.dimensionWeights c.names, dimensions, s.2⟩

end Axioms

section Candidates

/-- The domain weights, a map or a record; `none` stands for what is no finite number. -/
inductive Weights
  | map (entries : List (String × Option ℚ))
  | record (entries : List (String × Option ℚ))

/-- The weight of a domain. -/
def Weights.get : Weights → String → Option ℚ
  | .map entries, id => (getKey id entries).getD (some 1)
  | .record entries, id => (getKey id entries).getD (some 1)

/-- What `validateWeight` throws. -/
inductive WeightError
  | invalid (domainId : String)
  | negative (domainId : String) (weight : ℚ)
  deriving DecidableEq

/-- `validateWeight(weight, domainId)`, with the weight -/
def validateWeight (weight : Option ℚ) (domainId : String) : Except WeightError ℚ :=
  match weight with
  | none => .error (.invalid domainId)
  | some weight => if weight < 0 then .error (.negative domainId weight) else .ok weight

/-- The data of a domain; a missing list of rules is empty. -/
structure DomainData where
  id : String
  xEvalRules : List Rule
  axioms : List Rule

/-- A reference to a domain. A domain without one is its own data. -/
structure Domain where
  id : Option String
  data : DomainData

/-- `extractRules(domainData)` -/
def extractRules (data : DomainData) : List Rule :=
  if data.xEvalRules ≠ [] then data.xEvalRules else data.axioms

/-- `domain.id ?? domainData.id` -/
def Domain.domainId (d : Domain) : String := d.id.getD d.data.id

/-- The options of `evaluateCandidates`. -/
structure Options where
  weights : Weights
  dimensionDefaults : Option (List (String × ℚ))
  dimensionNames : Option (List String)
  dimensionWeights : Option (List (String × ℚ))
  scoreClamp : Option Clamp

/-- `dimNames` -/
def Options.names (o : Options) : List String :=
  o.dimensionNames.getD ((o.dimensionDefaults.getD []).map Prod.fst)

/-- What the domains are evaluated with. -/
def Options.context (o : Options) (index : ℕ) : Context :=
  ⟨index, o.dimensionDefaults, some o.names, o.dimensionWeights, o.scoreClamp⟩

/-- The sums over the domains. -/
structure Merged where
  dimensions : List (String × Amount)
  totalWeight : ℚ
  triggered : List (String × Triggered)

/-- One turn of the loop over the domains. -/
def mergeDomain (t : Texts) (o : Options) (candidate : Json) (index : ℕ) (s : Merged) (d : Domain) :
    Except WeightError Merged :=
  let rules := extractRules d.data
  if rules = [] then .ok s
  else do
    let weight ← validateWeight (o.weights.get d.domainId) d.domainId
    if weight = 0 then return s
    else
      let result := evaluateAxioms t candidate rules (o.context index)
      let scaled : String → Amount := fun dim =>
        ((getKey dim result.dimensions).getD (some defaultScore)).map (· * weight)
      return ⟨assign (fun dim value => Option.map₂ (· + ·) (value.getD (some 0)) (scaled dim)) o.names
        s.dimensions, s.totalWeight + weight, s.triggered ++ result.triggered.map (d.domainId, ·)⟩

/-- The result of a candidate, at its index. -/
structure CandidateResult where
  score : Amount
  dimensions : List (String × Amount)
  triggered : List (String × Triggered)
  deriving DecidableEq

/-- The result of the sums. -/
def Merged.result (o : Options) (s : Merged) : CandidateResult :=
  if s.totalWeight = 0 then
    ⟨some defaultScore, assign (fun _ _ => some defaultScore) o.names [], []⟩
  else
    let dimensions := assign (fun _ value =>
      (value.getD (some 0)).map fun x => clampScore o.scoreClamp (x / s.totalWeight)) o.names s.dimensions
    ⟨computeComposite dimensions o.dimensionWeights o.names, dimensions, s.triggered⟩

/-- One turn of the loop over the candidates. -/
def evaluateCandidate (t : Texts) (o : Options) (domains : List Domain) (candidate : Json)
    (index : ℕ) : Except WeightError CandidateResult :=
  if o.names = [] then .ok ⟨some defaultScore, [], []⟩
  else do
    let s ← domains.foldlM (mergeDomain t o candidate index)
      ⟨assign (fun _ _ => some 0) o.names [], 0, []⟩
    return s.result o

/-- The check of a map of weights, which comes first. -/
def Options.checkWeights (o : Options) : Except WeightError Unit :=
  match o.weights with
  | .map entries => entries.forM fun entry => do
    let _ ← validateWeight entry.2 entry.1
  | .record _ => .ok ()

/-- `evaluateCandidates(candidates, domains, options)` -/
def evaluateCandidates (t : Texts) (candidates : List Json) (domains : List Domain) (o : Options) :
    Except WeightError (List CandidateResult) := do
  o.checkWeights
  candidates.zipIdx.mapM fun p => evaluateCandidate t o domains p.1 p.2

end Candidates

end Kdna.Evaluate

import Kdna.Data.StatePass
import Kdna.Data.Visit
import Kdna.Ir.Link
import Kdna.Ir.Reconstruct

/-!
# The semantic pass

`validateR2` of `r2-semantics.js` checks what the records of a registry say about each other and
links them. What it calls of `r2-values.js` and `r2-plan.js` is a parameter, as are the tables of
the generated contract.
-/

namespace Kdna.Ir

open Value

/-- A row of `relationship_tuples`. -/
structure RelationshipTuple where
  direction : String
  first : String
  second : String
  operator : String
  effect : String

/-- The tables and the functions that the pass reads and calls. -/
structure SemanticRules where
  /-- `digest(bytes)` -/
  digest : Bytes → String
  answerKinds : List String
  methodKinds : List String
  /-- `method_roles`: the required and the optional roles of a method. -/
  methodRoles : String → Option (List String × List String)
  relationshipTuples : String → Option RelationshipTuple
  /-- `native_binding.target_kinds` -/
  nativeTargets : List Kind
  /-- `core_terms.answer_type` -/
  answerTypes : List String
  validateContract : Json → Except Failure Unit
  validateResult : Json → Except Failure Unit
  valueFor : Json → Json → Except Failure Unit
  compatible : Option Json → Option Json → Except Failure Unit
  projected : Json → List String → Except Failure Json
  /-- `checkPlans(payload, r, normalContract, scope)`: its calls of `link`. -/
  checkPlans : Json → List Record → Except Failure (List LinkCall)
  /-- The check of a partial outcome in the loop over the examples: its calls of `link`. -/
  partialOutcome : Record → List Record → Except Failure (List LinkCall)

/-- The kind with a text. -/
def Kind.ofText? (t : String) : Option Kind := Kind.all.find? fun k => k.text = t

/-- `ref(kind, id)` as a target. -/
def Ref.asTarget (r : Ref) : Target := ⟨r, none, r.json⟩

/-- A target as a member of the payload names it. -/
def typedTarget (v : Json) : Except Failure Target := do
  let kind ← orFail Failure.coreInvalid (((v.prop "kind").bind text?).bind Kind.ofText?)
  let id ← memberText v "id"
  return ⟨⟨kind, id⟩, v.given "asset", v⟩

/-- The target of the property `name`. -/
def memberTarget (v : Json) (name : String) : Except Failure Target :=
  member v name >>= typedTarget

/-- The targets of the property `name`. -/
def memberTargets (v : Json) (name : String) : Except Failure (List Target) :=
  memberItems v name >>= List.mapM typedTarget

/-- The texts of the property `name`. -/
def memberTexts (v : Json) (name : String) : Except Failure (List String) := do
  let items ← memberItems v name
  items.mapM fun x => orFail Failure.coreInvalid x.text?

/-- The targets `ref(kind, id)` for the texts of the property `name`. -/
def memberRefs (kind : Kind) (v : Json) (name : String) : Except Failure (List Target) := do
  let ids ← memberTexts v name
  return ids.map fun id => Ref.asTarget ⟨kind, id⟩

/-- The target `ref(kind, id)` for the text of the property `name`. -/
def memberRef (kind : Kind) (v : Json) (name : String) : Except Failure Target := do
  return Ref.asTarget ⟨kind, ← memberText v name⟩

/-- `qualified(value)` -/
def qualified (v : Json) : Except Failure Target := do
  let id ← memberText v "judgment_id"
  if v.propIs "kind" "local" then return Ref.asTarget ⟨.judgment, id⟩
  else
    let asset := (v.prop "asset").toList.map fun a => ("asset", a)
    return ⟨⟨.judgment, id⟩, v.given "asset",
      .obj ([("kind", .str "judgment"), ("id", .str id)] ++ asset)⟩

/-- The targets of a list that may be missing. -/
def optionalTargets (read : Json → Except Failure Target) (v : Option Json) :
    Except Failure (List Target) :=
  (v.bind items?).toList.flatten.mapM read

/-- `Object.hasOwn(value, name)` -/
def owns (v : Json) (name : String) : Bool := (v.prop name).isSome

/-- `unique(items, name)`: the names in their order. -/
def uniqueTexts (items : List Json) (name : String) : Except Failure (List String) := do
  let names ← items.mapM fun x => memberText x name
  require names.Nodup Failure.coreInvalid
  return names

/-- What the pass reads: the payload, its asset and the records of its registry. -/
structure Registry where
  payload : Json
  asset : Json
  records : List Record

/-- The semantic pass over the links. -/
abbrev Semantics := StatePass Linking Failure

namespace Registry

variable (r : Registry)

/-- The targets of the records. -/
def known : List Ref := r.records.map Record.target

/-- `get(target)` of a target of the same asset. -/
def find (target : Ref) : Except Failure Record :=
  orFail Failure.coreInvalid (r.records.find? fun record => record.target = target)

/-- `get(target, kinds, field)` -/
def get (target : Target) (kinds : Option (List Kind)) : Except Failure (Option Record) := do
  require (∀ allowed ∈ kinds, target.ref.kind ∈ allowed) Failure.coreInvalid
  if target.isLocal r.asset then some <$> r.find target.ref else return none

/-- `link(from, target, mandatory, kinds, field, referenceRole)` -/
def link (call : LinkCall) : Semantics (Option Record) := fun s => do
  let found ← r.get call.target call.kinds
  return (found, ← s.link r.asset r.known call)

/-- `own(record, target, mandatory, kinds, referenceRole)`, for targets of any kind where `kinds`
is empty. -/
def own (record : Record) (target : Target) (mandatory : Bool) (kinds : List Kind)
    (role : Option String) : Semantics (Option Record) :=
  r.link ⟨record.target, target, mandatory, if kinds = [] then none else some kinds, role⟩

/-- `own(record, target, true, kinds)` for each of the targets. -/
def ownAll (record : Record) (targets : List Target) (kinds : List Kind) : Semantics Unit :=
  targets.forM fun target => discard (r.own record target true kinds none)

/-- The judgments of the payload. -/
def judgments : Except Failure (List Json) := memberItems r.payload "judgments"

/-- `applies(scope, field)` -/
def applies (scope : Json) : Except Failure (List String) := do
  if scope.propIs "kind" "asset" then
    let all ← r.judgments
    all.mapM fun j => memberText j "id"
  else
    require (scope.propIs "kind" "judgments") Failure.coreInvalid
    let ids ← memberTexts scope "judgment_refs"
    require (ids ≠ [] ∧ ids.Nodup) Failure.coreInvalid
    ids.forM fun id => discard (r.find ⟨.judgment, id⟩)
    return ids

/-- `applies(v.applies_to, field)` -/
def appliesTo (v : Json) : Except Failure (List String) := member v "applies_to" >>= r.applies

/-- `covers(scope, id, field)` -/
def covers (v : Json) (id : String) : Except Failure Bool := do
  let ids ← r.appliesTo v
  return ids.contains id

/-- `normalContract(target, field)` -/
def normalContract (target : Target) : Except Failure (Option Json) := do
  let record ← r.get target (some [.contract])
  require (∀ found ∈ record, ¬ found.value.propIs "kind" "emission_list") Failure.coreInvalid
  return record.map Record.value

end Registry

section Records

variable (rules : SemanticRules) (r : Registry) (entries : Entries) (record : Record)

/-- The kinds of materials that a judgment rests on. -/
def groundKinds : List String := ["foundation", "premise"]

/-- The text of the property `kind` is one of the texts. -/
def kindIn (v : Json) (kinds : List String) : Bool := kinds.any (v.propIs "kind")

/-- The first loop over the records: contracts and the types of their results. -/
def checkContract : Except Failure Unit :=
  if record.target.kind = .contract then do
    rules.validateContract record.value
    if ¬ record.value.propIs "kind" "emission_list" then
      let form ← member record.value "form"
      let types ← memberItems record.value "allowed_result_types"
      require (∀ term ∈ form :: types, term.propIs "vocabulary" "author" ∨
        rules.answerTypes.any (term.propIs "term")) Failure.coreInvalid
  else .ok ()

/-- A material. The terms of the definitions before it go along. -/
def linkMaterial (terms : List String) : Semantics (List String) := do
  let v := record.value
  if kindIn v ("definition" :: groundKinds) then discard (r.appliesTo v)
  let term ← if v.propIs "kind" "definition" then do
      let term ← memberText v "term"
      require (term ≠ "" ∧ term ∉ terms) Failure.coreInvalid
      pure [term]
    else pure []
  if (v.given "resource_ref").isSome then
    r.ownAll record [← memberRef .resource v "resource_ref"] [.resource]
  r.ownAll record (← memberRefs .source v "source_refs") [.source]
  return terms ++ term

/-- A resource. -/
def checkResource : Except Failure Unit := do
  let name ← memberText record.value "entry"
  let bytes ← orFail Failure.coreInvalid ((entries.find? fun e => e.1 = name).map Prod.snd)
  require (record.value.propIs "digest" (rules.digest bytes)) Failure.coreInvalid

/-- A declaration that several judgments share. -/
def linkShared : Semantics Unit := do
  let v := record.value
  discard (r.appliesTo v)
  let subject ← member v "subject"
  r.ownAll record (← memberRefs .actor subject "actor_ids") [.actor]
  if v.propIs "kind" "role" then
    let value ← member v "value"
    let states := match value with
      | .obj props => props.map Prod.snd
      | _ => []
    require (∃ x ∈ states, x.propIs "state" "provided") Failure.coreInvalid

/-- A condition. -/
def linkCondition : Semantics Unit := do
  let v := record.value
  let owner ← memberTarget v "owner_ref"
  discard (r.own record owner false [.asset, .judgment, .policy, .exception] none)
  let expression ← member v "expression"
  let c ← if expression.propIs "kind" "external_evaluator" then member expression "declaration"
    else pure expression
  let operands ← collection c "operands"
  (operands.filter fun x => x.propIs "kind" "dependency").forM fun operand => do
    r.ownAll record [← memberRef .dependency operand "dependency_ref"] [.dependency]

/-- A component of a method. -/
def linkComponent : Semantics Unit := do
  let v := record.value
  require (owns v "statement" ≠ owns v "content_ref") Failure.coreInvalid
  if (v.given "content_ref").isSome then
    let target ← memberTarget v "content_ref"
    let found ← r.own record target true
      [.result, .material, .sharedDeclaration, .reason, .component] none
    require (∀ x ∈ found, x.target.kind = .result → x.judgment = record.judgment ∧
      (x.value.prop "value").any (·.propIs "kind" "text")) Failure.coreInvalid
  r.ownAll record (← memberTargets v "material_refs") [.material]

/-- A reason. -/
def linkReason : Semantics Unit := do
  r.ownAll record [← memberRef .judgment record.value "judgment_ref"] [.judgment]
  r.ownAll record (← memberRefs .component record.value "component_refs") [.component]

/-- A use of a source. -/
def linkSourceUse : Semantics Unit := do
  let v := record.value
  r.ownAll record [← memberRef .source v "source_ref"] [.source]
  let kind ← memberText v "target_kind"
  let kind ← orFail Failure.coreInvalid
    (Kind.ofText? (if kind = "method_component" then "component" else kind))
  let target ← memberRef kind v "target_ref"
  let actual ← r.own record target true
    [.judgment, .reason, .material, .component, .example', .exampleResult, .sharedDeclaration] none
  actual.toList.forM fun x => r.ownAll x [record.target.asTarget] []

/-- `record.judgment` where a truth test guards its use. -/
def Record.judgment? : Option String := record.judgment.filter fun id => id ≠ ""

/-- A limit or an exception of a judgment applies to that judgment only. -/
def keepsToJudgment : Except Failure Unit := do
  let scope ← member record.value "applies_to"
  require (∀ id ∈ record.judgment?, scope.propIs "kind" "judgments" ∧
    (memberTexts scope "judgment_refs").toOption = some [id]) Failure.coreInvalid

/-- A boundary. -/
def linkBoundary : Semantics Unit := do
  let v := record.value
  discard (r.appliesTo v)
  r.ownAll record [← memberRef .actor v "declared_by"] [.actor]
  keepsToJudgment record
  let exceptions ← memberRefs .exception v "exception_refs"
  require (record.activation.any (·.propIs "kind" "exception") → exceptions = [])
    Failure.coreInvalid
  exceptions.forM fun target => do
    let exception ← r.own record target true [.exception] none
    require (exception.any (·.value.propIs "boundary_ref" record.target.id)) Failure.coreInvalid

/-- An exception. -/
def linkException : Semantics Unit := do
  let v := record.value
  let target ← memberRef .boundary v "boundary_ref"
  let boundary ← r.own record target true [.boundary] none
  let boundary ← orFail Failure.coreInvalid boundary
  let named ← memberTexts boundary.value "exception_refs"
  require (boundary.activation.any (·.propIs "kind" "always") ∧ record.target.id ∈ named)
    Failure.coreInvalid
  let inner ← r.appliesTo v
  let outer ← r.appliesTo boundary.value
  require (∀ id ∈ inner, id ∈ outer) Failure.coreInvalid
  keepsToJudgment record
  r.ownAll record [← memberTarget v "when"] [.condition]
  let effect ← member v "effect"
  if effect.propIs "kind" "replace_limit" then
    let replacement ← member effect "replacement"
    let found ← r.own record (← memberRef .boundary replacement "id") true [.boundary] none
    let found ← orFail Failure.coreInvalid found
    let sameOwner ← same found.owner.json record.target.json
    let sameScope ← same (← member replacement "applies_to") (← member v "applies_to")
    require (sameOwner ∧ sameScope) Failure.coreInvalid

/-- The second loop over the records. -/
def linkRecord (terms : List String) : Semantics (List String) := do
  match record.target.kind with
  | .material => linkMaterial r record terms
  | .resource => do checkResource rules entries record; return terms
  | .sharedDeclaration => do linkShared r record; return terms
  | .condition => do linkCondition r record; return terms
  | .result => do
    r.ownAll record [← memberRef .contract record.value "contract_ref"] [.contract]
    return terms
  | .component => do linkComponent r record; return terms
  | .reason => do linkReason r record; return terms
  | .sourceUse => do linkSourceUse r record; return terms
  | .boundary => do linkBoundary r record; return terms
  | .exception => do linkException r record; return terms
  | _ => return terms

/-- The component that the content of a record is taken from. -/
def componentContent (target : Ref) : List Ref :=
  ((r.find target).toOption.bind fun c => (c.value.prop "content_ref").bind fun v =>
    ((typedTarget v).toOption.filter fun t => t.ref.kind = .component ∧ t.isLocal r.asset).map
      Target.ref).toList

/-- The loop over the components: `componentBody(record)` follows their content and fails where it
comes back to a component on its way. -/
def checkContents : Except Failure Unit :=
  require (acyclic (componentContent r)
    (r.known.filter fun target => target.kind = .component)) Failure.coreInvalid

end Records

section Judgments

variable (rules : SemanticRules) (r : Registry)

/-- `methodRoles(method, components, field)` -/
def methodRoles (method : String) (components : List Json) : Except Failure Unit := do
  let (needed, optional) ← orFail Failure.coreInvalid (rules.methodRoles method)
  let used ← components.mapM fun c => memberText c "role"
  require ((∀ role ∈ used, role ∈ needed ++ optional) ∧ used.Nodup) Failure.coreInvalid
  require (∀ c ∈ components, (c.prop "method").any (·.propIs "term" method)) Failure.coreInvalid
  require (∀ role ∈ needed, role ∈ used) Failure.coreInvalid

/-- The core expression of a judgment. -/
def linkExpression (record : Record) : Semantics Unit := do
  let j := record.value
  let expression ← member j "core_expression"
  if expression.propIs "kind" "result_text" then
    require (j.propIs "form" "conclusion" ∧
      (j.prop "result").any fun result => (result.prop "value").any (·.propIs "kind" "text"))
      Failure.coreInvalid
  else
    r.ownAll record (← memberTargets expression "qualification_refs")
      [.condition, .boundary, .material, .sharedDeclaration]

/-- The parts of a composite answer. -/
def checkAnswer (j : Json) : Except Failure Unit := do
  let kind ← memberText j "answer_kind"
  if kind = "composite" then
    let parts ← memberItems j "answer_parts"
    discard (uniqueTexts parts "id")
    discard (uniqueTexts parts "output_field")
    let kinds ← parts.mapM fun part => memberText part "kind"
    let shape ← member j "result_contract" >>= fun contract => member contract "shape"
    require (2 ≤ parts.length ∧ 2 ≤ kinds.dedup.length ∧ shape.propIs "kind" "record")
      Failure.coreInvalid
    let fields ← memberItems shape "fields"
    parts.forM fun part => do
      let kind ← memberText part "kind"
      require (kind ≠ "composite" ∧ kind ∈ rules.answerKinds) Failure.coreInvalid
      require (kind = "other" ↔ owns part "other") Failure.coreInvalid
      let output ← memberText part "output_field"
      let field := fields.find? fun f => f.propIs "name" output
      require (field.any fun f => (f.given "required").isSome) Failure.coreInvalid
  else require (¬ owns j "answer_parts") Failure.coreInvalid
  require (kind = "other" ↔ owns j "answer_other") Failure.coreInvalid

/-- The component with an id, which has to belong to the judgment. -/
def ownComponent (judgment id : String) : Except Failure Record := do
  let component ← r.find ⟨.component, id⟩
  require (component.judgment = some judgment) Failure.coreInvalid
  return component

/-- A unit of the method of a judgment: the ids of its components. -/
def linkUnit (judgment : String) (unit : Json) : Semantics (List String) := do
  let method ← memberText unit "method"
  require (method ≠ "composite" ∧ method ∈ rules.methodKinds) Failure.coreInvalid
  require (method = "other" ↔ owns unit "other") Failure.coreInvalid
  let source ← r.find ⟨.unit, ← memberText unit "id"⟩
  let ids ← memberTexts unit "component_refs"
  ids.forM fun id => do
    let component ← ownComponent r judgment id
    r.ownAll source [component.target.asTarget] []
  require ids.Nodup Failure.coreInvalid
  let components ← ids.mapM fun id => ownComponent r judgment id
  methodRoles rules method (components.map Record.value)
  let inputs ← memberItems unit "inputs"
  let outputs ← memberItems unit "outputs"
  (inputs ++ outputs).forM fun port => do
    r.ownAll source [← memberTarget port "contract_ref"] [.contract]
  discard (uniqueTexts inputs "name")
  discard (uniqueTexts outputs "name")
  return ids

/-- What tells the bindings of a judgment apart: the component, its role and what it is bound to. -/
abbrev BindingKey := String × String × Option Ref

/-- A binding of the method of a judgment, behind the bindings `seen`. -/
def linkBinding (judgment : String) (seen : List BindingKey) (binding : Json) :
    Semantics (List BindingKey) := do
  let id ← memberText binding "component_ref"
  let component ← ownComponent r judgment id
  let role ← memberText binding "role"
  let bound ← match binding.prop "target" with
    | some v => do
      require (¬ owns binding "target_ref" ∧ ¬ owns v "asset") Failure.coreInvalid
      let target ← typedTarget v
      r.ownAll component [target] rules.nativeTargets
      pure (some target.ref)
    | none => do
      require (binding.propIs "target_ref" judgment) Failure.coreInvalid
      pure none
  require ((id, role, bound) ∉ seen) Failure.coreInvalid
  return (id, role, bound) :: seen

/-- The method of a judgment. -/
def linkMethod (record : Record) : Semantics Unit := do
  let at' := record.target.id
  let method ← member record.value "method"
  let term ← member method "method" >>= fun v => memberText v "term"
  let units ← collection method "units"
  let components ← memberItems method "components"
  let planned := (method.given "plan").isSome
  require (term ∈ rules.methodKinds) Failure.coreInvalid
  require (term = "other" ↔ owns method "other") Failure.coreInvalid
  require (planned → owns method "units") Failure.coreInvalid
  require (¬ planned → units = [] ∧ term ≠ "composite") Failure.coreInvalid
  if ¬ planned then methodRoles rules term components
  let referenced ← units.foldlM (fun ids unit => do return ids ++ (← linkUnit rules r at' unit)) []
  let ids ← components.mapM fun c => memberText c "id"
  require (planned → ∀ id ∈ ids, id ∈ referenced) Failure.coreInvalid
  let bindings ← memberItems method "bindings"
  discard (bindings.foldlM (linkBinding rules r at') [])

/-- The inputs and the ports of a judgment. -/
def linkPorts (record : Record) : Semantics Unit := do
  let j := record.value
  let inputs ← memberItems j "inputs"
  let ports ← memberItems j "ports"
  discard (uniqueTexts inputs "name")
  discard (uniqueTexts ports "name")
  inputs.forM fun input => do
    let target ← memberTarget input "contract_ref"
    r.ownAll record [target] [.contract]
    discard (r.normalContract target)
  ports.forM fun port => do
    let target ← memberTarget port "contract_ref"
    r.ownAll record [target] [.contract]
    let c ← r.normalContract target
    if port.propIs "direction" "input" then
      let role ← memberText port "input_role"
      let input ← orFail Failure.coreInvalid (inputs.find? fun x => x.propIs "name" role)
      require (¬ owns port "result_field") Failure.coreInvalid
      rules.compatible (← r.normalContract (← memberTarget input "contract_ref")) c
    else
      require (owns port "result_field" ∧ ¬ owns port "input_role") Failure.coreInvalid
      let contract ← member j "result_contract"
      let found ← rules.projected contract ((port.prop "result_field").bind text?).toList
      rules.compatible (some found) c

/-- `identity(target)` -/
def Registry.identity (target : Target) : Option (List Char) × Ref :=
  (if target.isLocal r.asset then none else target.asset.map canonicalText, target.ref)

/-- A use of content, behind the uses `used`. -/
def linkContentUse (record : Record) (used : List ((Option (List Char) × Ref) × String))
    (use : Json) : Semantics (List ((Option (List Char) × Ref) × String)) := do
  let target ← memberTarget use "target"
  let found ← r.own record target true [.material, .sharedDeclaration] none
  let role ← memberText use "role"
  let previous := (used.filter fun u => u.1 = r.identity target).map Prod.snd
  require (role ∉ previous ∧ ¬ (role = "adopt" ∧ "oppose" ∈ previous) ∧
    ¬ (role = "oppose" ∧ "adopt" ∈ previous)) Failure.coreInvalid
  found.toList.forM fun x => do
    if role = "adopt" ∧ (x.value.given "applies_to").isSome then
      let covered ← r.covers x.value record.target.id
      require covered Failure.coreInvalid
    if x.target.kind = .sharedDeclaration ∧ role = "oppose" then
      let covered ← r.covers x.value record.target.id
      require (¬ covered) Failure.coreInvalid
  return used ++ [(r.identity target, role)]

/-- `own(record, ref(kind, item.id), true)` for the items that apply to the judgment. -/
def linkCovering (record : Record) (kind : Kind) (items : List Json) : Semantics Unit :=
  items.forM fun item => do
    let covered ← r.covers item record.target.id
    if covered then r.ownAll record [← memberRef kind item "id"] []

/-- What applies to a judgment from outside. -/
def linkApplying (record : Record) : Semantics Unit := do
  linkCovering r record .sharedDeclaration (← memberItems r.payload "shared_declarations")
  let materials ← memberItems r.payload "materials"
  linkCovering r record .material (materials.filter fun v => kindIn v groundKinds)
  let declarations ← member r.payload "declarations"
  linkCovering r record .boundary (← declaredValues declarations "boundaries")

/-- The loop over the judgments. -/
def linkJudgment (j : Json) : Semantics Unit := do
  let id ← memberText j "id"
  let record ← r.find ⟨.judgment, id⟩
  rules.validateResult j
  (r.records.filter fun c => c.judgment = some id ∧ c.target ≠ record.target).forM fun child =>
    r.ownAll record [child.target.asTarget] []
  let subject ← member j "subject"
  r.ownAll record (← memberRefs .actor subject "actor_ids") [.actor]
  r.ownAll record (← memberRefs .material j "material_refs") [.material]
  let reasons ← memberRefs .reason j "reason_refs"
  reasons.forM fun target => do
    let reason ← r.own record target true [.reason] none
    require (reason.any (·.value.propIs "judgment_ref" id)) Failure.coreInvalid
  let kind ← memberText j "answer_kind"
  require (kind ∈ rules.answerKinds) Failure.coreInvalid
  linkExpression r record
  checkAnswer rules j
  linkMethod rules r record
  let rule := (j.prop "formation_rule").bind (·.present "condition_refs")
  r.ownAll record (← optionalTargets typedTarget rule) [.condition]
  linkPorts rules r record
  let uses ← memberItems j "content_uses"
  discard (uses.foldlM (linkContentUse r record) [])
  linkApplying r record
  let superseded := (j.prop "lifecycle").bind (·.present "superseded_by")
  let replacements ← optionalTargets qualified superseded
  replacements.forM fun target =>
    discard (r.own record target true [.judgment] (some "lifecycle_replacement"))

end Judgments

section Relations

variable (rules : SemanticRules) (r : Registry)

/-- `value[name].term` -/
def termOf (v : Json) (name : String) : Except Failure String :=
  member v name >>= fun term => memberText term "term"

/-- The judgments of the participants of a relationship with their roles. -/
def relationParties (relation : Json) : Except Failure (List (String × String)) := do
  let items ← memberItems relation "participants"
  items.mapM fun p => do return (← termOf p "role", ← memberText p "judgment_ref")

/-- A mandatory link between two judgments. -/
def linkJudgments (a b : String) : Semantics Unit := do
  let record ← r.find ⟨.judgment, a⟩
  r.ownAll record [Ref.asTarget ⟨.judgment, b⟩] []

/-- The loop over the relationships. -/
def linkRelationship (relation : Json) : Semantics Unit := do
  let record ← r.find ⟨.relationship, ← memberText relation "id"⟩
  let kind ← termOf relation "kind"
  let tuple ← orFail Failure.coreInvalid (rules.relationshipTuples kind)
  let operator ← termOf relation "operator"
  let effect ← termOf relation "effect"
  let parties ← relationParties relation
  require (relation.propIs "direction" tuple.direction ∧ operator = tuple.operator ∧
    effect = tuple.effect ∧ parties.length = 2 ∧ (parties.map Prod.fst).Nodup) Failure.coreInvalid
  let first ← orFail Failure.coreInvalid (getKey tuple.first parties)
  let second ← orFail Failure.coreInvalid (getKey tuple.second parties)
  require (first ≠ second) Failure.coreInvalid
  (parties.map Prod.snd).forM fun id => do
    let judgment ← r.find ⟨.judgment, id⟩
    r.ownAll judgment [record.target.asTarget] []
    discard (r.own record judgment.target.asTarget false [.judgment] none)
  if kind = "conflict" then
    linkJudgments r first second
    linkJudgments r second first
  else if kind ∈ ["support", "qualify"] then linkJudgments r second first

/-- The port of a judgment with a name and a direction. -/
def portOf (j : Json) (name direction : String) : Except Failure (Option Json) := do
  let ports ← memberItems j "ports"
  return ports.find? fun p => p.propIs "name" name && p.propIs "direction" direction

/-- The loop over the dependencies. -/
def linkDependency (dependency : Json) : Semantics Unit := do
  let record ← r.find ⟨.dependency, ← memberText dependency "id"⟩
  let consumer ← r.find ⟨.judgment, ← memberText dependency "consumer_judgment_ref"⟩
  let port ← portOf consumer.value (← memberText dependency "consumer_port") "input"
  let port ← orFail Failure.coreInvalid port
  let role ← memberText dependency "input_role"
  require (port.propIs "input_role" role) Failure.coreInvalid
  let contract ← memberTarget port "contract_ref"
  r.ownAll record [contract] [.contract]
  discard (r.own record consumer.target.asTarget false [.judgment] none)
  let needed := (dependency.given "required").isSome
  discard (r.own consumer record.target.asTarget needed [] none)
  let producer ← member dependency "producer"
  if producer.propIs "kind" "judgment_result" then
    let id ← memberText producer "judgment_ref"
    r.ownAll record [Ref.asTarget ⟨.judgment, id⟩] [.judgment]
    let judgment ← r.find ⟨.judgment, id⟩
    let output ← portOf judgment.value (← memberText dependency "producer_port") "output"
    let output ← orFail Failure.coreInvalid output
    let result ← member judgment.value "result_contract" >>= fun c => memberText c "id"
    require (producer.propIs "result_contract_ref" result) Failure.coreInvalid
    rules.compatible (← r.normalContract (← memberTarget output "contract_ref"))
      (← r.normalContract contract)
  else
    require (¬ owns dependency "producer_port") Failure.coreInvalid
    r.ownAll record [← memberRef .source producer "source_ref"] [.source]

end Relations

section Examples

variable (rules : SemanticRules) (r : Registry)

/-- `own(record, target, false, kinds)`, and back from the record it finds with the kind `back`. -/
def adjoin (record : Record) (target : Target) (kinds : List Kind) (back : Kind) :
    Semantics Unit := do
  let found ← r.own record target false kinds none
  found.toList.forM fun x => discard (r.own x record.target.asTarget false [back] none)

/-- A result of an example. -/
def linkResult (example' record : Record) : Semantics Unit := do
  let result := record.value
  require (¬ ((result.propIs "kind" "observed" ∨ result.propIs "observation_kind" "observed") ∧
    example'.value.propIs "kind" "illustrative")) Failure.coreInvalid
  if kindIn result ["expected", "observed"] then
    let target ← memberTarget result "contract_ref"
    r.ownAll record [target] [.contract]
    let contract ← r.normalContract target
    contract.toList.forM fun c => do rules.valueFor c (← member result "value")
    if (result.given "comparison_ref").isSome then
      let comparison ← r.own record (← memberTarget result "comparison_ref") true
        [.exampleResult] none
      let comparison ← orFail Failure.coreInvalid comparison
      let expected ← memberTarget comparison.value "contract_ref"
      require (result.propIs "kind" "observed" ∧ comparison.owner.id = example'.target.id ∧
        comparison.value.propIs "kind" "expected" ∧ r.identity expected = r.identity target)
        Failure.coreInvalid
  else if result.propIs "kind" "partial" then
    (← rules.partialOutcome record r.records).forM fun call => discard (r.link call)

/-- The loop over the examples. -/
def linkExample (v : Json) : Semantics Unit := do
  let record ← r.find ⟨.example', ← memberText v "id"⟩
  let inputs ← memberTargets v "input_refs"
  inputs.forM fun target => do
    let input ← r.own record target true [] none
    (input.toList.filter fun x => x.target.kind ≠ .asset).forM fun x =>
      discard (r.own x record.target.asTarget false [.example'] none)
  r.ownAll record (← optionalTargets typedTarget (v.present "source_refs")) [.source]
  r.ownAll record (← optionalTargets typedTarget (v.present "material_refs")) [.material]
  let adopted ← memberItems v "adopted_judgments"
  adopted.forM fun x => do adjoin r record (← qualified x) [.judgment] .example'
  let results ← memberItems v "results"
  results.forM fun result => do
    let item ← r.find ⟨.exampleResult, ← memberText result "id"⟩
    r.ownAll record [item.target.asTarget] []
    linkResult rules r record item

/-- The loop over the revisions. -/
def linkRevision (v : Json) : Semantics Unit := do
  let record ← r.find ⟨.revision, ← memberText v "id"⟩
  let affected ← memberTargets v "affected_refs"
  affected.forM fun target => adjoin r record target [] .revision
  r.ownAll record (← memberRefs .actor v "actor_refs") [.actor]
  if (v.given "previous").isSome then
    discard (r.own record (← memberTarget v "previous") false [.revision] none)

end Examples

section Passes

variable (rules : SemanticRules) (manifest : Json) (entries : Entries) (r : Registry)

/-- The declarations of the payload. -/
def checkDeclarations : Except Failure Unit := do
  let declarations ← member r.payload "declarations"
  let question ← member declarations "highest_question"
  require (question.propIs "state" "provided") Failure.coreInvalid
  require (∀ key ∈ ["worldview", "value_order", "role"], ¬ owns declarations key)
    Failure.coreInvalid
  let order ← collection r.payload "reading_order"
  let ids ← order.mapM fun x => orFail Failure.coreInvalid x.text?
  require ids.Nodup Failure.coreInvalid
  ids.forM fun id => discard (r.find ⟨.judgment, id⟩)

/-- The foundations of the kernel. -/
def linkKernel (record : Record) : Semantics Unit := do
  let kernel ← member r.payload "kernel"
  let foundations ← memberTargets kernel "foundation_refs"
  foundations.forM fun target => do
    let found ← r.own record target (¬ target.isLocal r.asset) [.material] none
    require (∀ x ∈ found, kindIn x.value groundKinds) Failure.coreInvalid

/-- The links of the asset behind the loops. -/
def linkAsset (record : Record) : Semantics Unit := do
  let claims ← declaredValues r.payload "attributions"
  claims.forM fun claim => do r.ownAll record (← memberRefs .actor claim "actor_ids") [.actor]
  let declarations ← member r.payload "declarations"
  let boundaries ← declaredValues declarations "boundaries"
  boundaries.forM fun boundary => do
    discard (r.own record (← memberRef .boundary boundary "id") false [.boundary] none)
  let misuse ← memberItems r.payload "misuse"
  misuse.forM fun x => do r.ownAll record [← memberRef .misuse x "id"] [.misuse]

/-- The pass over a registry. -/
def semanticPass : Semantics Unit := do
  let asset ← r.find (← assetRef manifest)
  checkDeclarations r
  linkKernel r asset
  r.records.forM fun record => checkContract rules record
  discard (r.records.foldlM (fun terms record => linkRecord rules r entries record terms) [])
  checkContents r
  let judgments ← r.judgments
  judgments.forM (linkJudgment rules r)
  let relationships ← memberItems r.payload "relationships"
  relationships.forM (linkRelationship rules r)
  let dependencies ← memberItems r.payload "dependencies"
  dependencies.forM (linkDependency rules r)
  (← rules.checkPlans r.payload r.records).forM fun call => discard (r.link call)
  let examples ← memberItems r.payload "examples"
  examples.forM (linkExample rules r)
  let history ← member manifest "history"
  let revisions ← memberItems history "entries"
  revisions.forM (linkRevision r)
  linkAsset r asset

end Passes

/-- `validateR2(manifest, payload, entries)` on the records of `createRegistry`. -/
def validateR2 (rules : SemanticRules) (manifest payload : Json) (entries : Entries)
    (records : List Record) : Except Failure Links := do
  let asset ← member payload "asset"
  let (_, s) ← (semanticPass rules manifest entries ⟨payload, asset, records⟩).run .empty
  return s.links

end Kdna.Ir

import Kdna.Json.Charge

/-!
# Value shapes and result contracts

A contract says which values a judgment or a port carries: their shape, how many there are, and
which result types they may have. A projection of a contract describes the part of its values at a
path of record fields; it has no identifier, no form and no result types.
-/

namespace Kdna.Shapes

/-- What a check of shapes can end with. -/
inductive R2Failure
  /-- `fail(field, subject)` -/
  | invalid (field : String) (subject : Option String)
  /-- A failure of `canonicalJson`. -/
  | input (e : Failure)
  /-- A member read of `undefined`. -/
  | typeError
  deriving DecidableEq

/-- A safe integer that is not negative. -/
abbrev UInt := {n : ℕ // n ≤ 2 ^ 53 - 1}

/-- The number of an integer. -/
def UInt.number (n : UInt) : Binary64 := Binary64.natural n (n.2.trans (Nat.sub_le _ _))

theorem one_le_safe : 1 ≤ 2 ^ 53 - 1 := by
  norm_num

/-- One. -/
def UInt.one : UInt := ⟨1, one_le_safe⟩

/-- The type of a scalar. -/
inductive ScalarKind
  | text
  | number
  | boolean
  | null
  deriving DecidableEq

/-- A field of a record shape. -/
structure ShapeField (α : Type) where
  name : String
  required : Bool
  shape : α

/-- The shape of a value. -/
inductive Shape
  | scalar (scalarType : ScalarKind)
  | list (itemShape : Shape) (minimum : UInt) (maximum : Option UInt)
  | record (fields : List (ShapeField Shape))

/-- A field of a record value. -/
structure ValueField (α : Type) where
  name : String
  value : α

/-- An authored value. -/
inductive SemanticValue
  | text (value : String)
  | number (value : Binary64)
  | boolean (value : Bool)
  | null
  | list (items : List SemanticValue)
  | record (fields : List (ValueField SemanticValue))

/-- Induction on a shape, with a hypothesis for all fields. -/
@[elab_as_elim, induction_eliminator]
theorem Shape.induction {motive : Shape → Prop} (scalar : ∀ t, motive (.scalar t))
    (list : ∀ item minimum maximum, motive item → motive (.list item minimum maximum))
    (record : ∀ fields, (∀ f ∈ fields, motive f.shape) → motive (.record fields)) (s : Shape) :
    motive s := by
  refine Shape.rec (motive_1 := motive) (motive_2 := fun fields => ∀ f ∈ fields, motive f.shape)
    (motive_3 := fun f => motive f.shape) scalar (fun _ _ _ h => list _ _ _ h) record
    (List.forall_mem_nil _) ?_ ?_ s
  · exact fun f fields hf hfields => List.forall_mem_cons.mpr ⟨hf, hfields⟩
  · exact fun _ _ _ h => h

/-- Induction on a value, with hypotheses for all items and all fields. -/
@[elab_as_elim, induction_eliminator]
theorem SemanticValue.induction {motive : SemanticValue → Prop} (text : ∀ t, motive (.text t))
    (number : ∀ x, motive (.number x)) (boolean : ∀ b, motive (.boolean b)) (null : motive .null)
    (list : ∀ items, (∀ v ∈ items, motive v) → motive (.list items))
    (record : ∀ fields, (∀ f ∈ fields, motive f.value) → motive (.record fields))
    (v : SemanticValue) : motive v := by
  refine SemanticValue.rec (motive_1 := motive) (motive_2 := fun items => ∀ v ∈ items, motive v)
    (motive_3 := fun fields => ∀ f ∈ fields, motive f.value) (motive_4 := fun f => motive f.value)
    text number boolean null list record (List.forall_mem_nil _) ?_ (List.forall_mem_nil _) ?_ ?_ v
  · exact fun v vs hv hvs => List.forall_mem_cons.mpr ⟨hv, hvs⟩
  · exact fun f fields hf hfields => List.forall_mem_cons.mpr ⟨hf, hfields⟩
  · exact fun _ _ h => h

/-- A contract for a value, or a projection of one. -/
structure ResultContract where
  id : Option String
  form : Option Json
  shape : Shape
  minimum : UInt
  maximum : Option UInt
  allowedResultTypes : Option (List Json)

/-- A contract. -/
inductive Contract
  | emissionList (id : String) (policyRef : Json)
  | result (contract : ResultContract)

section Encoding

/-- A scalar type as it is written. -/
def ScalarKind.name : ScalarKind → String
  | .text => "text"
  | .number => "number"
  | .boolean => "boolean"
  | .null => "null"

/-- An upper bound as it is written. -/
def maximumJson : Option UInt → Json
  | none => .null
  | some n => .num n.number

mutual

/-- A shape as it is written. -/
def Shape.json : Shape → Json
  | .scalar t => .obj [("kind", .str "scalar"), ("scalar_type", .str t.name)]
  | .list item minimum maximum => .obj [("item_shape", Shape.json item), ("kind", .str "list"),
      ("maximum", maximumJson maximum), ("minimum", .num minimum.number)]
  | .record fields => .obj [("fields", .arr (fieldsJson fields)), ("kind", .str "record")]

/-- The fields of a record shape as they are written. -/
def fieldsJson : List (ShapeField Shape) → List Json
  | [] => []
  | ⟨name, required, shape⟩ :: fields =>
    .obj [("name", .str name), ("required", .bool required), ("shape", Shape.json shape)] ::
      fieldsJson fields

end

/-- A contract as it is written. A projection lacks the members it does not have. -/
def Contract.json : Contract → Json
  | .emissionList id policyRef => .obj [("id", .str id), ("kind", .str "emission_list"),
      ("policy_ref", policyRef)]
  | .result c => .obj (
      (c.allowedResultTypes.toList.map fun types => ("allowed_result_types", Value.arr types)) ++
        (c.form.toList.map fun form => ("form", form)) ++
        (c.id.toList.map fun id => ("id", Value.str id)) ++
        [("maximum", maximumJson c.maximum), ("minimum", .num c.minimum.number),
          ("shape", c.shape.json)])

end Encoding

variable (field : String)

/-- `fail(field)` -/
def fail {α : Type} : Except R2Failure α := .error (.invalid field none)

/-- `canonicalJson(v)` -/
def canonical (v : Json) : Except R2Failure String := (canonicalJson v).mapError .input

/-- `equal(a, b)` -/
def equal (a b : Json) : Except R2Failure Bool := do
  return (← canonical a) == (← canonical b)

/-- The loop of `unique`, behind the names it has seen. -/
def uniqueAfter (seen : List String) : List String → Except R2Failure Unit
  | [] => .ok ()
  | name :: names =>
    if name ∈ seen then .error (.invalid field (some name))
    else uniqueAfter (seen ++ [name]) names

/-- `unique(items, 'name', field)` on the names of the items. -/
def unique (names : List String) : Except R2Failure Unit := uniqueAfter field [] names

/-- `bounds(value, field)` -/
def bounds (minimum : UInt) (maximum : Option UInt) : Except R2Failure Unit :=
  require (∀ m ∈ maximum, minimum.1 ≤ m.1) (.invalid field none)

mutual

/-- `validateShape(shape, field, depth)` -/
def validateShape : Shape → ℕ → Except R2Failure Unit
  | .scalar _, depth => require (depth ≤ 64) (.invalid field none)
  | .list item minimum maximum, depth => do
    require (depth ≤ 64) (.invalid field none)
    bounds field minimum maximum
    validateShape item (depth + 1)
  | .record fields, depth => do
    require (depth ≤ 64) (.invalid field none)
    unique field (fields.map ShapeField.name)
    validateFields fields (depth + 1)

/-- The loop of `validateShape` over the fields of a record. -/
def validateFields : List (ShapeField Shape) → ℕ → Except R2Failure Unit
  | [], _ => .ok ()
  | ⟨_, _, shape⟩ :: fields, depth => do
    validateShape shape depth
    validateFields fields depth

end

/-- The kind of a value, where it is a scalar type. -/
def SemanticValue.scalarKind : SemanticValue → Option ScalarKind
  | .text _ => some .text
  | .number _ => some .number
  | .boolean _ => some .boolean
  | .null => some .null
  | .list _ => none
  | .record _ => none

/-- The tests on a record before its values: no name twice, and every required field is there. -/
def checkRecord (fields : List (ShapeField Shape)) (names : List String) :
    Except R2Failure Unit := do
  unique field (fields.map ShapeField.name)
  unique field names
  require (∀ f ∈ fields, f.required → f.name ∈ names) (.invalid field none)

mutual

/-- `resultShape(shape, value, field, depth)` -/
def resultShape : Shape → SemanticValue → ℕ → Except R2Failure Unit
  | .scalar t, value, depth => do
    require (depth ≤ 64) (.invalid field none)
    require (value.scalarKind = some t) (.invalid field none)
  | .list item minimum maximum, .list items, depth => do
    require (depth ≤ 64) (.invalid field none)
    require (minimum.1 ≤ items.length ∧ ∀ m ∈ maximum, items.length ≤ m.1) (.invalid field none)
    resultItems item items (depth + 1)
  | .record fields, .record values, depth => do
    require (depth ≤ 64) (.invalid field none)
    checkRecord field fields (values.map ValueField.name)
    resultFields fields values (depth + 1)
  | _, _, _ => fail field

/-- The loop of `resultShape` over the items of a list. -/
def resultItems (item : Shape) : List SemanticValue → ℕ → Except R2Failure Unit
  | [], _ => .ok ()
  | value :: values, depth => do
    resultShape item value depth
    resultItems item values depth

/-- The loop of `resultShape` over the fields of a record value. -/
def resultFields (fields : List (ShapeField Shape)) :
    List (ValueField SemanticValue) → ℕ → Except R2Failure Unit
  | [], _ => .ok ()
  | ⟨name, value⟩ :: values, depth => do
    match fields.find? fun f => f.name = name with
    | none => fail field
    | some f => resultShape f.shape value depth
    resultFields fields values depth

end

/-- `validateContract(contract, field)` -/
def validateContract : Contract → Except R2Failure Unit
  | .emissionList _ _ => .ok ()
  | .result c => do
    bounds field c.minimum c.maximum
    validateShape field c.shape 0
    let types ← orFail .typeError c.allowedResultTypes
    require (types ≠ []) (.invalid field none)
    let texts ← types.mapM canonical
    require texts.Nodup (.invalid field none)

/-- `valueFor(contract, value, field)` -/
def valueFor : Contract → SemanticValue → Except R2Failure Unit
  | .emissionList _ _, _ => fail field
  | .result c, value => do
    resultShape field c.shape value 0
    let count := match value with
      | .list items => items.length
      | _ => 1
    require (c.minimum.1 ≤ count ∧ ∀ m ∈ c.maximum, count ≤ m.1) (.invalid field none)

/-- `shapeAt(shape, path, field)` -/
def shapeAt : Shape → List String → Except R2Failure Shape
  | shape, [] => .ok shape
  | .record fields, name :: path =>
    match fields.find? fun f => f.name = name with
    | none => fail field
    | some f => shapeAt f.shape path
  | _, _ :: _ => fail field

/-- `compatible(from, to, field)`, where a contract that is `null` is not known. -/
def compatible : Option Contract → Option Contract → Except R2Failure Unit
  | some (.result a), some (.result b) => do
    let same ← equal a.shape.json b.shape.json
    require (same ∧ b.minimum.1 ≤ a.minimum.1 ∧ ∀ m ∈ b.maximum, ∃ n ∈ a.maximum, n.1 ≤ m.1)
      (.invalid field none)
    match a.allowedResultTypes, b.allowedResultTypes with
    | some types, some others =>
      let missing ← types.anyM fun t => do return !(← others.anyM fun u => equal t u)
      require (missing = false) (.invalid field none)
    | _, _ => return ()
  | some a, some b => do
    let same ← equal a.json b.json
    require (same = true) (.invalid field none)
  | _, _ => .ok ()

/-- `projected(contract, path, field)` -/
def projected : Option Contract → List String → Except R2Failure (Option Contract)
  | contract, [] => .ok contract
  | none, _ => .ok none
  | some (.emissionList _ _), _ => fail field
  | some (.result c), path => do
    let shape ← shapeAt field c.shape path
    let (minimum, maximum) := match shape with
      | .list _ minimum maximum => (minimum, maximum)
      | _ => (UInt.one, some UInt.one)
    return some (.result ⟨none, none, shape, minimum, maximum, none⟩)

section Bindings

variable (paths : List (List String))

mutual

/-- `required(value, at)` of `completeBindings` -/
def required : Shape → List String → Except R2Failure Unit
  | .record fields, place =>
    if paths.any fun path => path.isPrefixOf place then .ok () else requiredFields fields place
  | _, place => require (paths.any fun path => path.isPrefixOf place) (.invalid field none)

/-- The loop of `required` over the fields of a record. -/
def requiredFields : List (ShapeField Shape) → List String → Except R2Failure Unit
  | [], _ => .ok ()
  | ⟨name, isRequired, shape⟩ :: fields, place => do
    if isRequired then required shape (place ++ [name])
    requiredFields fields place

end

/-- `completeBindings(shape, paths, field)` -/
def completeBindings (shape : Shape) : Except R2Failure Unit := do
  require (paths.Pairwise fun p q => ¬p <+: q ∧ ¬q <+: p) (.invalid field none)
  if paths.any List.isEmpty then require (paths.length = 1) (.invalid field none)
  else required field paths shape []

end Bindings

end Kdna.Shapes

import Kdna.Ir.Reconstruct

/-!
# The context of a selection

`selectedContext` of `selected-context.generated.js`: the nodes of a closure as a reader
sees them, with the catalog rows, the references and the relationships that lie inside.
The rows of an IR have passed their shape; where a reading finds no member the source
throws, and the model returns nothing.
-/

namespace Kdna.Read

open Value Ir

/-- Whether a set of ids has an id. -/
def has (ids : List (Option String)) (id : Option String) : Bool := ids.any (· == id)

theorem has_iff {ids : List (Option String)} {id : Option String} : has ids id = true ↔ id ∈ ids := by
  simp [has]

/-- `row[name]`, a text. -/
def textOf (row : Json) (name : String) : Option String := (row.prop name).bind text?

/-- `row.id` -/
def idOf (row : Json) : Option String := textOf row "id"

/-- `row.value[name]`, a text. -/
def valueText (row : Json) (name : String) : Option String :=
  (row.prop "value").bind (textOf · name)

/-- `new Map(rows.map(x => [x.id, x])).get(id)`: the last row of a key. -/
def rowOf (rows : List Json) (id : String) : Option Json :=
  rows.reverse.find? fun row => idOf row = some id

/-- `x.role === role` -/
def roleIs (row : Json) (role : String) : Bool := row.propIs "role" role

/-- Whether a set of ids has `row[name]`. -/
def within (ids : List String) (row : Json) (name : String) : Bool :=
  (textOf row name).any (· ∈ ids)

/-- The reason of an omission. -/
inductive OmissionReason
  | notInMode
  | outsideSelection
  | notRequested
  deriving DecidableEq, Repr

/-- The text of a reason. -/
def OmissionReason.text : OmissionReason → String
  | .notInMode => "not_in_mode"
  | .outsideSelection => "outside_selection"
  | .notRequested => "not_requested"

/-- An omission, in the state `explicitly_omitted`. -/
structure Omission where
  target : String
  field : String
  reason : OmissionReason
  expandable : Bool
  handleId : Option String
  deriving DecidableEq, Repr

/-- `omit(target, field, reason)` -/
def omitted (target field : String) (reason : OmissionReason) : Omission :=
  ⟨target, field, reason, false, none⟩

/-- `omit(row.node_ref, 'judgment', reason)` for each of the rows. -/
def omittedRows (rows : List Json) (reason : OmissionReason) : Option (List Omission) :=
  rows.mapM fun row => do return omitted (← textOf row "node_ref") "judgment" reason

/-- What `identity(target)` tells apart: the kind, the id and a foreign asset. -/
abbrev Identity := Option String × Option String × Option (List (Option String))

/-- The members of an asset identity. -/
def assetNames : List String := ["asset_id", "asset_version", "judgment_version"]

/-- `identity(target)` -/
def identity (ir : CanonicalIr) (target : Json) : Identity :=
  let foreign := (target.given "asset").filter fun a =>
    assetNames.any fun name => textOf a name ≠ textOf ir.asset name
  (textOf target "kind", textOf target "id",
    foreign.map fun a => assetNames.map (textOf a))

/-- `delete value[name]` -/
def without (v : Json) (name : String) : Json :=
  match v with
  | .obj props => .obj (props.filter fun p => p.1 ≠ name)
  | _ => v

/-- A node of the closure as it is projected: the asset's own declaration keeps of its
foundations those that are inside. -/
def projected (ir : CanonicalIr) (targets : List Identity) (node : Json) :
    Option (Json × List Omission) :=
  if roleIs node "asset_declaration" then do
    let id ← idOf node
    let value ← node.prop "value"
    let kernel ← value.prop "kernel"
    let refs ← (kernel.prop "foundation_refs").bind items?
    let kept := refs.filter fun r => identity ir r ∈ targets
    let trimmed := (without value "reading_order").setProp "kernel"
      (kernel.setProp "foundation_refs" (.arr kept))
    return (node.setProp "value" trimmed,
      (if (value.prop "reading_order").isSome then [omitted id "reading_order" .notInMode] else []) ++
        if kept.length ≠ refs.length then [omitted id "kernel.foundation_refs" .notInMode] else [])
  else some (node, [])

/-- The judgments that take part in the relationship of a node. -/
def participants (node : Json) : Option (List (Option String)) := do
  let value ← node.prop "value"
  let rows ← (value.prop "participants").bind items?
  return rows.map (textOf · "judgment_ref")

/-- `selectedContext` returns these. -/
structure SelectedContext where
  closure : List Json
  catalog : List Json
  references : List Json
  relationships : List Json
  omissions : List Omission

/-- `selectedContext(ir, orderedNodeIds)` -/
def selectedContext (ir : CanonicalIr) (ids : List String) : Option SelectedContext := do
  let original ← ids.mapM (rowOf ir.nodes)
  guard ids.Nodup
  let targets := original.map fun n => identity ir ((n.prop "target").getD .null)
  let closure ← original.mapM (projected ir targets)
  let own := (original.filter (roleIs · "judgment")).map (valueText · "id")
  let related := original.filter (roleIs · "relationship")
  let taking ← related.mapM participants
  let relationIds := related.map (valueText · "id")
  let catalog := ir.catalog.filter fun row => has (own ++ taking.flatten) (textOf row "judgment_id")
  let outside ← omittedRows (catalog.filter fun row => ¬ within ids row "node_ref") .outsideSelection
  return { closure := closure.map Prod.fst
           catalog := catalog
           references := ir.references.filter fun r =>
             within ids r "source_node" && within ids r "target_node"
           relationships := ir.relationships.filter fun r => has relationIds (idOf r)
           omissions := (closure.map Prod.snd).flatten ++ outside }

end Kdna.Read

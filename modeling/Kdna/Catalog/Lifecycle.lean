import Kdna.Catalog.Parents
import Kdna.Data.DepthFirst

/-!
# Replacements in the judgment catalog

The rule for the lifecycles of a payload's judgments. A first pass reads every lifecycle and notes
the local replacements of its entry; a search over the noted replacements then looks for a cycle.
-/

namespace Kdna.Lifecycle

/-- What an entry has for its `id`, as a key of a map. -/
inductive IdKey
  | text (id : String)
  | absent
  | null
  | bool (b : Bool)
  | number (units : ℤ)
  /-- An array or an object, which is the key of its own entry only. -/
  | place (i : ℕ)
  deriving DecidableEq

/-- The key of the entry `i`. -/
def idKey (i : ℕ) (j : Json) : IdKey :=
  match j.prop "id" with
  | some (.str id) => .text id
  | none => .absent
  | some .null => .null
  | some (.bool b) => .bool b
  | some (.num x) => .number (if x.negative then -(x.units : ℤ) else x.units)
  | _ => .place i

/-- The coordinates of an asset. -/
def coordinates : List String := ["asset_id", "asset_version", "judgment_version"]

/-- The text of a member. -/
def memberText? (v : Json) (name : String) : Option String := (v.prop name).bind Value.text?

/-- The coordinates of the asset of a payload, where all are texts. -/
def assetOf (payload : Json) : Option (List String) :=
  (payload.prop "asset").bind fun asset => coordinates.mapM (memberText? asset)

/-- The coordinates and the judgment of a complete replacement. -/
def targetOf (t : Json) : Option (List String × String) := do
  let asset ← t.prop "asset"
  let identity ← coordinates.mapM fun name => (memberText? asset name).filter (· ≠ "")
  let id ← (memberText? t "judgment_id").filter (· ≠ "")
  return (identity, id)

/-- `byId.has(id)` for a text -/
def isDeclared (judgments : List Json) (id : String) : Bool :=
  judgments.any fun j => entryId j = some id

/-- What the loop over the replacements of an entry has found. -/
structure Reading where
  out : List Violation
  here : List String
  seen : List (List String × String)

/-- One turn of the loop over the replacements of an entry. -/
def readTarget (payload : Json) (base : String) (j : Json) (s : Reading) (t : Json × ℕ) : Reading :=
  let path := base ++ "/superseded_by/" ++ toString t.2
  match targetOf t.1 with
  | none => { s with out := s.out ++
      [⟨path, "replacement requires complete AssetIdentity and judgment_id"⟩] }
  | some (identity, id) =>
    let repeated := if (identity, id) ∈ s.seen then
      [⟨path, "replacement identity must be unique"⟩] else []
    if assetOf payload = some identity then
      let itself := if entryId j = some id then
        [⟨path, "a judgment cannot replace itself"⟩] else []
      if isDeclared (judgmentsOf payload) id then
        ⟨s.out ++ repeated ++ itself, s.here ++ [id], (identity, id) :: s.seen⟩
      else
        ⟨s.out ++ repeated ++ itself ++
          [⟨path, "a current-asset replacement must resolve to a judgment"⟩], s.here,
          (identity, id) :: s.seen⟩
    else ⟨s.out ++ repeated, s.here, (identity, id) :: s.seen⟩

/-- The status and the replacements of a lifecycle of the closed form. -/
def closedLifecycle (lifecycle : Json) : Option (String × List Json) := do
  let status ← memberText? lifecycle "status"
  let targets ← (lifecycle.prop "superseded_by").bind Value.items?
  if status ∈ ["active", "deprecated", "superseded", "withdrawn"] then some (status, targets)
  else none

/-- What the first pass finds at an entry: its violations, and what it notes of it. -/
def readLifecycle (payload : Json) (i : ℕ) (j : Json) :
    List Violation × Option (IdKey × List String) :=
  let base := "/judgments/" ++ toString i ++ "/lifecycle"
  match j.prop "lifecycle" with
  | none => ([], none)
  | some lifecycle =>
    match closedLifecycle lifecycle with
    | none =>
      ([⟨base, "lifecycle must use the closed status and replacement target contract"⟩], none)
    | some (status, targets) =>
      let form :=
        (if status = "superseded" ∧ targets = [] then
          [⟨base ++ "/superseded_by", "superseded requires an explicit replacement"⟩] else []) ++
        (if status ∈ ["active", "withdrawn"] ∧ targets ≠ [] then
          [⟨base ++ "/superseded_by",
            "active and withdrawn forbid replacement assertions; use deprecated or superseded"⟩]
          else [])
      let reading := targets.zipIdx.foldl (readTarget payload base j) ⟨form, [], []⟩
      (reading.out, some (idKey i j, reading.here))

/-- The violation that reports a cycle. -/
def cyclicReplacements : Violation :=
  ⟨"/judgments", "current-asset replacement graph must be acyclic"⟩

/-- `edges` -/
def edges (payload : Json) : List (IdKey × List String) :=
  setAll (fun j : Json × ℕ => (readLifecycle payload j.2 j.1).2) (judgmentsOf payload).zipIdx

/-- `edges.get(id) ?? []` -/
def replacements (payload : Json) (key : IdKey) : List IdKey :=
  ((getKey key (edges payload)).getD []).map .text

/-- `ruleLifecycle(payload)`, where a search takes fewer than `fuel` turns. -/
def ruleLifecycle (fuel : ℕ) (payload : Json) : Option (List Violation) := do
  let cyclic ← findsCycle (replacements payload) fuel ((edges payload).map Prod.fst) []
  return ((judgmentsOf payload).zipIdx.flatMap fun j => (readLifecycle payload j.2 j.1).1) ++
    if cyclic then [cyclicReplacements] else []

end Kdna.Lifecycle

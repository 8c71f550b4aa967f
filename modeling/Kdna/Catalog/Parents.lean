import Kdna.Data.Chains
import Kdna.Data.Upsert
import Kdna.Json.Access
import Kdna.Json.Text

/-!
# Parents in the judgment catalog

The rule that every `parent_ref` of a payload's judgments names one of them and that no chain of
parents comes back. A first pass counts the identifiers, a second reads every `parent_ref`, and
the chains are then followed from each entry that has a parent.
-/

namespace Kdna

/-- A violation of a rule: where it is and what it says. -/
structure Violation where
  path : String
  message : String
  deriving DecidableEq

/-- `JSON.stringify(text)` -/
def quoted (t : String) : String := String.ofList (quote t)

/-- `describe(value)` of a value that is not `undefined`. -/
def describe : Json → String
  | .null => "null"
  | .bool _ => "boolean"
  | .num _ => "number"
  | .str _ => "string"
  | .arr items => "array(" ++ toString items.length ++ ")"
  | .obj _ => "object"

/-- `judgmentsOf(payload)` -/
def judgmentsOf (payload : Json) : List Json :=
  ((payload.prop "judgments").bind Value.items?).getD []

/-- The `id` of an entry, where it is a text. -/
def entryId (j : Json) : Option String := (j.prop "id").bind Value.text?

/-- `idCounts.get(id) ?? 0` -/
def idCount (judgments : List Json) (id : String) : ℕ :=
  judgments.countP fun j => entryId j = some id

/-- The path of the `parent_ref` of the entry `i`. -/
def parentPath (i : ℕ) : String := "/judgments/" ++ toString i ++ "/parent_ref"

/-- The test `ids.has(raw)`, and the violation where it fails. -/
def unresolved (judgments : List Json) (i : ℕ) (raw : String) : List Violation :=
  if judgments.any fun k => entryId k = some raw then []
  else [⟨parentPath i,
    "parent_ref " ++ quoted raw ++ " does not resolve to any judgment id in this asset"⟩]

/-- What the second pass finds at an entry: its violations, and what it adds to `parentOf`. -/
def readParent (judgments : List Json) (i : ℕ) (j : Json) :
    List Violation × Option (String × String) :=
  match j.prop "parent_ref" with
  | none => ([], none)
  | some .null => ([], none)
  | some (.str raw) =>
    if raw = "" then
      ([⟨parentPath i, "parent_ref must be a non-empty identifier; found " ++ describe (.str raw)⟩],
        none)
    else
      match entryId j with
      | none => (unresolved judgments i raw, none)
      | some id =>
        if idCount judgments id > 1 then
          ([⟨parentPath i, "parent_ref cannot be evaluated because judgment id " ++ quoted id ++
            " is declared " ++ toString (idCount judgments id) ++ " times in this asset"⟩], none)
        else if raw = id then
          ([⟨parentPath i, "parent_ref points at its own judgment (" ++ quoted raw ++ ")"⟩],
            some (id, raw))
        else (unresolved judgments i raw, some (id, raw))
  | some raw =>
    ([⟨parentPath i, "parent_ref must be a non-empty identifier; found " ++ describe raw⟩], none)

/-- The violation that reports the cycle a walk from `start` runs into. -/
def cycleViolation (judgments : List Json) (start : String) (chain : List String)
    (node : String) : Violation where
  path :=
    match judgments.findIdx? fun j => entryId j = some start with
    | some i => parentPath i
    | none => "/judgments"
  message := "parent_ref cycle detected: " ++ " -> ".intercalate (chain.map quoted) ++ " -> " ++
    quoted node

/-- The loop over the entries with a parent, where `next` is `parentOf.get`. Whatever a walk
passes is settled. -/
def reportCycles (judgments : List Json) (next : String → Option String) (fuel : ℕ) :
    List String → List String → Option (List Violation)
  | [], _ => some []
  | start :: starts, settled =>
    if start ∈ settled then reportCycles judgments next fuel starts settled
    else do
      let (chain, back) ← walk next fuel [] start
      let later ← reportCycles judgments next fuel starts (settled ++ chain)
      match back with
      | none => return later
      | some node => return cycleViolation judgments start chain node :: later

/-- The entries of `parentOf`. An identifier that is declared once is added once. -/
def parentOf (judgments : List Json) : List (String × String) :=
  (judgments.mapIdx (readParent judgments)).filterMap Prod.snd

/-- `ruleParentClosure(payload)`, where a walk takes fewer than `fuel` rounds. -/
def ruleParentClosure (fuel : ℕ) (payload : Json) : Option (List Violation) := do
  let judgments := judgmentsOf payload
  let cycles ← reportCycles judgments (fun id => getKey id (parentOf judgments)) fuel
    ((parentOf judgments).map Prod.fst) []
  return (judgments.mapIdx (readParent judgments)).flatMap Prod.fst ++ cycles

end Kdna

import Kdna.Data.Rounds
import Kdna.Digest.Streaming
import Kdna.Ir.Reconstruct
import Kdna.Sections.Layout

/-!
# The mandatory context of a selection

`deriveMandatoryContext` loads the topics of a selection and judges the fragment by the rules for
whole assets. The rules read the value of a record through the record, and a value that has not
been loaded ends the pass with the judgment that it belongs to. This judgment, or those that the
closures lack, are loaded before the next pass.
-/

namespace Kdna.Sections

open Ir (Ref Record Links Entries)
open Digest (Hasher digestCanonical)

variable {α Result : Type}

/-- A stored frame with its records. -/
structure DataFrame where
  kind : SectionKind
  sectionId : String
  records : List Json

/-- What `readInterpretationInputs` returns. -/
structure Interpretation where
  judgments : List Json
  frames : List Json

/-- The checks of `deriveMandatoryContext`. -/
inductive ScopeCode
  | frameIdentity
  | frameRecordSet
  | nodeOwner
  | missingJudgment
  | duplicateValueMismatch
  | requiredContextMismatch
  deriving DecidableEq, Repr

/-- What stops the derivation: a check of its own, or a failure of what it calls. -/
inductive Stop
  | failure (f : Failure)
  | check (code : ScopeCode)

/-- How the derivation ends without a context. -/
inductive Ending
  | stopped (stop : Stop)
  | didNotConverge

/-- A call whose failure passes through. -/
def external (x : Except Failure α) : Except Stop α := x.mapError Stop.failure

/-- What `iterations` notes of a pass. -/
inductive Iteration
  | closed (iteration : ℕ) (loadedJudgments : List String) (closureCount : ℕ) (missing : List String)
  | required (iteration : ℕ) (loadedJudgments : List String) (requiredBody : String)

/-- What has been loaded. -/
structure Loaded where
  rows : List String
  judgments : List String
  values : String → Option Json
  checked : List (SectionRow × String)
  iterations : List Iteration
  entries : Entries

/-- The arguments of `deriveMandatoryContext`: the layout, the metadata and the manifest of the
asset, the nodes of its structure, the selection and the target of an expansion. -/
structure Scope where
  tables : Tables
  ordered : List SectionRow
  metadata : Json
  manifest : Json
  structureNodes : List Json
  selectedIds : List String
  target : Option Ref

/-- A judgment whose body the record `r` lacks. -/
def unloaded (loaded : List String) (r : Record) : Option String :=
  r.judgment.filter fun judgment => judgment ∉ loaded

/-- A program of the rules, which reads the values of records one after the other. -/
inductive Reading (α : Type)
  | done (a : α)
  | fail (f : Failure)
  | value (r : Record) (next : Json → Reading α)

/-- Why a program ends without a result. -/
inductive Halt
  | failure (f : Failure)
  | missingBody (judgment : String)

/-- A program on the records of a fragment: `MissingBody` for a value that is not there. -/
def Reading.run (loaded : List String) : Reading α → Except Halt α
  | done a => .ok a
  | fail f => .error (.failure f)
  | value r next =>
    match unloaded loaded r with
    | some judgment => .error (.missingBody judgment)
    | none => (next r.value).run loaded

/-- What a pass judges. -/
structure Pass where
  payload : Json
  entries : Entries
  nodes : List Json
  registry : List Record
  loadedJudgments : List String
  interpretation : Interpretation

/-- The closures of a pass: that of the selection and those of the targets it offers. -/
structure Closures where
  links : Links
  closure : List Record
  targetScopes : List (Ref × List Record)

/-- What the derivation calls: the capture, the hash library, the rules, and what makes the
context of a closed selection. -/
structure Rules (Result : Type) where
  /-- `layout.readFrame(row, 'content')` on a valid frame. -/
  readFrame : SectionRow → Except Failure DataFrame
  resourceAfterAuthorization : String → Except Failure Bytes
  readInterpretationInputs : Except Failure Interpretation
  hasher : Hasher
  /-- `validateLoadedSchema` and `validateR2` -/
  validateR2 : Pass → Reading Links
  /-- `materializeScoped`, the expansion targets or the scope of a handle, and
  `validateLoadedInterpretation` -/
  materialize : Pass → Closures → Reading Result

/-- What `deriveMandatoryContext` returns. -/
structure Context (Result : Type) where
  materialized : Result
  selectedNodeIds : List String
  nodes : List Json
  checkedSections : List (SectionRow × String)
  loadedJudgments : List String
  iterations : List Iteration

/-- `digestCanonical(a) === digestCanonical(b)` -/
def sameDigest (hasher : Hasher) (a b : Json) : Except Failure Bool := do
  let s ← digestCanonical hasher a
  let t ← digestCanonical hasher b
  return s == t

/-- `local(target)`: no other asset is named. -/
def isLocal (asset target : Json) : Bool :=
  match target.given "asset" with
  | some other => ["asset_id", "asset_version", "judgment_version"].all fun name =>
      ((other.prop name).bind Value.text?).any fun t => asset.propIs name t
  | none => true

/-- Whether `n` is the node of the target `r`. -/
def showsTarget (asset : Json) (r : Ref) (n : Json) : Bool :=
  (n.prop "target").any fun target =>
    isLocal asset target && target.propIs "kind" r.kind.text && target.propIs "id" r.id

/-- `n.id` -/
def nodeId (n : Json) : Except Failure String := memberText n "id"

section Payload

variable (hasher : Hasher) (assetTarget : Json)

/-- The value of a node of the kind that the asset owns. -/
def rootValue (kind : Ir.Kind) (n : Json) : Except Failure (Option Json) := do
  if Ir.kindIs n kind && Ir.ownerless n then
    let owner ← member n "owner"
    let owned ← sameDigest hasher owner assetTarget
    let value ← member n "value"
    return if owned then some value else none
  else return none

/-- `root(kind)` -/
def root (nodes : List Json) (kind : Ir.Kind) : Except Failure (List Json) := do
  let values ← nodes.mapM (rootValue hasher assetTarget kind)
  return values.reduceOption

/-- `p.declarations` -/
def registeredDeclarations (nodes : List Json) (declarations : Json) : Except Failure Json :=
  match declarations.given "boundaries" with
  | some boundaries => do
    let values ← root hasher assetTarget nodes .boundary
    let value := if boundaries.propIs "state" "provided" then Value.arr values else .null
    return declarations.setProp "boundaries" (boundaries.setProp "value" value)
  | none => .ok declarations

end Payload

/-- `registrationPayload(nodes, meta, manifest)` -/
def registrationPayload (hasher : Hasher) (metadata : Json) (nodes : List Json) :
    Except Failure Json := do
  let asset ← orFail .coreInvalid (nodes.find? fun n => Ir.kindIs n .asset)
  let target ← member asset "target"
  let value ← member asset "value"
  let tuple ← member metadata "tuple"
  let profile ← member tuple "payload_profile"
  let version ← member tuple "payload_version"
  let identity ← member metadata "asset"
  let judgments ← (nodes.filter fun n => Ir.kindIs n .judgment).mapM fun n => member n "value"
  let collections ← Ir.ownCollections.mapM fun c => do
    return (c.2, Value.arr (← root hasher target nodes c.1))
  let declarations ← member value "declarations"
  let registered ← registeredDeclarations hasher target nodes declarations
  return .obj ([("profile", profile), ("profile_version", version), ("asset", identity),
    ("judgments", .arr judgments)] ++ collections ++
    Value.listed Ir.payloadNames value.prop ++ [("declarations", registered)])

section Loading

variable (rules : Rules Result) (scope : Scope)

/-- The judgment that owns the nodes of a section, `section_id.slice(6)` for a topic. -/
def sectionOwner (row : SectionRow) : Option String :=
  if row.kind = .volume then none else some (String.ofList (row.sectionId.toList.drop 6))

/-- `n.owner_judgment_id === owner` -/
def ownedBy (n : Json) : Option String → Bool
  | none => Ir.ownerless n
  | some judgment => n.propIs "owner_judgment_id" judgment

/-- `set.add(x)` -/
def addNew (xs : List String) (x : String) : List String := if x ∈ xs then xs else xs ++ [x]

/-- `loadedJudgments` after the section `row`. -/
def judgmentsWith (judgments : List String) (row : SectionRow) : List String :=
  if row.kind = .topic then (sectionOwner row).elim judgments (addNew judgments) else judgments

/-- `values.set(n.id, n)` for each of the nodes. -/
def setNodes (values : String → Option Json) (nodes : List (String × Json)) :
    String → Option Json :=
  nodes.foldl (fun values n => Function.update values n.1 (some n.2)) values

/-- The section `row` with its nodes by id. -/
def Loaded.withSection (s : Loaded) (row : SectionRow) (why : String)
    (nodes : List (String × Json)) : Loaded :=
  { s with
    rows := s.rows ++ [row.sectionId]
    judgments := judgmentsWith s.judgments row
    values := setNodes s.values nodes
    checked := s.checked ++ [(row, why)] }

/-- The nodes of the section `row` as the tables have them. -/
def readSection (row : SectionRow) : Except Stop (List (String × Json)) := do
  let frame ← external (rules.readFrame row)
  require (frame.kind = row.kind ∧ frame.sectionId = row.sectionId) (Stop.check .frameIdentity)
  let ids ← external (frame.records.mapM nodeId)
  let expected := ((scope.tables.nodeSections.filter (·.sectionId = row.sectionId)).map
    (·.nodeRef)).dedup
  require (expected.length = ids.length ∧ ∀ id ∈ ids, id ∈ expected) (Stop.check .frameRecordSet)
  require (∀ n ∈ frame.records, ownedBy n (sectionOwner row) = true) (Stop.check .nodeOwner)
  return ids.zip frame.records

/-- `load(row, why)` -/
def load (why : String) (s : Loaded) (row : SectionRow) : Except Stop Loaded :=
  if row.sectionId ∈ s.rows then .ok s
  else do
    let nodes ← readSection rules scope row
    return s.withSection row why nodes

/-- `loadJudgment(id, why)` -/
def loadJudgment (why : String) (s : Loaded) (id : String) : Except Stop Loaded := do
  let name ← orFail (Stop.check .missingJudgment) (scope.tables.topicSection id)
  let row ← orFail (Stop.check .missingJudgment) (scope.tables.sectionOf name)
  load rules scope why s row

/-- What is there before a section is loaded. -/
def nothingLoaded : Except Failure Loaded := do
  let ids ← scope.structureNodes.mapM nodeId
  return ⟨[], [], setNodes (fun _ => none) (ids.zip scope.structureNodes), [], [], []⟩

/-- The volumes and the selection, loaded. -/
def start : Except Stop Loaded := do
  let s ← external (nothingLoaded scope)
  let s ← (scope.ordered.filter (·.kind = .volume)).foldlM
    (load rules scope "complete incoming root obligations") s
  scope.selectedIds.foldlM (loadJudgment rules scope "requested selection") s

end Loading

section Passes

variable (rules : Rules Result) (scope : Scope)

/-- The members that the resources of the payload name. -/
def readResources (payload : Json) (entries : Entries) : Except Failure Entries := do
  let resources ← memberItems payload "resources"
  let names ← resources.mapM fun resource => memberText resource "entry"
  names.foldlM (fun entries name =>
    if entries.any (·.1 = name) then .ok entries
    else do return entries ++ [(name, ← rules.resourceAfterAuthorization name)]) entries

/-- The value of a loaded record is that of its node. -/
def checkRecord (payload : Json) (nodes : List Json) (loaded : List String) (r : Record) :
    Except Stop Unit :=
  if (unloaded loaded r).isSome ∨ r.target.kind = .asset then .ok ()
  else do
    let asset ← external (member payload "asset")
    let node ← orFail (Stop.check .duplicateValueMismatch)
      (nodes.reverse.find? (showsTarget asset r.target))
    let value ← external (member node "value")
    let same ← external (sameDigest rules.hasher value r.value)
    require same (Stop.check .duplicateValueMismatch)

/-- The seeds of the closure, without the target of an expansion. -/
def seeds (asset : Ref) : List Ref := asset :: scope.selectedIds.map fun id => ⟨.judgment, id⟩

/-- What the closed records offer: themselves and what they are linked to. -/
def offered (links : Links) (closed : List Record) : List Ref :=
  closed.map Record.target ++ (closed.filter fun r => r.target.kind ≠ .asset).flatMap fun r =>
    (links.edges r.target).map Prod.fst

/-- `targetScopes` -/
def targetScopes (asset : Ref) (registry : List Record) (links : Links) (closed : List Record) :
    Except Failure (List (Ref × List Record)) :=
  if scope.target.isSome then .ok []
  else (registry.filter fun r => r.target ∈ offered links closed).mapM fun r => do
    return (r.target, ← Ir.closure registry links (seeds scope asset ++ [r.target]))

/-- The closures that the links of a pass lead to. -/
def closures (registry : List Record) (links : Links) : Except Failure Closures := do
  let asset ← Ir.assetRef scope.manifest
  let closed ← Ir.closure registry links (seeds scope asset ++ scope.target.toList)
  let scopes ← targetScopes scope asset registry links closed
  return ⟨links, closed, scopes⟩

/-- `missing`: the judgments of the closed records that are not loaded. -/
def missingJudgments (loaded : List String) (c : Closures) : List String :=
  ((c.closure ++ c.targetScopes.flatMap Prod.snd).filterMap (unloaded loaded)).eraseDups

/-- The nodes of closed records. -/
def nodesOf (asset : Json) (nodes : List Json) (closed : List Record) : List Json :=
  nodes.filter fun n => closed.any fun r => showsTarget asset r.target n

/-- The closure of a selected judgment is the one that the metadata declares. -/
def checkContext (pass : Pass) (links : Links) (id : String) : Except Stop Unit := do
  let asset ← external (Ir.assetRef scope.manifest)
  let identity ← external (member pass.payload "asset")
  let own ← external (Ir.closure pass.registry links [asset, ⟨.judgment, id⟩])
  let actual ← external ((nodesOf identity pass.nodes own).mapM nodeId)
  let declared ← orFail (Stop.check .requiredContextMismatch)
    (scope.tables.mandatoryClosures.find? (·.judgmentId = id))
  let same ← external (sameDigest rules.hasher (.arr (actual.map .str))
    (.arr (declared.nodeIds.map .str)))
  require same (Stop.check .requiredContextMismatch)

/-- What the loop does when a program of the rules ends without a result. -/
def recover (count : ℕ) (s : Loaded) : Halt → Except Stop (Round Loaded (Context Result))
  | .failure f => .error (.failure f)
  | .missingBody judgment => do
    let s' ← loadJudgment rules scope "original domain rule requires actual value"
      { s with iterations := s.iterations ++ [.required count s.judgments judgment] } judgment
    return .again s'

/-- The context of a selection whose closures are loaded. -/
def conclude (count : ℕ) (s : Loaded) (pass : Pass) (c : Closures) :
    Except Stop (Round Loaded (Context Result)) := do
  scope.selectedIds.forM (checkContext rules scope pass c.links)
  let identity ← external (member pass.payload "asset")
  let nodes := nodesOf identity pass.nodes c.closure
  let ids ← external (nodes.mapM nodeId)
  match (rules.materialize pass c).run s.judgments with
  | .error halt => recover rules scope count s halt
  | .ok result => return .done ⟨result, ids, nodes, s.checked, s.judgments, s.iterations⟩

/-- The `try` block of the loop. -/
def judge (count : ℕ) (s : Loaded) (pass : Pass) : Except Stop (Round Loaded (Context Result)) :=
  match (rules.validateR2 pass).run s.judgments with
  | .error halt => recover rules scope count s halt
  | .ok links => do
    let c ← external (closures scope pass.registry links)
    let missing := missingJudgments s.judgments c
    let s := { s with
      iterations := s.iterations ++ [.closed count s.judgments c.closure.length missing] }
    if missing = [] then conclude rules scope count s pass c
    else Round.again <$> missing.foldlM (loadJudgment rules scope "actual mandatory fixed-point") s

/-- One round of the loop. -/
def iterate (interpretation : Interpretation) (count : ℕ) (s : Loaded) :
    Except Stop (Round Loaded (Context Result)) := do
  let nodes ← external (scope.tables.nodeOrder.mapM fun id => orFail .coreInvalid (s.values id))
  let payload ← external (registrationPayload rules.hasher scope.metadata nodes)
  let entries ← external (readResources rules payload s.entries)
  let registry ← external (Ir.createRegistry scope.manifest payload)
  registry.forM (checkRecord rules payload nodes s.judgments)
  judge rules scope count { s with entries := entries }
    ⟨payload, entries, nodes, registry, s.judgments, interpretation⟩

/-- The loop, which runs out with `none`. -/
def deriveRounds : Except Stop (Option (Context Result)) := do
  let interpretation ← external rules.readInterpretationInputs
  let s ← start rules scope
  rounds (iterate rules scope interpretation) (scope.ordered.length + 1) 0 s

/-- `deriveMandatoryContext(capture, layout, manifest, structure, selectedIds, options)` -/
def deriveMandatoryContext : Except Ending (Context Result) :=
  match deriveRounds rules scope with
  | .error stop => .error (.stopped stop)
  | .ok none => .error .didNotConverge
  | .ok (some context) => .ok context

end Passes

end Kdna.Sections

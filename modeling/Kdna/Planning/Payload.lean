import Kdna.Plans.PartialOutcomes
import Kdna.Shapes.Values

/-!
# Plans and policies

What `checkPlans` of `r2-plan.js` reads of a payload. The plan of a judgment is a tree of nodes
whose leaves use a unit or another judgment; links lead from the outputs of nodes to inputs of
others. A branch stands for the policy that forms the result.
-/

namespace Kdna.Planning

open Plans (Named Endpoint)
open Shapes (SemanticValue ResultContract Contract)

/-- A port of a unit or of a judgment. -/
structure Port where
  name : String
  contractRef : Named

/-- A unit of a method. -/
structure MethodUnit where
  id : String
  method : String
  inputs : List Port
  outputs : List Port

/-- `binding.from` -/
inductive Source
  | literal (value : SemanticValue)
  | input (name : String)
  | state (feedbackRef : Named) (slot : String)

/-- An item of `input_bindings`. -/
structure InputBinding where
  port : String
  source : Source

/-- An item of `state`. -/
structure StateSlot where
  name : String
  contractRef : Named
  initial : SemanticValue

/-- An item of `updates`. -/
structure StateUpdate where
  stateSlot : String
  source : Endpoint
  nextInput : Endpoint

/-- `termination` -/
inductive Termination
  | condition (holds : Named)
  | ongoing

/-- A feedback node. -/
structure Feedback where
  body : Named
  output : Endpoint
  state : List StateSlot
  updates : List StateUpdate
  termination : Termination

/-- `kind` of a node, with its members. -/
inductive NodeKind
  | use (unitRef : Named) (bindings : List InputBinding)
  | judgmentUse (judgmentRef : Named) (bindings : List InputBinding)
  | sequence (children : List Named)
  | parallel (children : List Named)
  | feedback (f : Feedback)
  | branch (policyRef : Named)

/-- `kind === 'use'` -/
def NodeKind.isUse : NodeKind → Bool
  | use _ _ => true
  | _ => false

/-- A node of a plan. Its id is an identifier, which is not empty. -/
structure PlanNode where
  id : String
  named : id ≠ ""
  kind : NodeKind

/-- An item of `links`. -/
structure Link where
  source : Endpoint
  target : Endpoint

/-- An item of `result_bindings`. -/
structure ResultBinding where
  source : Endpoint
  path : List String

/-- A plan. -/
structure Plan where
  id : String
  root : Named
  nodes : List PlanNode
  links : List Link
  resultBindings : List ResultBinding

/-- `entry.then` -/
inductive Emitted
  | candidate (ref : Named)
  | output (source : Endpoint) (contractRef : Named)

/-- An item of `entries`. -/
structure Entry where
  id : String
  priority : Option ℕ
  holds : Named
  emits : Emitted

/-- An item of `candidates`. -/
structure Candidate where
  id : String
  contractRef : Named
  value : SemanticValue

/-- `combine` -/
inductive Combine
  | collect (itemContractRef : Named) (order : Plans.Order)
  | authored (mergeRef : Named) (inputPort outputPort : String) (order : Plans.Order)

/-- `combine.order` -/
def Combine.order : Combine → Plans.Order
  | collect _ order => order
  | authored _ _ _ order => order

/-- `on_no_match` -/
inductive NoMatch
  | value (contractRef : Named) (value : SemanticValue)
  | other

/-- A policy. -/
structure Policy where
  id : String
  candidates : List Candidate
  entries : List Entry
  matching : Plans.Match
  combine : Option Combine
  onUndetermined : Plans.Undetermined
  onNoMatch : NoMatch
  exclusiveSets : List (List Plans.Producer)
  resultContractRef : Named

/-- The node that merges what the policy emits. -/
def Policy.mergeRef? (p : Policy) : Option Named :=
  match p.combine with
  | some (.authored mergeRef _ _ _) => some mergeRef
  | _ => none

/-- The policy merges what it emits at this input of a node. -/
def Policy.mergesAt (p : Policy) (node port : String) : Bool :=
  match p.combine with
  | some (.authored mergeRef inputPort _ _) => mergeRef.id = node ∧ inputPort = port
  | _ => false

/-- An item of `inputs`. -/
structure Input where
  name : String
  contractRef : Named

/-- A judgment. -/
structure Judgment where
  id : String
  method : String
  inputs : List Input
  units : List MethodUnit
  plan : Option Plan
  policy : Option Policy
  resultContract : ResultContract
  inputPorts : List Port
  outputPorts : List Port

/-- A payload, of which the registry has distinct ids of a kind. -/
structure Payload where
  asset : Json
  judgments : List Judgment
  contracts : List (String × Contract)
  conditions : List String
  nodeIds : ((judgments.flatMap fun j => j.plan.toList).flatMap fun p =>
    p.nodes.map PlanNode.id).Nodup
  unitIds : (judgments.flatMap fun j => j.units.map MethodUnit.id).Nodup
  planIds : ((judgments.flatMap fun j => j.plan.toList).map Plan.id).Nodup
  policyIds : ((judgments.flatMap fun j => j.policy.toList).map Policy.id).Nodup
  judgmentIds : (judgments.map Judgment.id).Nodup

section Registry

variable (payload : Payload)

/-- `local(target)` -/
def isLocal (r : Named) : Bool := r.asset.all fun a => Ir.sameAsset a payload.asset

/-- `identity(target)` of a target of a fixed kind. -/
def identity (r : Named) : Option (List Char) × String :=
  (if isLocal payload r then none else r.asset.map canonicalText, r.id)

/-- `get(target, kind, at)` with a look-up of the local ids: none for a target of another asset. -/
def get {α : Type} (at' : String) (find : String → Option α) (r : Named) :
    Except Shapes.R2Failure (Option α) :=
  if isLocal payload r then (orFail (.invalid at' (some r.id)) (find r.id)).map some else .ok none

/-- The node of an id, with the id of its plan. -/
def nodeOf (id : String) : Option (String × PlanNode) :=
  (payload.judgments.flatMap fun j => j.plan.toList).findSome? fun p =>
    (p.nodes.find? fun n => n.id = id).map fun n => (p.id, n)

/-- The unit of an id, with the id of its judgment. -/
def unitOf (id : String) : Option (String × MethodUnit) :=
  payload.judgments.findSome? fun j => (j.units.find? fun u => u.id = id).map fun u => (j.id, u)

/-- The policy of an id, with the id of its judgment. -/
def policyOf (id : String) : Option (String × Policy) :=
  payload.judgments.findSome? fun j => (j.policy.filter fun p => p.id = id).map fun p => (j.id, p)

/-- The candidate of an id, with the id of its policy. -/
def candidateOf (id : String) : Option (String × Candidate) :=
  (payload.judgments.flatMap fun j => j.policy.toList).findSome? fun p =>
    (p.candidates.find? fun c => c.id = id).map fun c => (p.id, c)

/-- The judgment of an id. -/
def judgmentOf (id : String) : Option Judgment := payload.judgments.find? fun j => j.id = id

/-- The contract of an id: one of the asset, or the result contract of a judgment. -/
def contractOf (id : String) : Option Contract :=
  ((payload.contracts.find? fun c => c.1 = id).map Prod.snd).or
    ((payload.judgments.find? fun j => j.resultContract.id = some id).map fun j =>
      .result j.resultContract)

/-- The condition of an id. -/
def conditionOf (id : String) : Option String := payload.conditions.find? fun c => c = id

/-- The `policy_ref` of a contract. -/
def policyRefOf (v : Json) : Named := ⟨((v.prop "id").bind Value.text?).getD "", v.prop "asset"⟩

/-- `contract(target, allowSpecial)` -/
def contract (at' : String) (allowSpecial : Bool) (r : Named) :
    Except Shapes.R2Failure (Option Contract) := do
  let found ← get payload at' (contractOf payload) r
  match found, allowSpecial with
  | some (.emissionList _ _), false => Shapes.fail at'
  | found, _ => return found

/-- `normalContract(target, at)` -/
def normalContract (at' : String) (r : Named) : Except Shapes.R2Failure (Option Contract) :=
  contract payload at' false r

/-- What tells producers apart. -/
inductive ProducerKey
  | candidate (identity : Option (List Char) × String)
  | output (node : Option (List Char) × String) (port : String) (path : List String)
  deriving DecidableEq

/-- `producerKey(producer)` -/
def producerKey : Plans.Producer → ProducerKey
  | .candidate ref => .candidate (identity payload ref)
  | .output source => .output (identity payload source.node) source.port source.path

end Registry

end Kdna.Planning

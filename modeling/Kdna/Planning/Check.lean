import Kdna.Data.Visit
import Kdna.Data.Worklist
import Kdna.Planning.Payload

/-!
# The check of plans

`checkPlans` of `r2-plan.js`: the tree of the nodes of each plan, their ports and bindings, the links
and the feedback, the policies, the graph of the edges between the nodes, which must have no cycle,
and the methods that a judgment applies. It never evaluates a condition.
-/

namespace Kdna.Planning

open Plans (Named Endpoint)
open Shapes (R2Failure Contract)

section Tree

variable (payload : Payload) (at' : String) (judgment : Judgment) (plan : Plan)

/-- `localNode(target)` -/
def localNode (target : Named) : Except R2Failure PlanNode := do
  let (owner, node) ← orFail (.invalid at' none) (← get payload at' (nodeOf payload) target)
  require (owner = plan.id ∧ node.id ∈ plan.nodes.map PlanNode.id) (.invalid at' none)
  return node

/-- The targets that a node has as its children. -/
def childRefs (kind : NodeKind) : Except R2Failure (List Named) :=
  match kind with
  | .sequence children => do
    require (1 ≤ children.length) (.invalid at' none)
    return children
  | .parallel children => do
    require (2 ≤ children.length) (.invalid at' none)
    return children
  | .feedback f => .ok [f.body]
  | .branch policyRef => do
    let (owner, policy) ← orFail (.invalid at' none) (← get payload at' (policyOf payload) policyRef)
    require (owner = judgment.id) (.invalid at' none)
    return policy.mergeRef?.toList
  | .use _ _ => .ok []
  | .judgmentUse _ _ => .ok []

/-- The nodes with their children, in the order in which these are added: `parents` and
`children`. -/
abbrev Branches := List (String × String)

/-- `parents.get(id)` -/
def Branches.parent (t : Branches) (id : String) : Option String :=
  (t.find? fun e => e.2 = id).map Prod.fst

/-- `children.get(id)` -/
def Branches.children (t : Branches) (id : String) : List String :=
  (t.filter fun e => e.1 = id).map Prod.snd

/-- `child(parent, target)` -/
def child (parent : String) (t : Branches) (target : Named) : Except R2Failure Branches := do
  let node ← localNode payload at' plan target
  require (node.id ∉ t.map Prod.snd) (.invalid at' none)
  return t ++ [(parent, node.id)]

/-- The loop over the nodes that adds their children. -/
def plant : Except R2Failure Branches :=
  plan.nodes.foldlM (fun t node => do
    (← childRefs payload at' judgment node.kind).foldlM (child payload at' plan node.id) t) []

/-- The checks of the tree: its root and its branches. -/
def checkTree : Except R2Failure (String × Branches) := do
  Shapes.unique at' (plan.nodes.map PlanNode.id)
  let t ← plant payload at' judgment plan
  let root ← localNode payload at' plan plan.root
  require (root.id ∉ t.map Prod.snd ∧
    ∀ n ∈ plan.nodes, n.id ≠ root.id → n.id ∈ t.map Prod.snd) (.invalid at' none)
  require (acyclic t.children (plan.nodes.map PlanNode.id)) (.invalid at' none)
  require ((reachFrom t.children (plan.nodes.length + 1) [] root.id).length = plan.nodes.length)
    (.invalid at' none)
  return (root.id, t)

end Tree

section Places

variable (at' : String) (plan : Plan) (t : Branches)

/-- `ancestors(id)` -/
def above (id : String) : List String := ancestors t.parent plan.nodes.length id

/-- `within(id, parent)` -/
def within (id parent : String) : Bool := id = parent ∨ parent ∈ above plan t id

/-- `nodes.get(id)` -/
def Plan.node (id : String) : Option PlanNode := plan.nodes.find? fun n => n.id = id

/-- `nodes.get(id).kind === 'feedback'` -/
def isFeedback (id : String) : Bool := (plan.node id).any fun n => match n.kind with
  | .feedback _ => true
  | _ => false

/-- `round(id)`: the feedback nodes above, joined by U+0000. -/
def round (id : String) : List Char :=
  List.intercalate [Char.ofNat 0] (((above plan t id).filter (isFeedback plan)).map String.toList)

/-- `ordered(from, to)` -/
def ordered (source target : String) : Except R2Failure Unit :=
  let a := source :: above plan t source
  let b := target :: above plan t target
  match a.find? (· ∈ b) with
  | none => .ok ()
  | some common =>
    if common = source ∨ common = target then .ok ()
    else
      let left := a[a.idxOf common - 1]?
      let right := b[b.idxOf common - 1]?
      let place (c : Option String) : ℕ := c.elim 0 (t.children common).idxOf
      if left = right then .ok ()
      else match (plan.node common).map PlanNode.kind with
        | some (.parallel _) => .error (.invalid at' none)
        | some (.sequence _) => require (place left < place right) (.invalid at' none)
        | _ => .ok ()

end Places

section Ports

variable (payload : Payload) (at' : String) (judgment : Judgment) (plan : Plan)

/-- The contract of a port: by its target, or one that is resolved already. -/
inductive PortContract
  | ref (target : Named)
  | resolved (contract : Option Contract)

/-- A port as an endpoint finds it. -/
structure OpenPort where
  name : String
  contract : PortContract

/-- The ports of a node; those of a judgment of another asset are not known. -/
structure Ports where
  inputs : Option (List OpenPort)
  outputs : Option (List OpenPort)

/-- A port by its target. -/
def Port.opened (p : Port) : OpenPort := ⟨p.name, .ref p.contractRef⟩

/-- What an endpoint leads to: a node, and the contract of the field there. -/
structure Reached where
  node : PlanNode
  contract : Option Contract

/-- `direction` of an endpoint. -/
inductive Direction
  | input
  | output

/-- `direction === 'input' ? 'inputs' : 'outputs'` -/
def Ports.at (found : Ports) : Direction → Option (List OpenPort)
  | .input => found.inputs
  | .output => found.outputs

/-- `whole`: the contract of a port. -/
def PortContract.whole (allowSpecial : Bool) : PortContract → Except R2Failure (Option Contract)
  | .ref target => contract payload at' allowSpecial target
  | .resolved c => .ok c

/-- `endpoint(value, direction, allowSpecial)`, where `portsOf` reads the ports of a node. -/
def endpointWith (portsOf : PlanNode → Except R2Failure Ports) (value : Endpoint)
    (direction : Direction) (allowSpecial : Bool) : Except R2Failure Reached := do
  let node ← localNode payload at' plan value.node
  match (← portsOf node).at direction with
  | none => return ⟨node, none⟩
  | some list =>
    let port ← orFail (.invalid at' none) (list.find? fun p => p.name = value.port)
    let whole ← port.contract.whole payload at' allowSpecial
    return ⟨node, ← Shapes.projected at' whole value.path⟩

/-- `ports(node)`, while the nodes `resolving` wait for theirs. -/
def portsFrom : ℕ → List String → PlanNode → Except R2Failure Ports
  | 0, _, _ => .error (.invalid at' none)
  | levels + 1, resolving, node => do
    require (node.id ∉ resolving) (.invalid at' none)
    match node.kind with
    | .use unitRef _ =>
      let (owner, unit) ← orFail (.invalid at' none) (← get payload at' (unitOf payload) unitRef)
      require (owner = judgment.id) (.invalid at' none)
      return ⟨some (unit.inputs.map Port.opened), some (unit.outputs.map Port.opened)⟩
    | .judgmentUse judgmentRef _ =>
      match ← get payload at' (judgmentOf payload) judgmentRef with
      | none => return ⟨none, none⟩
      | some j => return ⟨some (j.inputPorts.map Port.opened), some (j.outputPorts.map Port.opened)⟩
    | .branch policyRef =>
      let (_, policy) ← orFail .typeError (← get payload at' (policyOf payload) policyRef)
      return ⟨some [], some [⟨"result", .ref policy.resultContractRef⟩]⟩
    | .feedback f =>
      let output ← endpointWith payload at' plan (portsFrom levels (node.id :: resolving)) f.output
        .output false
      return ⟨some [], some [⟨"result", .resolved output.contract⟩]⟩
    | _ => return ⟨some [], some []⟩

/-- `ports(node)` -/
def ports : PlanNode → Except R2Failure Ports :=
  portsFrom payload at' judgment plan (plan.nodes.length + 1) []

/-- `endpoint(value, direction, allowSpecial)` -/
def endpoint (value : Endpoint) (direction : Direction) (allowSpecial : Bool) :
    Except R2Failure Reached :=
  endpointWith payload at' plan (ports payload at' judgment plan) value direction allowSpecial

end Ports

section Flow

variable (payload : Payload) (at' : String) (judgment : Judgment) (plan : Plan) (t : Branches)

/-- What supplies an input. -/
inductive Supply
  | bound (source : Source)
  | link
  | feedback
  | policy

/-- The edges of `graph`, and `inputSupplies`. -/
structure Flow where
  edges : List (String × String)
  supplies : List ((String × String) × List String × Supply)

/-- `inputSupplies.get(JSON.stringify([node, port])) ?? []` -/
def Flow.suppliesOf (flow : Flow) (node port : String) : List (List String × Supply) :=
  (flow.supplies.filter fun s => s.1 = (node, port)).map Prod.snd

/-- `supply(node, port, path, source)` -/
def Flow.supply (flow : Flow) (node port : String) (path : List String) (source : Supply) : Flow :=
  { flow with supplies := flow.supplies ++ [((node, port), path, source)] }

/-- `graph.get(from).add(to)` -/
def Flow.addEdge (flow : Flow) (source target : String) : Flow :=
  { flow with edges := flow.edges ++ [(source, target)] }

/-- `dataEdge(from, to)` -/
def dataEdge (flow : Flow) (source target : String) : Except R2Failure Flow := do
  require (source ≠ target) (.invalid at' none)
  ordered at' plan t source target
  return flow.addEdge source target

/-- The literal fits the contract where there is one. -/
def fits (contract : Option Contract) (value : Shapes.SemanticValue) : Except R2Failure Unit :=
  match contract with
  | some c => Shapes.valueFor at' c value
  | none => .ok ()

/-- One binding of a node. -/
def checkBinding (node : PlanNode) (flow : Flow) (binding : InputBinding) :
    Except R2Failure Flow := do
  let target ← endpoint payload at' judgment plan ⟨⟨node.id, none⟩, binding.port, []⟩ .input false
  match binding.source with
  | .literal value => fits at' target.contract value
  | .input name =>
    let input ← orFail (.invalid at' none) (judgment.inputs.find? fun i => i.name = name)
    Shapes.compatible at' (← normalContract payload at' input.contractRef) target.contract
  | .state feedbackRef slot =>
    let node' ← localNode payload at' plan feedbackRef
    match node'.kind with
    | .feedback f =>
      require (within plan t node.id f.body.id) (.invalid at' none)
      let state ← orFail (.invalid at' none) (f.state.find? fun s => s.name = slot)
      Shapes.compatible at' (← normalContract payload at' state.contractRef) target.contract
      require ((f.updates.filter fun u => u.stateSlot = state.name ∧
        u.nextInput.node.id = node.id ∧ u.nextInput.port = binding.port ∧
        u.nextInput.path.length = 0).length = 1) (.invalid at' none)
    | _ => .error (.invalid at' none)
  return flow.supply node.id binding.port [] (.bound binding.source)

/-- The bindings of a node, if it can have some. -/
def bindings? (kind : NodeKind) : Option (List InputBinding) :=
  match kind with
  | .use _ bindings => some bindings
  | .judgmentUse _ bindings => some bindings
  | _ => none

/-- The turn of the loop over the nodes that checks the ports and the bindings of one. -/
def checkNode (flow : Flow) (node : PlanNode) : Except R2Failure Flow := do
  let found ← ports payload at' judgment plan node
  match bindings? node.kind with
  | none => return flow
  | some bindings =>
    require (bindings.map InputBinding.port).Nodup (.invalid at' none)
    let flow ← bindings.foldlM (checkBinding payload at' judgment plan t node) flow
    match found.inputs with
    | none => return flow
    | some inputs =>
      Shapes.unique at' (inputs.map OpenPort.name)
      return flow

/-- A link. -/
def checkLink (flow : Flow) (link : Link) : Except R2Failure Flow := do
  let source ← endpoint payload at' judgment plan link.source .output false
  let target ← endpoint payload at' judgment plan link.target .input false
  require (round plan t source.node.id = round plan t target.node.id) (.invalid at' none)
  Shapes.compatible at' source.contract target.contract
  let flow ← dataEdge at' plan t flow source.node.id target.node.id
  return flow.supply target.node.id link.target.port link.target.path .link

/-- The supply of an input by the state of a feedback node. -/
def isInitializer (id slot : String) (path : List String) (s : List String × Supply) : Bool :=
  match s.2 with
  | .bound (.state feedbackRef name) => feedbackRef.id = id ∧ name = slot ∧ s.1 = path
  | _ => false

/-- An input that some state supplies. -/
def isState (s : List String × Supply) : Bool :=
  match s.2 with
  | .bound (.state _ _) => true
  | _ => false

/-- An update of a feedback node. It is an edge between rounds, which `graph` does not have. -/
def checkUpdate (node : PlanNode) (f : Feedback) (flow : Flow) (update : StateUpdate) :
    Except R2Failure Flow := do
  let source ← endpoint payload at' judgment plan update.source .output false
  let target ← endpoint payload at' judgment plan update.nextInput .input false
  let state ← orFail (.invalid at' none) (f.state.find? fun s => s.name = update.stateSlot)
  require (within plan t source.node.id f.body.id ∧ within plan t target.node.id f.body.id)
    (.invalid at' none)
  let c ← normalContract payload at' state.contractRef
  Shapes.compatible at' source.contract c
  Shapes.compatible at' c target.contract
  let existing := flow.suppliesOf target.node.id update.nextInput.port
  let initializers := existing.filter (isInitializer node.id state.name update.nextInput.path)
  require (initializers.length ≤ 1 ∧ (existing.any isState → initializers.length = 1))
    (.invalid at' none)
  if initializers = [] then
    return flow.supply target.node.id update.nextInput.port update.nextInput.path .feedback
  else return flow

/-- A state of a feedback node. -/
def checkState (state : StateSlot) : Except R2Failure Unit := do
  fits at' (← normalContract payload at' state.contractRef) state.initial

/-- How a feedback node ends. -/
def checkTermination (termination : Termination) : Except R2Failure Unit :=
  match termination with
  | .condition holds => discard (get payload at' (conditionOf payload) holds)
  | .ongoing => .ok ()

/-- A feedback node. -/
def checkFeedback (flow : Flow) (node : PlanNode) : Except R2Failure Flow :=
  match node.kind with
  | .feedback f => do
    Shapes.unique at' (f.state.map StateSlot.name)
    Shapes.unique at' (f.updates.map StateUpdate.stateSlot)
    require (f.state ≠ [] ∧ f.state.length = f.updates.length) (.invalid at' none)
    checkTermination payload at' f.termination
    let output ← endpoint payload at' judgment plan f.output .output false
    require (within plan t output.node.id f.body.id) (.invalid at' none)
    let flow := flow.addEdge output.node.id node.id
    f.state.forM (checkState payload at')
    f.updates.foldlM (checkUpdate payload at' judgment plan t node f) flow
  | _ => .ok flow

end Flow

section Contexts

/-- What is known of the plan of a judgment. -/
structure Context where
  judgment : Judgment
  plan : Plan
  at' : String
  root : String
  branches : Branches
  flow : Flow
  contributing : List String

variable (payload : Payload)

/-- The turn of the first loop for the judgment `i`. -/
def checkPlan (judgment : Judgment × ℕ) : Except R2Failure (Option Context) :=
  match judgment.1.plan with
  | none => .ok none
  | some plan => do
    let at' := "/payload/judgments/" ++ toString judgment.2 ++ "/method/plan"
    let (root, t) ← checkTree payload at' judgment.1 plan
    let flow ← plan.nodes.foldlM (checkNode payload at' judgment.1 plan t) ⟨[], []⟩
    let flow ← plan.links.foldlM (checkLink payload at' judgment.1 plan t) flow
    let flow ← plan.nodes.foldlM (checkFeedback payload at' judgment.1 plan t) flow
    return some ⟨judgment.1, plan, at', root, t, flow, []⟩

/-- `context.endpoint(value, direction, allowSpecial)` -/
def Context.endpoint (c : Context) (value : Endpoint) (direction : Direction)
    (allowSpecial : Bool) : Except R2Failure Reached :=
  Planning.endpoint payload c.at' c.judgment c.plan value direction allowSpecial

/-- `context.round(id)` -/
def Context.round (c : Context) (id : String) : List Char := Planning.round c.plan c.branches id

/-- `branchNodes` -/
def Context.branchNodes (c : Context) (policy : Policy) : List PlanNode :=
  c.plan.nodes.filter fun n => match n.kind with
    | .branch policyRef => policyRef.id = policy.id
    | _ => false

variable (at' : String) (policy : Policy)

/-- `producers`, by their keys. -/
abbrev Producers := List (ProducerKey × Option Contract)

/-- The edge from a producer to a branch of the policy. -/
def branchEdge (c : Context) (source : String) (flow : Flow) (branch : PlanNode) :
    Except R2Failure Flow := do
  require (c.round source = c.round branch.id) (.invalid at' none)
  dataEdge c.at' c.plan c.branches flow source branch.id

/-- One entry of a policy. -/
def checkEntry (s : Option Context × Producers) (entry : Entry) :
    Except R2Failure (Option Context × Producers) := do
  discard (get payload at' (conditionOf payload) entry.holds)
  match entry.emits with
  | .candidate ref =>
    let (owner, candidate) ← orFail (.invalid at' none) (← get payload at' (candidateOf payload) ref)
    require (owner = policy.id ∧ candidate.id ∈ policy.candidates.map Candidate.id)
      (.invalid at' none)
    let k ← normalContract payload at' candidate.contractRef
    return (s.1, upsert (producerKey payload (.candidate ref)) (fun _ => k) s.2)
  | .output source contractRef =>
    let c ← orFail (.invalid at' none) s.1
    let reached ← c.endpoint payload source .output false
    let k ← normalContract payload at' contractRef
    Shapes.compatible at' reached.contract k
    require (reached.node.id ∉ (c.branchNodes policy).map PlanNode.id ∧
      ∀ r ∈ policy.mergeRef?, r.id ≠ reached.node.id) (.invalid at' none)
    let flow ← (c.branchNodes policy).foldlM (branchEdge at' c reached.node.id) c.flow
    return (some { c with flow }, upsert (producerKey payload (.output source)) (fun _ => k) s.2)

/-- A candidate of a policy. -/
def checkCandidate (candidate : Candidate) : Except R2Failure Unit := do
  fits at' (← normalContract payload at' candidate.contractRef) candidate.value

/-- The contract of the output collects emissions of the contract `item` of up to `count` entries. -/
def collects (output item : Option Contract) (count : ℕ) : Except R2Failure Bool :=
  match output, item with
  | some (.result output), some (.result item) =>
    match output.shape with
    | .list itemShape minimum maximum => do
      let same ← Shapes.equal itemShape.json item.shape.json
      return same ∧ output.minimum = minimum ∧ output.maximum = maximum ∧ output.minimum.1 = 0 ∧
        ∀ m ∈ output.maximum, count ≤ m.1
    | _ => .ok false
  | _, _ => .ok true

/-- The contract is the one for the emissions of the policy. -/
def emitsOf (contract : Option Contract) : Bool :=
  match contract with
  | some (.emissionList _ policyRef) => identity payload (policyRefOf policyRef) = (none, policy.id)
  | _ => false

/-- The edge from the output that an entry emits to the node that merges. -/
def gather (merge : String) (flow : Flow) (entry : Entry) : Flow :=
  match entry.emits with
  | .output source _ => flow.addEdge source.node.id merge
  | .candidate _ => flow

/-- How a policy combines what it emits. -/
def checkCombine (output : Option Contract) (s : Option Context × Producers) :
    Except R2Failure (Option Context) :=
  match policy.combine with
  | none => .ok s.1
  | some (.collect itemContractRef _) => do
    let item ← normalContract payload at' itemContractRef
    require (← collects output item policy.entries.length) (.invalid at' none)
    s.2.forM fun p => Shapes.compatible at' p.2 item
    require (policy.onUndetermined = .partially → policy.exclusiveSets = []) (.invalid at' none)
    return s.1
  | some (.authored mergeRef inputPort outputPort _) => do
    let c ← orFail (.invalid at' none) s.1
    require ((c.branchNodes policy).length = 1 ∧ policy.onUndetermined = .defer) (.invalid at' none)
    let branch ← orFail (.invalid at' none) (c.branchNodes policy).head?
    let merge ← orFail (.invalid at' none) (c.plan.node mergeRef.id)
    require (merge.kind.isUse ∧ c.branches.parent merge.id = some branch.id) (.invalid at' none)
    let input ← c.endpoint payload ⟨mergeRef, inputPort, []⟩ .input true
    let merged ← c.endpoint payload ⟨mergeRef, outputPort, []⟩ .output false
    require (emitsOf payload policy input.contract) (.invalid at' none)
    Shapes.compatible at' merged.contract output
    let flow := (c.flow.supply merge.id inputPort [] .policy).addEdge merge.id branch.id
    return some { c with flow := policy.entries.foldl (gather merge.id) flow }

/-- The rules for the entries of a policy. -/
def checkMatch (output : Option Contract) (producers : Producers) : Except R2Failure Unit := do
  match policy.matching with
  | .firstMatch =>
    require (policy.combine.isNone ∧ policy.onUndetermined = .defer) (.invalid at' none)
    producers.forM fun p => Shapes.compatible at' p.2 output
  | .allMatches => require policy.combine.isSome (.invalid at' none)
  require (policy.matching = .firstMatch ∨ policy.combine.any (·.order = .priority) →
    (∀ e ∈ policy.entries, ∃ n ∈ e.priority, n ≤ 2 ^ 53 - 1) ∧
      (policy.entries.map Entry.priority).Nodup) (.invalid at' none)
  require (∀ set ∈ policy.exclusiveSets, 2 ≤ set.length ∧ (set.map (producerKey payload)).Nodup ∧
    ∀ p ∈ set, producerKey payload p ∈ producers.map Prod.fst) (.invalid at' none)
  match policy.onNoMatch with
  | .value contractRef value =>
    let k ← normalContract payload at' contractRef
    Shapes.compatible at' k output
    fits at' k value
  | .other => return ()

/-- The turn of the second loop: the policy of a judgment. -/
def checkPolicy (judgment : (Judgment × ℕ) × Option Context) : Except R2Failure (Option Context) :=
  match judgment.1.1.policy with
  | none => .ok judgment.2
  | some policy => do
    let at' := "/payload/judgments/" ++ toString judgment.1.2 ++ "/formation_rule/policy"
    let output ← normalContract payload at' policy.resultContractRef
    Shapes.compatible at' output (some (.result judgment.1.1.resultContract))
    Shapes.unique at' (policy.candidates.map Candidate.id)
    policy.candidates.forM (checkCandidate payload at')
    let s ← policy.entries.foldlM (checkEntry payload at' policy) (judgment.2, [])
    checkMatch payload at' policy output s.2
    let context ← checkCombine payload at' policy output s
    require (policy.onUndetermined = .partially → policy.matching = .allMatches ∧
      policy.combine.any fun k => match k with
        | .collect _ _ => true
        | _ => false) (.invalid at' none)
    return context

/-- An input of a node is supplied. -/
def checkInput (c : Context) (node : PlanNode) (port : OpenPort) : Except R2Failure Unit := do
  let k ← port.contract.whole payload c.at' true
  let supplies := c.flow.suppliesOf node.id port.name
  match k with
  | some (.emissionList _ policyRef) =>
    require (supplies.length = 1 ∧ supplies.all fun s => match s.2 with
      | .policy => true
      | _ => false) (.invalid c.at' none)
    let (_, policy) ← orFail (.invalid c.at' none)
      (← get payload c.at' (policyOf payload) (policyRefOf policyRef))
    require (policy.mergesAt node.id port.name) (.invalid c.at' none)
  | some (.result k) =>
    require (supplies ≠ []) (.invalid c.at' none)
    Shapes.completeBindings c.at' (supplies.map Prod.fst) k.shape
  | none => require (supplies ≠ []) (.invalid c.at' none)

/-- An output of a node has a contract. -/
def checkOutput (c : Context) (port : OpenPort) : Except R2Failure Unit :=
  match port.contract with
  | .ref target => discard (contract payload c.at' false target)
  | .resolved _ => .ok ()

/-- The inputs and outputs of a node. -/
def checkSupplies (c : Context) (node : PlanNode) : Except R2Failure Unit :=
  match bindings? node.kind with
  | none => .ok ()
  | some _ => do
    let found ← ports payload c.at' c.judgment c.plan node
    match found.inputs with
    | none => return ()
    | some inputs =>
      inputs.forM (checkInput payload c node)
      (found.outputs.getD []).forM (checkOutput payload c)

/-- The nodes behind a node in `graph`. -/
def Flow.next (flow : Flow) (id : String) : List String :=
  (flow.edges.filter fun e => e.1 = id).map Prod.snd

/-- An item of the result bindings. -/
def checkResult (c : Context) (binding : ResultBinding) : Except R2Failure Unit := do
  let source ← c.endpoint payload binding.source .output false
  require (c.round source.node.id = []) (.invalid c.at' none)
  let k ← Shapes.projected c.at' (some (.result c.judgment.resultContract)) binding.path
  Shapes.compatible c.at' source.contract k

/-- `reverse.get(id)`: where the edges to a node come from, and the updates of its inputs for the
next round. -/
def Context.reverse (c : Context) (id : String) : List String :=
  (c.flow.edges.filter fun e => e.2 = id).map Prod.fst ++ c.plan.nodes.flatMap fun n =>
    match n.kind with
    | .feedback f => (f.updates.filter fun u => u.nextInput.node.id = id).map fun u => u.source.node.id
    | _ => []

/-- `contributing`: the nodes that the result is read from, and all that these depend on. -/
def Context.influence (c : Context) : Except R2Failure (List String) :=
  let found := (c.plan.resultBindings.map fun b => b.source.node.id).eraseDups
  reach .typeError (c.plan.nodes.map PlanNode.id) c.reverse (found.length + c.plan.nodes.length)
    found found

/-- The turn of the third loop: the supplies of a plan, its graph and its result. -/
def checkFlow (context : Option Context) : Except R2Failure (Option Context) :=
  match context with
  | none => .ok none
  | some c => do
    c.plan.nodes.forM (checkSupplies payload c)
    require (acyclic c.flow.next (c.plan.nodes.map PlanNode.id)) (.invalid c.at' none)
    c.plan.resultBindings.forM (checkResult payload c)
    Shapes.completeBindings c.at' (c.plan.resultBindings.map ResultBinding.path)
      c.judgment.resultContract.shape
    return some { c with contributing := ← c.influence }

end Contexts

section Methods

variable (payload : Payload) (contexts : List (Option Context))

/-- `callGraph.get(id)`: the judgments of the asset that the nodes of a plan use. -/
def calls (id : String) : List String :=
  ((judgmentOf payload id).bind Judgment.plan).elim [] fun plan => plan.nodes.flatMap fun n =>
    match n.kind with
    | .judgmentUse judgmentRef _ => if isLocal payload judgmentRef then [judgmentRef.id] else []
    | _ => []

/-- `contexts.get(id)` -/
def contextOf (id : String) : Option Context :=
  contexts.findSome? fun c => c.filter fun c => c.judgment.id = id

/-- The methods of a node, where `methodsOf` finds those of a judgment. -/
def nodeMethods (methodsOf : String → Except R2Failure (List String)) (at' : String)
    (kind : NodeKind) : Except R2Failure (List String) :=
  match kind with
  | .use unitRef _ => do
    let (_, unit) ← orFail .typeError (← get payload at' (unitOf payload) unitRef)
    return [unit.method]
  | .judgmentUse judgmentRef _ => do
    match ← get payload at' (judgmentOf payload) judgmentRef with
    | none => return []
    | some j => methodsOf j.id
  | _ => .ok []

/-- `actualMethods(id)`, down to some level of the calls. -/
def actualMethods : ℕ → String → Except R2Failure (List String)
  | 0, _ => .error .typeError
  | levels + 1, id =>
    match contextOf contexts id with
    | none => do
      let j ← orFail .typeError (judgmentOf payload id)
      return [j.method]
    | some c => do
      let methods ← (c.plan.nodes.filter fun n => n.id ∈ c.contributing).mapM fun n =>
        nodeMethods payload (actualMethods levels) c.at' n.kind
      return methods.flatten.dedup

/-- The methods that a judgment applies are those that it declares. `external` tells whether a
mandatory reference of the judgment leads out of the asset. -/
def checkMethod (external : String → Bool) (judgment : Judgment) : Except R2Failure Unit :=
  match contextOf contexts judgment.id with
  | none => .ok ()
  | some c => do
    let methods ← actualMethods payload contexts (payload.judgments.length + 1) judgment.id
    if judgment.method = "composite" then
      require (2 ≤ methods.length ∨ external judgment.id = true) (.invalid c.at' none)
    else require (∀ m ∈ methods, m = judgment.method) (.invalid c.at' none)

/-- The unit that the node uses, if it uses one. -/
def NodeKind.unitRef? : NodeKind → Option Named
  | .use unitRef _ => some unitRef
  | _ => none

/-- An emission list is the contract of one port: the input that merges what its policy emits. -/
def checkDedicated (contract : (String × Contract) × ℕ) : Except R2Failure Unit :=
  match contract.1.2 with
  | .result _ => .ok ()
  | .emissionList _ policyRef => do
    let at' := "/payload/contracts/" ++ toString contract.2
    let (owner, policy) ← orFail (.invalid at' none)
      (← get payload at' (policyOf payload) (policyRefOf policyRef))
    match policy.combine with
    | some (.authored mergeRef inputPort _ _) =>
      let c ← orFail (.invalid at' none) (contextOf contexts owner)
      let merge ← orFail (.invalid at' none) (c.plan.node mergeRef.id)
      let unitRef ← orFail (.invalid at' none) merge.kind.unitRef?
      let (_, unit) ← orFail .typeError (← get payload at' (unitOf payload) unitRef)
      let isIts (p : Port) : Bool := identity payload p.contractRef = (none, contract.1.1)
      let units := payload.judgments.flatMap Judgment.units
      require (∀ u ∈ units, (∀ p ∈ u.inputs.filter isIts, u.id = unit.id ∧ p.name = inputPort) ∧
        u.outputs.filter isIts = []) (.invalid at' none)
      require ((units.flatMap fun u => u.inputs.filter isIts).length = 1 ∧
        (c.plan.nodes.filter fun n => n.kind.unitRef?.any fun r => r.id = unit.id).length = 1)
        (.invalid at' none)
    | _ => .error (.invalid at' none)

/-- The three loops over the judgments: their plans, their policies, and the flow of their data. -/
def reviewPlans : Except R2Failure (List (Option Context)) := do
  let contexts ← payload.judgments.zipIdx.mapM (checkPlan payload)
  let contexts ← (payload.judgments.zipIdx.zip contexts).mapM (checkPolicy payload)
  contexts.mapM (checkFlow payload)

/-- `checkPlans(payload, registry, normalContract)` -/
def checkPlans (external : String → Bool) : Except R2Failure (List (Option Context)) := do
  let contexts ← reviewPlans payload
  require (acyclic (calls payload) (payload.judgments.map Judgment.id))
    (.invalid "/payload/judgments/method/plan" none)
  payload.judgments.forM (checkMethod payload contexts external)
  payload.contracts.zipIdx.forM (checkDedicated payload contexts)
  return contexts

end Methods

end Kdna.Planning

import Kdna.Planning.Placement

/-!
# The edges of a plan

Data passes between the nodes of a plan along its links, out of the rounds of a feedback node, and
to the branches and the node that merges what a policy emits. Each check adds the edges that it is
about to the graph of the plan and keeps those that are there, so that all of them are in the graph
that must have no cycle.
-/

namespace Kdna.Planning

open Plans (Named Endpoint)
open Shapes (R2Failure Contract)

/-- Data passes from a node of the plan to another one within a round. -/
inductive DataEdge (judgment : Judgment) (plan : Plan) : String → String → Prop
  | link {l : Link} (hl : l ∈ plan.links) :
    DataEdge judgment plan l.source.node.id l.target.node.id
  | output {n : PlanNode} {f : Feedback} (hn : n ∈ plan.nodes) (hkind : n.kind = .feedback f) :
    DataEdge judgment plan f.output.node.id n.id
  | emitted {policy : Policy} {e : Entry} {source : Endpoint} {contractRef policyRef : Named}
    {n : PlanNode} (hpolicy : judgment.policy = some policy) (he : e ∈ policy.entries)
    (hemits : e.emits = .output source contractRef) (hn : n ∈ plan.nodes)
    (hkind : n.kind = .branch policyRef) : DataEdge judgment plan source.node.id n.id
  | gathered {policy : Policy} {e : Entry} {source : Endpoint} {contractRef mergeRef : Named}
    (hpolicy : judgment.policy = some policy) (he : e ∈ policy.entries)
    (hemits : e.emits = .output source contractRef) (hmerge : policy.mergeRef? = some mergeRef) :
    DataEdge judgment plan source.node.id mergeRef.id
  | merged {policy : Policy} {mergeRef policyRef : Named} {n : PlanNode}
    (hpolicy : judgment.policy = some policy) (hmerge : policy.mergeRef? = some mergeRef)
    (hn : n ∈ plan.nodes) (hkind : n.kind = .branch policyRef) :
    DataEdge judgment plan mergeRef.id n.id

/-- The state of a round passes from a node of the plan to another one in the next round. -/
def StateEdge (plan : Plan) (a b : String) : Prop :=
  ∃ n ∈ plan.nodes, ∃ f, n.kind = .feedback f ∧
    ∃ u ∈ f.updates, u.source.node.id = a ∧ u.nextInput.node.id = b

/-- The result of the judgment depends on what the node puts out, in this round or a later one. -/
def Contributes (judgment : Judgment) (plan : Plan) (a : String) : Prop :=
  ∃ b ∈ plan.resultBindings, Relation.ReflTransGen
    (fun a b => DataEdge judgment plan a b ∨ StateEdge plan a b) a b.source.node.id

section Flows

variable {payload : Payload} {at' : String} {judgment : Judgment} {plan : Plan} {t : Branches}
  {node : PlanNode} {flow flow' : Flow} {a b : String}

/-- What is checked of an edge from an output of `a` to `b`. -/
structure EdgeChecked (at' : String) (plan : Plan) (t : Branches) (a b : String) : Prop where
  source : ∃ n ∈ plan.nodes, n.id = a ∧ (∀ cs, n.kind ≠ .sequence cs) ∧ ∀ cs, n.kind ≠ .parallel cs
  target : b ∈ plan.ids
  round : round plan t a = round plan t b
  distinct : a ≠ b
  ordered : ordered at' plan t a b = .ok ()

/-- A flow has the edges of another one, and others only where `P` holds. -/
def Flow.Adds (P : String → String → Prop) (f g : Flow) : Prop :=
  f.edges ⊆ g.edges ∧ ∀ e ∈ g.edges, e ∈ f.edges ∨ P e.1 e.2

theorem Flow.Adds.refl {P : String → String → Prop} (f : Flow) : f.Adds P f :=
  ⟨List.Subset.refl _, fun _ he => Or.inl he⟩

theorem Flow.Adds.trans {P : String → String → Prop} {f g h : Flow} (hfg : f.Adds P g)
    (hgh : g.Adds P h) : f.Adds P h := by
  refine ⟨List.Subset.trans hfg.1 hgh.1, ?_⟩
  intro e he
  rcases hgh.2 e he with he | hP
  · exact hfg.2 e he
  · exact Or.inr hP

theorem Flow.Adds.of_eq {P : String → String → Prop} {f g : Flow} (h : g.edges = f.edges) :
    f.Adds P g := by
  rw [Flow.Adds, h]
  exact Flow.Adds.refl f

theorem Flow.adds_addEdge {P : String → String → Prop} (f : Flow) (h : P a b) :
    f.Adds P (f.addEdge a b) := by
  refine ⟨List.subset_append_left _ _, ?_⟩
  intro e he
  rcases List.mem_append.mp he with he | he
  · exact Or.inl he
  · rw [List.mem_singleton.mp he]
    exact Or.inr h

theorem Flow.mem_addEdge (f : Flow) : (a, b) ∈ (f.addEdge a b).edges :=
  List.mem_append_right _ (List.mem_singleton_self _)

theorem edges_of_foldlM {α : Type} {step : Flow → α → Except R2Failure Flow} {l : List α}
    (hstep : ∀ f a g, step f a = .ok g → g.edges = f.edges) (h : l.foldlM step flow = .ok flow') :
    flow'.edges = flow.edges :=
  (foldlM_rel (R := fun f g : Flow => g.edges = f.edges) (fun _ => rfl)
    (fun _ _ _ h₁ h₂ => h₂.trans h₁) (fun f a g _ => hstep f a g) h).1

theorem dataEdge_spec (h : dataEdge at' plan t flow a b = .ok flow') :
    a ≠ b ∧ ordered at' plan t a b = .ok () ∧ flow' = flow.addEdge a b := by
  simp only [dataEdge, bind_eq_ok_iff, require_eq_ok_iff, pure_eq_ok] at h
  obtain ⟨_, hne, _, hordered, heq⟩ := h
  exact ⟨hne, hordered, (Except.ok.inj heq).symm⟩

/-- A binding adds no edge. -/
theorem checkBinding_edges {binding : InputBinding}
    (h : checkBinding payload at' judgment plan t node flow binding = .ok flow') :
    flow'.edges = flow.edges := by
  rw [checkBinding, bind_eq_ok_iff] at h
  obtain ⟨target, -, h⟩ := h
  obtain ⟨s, rfl⟩ : ∃ s, flow' = flow.supply node.id binding.port [] s := by
    cases hsource : binding.source with
    | literal value =>
      simp only [hsource, bind_eq_ok_iff, pure_eq_ok] at h
      obtain ⟨_, -, heq⟩ := h
      exact ⟨_, (Except.ok.inj heq).symm⟩
    | input name =>
      simp only [hsource, bind_eq_ok_iff, pure_eq_ok] at h
      obtain ⟨_, -, _, -, _, -, heq⟩ := h
      exact ⟨_, (Except.ok.inj heq).symm⟩
    | state feedbackRef slot =>
      simp only [hsource, bind_eq_ok_iff, pure_eq_ok] at h
      obtain ⟨node', -, h⟩ := h
      cases hkind : node'.kind with
      | feedback f =>
        simp only [hkind, bind_eq_ok_iff] at h
        obtain ⟨_, -, _, -, _, -, _, -, _, -, heq⟩ := h
        exact ⟨_, (Except.ok.inj heq).symm⟩
      | _ =>
        rw [hkind] at h
        cases h
  rfl

theorem checkNode_spec (h : checkNode payload at' judgment plan t flow node = .ok flow') :
    flow'.edges = flow.edges ∧ ∃ found, ports payload at' judgment plan node = .ok found := by
  rw [checkNode, bind_eq_ok_iff] at h
  obtain ⟨found, hfound, h⟩ := h
  refine ⟨?_, found, hfound⟩
  cases hbindings : bindings? node.kind with
  | none =>
    rw [hbindings] at h
    obtain rfl := Except.ok.inj h
    rfl
  | some bindings =>
    simp only [hbindings, bind_eq_ok_iff] at h
    obtain ⟨_, -, flow₁, hfold, h⟩ := h
    have hkeep := edges_of_foldlM (fun _ _ _ => checkBinding_edges) hfold
    cases hinputs : found.inputs with
    | none =>
      rw [hinputs] at h
      obtain rfl := Except.ok.inj h
      exact hkeep
    | some inputs =>
      simp only [hinputs, bind_eq_ok_iff, pure_eq_ok] at h
      obtain ⟨_, -, heq⟩ := h
      obtain rfl := Except.ok.inj heq
      exact hkeep

theorem checkLink_spec (hj : judgment ∈ payload.judgments) (hplan : judgment.plan = some plan)
    {link : Link} (h : checkLink payload at' judgment plan t flow link = .ok flow') :
    EdgeChecked at' plan t link.source.node.id link.target.node.id ∧
      flow'.edges = flow.edges ++ [(link.source.node.id, link.target.node.id)] := by
  simp only [checkLink, bind_eq_ok_iff, require_eq_ok_iff, pure_eq_ok] at h
  obtain ⟨source, hsource, target, htarget, _, hround, _, -, flow₁, hedge, heq⟩ := h
  obtain rfl := Except.ok.inj heq
  obtain ⟨hne, hordered, rfl⟩ := dataEdge_spec hedge
  obtain ⟨hmem, hid⟩ := endpoint_node hj hplan hsource
  obtain ⟨hmem', hid'⟩ := endpoint_node hj hplan htarget
  rw [← hid, ← hid']
  exact ⟨⟨⟨source.node, hmem, rfl, endpoint_output hsource⟩, List.mem_map_of_mem hmem', hround, hne,
    hordered⟩, rfl⟩

/-- An update adds no edge: it leads to the next round. -/
theorem checkUpdate_edges {f : Feedback} {update : StateUpdate}
    (h : checkUpdate payload at' judgment plan t node f flow update = .ok flow') :
    flow'.edges = flow.edges := by
  simp only [checkUpdate, bind_eq_ok_iff, pure_eq_ok] at h
  obtain ⟨_, -, _, -, _, -, _, -, _, -, _, -, _, -, _, -, h⟩ := h
  split_ifs at h
  · obtain rfl := Except.ok.inj h
    rfl
  · obtain rfl := Except.ok.inj h
    rfl

theorem checkFeedback_spec (hj : judgment ∈ payload.judgments) (hplan : judgment.plan = some plan)
    (hnode : node ∈ plan.nodes)
    (h : checkFeedback payload at' judgment plan t flow node = .ok flow') :
    flow.Adds (DataEdge judgment plan) flow' ∧ ∀ f, node.kind = .feedback f →
      f.output.node.id ∈ plan.ids ∧ within plan t f.output.node.id f.body.id = true ∧
        (f.output.node.id, node.id) ∈ flow'.edges := by
  rw [checkFeedback] at h
  cases hkind : node.kind with
  | feedback f =>
    simp only [hkind, bind_eq_ok_iff, require_eq_ok_iff] at h
    obtain ⟨_, -, _, -, _, -, _, -, output, houtput, _, hwithin, _, -, hfold⟩ := h
    obtain ⟨hmem, hid⟩ := endpoint_node hj hplan houtput
    have hkeep := edges_of_foldlM (fun _ _ _ => checkUpdate_edges) hfold
    rw [hid] at hkeep
    constructor
    · exact (flow.adds_addEdge (.output hnode hkind)).trans (.of_eq hkeep)
    · intro g hg
      obtain rfl := NodeKind.feedback.inj hg
      refine ⟨hid ▸ List.mem_map_of_mem hmem, hid ▸ hwithin, ?_⟩
      rw [hkeep]
      exact flow.mem_addEdge
  | _ =>
    rw [hkind] at h
    obtain rfl := Except.ok.inj h
    exact ⟨.refl _, fun f hf => by cases hf⟩

end Flows

section Plans

variable {payload : Payload} {judgment : Judgment} {plan : Plan} {i : ℕ}

/-- What is known of a plan after the loop over the plans. -/
structure Linked (payload : Payload) (judgment : Judgment) (plan : Plan) (c : Context) : Prop where
  judged : c.judgment = judgment
  planned : c.plan = plan
  tree : Treelike judgment plan c.root c.branches
  checked : ∀ l ∈ plan.links,
    EdgeChecked c.at' plan c.branches l.source.node.id l.target.node.id
  inside : ∀ n ∈ plan.nodes, ∀ f, n.kind = .feedback f → f.output.node.id ∈ plan.ids ∧
    within plan c.branches f.output.node.id f.body.id = true
  edges : ∀ e ∈ c.flow.edges, DataEdge judgment plan e.1 e.2
  links : ∀ l ∈ plan.links, (l.source.node.id, l.target.node.id) ∈ c.flow.edges
  outputs : ∀ n ∈ plan.nodes, ∀ f, n.kind = .feedback f → (f.output.node.id, n.id) ∈ c.flow.edges
  ports : ∀ n ∈ plan.nodes, ∃ found, ports payload c.at' judgment plan n = .ok found

theorem checkPlan_spec (hj : judgment ∈ payload.judgments) (hplan : judgment.plan = some plan)
    {context : Option Context} (h : checkPlan payload (judgment, i) = .ok context) :
    ∃ c, context = some c ∧ Linked payload judgment plan c := by
  simp only [checkPlan, hplan, bind_eq_ok_iff, pure_eq_ok] at h
  obtain ⟨⟨root, t⟩, htree, flow₁, hnodes, flow₂, hlinks, flow₃, hfeedback, heq⟩ := h
  refine ⟨_, (Except.ok.inj heq).symm, ?_⟩
  have hnone := edges_of_foldlM (fun _ _ _ h => (checkNode_spec h).1) hnodes
  obtain ⟨-, hnode⟩ := foldlM_rel (R := fun _ _ => True) (fun _ => trivial)
    (fun _ _ _ _ _ => trivial) (fun _ _ _ _ _ => trivial) hnodes
  obtain ⟨hlinked, hlink⟩ := foldlM_rel (R := Flow.Adds (DataEdge judgment plan)) .refl
    (fun _ _ _ => .trans) (fun f l g hl hstep => by
      obtain ⟨-, hedges⟩ := checkLink_spec hj hplan hstep
      exact (f.adds_addEdge (.link hl)).trans (.of_eq hedges)) hlinks
  obtain ⟨hfed, houtput⟩ := foldlM_rel (R := Flow.Adds (DataEdge judgment plan)) .refl
    (fun _ _ _ => .trans) (fun f n g hn hstep => (checkFeedback_spec hj hplan hn hstep).1) hfeedback
  constructor
  · rfl
  · rfl
  · exact checkTree_spec hj hplan htree
  · intro l hl
    obtain ⟨f, g, hstep, -⟩ := hlink l hl
    exact (checkLink_spec hj hplan hstep).1
  · intro n hn f hkind
    obtain ⟨g, g', hstep, -⟩ := houtput n hn
    obtain ⟨hmem, hwithin, -⟩ := (checkFeedback_spec hj hplan hn hstep).2 f hkind
    exact ⟨hmem, hwithin⟩
  · intro e he
    rcases (hlinked.trans hfed).2 e he with he | he
    · rw [hnone] at he
      cases he
    · exact he
  · intro l hl
    obtain ⟨f, g, hstep, -, hrest⟩ := hlink l hl
    apply (hrest.trans hfed).1
    rw [(checkLink_spec hj hplan hstep).2]
    exact f.mem_addEdge
  · intro n hn f hkind
    obtain ⟨g, g', hstep, -, hrest⟩ := houtput n hn
    exact hrest.1 ((checkFeedback_spec hj hplan hn hstep).2 f hkind).2.2
  · intro n hn
    obtain ⟨g, g', hstep, -⟩ := hnode n hn
    exact (checkNode_spec hstep).2

end Plans

section Policies

variable {payload : Payload} {judgment : Judgment} {plan : Plan} {at' : String} {policy : Policy}
  {c : Context} {i : ℕ}

/-- A plan with a flow that has more edges. -/
def Context.Grows (c c' : Context) : Prop :=
  ∃ flow, c' = { c with flow } ∧ c.flow.Adds (DataEdge c.judgment c.plan) flow

theorem Context.Grows.refl (c : Context) : c.Grows c := ⟨c.flow, rfl, .refl _⟩

theorem Context.Grows.trans {c' c'' : Context} (h : c.Grows c') (h' : c'.Grows c'') :
    c.Grows c'' := by
  obtain ⟨flow, rfl, hflow⟩ := h
  obtain ⟨flow', rfl, hflow'⟩ := h'
  exact ⟨flow', rfl, hflow.trans hflow'⟩

theorem Context.Grows.edges {c' : Context} (h : c.Grows c') : c.flow.edges ⊆ c'.flow.edges := by
  obtain ⟨flow, rfl, hsub, -⟩ := h
  exact hsub

theorem Context.Grows.branchNodes {c' : Context} (h : c.Grows c') :
    c'.branchNodes policy = c.branchNodes policy := by
  obtain ⟨flow, rfl, -⟩ := h
  rfl

theorem Linked.grow {c' : Context} (h : Linked payload judgment plan c) (hgrows : c.Grows c') :
    Linked payload judgment plan c' := by
  obtain ⟨flow, rfl, hsub, hnew⟩ := hgrows
  refine ⟨h.judged, h.planned, h.tree, h.checked, h.inside, ?_, ?_, ?_, h.ports⟩
  · intro e he
    rcases hnew e he with he | he
    · exact h.edges e he
    · rwa [h.judged, h.planned] at he
  · exact fun l hl => hsub (h.links l hl)
  · exact fun n hn f hkind => hsub (h.outputs n hn f hkind)

/-- The branches of the plan are those of the policy of its judgment. -/
theorem Linked.mem_branchNodes (h : Linked payload judgment plan c) (hpolicy : judgment.policy = some policy)
    {n : PlanNode} : n ∈ c.branchNodes policy ↔
      n ∈ plan.nodes ∧ ∃ policyRef, n.kind = .branch policyRef := by
  rw [Context.branchNodes, h.planned, List.mem_filter]
  refine and_congr_right fun hn => ?_
  cases hkind : n.kind with
  | branch policyRef =>
    obtain ⟨p, hp, hid⟩ := h.tree.policy n hn policyRef hkind
    obtain rfl := Option.some.inj (hpolicy.symm.trans hp)
    exact ⟨fun _ => ⟨policyRef, rfl⟩, fun _ => decide_eq_true hid.symm⟩
  | _ => exact ⟨fun hfalse => absurd hfalse Bool.false_ne_true, fun ⟨_, hbranch⟩ => by cases hbranch⟩

/-- What is known of an output that the policy emits. -/
structure Emitted.Checked (policy : Policy) (c : Context) (source : Endpoint) : Prop where
  planned : source.node.id ∈ c.plan.ids
  apart : source.node.id ∉ (c.branchNodes policy).map PlanNode.id
  merge : ∀ r ∈ policy.mergeRef?, r.id ≠ source.node.id
  checked : ∀ n ∈ c.branchNodes policy, EdgeChecked c.at' c.plan c.branches source.node.id n.id

theorem Emitted.Checked.grow {c' : Context} {source : Endpoint} (h : Emitted.Checked policy c source)
    (hgrows : c.Grows c') : Emitted.Checked policy c' source := by
  obtain ⟨flow, rfl, -⟩ := hgrows
  exact ⟨h.planned, h.apart, h.merge, h.checked⟩

theorem branchEdge_spec {flow flow' : Flow} {source : String} {n : PlanNode}
    (h : branchEdge at' c source flow n = .ok flow') :
    c.round source = c.round n.id ∧ source ≠ n.id ∧
      ordered c.at' c.plan c.branches source n.id = .ok () ∧ flow' = flow.addEdge source n.id := by
  simp only [branchEdge, bind_eq_ok_iff, require_eq_ok_iff] at h
  obtain ⟨_, hround, hedge⟩ := h
  exact ⟨hround, dataEdge_spec hedge⟩

theorem checkEntry_spec (hj : judgment ∈ payload.judgments) (hplan : judgment.plan = some plan)
    (hpolicy : judgment.policy = some policy) (hc : Linked payload judgment plan c) {e : Entry}
    (he : e ∈ policy.entries) {found : Producers} {s : Option Context × Producers}
    (h : checkEntry payload at' policy (some c, found) e = .ok s) :
    ∃ c', s.1 = some c' ∧ c.Grows c' ∧ ∀ source contractRef, e.emits = .output source contractRef →
      Emitted.Checked policy c source ∧
        ∀ n ∈ c.branchNodes policy, (source.node.id, n.id) ∈ c'.flow.edges := by
  rw [checkEntry, bind_eq_ok_iff] at h
  obtain ⟨_, -, h⟩ := h
  cases hemits : e.emits with
  | candidate ref =>
    simp only [hemits, bind_eq_ok_iff, pure_eq_ok] at h
    obtain ⟨_, -, _, -, _, -, _, -, heq⟩ := h
    obtain rfl := Except.ok.inj heq
    exact ⟨c, rfl, .refl c, fun _ _ hout => by cases hout⟩
  | output source contractRef =>
    simp only [hemits, bind_eq_ok_iff, require_eq_ok_iff, orFail_eq_ok_iff, pure_eq_ok] at h
    obtain ⟨_, hsome, reached, hreached, _, -, _, -, _, ⟨hapart, hmerge⟩, flow, hfold, heq⟩ := h
    obtain rfl := Option.some.inj hsome
    obtain rfl := Except.ok.inj heq
    have hplanned : judgment.plan = some c.plan := by rw [hplan, hc.planned]
    rw [Context.endpoint, hc.judged] at hreached
    obtain ⟨hmem, hid⟩ := endpoint_node hj hplanned hreached
    rw [hid] at hapart hmerge hfold
    obtain ⟨hadds, hall⟩ := foldlM_rel (R := Flow.Adds (DataEdge c.judgment c.plan)) .refl
      (fun _ _ _ => .trans) (fun f n g hn hstep => by
        obtain ⟨hnode, policyRef, hkind⟩ := (hc.mem_branchNodes hpolicy).mp hn
        obtain ⟨-, -, -, rfl⟩ := branchEdge_spec hstep
        apply f.adds_addEdge
        rw [hc.judged, hc.planned]
        exact .emitted hpolicy he hemits hnode hkind) hfold
    refine ⟨_, rfl, ⟨flow, rfl, hadds⟩, ?_⟩
    intro source' contractRef' heq
    obtain ⟨rfl, rfl⟩ := Emitted.output.inj heq
    refine ⟨⟨hid ▸ List.mem_map_of_mem hmem, hapart, hmerge, ?_⟩, ?_⟩
    · intro n hn
      obtain ⟨f, g, hstep, -⟩ := hall n hn
      obtain ⟨hround, hne, hordered, -⟩ := branchEdge_spec hstep
      have htarget : n.id ∈ c.plan.ids := by
        rw [hc.planned]
        exact List.mem_map_of_mem ((hc.mem_branchNodes hpolicy).mp hn).1
      exact ⟨⟨reached.node, hmem, hid, endpoint_output hreached⟩, htarget, hround, hne, hordered⟩
    · intro n hn
      obtain ⟨f, g, hstep, -, hrest⟩ := hall n hn
      obtain ⟨-, -, -, rfl⟩ := branchEdge_spec hstep
      exact hrest.1 f.mem_addEdge

/-- The entries that emit an output lead to the node that merges. -/
theorem edges_gather (merge : String) (entries : List Entry) (flow : Flow) :
    flow.Adds (fun a b => b = merge ∧ ∃ e ∈ entries, ∃ source contractRef,
        e.emits = .output source contractRef ∧ source.node.id = a)
      (entries.foldl (gather merge) flow) ∧
    ∀ e ∈ entries, ∀ source contractRef, e.emits = .output source contractRef →
      (source.node.id, merge) ∈ (entries.foldl (gather merge) flow).edges := by
  induction entries generalizing flow with
  | nil => exact ⟨.refl flow, fun e he => absurd he List.not_mem_nil⟩
  | cons e entries ih =>
    obtain ⟨⟨hsub, hnew⟩, hall⟩ := ih (gather merge flow e)
    rw [List.foldl_cons]
    have hgrow : flow.edges ⊆ (gather merge flow e).edges := by
      rw [gather]
      split
      · exact List.subset_append_left _ _
      · exact List.Subset.refl _
    refine ⟨⟨List.Subset.trans hgrow hsub, ?_⟩, ?_⟩
    · intro x hx
      rcases hnew x hx with hx | ⟨hmerge, e', he', hrest⟩
      · rw [gather] at hx
        cases hemits : e.emits with
        | candidate ref =>
          rw [hemits] at hx
          exact Or.inl hx
        | output source contractRef =>
          rw [hemits] at hx
          rcases List.mem_append.mp hx with hx | hx
          · exact Or.inl hx
          · rw [List.mem_singleton.mp hx]
            exact Or.inr ⟨rfl, e, List.mem_cons_self, source, contractRef, hemits, rfl⟩
      · exact Or.inr ⟨hmerge, e', List.mem_cons_of_mem e he', hrest⟩
    · intro e' he' source contractRef hemits
      rcases List.mem_cons.mp he' with rfl | he'
      · apply hsub
        rw [gather, hemits]
        exact flow.mem_addEdge
      · exact hall e' he' source contractRef hemits

/-- What is known of the node that merges what the policy emits. -/
structure MergeChecked (policy : Policy) (c : Context) (r : Named) : Prop where
  branch : ∃ n, n ∈ c.branchNodes policy
  leaf : ∃ n ∈ c.plan.nodes, n.id = r.id ∧ n.kind.isUse = true
  below : ∀ n ∈ c.branchNodes policy, c.branches.parent r.id = some n.id
  back : ∀ n ∈ c.branchNodes policy, (r.id, n.id) ∈ c.flow.edges
  gathered : ∀ e ∈ policy.entries, ∀ source contractRef, e.emits = .output source contractRef →
    (source.node.id, r.id) ∈ c.flow.edges

theorem checkCombine_spec (hpolicy : judgment.policy = some policy) (hc : Linked payload judgment plan c)
    {output : Option Contract} {found : Producers} {context : Option Context}
    (h : checkCombine payload at' policy output (some c, found) = .ok context) :
    ∃ c', context = some c' ∧ c.Grows c' ∧
      ∀ r, policy.mergeRef? = some r → MergeChecked policy c' r := by
  rw [checkCombine] at h
  cases hcombine : policy.combine with
  | none =>
    rw [hcombine] at h
    obtain rfl := Except.ok.inj h
    refine ⟨c, rfl, .refl c, ?_⟩
    intro r hr
    rw [Policy.mergeRef?, hcombine] at hr
    cases hr
  | some combine =>
    cases combine with
    | collect itemContractRef order =>
      simp only [hcombine, bind_eq_ok_iff, pure_eq_ok] at h
      obtain ⟨_, -, _, -, _, -, _, -, _, -, heq⟩ := h
      obtain rfl := Except.ok.inj heq
      refine ⟨c, rfl, .refl c, ?_⟩
      intro r hr
      rw [Policy.mergeRef?, hcombine] at hr
      cases hr
    | authored mergeRef inputPort outputPort order =>
      simp only [hcombine, bind_eq_ok_iff, require_eq_ok_iff, orFail_eq_ok_iff, pure_eq_ok] at h
      obtain ⟨_, hsome, _, ⟨hone, -⟩, branch, hbranch, merge, hmerge, _, ⟨huse, hparent⟩, _, -, _, -,
        _, -, _, -, heq⟩ := h
      obtain rfl := Option.some.inj hsome
      obtain rfl := Except.ok.inj heq
      obtain ⟨x, hx⟩ := List.length_eq_one_iff.mp hone
      have hall : c.branchNodes policy = [branch] := by
        rw [hx, List.head?_cons] at hbranch
        rw [hx, Option.some.inj hbranch]
      have hmem : merge ∈ c.plan.nodes := List.mem_of_find?_eq_some hmerge
      have hid : merge.id = mergeRef.id := by simpa using List.find?_some hmerge
      have hr : policy.mergeRef? = some mergeRef := by rw [Policy.mergeRef?, hcombine]
      obtain ⟨hnode, policyRef, hkind⟩ := (hc.mem_branchNodes hpolicy).mp
        (hall ▸ List.mem_singleton_self branch)
      obtain ⟨⟨hsub, hnew⟩, hgathered⟩ := edges_gather merge.id policy.entries
        ((c.flow.supply merge.id inputPort [] .policy).addEdge merge.id branch.id)
      refine ⟨_, rfl, ⟨_, rfl, ?_, ?_⟩, ?_⟩
      · exact List.Subset.trans (List.subset_append_left _ _) hsub
      · intro e he
        rw [hc.judged, hc.planned]
        rcases hnew e he with he | ⟨hto, entry, hentry, source, contractRef, hemits, hfrom⟩
        · rcases List.mem_append.mp he with he | he
          · exact Or.inl he
          · rw [List.mem_singleton.mp he, hid]
            exact Or.inr (.merged hpolicy hr hnode hkind)
        · rw [← hfrom, hto, hid]
          exact Or.inr (.gathered hpolicy hentry hemits hr)
      · intro r hr'
        obtain rfl := Option.some.inj (hr.symm.trans hr')
        refine ⟨⟨branch, hall ▸ List.mem_singleton_self branch⟩, ⟨merge, hmem, hid, huse⟩, ?_, ?_, ?_⟩
        · intro n hn
          rw [show n = branch from List.mem_singleton.mp (hall ▸ hn), ← hid]
          exact hparent
        · intro n hn
          rw [show n = branch from List.mem_singleton.mp (hall ▸ hn), ← hid]
          exact hsub (Flow.mem_addEdge _)
        · rw [← hid]
          exact hgathered

/-- What is known of a plan and the policy of its judgment after the loop over the policies. -/
structure Decided (policy : Policy) (c : Context) : Prop where
  emitted : ∀ e ∈ policy.entries, ∀ source contractRef, e.emits = .output source contractRef →
    Emitted.Checked policy c source ∧
      ∀ n ∈ c.branchNodes policy, (source.node.id, n.id) ∈ c.flow.edges
  merged : ∀ r, policy.mergeRef? = some r → MergeChecked policy c r

theorem checkPolicy_spec (hj : judgment ∈ payload.judgments) (hplan : judgment.plan = some plan)
    (hc : Linked payload judgment plan c) {context : Option Context}
    (h : checkPolicy payload ((judgment, i), some c) = .ok context) :
    ∃ c', context = some c' ∧ Linked payload judgment plan c' ∧
      ∀ policy, judgment.policy = some policy → Decided policy c' := by
  rw [checkPolicy] at h
  cases hpolicy : judgment.policy with
  | none =>
    rw [hpolicy] at h
    obtain rfl := Except.ok.inj h
    exact ⟨c, rfl, hc, fun _ hnone => by cases hnone⟩
  | some policy =>
    simp only [hpolicy, bind_eq_ok_iff, pure_eq_ok] at h
    obtain ⟨output, -, _, -, _, -, _, -, s, hentries, _, -, found, hcombine, _, -, heq⟩ := h
    obtain rfl := Except.ok.inj heq
    obtain ⟨hrun, hall⟩ := foldlM_rel (R := fun s s' : Option Context × Producers => ∀ c,
        s.1 = some c → Linked payload judgment plan c → ∃ c', s'.1 = some c' ∧ c.Grows c')
      (fun s c hs _ => ⟨c, hs, .refl c⟩)
      (fun s s' s'' h₁ h₂ c hs hc => by
        obtain ⟨c', hs', hgrows⟩ := h₁ c hs hc
        obtain ⟨c'', hs'', hgrows'⟩ := h₂ c' hs' (hc.grow hgrows)
        exact ⟨c'', hs'', hgrows.trans hgrows'⟩)
      (fun s e s' he hstep c hs hc => by
        obtain ⟨_, producers⟩ := s
        obtain rfl : _ = some c := hs
        obtain ⟨c', hs', hgrows, -⟩ := checkEntry_spec hj hplan hpolicy hc he hstep
        exact ⟨c', hs', hgrows⟩) hentries
    obtain ⟨c₁, hc₁, hgrows₁⟩ := hrun c rfl hc
    have hlinked₁ := hc.grow hgrows₁
    obtain ⟨_, producers⟩ := s
    obtain rfl : _ = some c₁ := hc₁
    obtain ⟨c₂, rfl, hgrows₂, hmerged⟩ := checkCombine_spec hpolicy hlinked₁ hcombine
    refine ⟨c₂, rfl, hlinked₁.grow hgrows₂, ?_⟩
    intro policy' hpolicy'
    obtain rfl := Option.some.inj hpolicy'
    refine ⟨?_, hmerged⟩
    intro e he source contractRef hemits
    obtain ⟨t, t', hstep, hbefore, hbehind⟩ := hall e he
    obtain ⟨c₃, ht, hgrows₃⟩ := hbefore c rfl hc
    have hlinked₃ := hc.grow hgrows₃
    obtain ⟨_, producers'⟩ := t
    obtain rfl : _ = some c₃ := ht
    obtain ⟨c₄, ht', hgrows₄, hemitted⟩ := checkEntry_spec hj hplan hpolicy hlinked₃ he hstep
    obtain ⟨hchecked, hedges⟩ := hemitted source contractRef hemits
    obtain ⟨c₅, hs, hgrows₅⟩ := hbehind c₄ ht' (hlinked₃.grow hgrows₄)
    obtain rfl := Option.some.inj hs
    have hbehind := hgrows₅.trans hgrows₂
    refine ⟨hchecked.grow (hgrows₄.trans hbehind), ?_⟩
    intro n hn
    apply hbehind.edges
    apply hedges
    rwa [(hgrows₄.trans hbehind).branchNodes] at hn

/-- Without a plan there is no context, and the policy makes none. -/
theorem checkPolicy_none {context : Option Context}
    (h : checkPolicy payload ((judgment, i), none) = .ok context) : context = none := by
  rw [checkPolicy] at h
  cases hpolicy : judgment.policy with
  | none =>
    rw [hpolicy] at h
    exact (Except.ok.inj h).symm
  | some policy =>
    simp only [hpolicy, bind_eq_ok_iff, pure_eq_ok] at h
    obtain ⟨output, -, _, -, _, -, _, -, s, hentries, _, -, found, hcombine, _, -, heq⟩ := h
    obtain rfl := Except.ok.inj heq
    have hnone : s.1 = none := by
      refine (foldlM_rel (R := fun s s' : Option Context × Producers => s.1 = none → s'.1 = none)
        (fun _ => id) (fun _ _ _ h₁ h₂ hs => h₂ (h₁ hs)) ?_ hentries).1 rfl
      intro s e s' _ hstep hs
      rw [checkEntry, bind_eq_ok_iff] at hstep
      obtain ⟨_, -, hstep⟩ := hstep
      cases hemits : e.emits with
      | candidate ref =>
        simp only [hemits, bind_eq_ok_iff, pure_eq_ok] at hstep
        obtain ⟨_, -, _, -, _, -, _, -, heq⟩ := hstep
        obtain rfl := Except.ok.inj heq
        exact hs
      | output source contractRef =>
        simp only [hemits, hs, bind_eq_ok_iff] at hstep
        obtain ⟨_, hfalse, -⟩ := hstep
        cases hfalse
    obtain ⟨_, producers⟩ := s
    obtain rfl : _ = none := hnone
    rw [checkCombine] at hcombine
    cases hcombined : policy.combine with
    | none =>
      rw [hcombined] at hcombine
      exact (Except.ok.inj hcombine).symm
    | some combine =>
      cases combine with
      | collect itemContractRef order =>
        simp only [hcombined, bind_eq_ok_iff, pure_eq_ok] at hcombine
        obtain ⟨_, -, _, -, _, -, _, -, _, -, heq⟩ := hcombine
        exact (Except.ok.inj heq).symm
      | authored mergeRef inputPort outputPort order =>
        simp only [hcombined, bind_eq_ok_iff] at hcombine
        obtain ⟨_, hfalse, -⟩ := hcombine
        cases hfalse

end Policies

section Reviews

variable {payload : Payload} {judgment : Judgment} {plan : Plan} {c : Context}

/-- What is known of a plan that passes. -/
structure Passed (payload : Payload) (judgment : Judgment) (plan : Plan) (c : Context) : Prop where
  linked : Linked payload judgment plan c
  decided : ∀ policy, judgment.policy = some policy → Decided policy c
  acyclic : acyclic c.flow.next plan.ids = true
  contributing : ∀ a, a ∈ c.contributing ↔ Contributes judgment plan a

/-- A judgment has a context where it has a plan, which passed. -/
def Reviewed (payload : Payload) (judgment : Judgment) (context : Option Context) : Prop :=
  match judgment.plan with
  | none => context = none
  | some plan => ∃ c, context = some c ∧ Passed payload judgment plan c

theorem Linked.mem_edges_iff (hlinked : Linked payload judgment plan c)
    (hdecided : ∀ policy, judgment.policy = some policy → Decided policy c) {a b : String} :
    (a, b) ∈ c.flow.edges ↔ DataEdge judgment plan a b := by
  constructor
  · exact hlinked.edges (a, b)
  · intro hedge
    cases hedge with
    | link hl => exact hlinked.links _ hl
    | output hn hkind => exact hlinked.outputs _ hn _ hkind
    | emitted hpolicy he hemits hn hkind =>
      exact ((hdecided _ hpolicy).emitted _ he _ _ hemits).2 _
        ((hlinked.mem_branchNodes hpolicy).mpr ⟨hn, _, hkind⟩)
    | gathered hpolicy he hemits hmerge =>
      exact ((hdecided _ hpolicy).merged _ hmerge).gathered _ he _ _ hemits
    | merged hpolicy hmerge hn hkind =>
      exact ((hdecided _ hpolicy).merged _ hmerge).back _
        ((hlinked.mem_branchNodes hpolicy).mpr ⟨hn, _, hkind⟩)

/-- The nodes that `reverse` has for a node are those that something passes from to it. -/
theorem mem_reverse {a b : String} :
    a ∈ c.reverse b ↔ (a, b) ∈ c.flow.edges ∨ StateEdge c.plan a b := by
  rw [Context.reverse, List.mem_append, List.mem_map, List.mem_flatMap]
  refine or_congr ⟨?_, ?_⟩ ⟨?_, ?_⟩
  · rintro ⟨e, he, rfl⟩
    obtain ⟨he, hlast⟩ := List.mem_filter.mp he
    rwa [← of_decide_eq_true hlast]
  · exact fun he => ⟨(a, b), List.mem_filter.mpr ⟨he, decide_eq_true rfl⟩, rfl⟩
  · rintro ⟨n, hn, ha⟩
    cases hkind : n.kind with
    | feedback f =>
      rw [hkind] at ha
      obtain ⟨u, hu, rfl⟩ := List.mem_map.mp ha
      obtain ⟨hu, hlast⟩ := List.mem_filter.mp hu
      exact ⟨n, hn, f, hkind, u, hu, rfl, of_decide_eq_true hlast⟩
    | _ =>
      rw [hkind] at ha
      cases ha
  · rintro ⟨n, hn, f, hkind, u, hu, rfl, hlast⟩
    refine ⟨n, hn, ?_⟩
    rw [hkind]
    exact List.mem_map_of_mem (List.mem_filter.mpr ⟨hu, decide_eq_true hlast⟩)

theorem influence_spec {found : List String} (h : c.influence = .ok found) {a : String} :
    a ∈ found ↔ ∃ b ∈ c.plan.resultBindings, Relation.ReflTransGen
      (fun a b => (a, b) ∈ c.flow.edges ∨ StateEdge c.plan a b) a b.source.node.id := by
  have hleast := reach_isLeast h (fun _ ht => ht) (fun _ hr => Or.inl hr)
  have hflip : (fun a b => b ∈ c.reverse a) =
      Function.swap fun a b => (a, b) ∈ c.flow.edges ∨ StateEdge c.plan a b := by
    funext a b
    exact propext mem_reverse
  have hmem : a ∈ found ↔ _ := mem_iff_of_isLeast hleast
  rw [hmem, hflip]
  constructor
  · rintro ⟨s, hs, hreach⟩
    obtain ⟨b, hb, rfl⟩ := List.mem_map.mp (List.mem_eraseDups.mp hs)
    exact ⟨b, hb, Relation.reflTransGen_swap.mp hreach⟩
  · rintro ⟨b, hb, hreach⟩
    exact ⟨_, List.mem_eraseDups.mpr (List.mem_map_of_mem hb), Relation.reflTransGen_swap.mpr hreach⟩

theorem checkFlow_spec (hlinked : Linked payload judgment plan c)
    (hdecided : ∀ policy, judgment.policy = some policy → Decided policy c)
    {context : Option Context} (h : checkFlow payload (some c) = .ok context) :
    ∃ c', context = some c' ∧ Passed payload judgment plan c' := by
  simp only [checkFlow, bind_eq_ok_iff, require_eq_ok_iff, pure_eq_ok] at h
  obtain ⟨_, -, _, hacyclic, _, -, _, -, found, hfound, heq⟩ := h
  obtain rfl := Except.ok.inj heq
  refine ⟨_, rfl, ?_, ?_, ?_, ?_⟩
  · exact ⟨hlinked.judged, hlinked.planned, hlinked.tree, hlinked.checked, hlinked.inside,
      hlinked.edges, hlinked.links, hlinked.outputs, hlinked.ports⟩
  · intro policy hpolicy
    obtain ⟨hemitted, hmerged⟩ := hdecided policy hpolicy
    constructor
    · intro e he source contractRef hemits
      obtain ⟨hchecked, hedges⟩ := hemitted e he source contractRef hemits
      exact ⟨⟨hchecked.planned, hchecked.apart, hchecked.merge, hchecked.checked⟩, hedges⟩
    · intro r hr
      obtain ⟨hbranch, hleaf, hbelow, hback, hgathered⟩ := hmerged r hr
      exact ⟨hbranch, hleaf, hbelow, hback, hgathered⟩
  · rwa [hlinked.planned] at hacyclic
  · intro a
    rw [influence_spec hfound, hlinked.planned, Contributes]
    simp only [hlinked.mem_edges_iff hdecided]

theorem reviewPlans_spec {contexts : List (Option Context)}
    (h : reviewPlans payload = .ok contexts) :
    List.Forall₂ (Reviewed payload) payload.judgments contexts := by
  simp only [reviewPlans, bind_eq_ok_iff] at h
  obtain ⟨first, hfirst, second, hsecond, hthird⟩ := h
  rw [mapM_eq_ok_iff] at hfirst hsecond hthird
  have hlength := hfirst.length_eq
  have hlength' := hsecond.length_eq
  have hlength'' := hthird.length_eq
  rw [List.length_zip] at hlength'
  rw [List.length_zipIdx] at hlength hlength'
  rw [List.forall₂_iff_get] at hfirst hsecond hthird ⊢
  refine ⟨by omega, ?_⟩
  intro i hi hi'
  have hplan := hfirst.2 i (by rw [List.length_zipIdx]; exact hi) (by omega)
  have hpolicy := hsecond.2 i (by rw [List.length_zip, List.length_zipIdx]; omega) (by omega)
  have hflow := hthird.2 i (by omega) hi'
  simp only [List.get_eq_getElem, List.getElem_zipIdx, List.getElem_zip] at hplan hpolicy hflow ⊢
  have hj := List.getElem_mem hi
  rw [Reviewed]
  cases hp : payload.judgments[i].plan with
  | none =>
    rw [checkPlan, hp] at hplan
    rw [← Except.ok.inj hplan] at hpolicy
    rw [checkPolicy_none hpolicy] at hflow
    exact (Except.ok.inj hflow).symm
  | some plan =>
    obtain ⟨c, hc, hlinked⟩ := checkPlan_spec hj hp hplan
    rw [hc] at hpolicy
    obtain ⟨c', hc', hlinked', hdecided⟩ := checkPolicy_spec hj hp hlinked hpolicy
    rw [hc'] at hflow
    exact checkFlow_spec hlinked' hdecided hflow

theorem passed_of_checkPlans {external : String → Bool} {contexts : List (Option Context)}
    (h : checkPlans payload external = .ok contexts) (hj : judgment ∈ payload.judgments)
    (hplan : judgment.plan = some plan) :
    ∃ c, some c ∈ contexts ∧ Passed payload judgment plan c := by
  simp only [checkPlans, bind_eq_ok_iff, pure_eq_ok] at h
  obtain ⟨contexts', hreview, _, -, _, -, _, -, heq⟩ := h
  obtain rfl := Except.ok.inj heq
  obtain ⟨context, hmem, hreviewed⟩ := exists_mem_forall₂ (reviewPlans_spec hreview) hj
  rw [Reviewed, hplan] at hreviewed
  obtain ⟨c, rfl, hpassed⟩ := hreviewed
  exact ⟨c, hmem, hpassed⟩

end Reviews

end Kdna.Planning

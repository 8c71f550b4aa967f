import Kdna.Planning.Edges

/-!
# Plans can be scheduled

The edges of a plan that passes all lead up in its tree, or to the right under a sequence. So its
nodes can run in the post-order of the tree, each behind those that it reads from, and what a
parallel node has below one of its children needs nothing of what it has below another one.
-/

namespace Kdna.Planning

open Plans (Named Endpoint)
open Shapes (R2Failure Contract)

section Placements

variable {judgment : Judgment} {plan : Plan} {root at' : String} {t : Branches} {a b : String}

/-- The source of an edge that points up or to the right comes first in the post-order. -/
theorem Placed.sublist (ht : Treelike judgment plan root t) (hb : b ∈ plan.ids)
    (h : Placed plan t a b) : [a, b].Sublist (postOrder t.children plan.nodes.length root) := by
  cases h with
  | below hbelow hne => exact ht.tree.sublist_of_descends ht.levels hb hbelow hne
  | left hn hkind hchildren hr hla hrb =>
    exact ht.tree.sublist_of_left ht.levels (ht.mem_of_node hn) hchildren hr hla hrb

/-- No such edge leads from below one child of a parallel node to below another one. -/
theorem Placed.not_across (ht : Treelike judgment plan root t) (h : Placed plan t a b)
    {n : PlanNode} (hn : n ∈ plan.nodes) {cs : List Named} (hkind : n.kind = .parallel cs)
    {l r : String} (hl : l ∈ t.children n.id) (hr : r ∈ t.children n.id) (hne : l ≠ r)
    (hla : Descends t.children l a) (hrb : Descends t.children r b) : False := by
  cases h with
  | below hbelow _ =>
    obtain ⟨k, hk⟩ := ht.tree.exists_depth (ht.mem_of_node hn)
    exact hne (ht.tree.eq_of_descends (hk.child hl) (hk.child hr) hla (hrb.trans hbelow))
  | @left m cs' l' r' before behind hm hsequence hchildren hr' hla' hrb' =>
    have hl' : l' ∈ t.children m.id := by
      rw [hchildren]
      exact List.mem_append_right before List.mem_cons_self
    have hmem : r' ∈ t.children m.id := by
      rw [hchildren]
      exact List.mem_append_right before (List.mem_cons_of_mem l' hr')
    have hdistinct : l' ≠ r' := by
      have hnodup := ht.tree.nodup m.id
      rw [hchildren] at hnodup
      rintro rfl
      exact (List.nodup_cons.mp hnodup.of_append_right).1 hr'
    have hid := ht.tree.eq_of_meeting (ht.mem_of_node hn) (ht.mem_of_node hm) hl hr hne hla hrb hl'
      hmem hdistinct hla' hrb'
    have heq := Option.some.inj ((hid ▸ ht.node_eq hn).symm.trans (ht.node_eq hm))
    rw [heq, hsequence] at hkind
    cases hkind

/-- An edge that was checked points up or to the right, or leads down from a branch to the node
that merges, or to a node below this one. -/
theorem EdgeChecked.placed (ht : Treelike judgment plan root t) (h : EdgeChecked at' plan t a b) :
    Placed plan t a b ∨ ∃ n ∈ plan.nodes, n.id = a ∧ ∃ policyRef mergeRef,
      n.kind = .branch policyRef ∧ judgment.policy.bind Policy.mergeRef? = some mergeRef ∧
        Descends t.children mergeRef.id b := by
  obtain ⟨n, hn, rfl, hkind⟩ := h.source
  by_cases hdown : Descends t.children n.id b
  · obtain ⟨policyRef, mergeRef, hbranch, hmerge, hbelow⟩ :=
      branch_of_above ht hn hkind h.round hdown h.distinct
    exact Or.inr ⟨n, hn, rfl, policyRef, mergeRef, hbranch, hmerge, hbelow⟩
  · exact Or.inl (placed_of_ordered ht (ht.mem_of_node hn) h.target hdown h.ordered)

end Placements

section Passing

variable {payload : Payload} {judgment : Judgment} {plan : Plan} {c : Context} {a b : String}

theorem Passed.follows_iff (h : Passed payload judgment plan c) :
    Follows c.flow.next b a ↔ DataEdge judgment plan a b := by
  rw [← h.linked.mem_edges_iff h.decided, Follows, Flow.next, List.mem_map]
  constructor
  · rintro ⟨e, he, rfl⟩
    obtain ⟨he, hfirst⟩ := List.mem_filter.mp he
    rwa [← of_decide_eq_true hfirst]
  · exact fun he => ⟨(a, b), List.mem_filter.mpr ⟨he, decide_eq_true rfl⟩, rfl⟩

/-- No data comes back to where it was. -/
theorem Passed.not_cycle (h : Passed payload judgment plan c) (ha : a ∈ plan.ids) :
    ¬ Relation.TransGen (DataEdge judgment plan) a a := by
  intro hcycle
  apply not_transGen_of_acyclic h.acyclic ha
  exact Relation.TransGen.mono (fun _ _ => h.follows_iff.mpr) _ _
    (Relation.transGen_swap.mpr hcycle)

/-- The node that merges has nothing below it. -/
theorem Passed.eq_merge (h : Passed payload judgment plan c) {policy : Policy}
    (hpolicy : judgment.policy = some policy) {r : Named} (hr : policy.mergeRef? = some r)
    (hbelow : Descends c.branches.children r.id b) : b = r.id := by
  obtain ⟨n, hn, hid, huse⟩ := ((h.decided policy hpolicy).merged r hr).leaf
  rw [h.linked.planned] at hn
  rcases Relation.ReflTransGen.cases_head hbelow with heq | ⟨x, hx, -⟩
  · exact heq.symm
  · rw [← hid, h.linked.tree.children_eq hn] at hx
    cases hkind : n.kind with
    | use _ _ =>
      rw [hkind] at hx
      cases hx
    | _ =>
      rw [hkind] at huse
      cases huse

/-- The output that a policy emits stands so that its branches can read it. -/
theorem Passed.placed_emitted (h : Passed payload judgment plan c) {policy : Policy}
    (hpolicy : judgment.policy = some policy) {e : Entry} (he : e ∈ policy.entries)
    {source : Endpoint} {contractRef : Named} (hemits : e.emits = .output source contractRef)
    {n : PlanNode} (hn : n ∈ c.branchNodes policy) :
    Placed plan c.branches source.node.id n.id := by
  have hchecked := ((h.decided policy hpolicy).emitted e he source contractRef hemits).1
  have hedge := hchecked.checked n hn
  rw [h.linked.planned] at hedge
  rcases hedge.placed h.linked.tree with hplaced | ⟨m, hm, hid, policyRef, -, hkind, -⟩
  · exact hplaced
  · have hbranch := (h.linked.mem_branchNodes hpolicy).mpr ⟨hm, policyRef, hkind⟩
    exact absurd (hid ▸ List.mem_map_of_mem hbranch) hchecked.apart

/-- Data always passes up or to the right. -/
theorem Passed.placed (h : Passed payload judgment plan c) (hedge : DataEdge judgment plan a b) :
    Placed plan c.branches a b := by
  have ht := h.linked.tree
  cases hedge with
  | @link l hl =>
    rcases (h.linked.checked l hl).placed ht with hplaced | ⟨n, hn, hid, policyRef, r, hkind, hr, hbelow⟩
    · exact hplaced
    · -- A link from the branch to the node that merges would close a cycle with the edge back.
      obtain ⟨policy, hpolicy, hr⟩ := Option.bind_eq_some_iff.mp hr
      have hback : DataEdge judgment plan r.id l.source.node.id :=
        hid ▸ .merged hpolicy hr hn hkind
      have hlink : DataEdge judgment plan l.source.node.id r.id := by
        rw [← h.eq_merge hpolicy hr hbelow]
        exact .link hl
      exact absurd (Relation.TransGen.tail (.single hlink) hback)
        (h.not_cycle (hid ▸ ht.mem_of_node hn))
  | @output n f hn hkind =>
    obtain ⟨hmem, hwithin⟩ := h.linked.inside n hn f hkind
    have hbody : f.body.id ∈ c.branches.children n.id := by
      rw [ht.children_eq hn, hkind]
      exact List.mem_singleton_self _
    have hbelow := (ht.within_iff hmem).mp hwithin
    apply Placed.below (Relation.ReflTransGen.head hbody hbelow)
    intro heq
    exact ht.tree.not_descends_child (ht.mem_of_node hn) hbody (heq ▸ hbelow)
  | emitted hpolicy he hemits hn hkind =>
    exact h.placed_emitted hpolicy he hemits
      ((h.linked.mem_branchNodes hpolicy).mpr ⟨hn, _, hkind⟩)
  | @gathered policy e source contractRef r hpolicy he hemits hr =>
    have hmerged := (h.decided policy hpolicy).merged r hr
    obtain ⟨n, hn⟩ := hmerged.branch
    have hchild : r.id ∈ c.branches.children n.id := (ht.parent _ _).mp (hmerged.below n hn)
    cases h.placed_emitted hpolicy he hemits hn with
    | below hbelow hne =>
      have hapart := ((h.decided policy hpolicy).emitted e he source contractRef hemits).1.merge r hr
      rcases Relation.ReflTransGen.cases_head hbelow with heq | ⟨x, hx, hxa⟩
      · exact absurd heq.symm hne
      · obtain ⟨hnode, policyRef, hkind⟩ := (h.linked.mem_branchNodes hpolicy).mp hn
        rw [ht.children_eq hnode, hkind, Judgment.childTargets, hpolicy, Option.bind_some, hr] at hx
        rw [List.mem_singleton.mp hx] at hxa
        exact .below hxa (Ne.symm hapart)
    | left hm hkind hchildren hright hla hrb =>
      exact .left hm hkind hchildren hright hla (Relation.ReflTransGen.tail hrb hchild)
  | @merged policy r policyRef n hpolicy hr hn hkind =>
    have hbranch := (h.linked.mem_branchNodes hpolicy).mpr ⟨hn, policyRef, hkind⟩
    have hchild : r.id ∈ c.branches.children n.id :=
      (ht.parent _ _).mp (((h.decided policy hpolicy).merged r hr).below n hbranch)
    apply Placed.below (Relation.ReflTransGen.single hchild)
    intro heq
    exact ht.tree.not_descends_child (ht.mem_of_node hn) hchild (heq ▸ .refl)

theorem Passed.target_mem (h : Passed payload judgment plan c) (hedge : DataEdge judgment plan a b) :
    b ∈ plan.ids := by
  cases hedge with
  | link hl => exact (h.linked.checked _ hl).target
  | output hn _ => exact List.mem_map_of_mem hn
  | emitted _ _ _ hn _ => exact List.mem_map_of_mem hn
  | gathered hpolicy _ _ hmerge =>
    obtain ⟨n, hn, hid, -⟩ := ((h.decided _ hpolicy).merged _ hmerge).leaf
    rw [h.linked.planned] at hn
    exact hid ▸ List.mem_map_of_mem hn
  | merged _ _ hn _ => exact List.mem_map_of_mem hn

end Passing

section Sample

/-- A text. -/
def sampleContract : Contract :=
  .result ⟨some "text", none, .scalar .text, .one, some .one, some [.str "finding"]⟩

/-- A target of the asset itself. -/
def here (id : String) : Named := ⟨id, none⟩

/-- Two nodes that read side by side, and one behind them that joins what they read. -/
def samplePlan : Plan where
  id := "plan"
  root := here "all"
  nodes := [⟨"all", by decide, .sequence [here "read", here "join"]⟩,
    ⟨"read", by decide, .parallel [here "first", here "second"]⟩,
    ⟨"first", by decide, .use (here "reader") []⟩,
    ⟨"second", by decide, .use (here "reader") []⟩,
    ⟨"join", by decide, .use (here "joiner") []⟩]
  links := [⟨⟨here "first", "out", []⟩, ⟨here "join", "left", []⟩⟩,
    ⟨⟨here "second", "out", []⟩, ⟨here "join", "right", []⟩⟩]
  resultBindings := [⟨⟨here "join", "out", []⟩, []⟩]

def sampleJudgment : Judgment where
  id := "judgment"
  method := "composite"
  inputs := []
  units := [⟨"reader", "reading", [], [⟨"out", here "text"⟩]⟩,
    ⟨"joiner", "joining", [⟨"left", here "text"⟩, ⟨"right", here "text"⟩], [⟨"out", here "text"⟩]⟩]
  plan := some samplePlan
  policy := none
  resultContract := ⟨some "result", none, .scalar .text, .one, some .one, some [.str "finding"]⟩
  inputPorts := []
  outputPorts := []

def samplePayload : Payload where
  asset := .null
  judgments := [sampleJudgment]
  contracts := [("text", sampleContract)]
  conditions := []
  nodeIds := by decide
  unitIds := by decide
  planIds := by decide
  policyIds := by decide
  judgmentIds := by decide

theorem checkPlans_sample : ∃ contexts, checkPlans samplePayload (fun _ => false) = .ok contexts := by
  obtain ⟨contexts, hcontexts⟩ := Option.isSome_iff_exists.mp
    (show (checkPlans samplePayload (fun _ => false)).toOption.isSome = true by decide +kernel)
  exact ⟨contexts, toOption_eq_some_iff.mp hcontexts⟩

end Sample

section Schedules

/-- The order in which the nodes of a plan can run: the post-order of its tree. -/
def Judgment.schedule (judgment : Judgment) (plan : Plan) : List String :=
  postOrder (judgment.childIds plan) plan.nodes.length plan.root.id

/-- The graph of a plan that passes has exactly the edges along which data passes, and they lead
from no node back to it. -/
theorem plans_graph {payload : Payload} {external : String → Bool}
    {contexts : List (Option Context)}     (h : checkPlans payload external = .ok contexts) {judgment : Judgment} (hj : judgment ∈ payload.judgments)
    {plan : Plan} (hplan : judgment.plan = some plan) :
    (∃ c, some c ∈ contexts ∧ c.judgment = judgment ∧ c.plan = plan ∧
      ∀ a b, (a, b) ∈ c.flow.edges ↔ DataEdge judgment plan a b) ∧
    ∀ a ∈ plan.ids, ¬ Relation.TransGen (DataEdge judgment plan) a a := by
  obtain ⟨c, hc, hpassed⟩ := passed_of_checkPlans h hj hplan
  constructor
  · exact ⟨c, hc, hpassed.linked.judged, hpassed.linked.planned, 
      fun a b => hpassed.linked.mem_edges_iff hpassed.decided⟩
  · exact fun a => hpassed.not_cycle

theorem plans_graph_sample : ∃ contexts, checkPlans samplePayload (fun _ => false) = .ok contexts ∧
    ∃ c, some c ∈ contexts ∧ c.judgment = sampleJudgment ∧ c.plan = samplePlan ∧
      ∀ a b, (a, b) ∈ c.flow.edges ↔ DataEdge sampleJudgment samplePlan a b := by
  obtain ⟨contexts, h⟩ := checkPlans_sample
  exact ⟨contexts, h, (plans_graph h (List.mem_singleton_self _) rfl).1⟩

/-- The schedule of a plan that passes has every node once, behind those that it reads from. No data
passes between what stands below two children of a parallel node. -/
theorem plans_scheduled {payload : Payload} {external : String → Bool}
    {contexts : List (Option Context)}     (h : checkPlans payload external = .ok contexts) {judgment : Judgment} (hj : judgment ∈ payload.judgments)
    {plan : Plan} (hplan : judgment.plan = some plan) :
    (judgment.schedule plan).Perm plan.ids ∧
    (∀ a b, DataEdge judgment plan a b → [a, b].Sublist (judgment.schedule plan)) ∧
    ∀ n ∈ plan.nodes, ∀ cs, n.kind = .parallel cs → ∀ l ∈ cs, ∀ r ∈ cs, l.id ≠ r.id →
      ∀ a b, Descends (judgment.childIds plan) l.id a → Descends (judgment.childIds plan) r.id b →
        ¬ DataEdge judgment plan a b := by
  obtain ⟨c, -, hpassed⟩ := passed_of_checkPlans h hj hplan
  have ht := hpassed.linked.tree
  rw [Judgment.schedule, ← ht.children, ← ht.root]
  refine ⟨ht.tree.postOrder_perm ht.nodup ht.levels, ?_, ?_⟩
  · intro a b hedge
    exact (hpassed.placed hedge).sublist ht (hpassed.target_mem hedge)
  · intro n hn cs hkind l hl r hr hne a b hla hrb hedge
    have hchild {x : Named} (hx : x ∈ cs) : x.id ∈ c.branches.children n.id := by
      rw [ht.children_eq hn, hkind]
      exact List.mem_map_of_mem hx
    exact (hpassed.placed hedge).not_across ht hn hkind (hchild hl) (hchild hr) hne hla hrb

theorem plans_scheduled_sample :
    (∀ a b, DataEdge sampleJudgment samplePlan a b →
      [a, b].Sublist ["first", "second", "read", "join", "all"]) ∧
    ¬ DataEdge sampleJudgment samplePlan "first" "second" := by
  obtain ⟨contexts, h⟩ := checkPlans_sample
  obtain ⟨-, hbehind, happart⟩ := plans_scheduled h (List.mem_singleton_self _) rfl
  have horder : sampleJudgment.schedule samplePlan = ["first", "second", "read", "join", "all"] := by
    decide +kernel
  constructor
  · exact fun a b hedge => horder ▸ hbehind a b hedge
  · exact happart ⟨"read", by decide, .parallel [here "first", here "second"]⟩
      (List.mem_cons_of_mem _ List.mem_cons_self) _ rfl _ List.mem_cons_self _
      (List.mem_cons_of_mem _ List.mem_cons_self) (by decide) "first" "second" .refl .refl

end Schedules

end Kdna.Planning

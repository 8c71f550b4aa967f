import Kdna.Data.Loop
import Kdna.Planning.Check
import Kdna.Shapes.Bindings

/-!
# The tree of a plan

A plan that passes has a tree: the children that its nodes name, each of them once and all but the
root. What the check of the tree walks through are the children and the ancestors of this tree.
-/

namespace Kdna.Planning

open Plans (Named Endpoint)
open Shapes (R2Failure Contract)

section Names

/-- The targets that a node of the judgment names as its children. -/
def Judgment.childTargets (judgment : Judgment) : NodeKind → List Named
  | .sequence children => children
  | .parallel children => children
  | .feedback f => [f.body]
  | .branch _ => (judgment.policy.bind Policy.mergeRef?).toList
  | .use _ _ => []
  | .judgmentUse _ _ => []

/-- The children of a node of the plan. -/
def Judgment.childIds (judgment : Judgment) (plan : Plan) (id : String) : List String :=
  (plan.node id).elim [] fun n => (judgment.childTargets n.kind).map Named.id

/-- The ids of the nodes. -/
def Plan.ids (plan : Plan) : List String := plan.nodes.map PlanNode.id

end Names

section Registry

variable {payload : Payload} {at' : String} {judgment : Judgment} {plan : Plan}

theorem get_eq_ok_some {α : Type} {find : String → Option α} {r : Named} {a : α}
    (h : get payload at' find r = .ok (some a)) : find r.id = some a := by
  unfold get at h
  split_ifs at h
  · cases hfind : find r.id with
    | none =>
      rw [hfind] at h
      cases h
    | some b =>
      rw [hfind] at h
      exact Except.ok.inj h
  · cases h

/-- A plan is known by its id. -/
theorem plan_eq_of_id (hj : judgment ∈ payload.judgments) (hplan : judgment.plan = some plan)
    {p : Plan} (hp : p ∈ payload.judgments.flatMap fun j => j.plan.toList) (hid : p.id = plan.id) :
    p = plan := by
  apply List.inj_on_of_nodup_map payload.planIds hp _ hid
  exact List.mem_flatMap.mpr ⟨judgment, hj, by rw [hplan]; exact List.mem_singleton_self plan⟩

/-- A local node is a node of the plan with the id of the target. -/
theorem localNode_spec (hj : judgment ∈ payload.judgments) (hplan : judgment.plan = some plan)
    {target : Named} {node : PlanNode} (h : localNode payload at' plan target = .ok node) :
    node ∈ plan.nodes ∧ node.id = target.id := by
  simp only [localNode, bind_eq_ok_iff, orFail_eq_ok_iff, require_eq_ok_iff, pure_eq_ok] at h
  obtain ⟨found, hget, ⟨owner, n⟩, rfl, -, ⟨howner, -⟩, heq⟩ := h
  obtain rfl := Except.ok.inj heq
  obtain ⟨p, hp, hfind⟩ := List.exists_of_findSome?_eq_some (get_eq_ok_some hget)
  obtain ⟨m, hm, hpair⟩ := Option.map_eq_some_iff.mp hfind
  obtain ⟨hid, rfl⟩ := Prod.mk.inj hpair
  obtain rfl := plan_eq_of_id hj hplan hp (hid.trans howner)
  exact ⟨List.mem_of_find?_eq_some hm, by simpa using List.find?_some hm⟩

/-- The policy of a judgment that is found under it. -/
theorem policyOf_spec (hj : judgment ∈ payload.judgments) {id : String} {policy : Policy}
    (h : policyOf payload id = some (judgment.id, policy)) :
    judgment.policy = some policy ∧ policy.id = id := by
  obtain ⟨j, hmem, hfind⟩ := List.exists_of_findSome?_eq_some h
  obtain ⟨p, hp, hpair⟩ := Option.map_eq_some_iff.mp hfind
  obtain ⟨hid, rfl⟩ := Prod.mk.inj hpair
  obtain rfl := List.inj_on_of_nodup_map payload.judgmentIds hmem hj hid
  exact ⟨(Option.filter_eq_some_iff.mp hp).1, by simpa using (Option.filter_eq_some_iff.mp hp).2⟩

theorem childRefs_spec (hj : judgment ∈ payload.judgments) {kind : NodeKind} {refs : List Named}
    (h : childRefs payload at' judgment kind = .ok refs) : refs = judgment.childTargets kind := by
  cases kind with
  | sequence children =>
    rw [childRefs, require_bind_eq_ok_iff] at h
    exact (Except.ok.inj h.2).symm
  | parallel children =>
    rw [childRefs, require_bind_eq_ok_iff] at h
    exact (Except.ok.inj h.2).symm
  | feedback f => exact (Except.ok.inj h).symm
  | branch policyRef =>
    simp only [childRefs, bind_eq_ok_iff, orFail_eq_ok_iff, require_eq_ok_iff, pure_eq_ok] at h
    obtain ⟨found, hget, ⟨owner, policy⟩, rfl, -, rfl, heq⟩ := h
    obtain rfl := Except.ok.inj heq
    obtain ⟨hpolicy, -⟩ := policyOf_spec hj (get_eq_ok_some hget)
    rw [Judgment.childTargets, hpolicy]
    rfl
  | use _ _ => exact (Except.ok.inj h).symm
  | judgmentUse _ _ => exact (Except.ok.inj h).symm

end Registry

section Planting

variable {payload : Payload} {at' : String} {judgment : Judgment} {plan : Plan} {t t' : Branches}

/-- What is planted: children that are nodes of the plan, each once. -/
structure Planted (plan : Plan) (t : Branches) : Prop where
  nodup : (t.map Prod.snd).Nodup
  nodes : ∀ e ∈ t, e.2 ∈ plan.ids

theorem foldlM_child (hj : judgment ∈ payload.judgments) (hplan : judgment.plan = some plan)
    {parent : String} {refs : List Named} (ht : Planted plan t)
    (h : refs.foldlM (child payload at' plan parent) t = .ok t') :
    Planted plan t' ∧ t' = t ++ refs.map fun r => (parent, r.id) := by
  induction refs generalizing t with
  | nil =>
    obtain rfl := Except.ok.inj h
    exact ⟨ht, (List.append_nil t).symm⟩
  | cons r refs ih =>
    rw [List.foldlM_cons, bind_eq_ok_iff] at h
    obtain ⟨middle, hr, hrest⟩ := h
    simp only [child, bind_eq_ok_iff, require_eq_ok_iff, pure_eq_ok] at hr
    obtain ⟨node, hnode, -, hnew, heq⟩ := hr
    obtain rfl := Except.ok.inj heq
    obtain ⟨hmem, hid⟩ := localNode_spec hj hplan hnode
    have hmiddle : Planted plan (t ++ [(parent, node.id)]) := by
      constructor
      · rw [List.map_append, List.map_singleton, List.nodup_append_comm, List.singleton_append,
          List.nodup_cons]
        exact ⟨hnew, ht.nodup⟩
      · intro e he
        rcases List.mem_append.mp he with he | he
        · exact ht.nodes e he
        · rw [List.mem_singleton.mp he]
          exact List.mem_map_of_mem hmem
    obtain ⟨hplanted, rfl⟩ := ih hmiddle hrest
    refine ⟨hplanted, ?_⟩
    rw [List.append_assoc, List.singleton_append, List.map_cons, hid]

/-- The branches of some nodes. -/
def branchesOf (judgment : Judgment) (nodes : List PlanNode) : Branches :=
  nodes.flatMap fun n => (judgment.childTargets n.kind).map fun r => (n.id, r.id)

theorem plant_spec (hj : judgment ∈ payload.judgments) (hplan : judgment.plan = some plan)
    (h : plant payload at' judgment plan = .ok t) :
    Planted plan t ∧ t = branchesOf judgment plan.nodes := by
  have hall : ∀ (nodes : List PlanNode) (s t : Branches), Planted plan s →
      nodes.foldlM (fun t node => do
        (← childRefs payload at' judgment node.kind).foldlM (child payload at' plan node.id) t) s =
        .ok t → Planted plan t ∧ t = s ++ branchesOf judgment nodes := by
    intro nodes
    induction nodes with
    | nil =>
      intro s t hs hfold
      obtain rfl := Except.ok.inj hfold
      exact ⟨hs, (List.append_nil s).symm⟩
    | cons n nodes ih =>
      intro s t hs hfold
      rw [List.foldlM_cons, bind_eq_ok_iff] at hfold
      obtain ⟨middle, hn, hrest⟩ := hfold
      rw [bind_eq_ok_iff] at hn
      obtain ⟨refs, hrefs, hchildren⟩ := hn
      obtain rfl := childRefs_spec hj hrefs
      obtain ⟨hmiddle, rfl⟩ := foldlM_child hj hplan hs hchildren
      obtain ⟨hplanted, rfl⟩ := ih _ t hmiddle hrest
      refine ⟨hplanted, ?_⟩
      rw [branchesOf, branchesOf, List.flatMap_cons, List.append_assoc]
  obtain ⟨hplanted, heq⟩ := hall plan.nodes [] t
    ⟨List.nodup_nil, fun e he => absurd he List.not_mem_nil⟩ h
  exact ⟨hplanted, heq.trans (List.nil_append _)⟩

/-- A branch is for the policy of the judgment. -/
theorem policy_of_plant (hj : judgment ∈ payload.judgments)
    (h : plant payload at' judgment plan = .ok t) {n : PlanNode} (hn : n ∈ plan.nodes)
    {policyRef : Named} (hkind : n.kind = .branch policyRef) :
    ∃ policy, judgment.policy = some policy ∧ policy.id = policyRef.id := by
  obtain ⟨-, hall⟩ := foldlM_rel (R := fun _ _ => True) (fun _ => trivial)
    (fun _ _ _ _ _ => trivial) (fun _ _ _ _ _ => trivial) h
  obtain ⟨s, s', hturn, -⟩ := hall n hn
  rw [bind_eq_ok_iff, hkind] at hturn
  obtain ⟨refs, hrefs, -⟩ := hturn
  simp only [childRefs, bind_eq_ok_iff, orFail_eq_ok_iff, require_eq_ok_iff] at hrefs
  obtain ⟨found, hget, ⟨owner, policy⟩, rfl, -, rfl, -⟩ := hrefs
  exact ⟨policy, policyOf_spec hj (get_eq_ok_some hget)⟩

/-- The children in the branches are those that the nodes name. -/
theorem children_branchesOf {nodes : List PlanNode} (hnodup : (nodes.map PlanNode.id).Nodup)
    (id : String) : (branchesOf judgment nodes).children id =
      ((nodes.find? fun n => n.id = id).elim [] fun n =>
        (judgment.childTargets n.kind).map Named.id) := by
  induction nodes with
  | nil => rfl
  | cons n nodes ih =>
    obtain ⟨hnew, hrest⟩ := List.nodup_cons.mp hnodup
    have hsplit : (branchesOf judgment (n :: nodes)).children id =
        (if n.id = id then (judgment.childTargets n.kind).map Named.id else []) ++
          (branchesOf judgment nodes).children id := by
      rw [branchesOf, List.flatMap_cons, Branches.children, List.filter_append, List.map_append]
      congr 1
      split_ifs with hid
      · rw [List.filter_eq_self.mpr, List.map_map]
        · rfl
        · intro e he
          obtain ⟨r, -, rfl⟩ := List.mem_map.mp he
          exact decide_eq_true hid
      · rw [List.filter_eq_nil_iff.mpr, List.map_nil]
        intro e he
        obtain ⟨r, -, rfl⟩ := List.mem_map.mp he
        exact fun heq => hid (of_decide_eq_true heq)
    rw [hsplit, ih hrest]
    by_cases hid : n.id = id
    · have hnone : nodes.find? (fun n => n.id = id) = none := by
        rw [List.find?_eq_none]
        intro m hm heq
        exact hnew (hid ▸ of_decide_eq_true heq ▸ List.mem_map_of_mem hm)
      rw [if_pos hid, hnone, List.find?_cons, decide_eq_true hid]
      exact List.append_nil _
    · rw [if_neg hid, List.find?_cons, decide_eq_false hid]
      rfl

theorem Planted.parent_iff (ht : Planted plan t) {a b : String} :
    t.parent a = some b ↔ a ∈ t.children b := by
  have hmem : a ∈ t.children b ↔ (b, a) ∈ t := by
    rw [Branches.children, List.mem_map]
    constructor
    · rintro ⟨e, he, rfl⟩
      obtain ⟨he, hfirst⟩ := List.mem_filter.mp he
      rwa [← of_decide_eq_true hfirst]
    · exact fun h => ⟨(b, a), List.mem_filter.mpr ⟨h, decide_eq_true rfl⟩, rfl⟩
  rw [hmem, Branches.parent, Option.map_eq_some_iff]
  constructor
  · rintro ⟨e, he, rfl⟩
    have hid : e.2 = a := by simpa using List.find?_some he
    rw [← hid]
    exact List.mem_of_find?_eq_some he
  · intro h
    have hsome : (t.find? fun e => e.2 = a).isSome := by
      rw [List.find?_isSome]
      exact ⟨(b, a), h, decide_eq_true rfl⟩
    obtain ⟨e, he⟩ := Option.isSome_iff_exists.mp hsome
    have hid : e.2 = a := by simpa using List.find?_some he
    have heq := List.inj_on_of_nodup_map ht.nodup (List.mem_of_find?_eq_some he) h hid
    exact ⟨e, he, congrArg Prod.fst heq⟩

/-- What `checkTree` passes is a tree over the nodes of the plan. -/
structure Treelike (judgment : Judgment) (plan : Plan) (root : String) (t : Branches) : Prop where
  tree : OrderedTree t.children plan.ids root
  nodup : plan.ids.Nodup
  parent : ∀ a b, t.parent a = some b ↔ a ∈ t.children b
  children : t.children = judgment.childIds plan
  root : root = plan.root.id
  policy : ∀ n ∈ plan.nodes, ∀ r, n.kind = .branch r →
    ∃ policy, judgment.policy = some policy ∧ policy.id = r.id

theorem checkTree_spec (hj : judgment ∈ payload.judgments) (hplan : judgment.plan = some plan)
    {root : String} (h : checkTree payload at' judgment plan = .ok (root, t)) :
    Treelike judgment plan root t := by
  simp only [checkTree, bind_eq_ok_iff, require_eq_ok_iff, pure_eq_ok] at h
  obtain ⟨_, hunique, t', hplant, node, hroot, -, ⟨hfree, -⟩, -, -, -, hreached, heq⟩ := h
  obtain ⟨rfl, rfl⟩ := Prod.mk.inj (Except.ok.inj heq)
  obtain ⟨hplanted, ht⟩ := plant_spec hj hplan hplant
  obtain ⟨hmem, hid⟩ := localNode_spec hj hplan hroot
  have hnodup : plan.ids.Nodup := Shapes.unique_eq_ok_iff.mp hunique
  have hroot : node.id ∈ plan.ids := List.mem_map_of_mem hmem
  have hbranch {a b : String} (hb : b ∈ t'.children a) : (a, b) ∈ t' := by
    obtain ⟨e, he, rfl⟩ := List.mem_map.mp hb
    obtain ⟨he, hfirst⟩ := List.mem_filter.mp he
    rwa [← of_decide_eq_true hfirst]
  have hclosed : ∀ a ∈ plan.ids, ∀ b ∈ t'.children a, b ∈ plan.ids :=
    fun a _ b hb => hplanted.nodes (a, b) (hbranch hb)
  obtain ⟨hbelow, hdistinct⟩ :
      (∀ b ∈ reachFrom t'.children (plan.nodes.length + 1) [] node.id,
        Descends t'.children node.id b) ∧
      (reachFrom t'.children (plan.nodes.length + 1) [] node.id).Nodup :=
    descends_of_reachFrom (fun b hb => absurd hb List.not_mem_nil) List.nodup_nil .refl
  have hsub : reachFrom t'.children (plan.nodes.length + 1) [] node.id ⊆ plan.ids := by
    intro a ha
    have hdescends := hbelow a ha
    clear ha
    induction hdescends with
    | refl => exact hroot
    | tail _ hb ih => exact hclosed _ ih _ hb
  have hperm : (reachFrom t'.children (plan.nodes.length + 1) [] node.id).Perm plan.ids := by
    apply (List.subperm_of_subset hdistinct hsub).perm_of_length_le
    rw [hreached, Plan.ids, List.length_map]
  refine ⟨⟨hroot, hclosed, ?_, ?_, ?_, ?_⟩, hnodup, fun a b => hplanted.parent_iff, ?_, hid,
    fun n hn r hkind => policy_of_plant hj hplant hn hkind⟩
  · exact fun a => hplanted.nodup.sublist (List.filter_sublist.map Prod.snd)
  · intro a b c ha hb
    have heq := List.inj_on_of_nodup_map hplanted.nodup (hbranch ha) (hbranch hb) rfl
    exact congrArg Prod.fst heq
  · exact fun a ha => hfree (List.mem_map_of_mem (hbranch ha))
  · exact fun a ha => hbelow a (hperm.mem_iff.mpr ha)
  · funext id
    rw [ht, children_branchesOf hnodup]
    rfl

end Planting

end Kdna.Planning

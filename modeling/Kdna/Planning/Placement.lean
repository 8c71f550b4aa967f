import Kdna.Data.Reorder
import Kdna.Planning.Tree

/-!
# Where edges lead

An edge that the check of the order lets through leads up in the tree of a plan, or to the right
under a sequence, unless it leads down. Few nodes with an output have another of the same round
below them: only a branch does, and below it stands the node that merges what its policy emits.
-/

namespace Kdna.Planning

open Plans (Named Endpoint)
open Shapes (R2Failure Contract)

section Places

variable {judgment : Judgment} {plan : Plan} {root at' : String} {t : Branches} {a b c : String}

/-- Where the source of an edge stands: below its target, or below a child of a sequence to the left
of the one that the target stands below. -/
inductive Placed (plan : Plan) (t : Branches) (a b : String) : Prop
  | below (h : Descends t.children b a) (hne : a ≠ b)
  | left {n : PlanNode} {cs : List Named} {l r : String} {before behind : List String}
      (hn : n ∈ plan.nodes) (hkind : n.kind = .sequence cs)
      (hchildren : t.children n.id = before ++ l :: behind) (hr : r ∈ behind)
      (hla : Descends t.children l a) (hrb : Descends t.children r b)

theorem Treelike.mem_of_node (_ : Treelike judgment plan root t) {n : PlanNode}
    (hn : n ∈ plan.nodes) : n.id ∈ plan.ids :=
  List.mem_map_of_mem hn

theorem Treelike.node_eq (ht : Treelike judgment plan root t) {n : PlanNode}
    (hn : n ∈ plan.nodes) : plan.node n.id = some n :=
  (find?_key_eq_some_iff ht.nodup).mpr ⟨hn, rfl⟩

theorem Treelike.exists_node (ht : Treelike judgment plan root t) (ha : a ∈ plan.ids) :
    ∃ n ∈ plan.nodes, n.id = a ∧ plan.node a = some n := by
  obtain ⟨n, hn, rfl⟩ := List.mem_map.mp ha
  exact ⟨n, hn, rfl, ht.node_eq hn⟩

/-- The children of a node are those that it names. -/
theorem Treelike.children_eq (ht : Treelike judgment plan root t) {n : PlanNode}
    (hn : n ∈ plan.nodes) : t.children n.id = (judgment.childTargets n.kind).map Named.id := by
  rw [ht.children, Judgment.childIds, ht.node_eq hn]
  rfl

theorem Treelike.levels (_ : Treelike judgment plan root t) :
    plan.ids.length ≤ plan.nodes.length := by
  rw [Plan.ids, List.length_map]

theorem Treelike.mem_above (ht : Treelike judgment plan root t) (hb : b ∈ plan.ids) :
    a ∈ b :: above plan t b ↔ Descends t.children a b := by
  obtain ⟨n, hn⟩ := ht.tree.exists_depth hb
  have hlt := ht.tree.depth_lt hn
  have hle := ht.levels
  exact ht.tree.mem_ancestors ht.parent hn (by omega)

theorem Treelike.within_iff (ht : Treelike judgment plan root t) (hb : b ∈ plan.ids) :
    within plan t b a = true ↔ Descends t.children a b := by
  rw [← ht.mem_above hb, within, decide_eq_true_iff, List.mem_cons, eq_comm]

/-- Only a sequence or a parallel node has two children. -/
theorem kind_of_children (ht : Treelike judgment plan root t) {n : PlanNode} (hn : n ∈ plan.nodes)
    {l r : String} (hl : l ∈ t.children n.id) (hr : r ∈ t.children n.id) (hne : l ≠ r) :
    (∃ cs, n.kind = .sequence cs) ∨ ∃ cs, n.kind = .parallel cs := by
  rw [ht.children_eq hn] at hl hr
  have hshort (hle : ((judgment.childTargets n.kind).map Named.id).length ≤ 1) : False := by
    apply hne
    generalize (judgment.childTargets n.kind).map Named.id = ids at hle hl hr
    obtain ⟨x, rfl⟩ := List.length_eq_one_iff.mp (Nat.le_antisymm hle (List.length_pos_of_mem hl))
    rw [List.mem_singleton.mp hl, List.mem_singleton.mp hr]
  rw [List.length_map] at hshort
  cases hkind : n.kind with
  | sequence cs => exact Or.inl ⟨cs, rfl⟩
  | parallel cs => exact Or.inr ⟨cs, rfl⟩
  | feedback f =>
    rw [hkind] at hshort
    exact (hshort (Nat.le_refl 1)).elim
  | branch policyRef =>
    rw [hkind, Judgment.childTargets] at hshort
    refine (hshort ?_).elim
    cases judgment.policy.bind Policy.mergeRef? with
    | none => exact Nat.zero_le 1
    | some r => exact Nat.le_refl 1
  | use _ _ =>
    rw [hkind] at hshort
    exact (hshort (Nat.zero_le 1)).elim
  | judgmentUse _ _ =>
    rw [hkind] at hshort
    exact (hshort (Nat.zero_le 1)).elim

/-- An element that has a smaller index stands to the left. -/
theorem exists_left {list : List String} {l r : String} (hl : l ∈ list) (hr : r ∈ list)
    (hlt : list.idxOf l < list.idxOf r) :
    ∃ before behind, list = before ++ l :: behind ∧ r ∈ behind := by
  obtain ⟨before, behind, rfl, hnew⟩ := List.eq_append_cons_of_mem hl
  rw [List.idxOf_append_of_notMem hnew, List.idxOf_cons_self] at hlt
  refine ⟨before, behind, rfl, ?_⟩
  rcases List.mem_append.mp hr with hr | hr
  · rw [List.idxOf_append_of_mem hr] at hlt
    have hlength := List.idxOf_lt_length_of_mem hr
    omega
  · rcases List.mem_cons.mp hr with rfl | hr
    · rw [List.idxOf_append_of_notMem hnew, List.idxOf_cons_self] at hlt
      omega
    · exact hr

/-- An edge that passes the check of the order and does not lead down. -/
theorem placed_of_ordered (ht : Treelike judgment plan root t) (ha : a ∈ plan.ids)
    (hb : b ∈ plan.ids) (hnot : ¬ Descends t.children a b)
    (h : ordered at' plan t a b = .ok ()) : Placed plan t a b := by
  obtain ⟨c, hfind, hca, hcb, hmeet⟩ := ht.tree.exists_meeting ht.parent ht.levels ha hb
  have hne : a ≠ b := by
    rintro rfl
    exact hnot .refl
  by_cases hcaeq : c = a
  · exact absurd (hcaeq ▸ hcb) hnot
  · by_cases hcbeq : c = b
    · exact .below (hcbeq ▸ hca) hne
    · obtain ⟨l, r, hleft, hright, hl, hr, hlr, hla, hrb⟩ := hmeet hcaeq hcbeq
      obtain ⟨n, hn, rfl, hnode⟩ := ht.exists_node (ht.tree.above_mem ha hca)
      have hmeeting : (a :: above plan t a).find? (· ∈ b :: above plan t b) = some n.id := by
        rw [above, above]
        convert hfind
      have hl' : (a :: above plan t a)[(a :: above plan t a).idxOf n.id - 1]? = some l := hleft
      have hr' : (b :: above plan t b)[(b :: above plan t b).idxOf n.id - 1]? = some r := hright
      rw [ordered] at h
      simp only [hmeeting] at h
      rw [if_neg (by simp [hcaeq, hcbeq]), hl', hr', if_neg (by simpa using hlr), hnode] at h
      rcases kind_of_children ht hn hl hr hlr with ⟨cs, hkind⟩ | ⟨cs, hkind⟩
      · simp only [Option.map_some, hkind] at h
        obtain ⟨before, behind, hsplit, hmem⟩ := exists_left hl hr ((require_eq_ok_iff ..).mp h)
        exact .left hn hkind hsplit hmem hla hrb
      · simp only [Option.map_some, hkind] at h
        cases h

end Places

section Rounds

variable {judgment : Judgment} {plan : Plan} {root : String} {t : Branches} {b : String}

/-- Texts that are joined are longer with a further one in front. -/
theorem length_intercalate_lt {sep x : List Char} {before rest : List (List Char)} (hx : x ≠ []) :
    (sep.intercalate rest).length < (sep.intercalate (before ++ x :: rest)).length := by
  have hfirst : (sep.intercalate rest).length < (sep.intercalate (x :: rest)).length := by
    have hpos := List.length_pos_of_ne_nil hx
    cases rest with
    | nil =>
      rw [List.intercalate_singleton]
      exact hpos
    | cons y rest =>
      rw [List.intercalate_cons_cons, List.length_append, List.length_append]
      omega
  have hgrow (y : List Char) (l : List (List Char)) :
      (sep.intercalate l).length ≤ (sep.intercalate (y :: l)).length := by
    cases l with
    | nil => exact Nat.zero_le _
    | cons z l =>
      rw [List.intercalate_cons_cons, List.length_append, List.length_append]
      omega
  induction before with
  | nil => exact hfirst
  | cons y before ih => exact ih.trans_le (hgrow y _)

/-- What stands below a feedback node is in a further round. -/
theorem Treelike.round_ne (ht : Treelike judgment plan root t) {n : PlanNode} {f : Feedback}
    (hn : n ∈ plan.nodes) (hkind : n.kind = .feedback f) (hbelow : Descends t.children n.id b)
    (hne : n.id ≠ b) : round plan t n.id ≠ round plan t b := by
  obtain ⟨passed, hpassed⟩ := ht.tree.ancestors_split ht.parent ht.levels (ht.mem_of_node hn) hbelow
    hne
  have hup : above plan t b = passed ++ n.id :: above plan t n.id := hpassed
  have hfeedback : isFeedback plan n.id = true := by
    rw [isFeedback, ht.node_eq hn, Option.any_some, hkind]
  have hid : n.id.toList ≠ [] := fun hnil => n.named (String.toList_eq_nil_iff.mp hnil)
  intro heq
  have hlt := @length_intercalate_lt [Char.ofNat 0] n.id.toList
    ((passed.filter (isFeedback plan)).map String.toList)
    (((above plan t n.id).filter (isFeedback plan)).map String.toList) hid
  have hlong : round plan t b = List.intercalate [Char.ofNat 0]
      ((passed.filter (isFeedback plan)).map String.toList ++ n.id.toList ::
        ((above plan t n.id).filter (isFeedback plan)).map String.toList) := by
    rw [round, hup, List.filter_append, List.filter_cons_of_pos hfeedback, List.map_append,
      List.map_cons]
  rw [← hlong, ← heq] at hlt
  exact absurd hlt (Nat.lt_irrefl _)

end Rounds

section Endpoints

variable {payload : Payload} {judgment : Judgment} {plan : Plan} {root at' : String} {t : Branches}
  {value : Endpoint} {reached : Reached} {b : String}

theorem endpointWith_spec {portsOf : PlanNode → Except R2Failure Ports} {direction : Direction}
    {special : Bool}
    (h : endpointWith payload at' plan portsOf value direction special = .ok reached) :
    localNode payload at' plan value.node = .ok reached.node ∧
      ∃ found, portsOf reached.node = .ok found ∧ found.at direction ≠ some [] := by
  rw [endpointWith, bind_eq_ok_iff] at h
  obtain ⟨node, hnode, h⟩ := h
  rw [bind_eq_ok_iff] at h
  obtain ⟨found, hfound, h⟩ := h
  cases hports : found.at direction with
  | none =>
    rw [hports] at h
    obtain rfl := Except.ok.inj h
    refine ⟨hnode, found, hfound, ?_⟩
    rw [hports]
    exact (Option.some_ne_none _).symm
  | some list =>
    rw [hports, bind_eq_ok_iff] at h
    obtain ⟨port, hport, h⟩ := h
    simp only [bind_eq_ok_iff, pure_eq_ok] at h
    obtain ⟨_, -, _, -, heq⟩ := h
    obtain rfl := Except.ok.inj heq
    refine ⟨hnode, found, hfound, ?_⟩
    rw [hports]
    intro hnil
    rw [Option.some.inj hnil] at hport
    cases hport

/-- An endpoint leads to the node of the plan that it names. -/
theorem endpoint_node (hj : judgment ∈ payload.judgments) (hplan : judgment.plan = some plan)
    {direction : Direction} {special : Bool}
    (h : endpoint payload at' judgment plan value direction special = .ok reached) :
    reached.node ∈ plan.nodes ∧ reached.node.id = value.node.id :=
  localNode_spec hj hplan (endpointWith_spec h).1

/-- A node with an output is no sequence and no parallel node. -/
theorem endpoint_output {special : Bool}
    (h : endpoint payload at' judgment plan value .output special = .ok reached) :
    (∀ cs, reached.node.kind ≠ .sequence cs) ∧ ∀ cs, reached.node.kind ≠ .parallel cs := by
  obtain ⟨-, found, hfound, hne⟩ := endpointWith_spec h
  rw [ports, portsFrom, require_bind_eq_ok_iff] at hfound
  obtain ⟨-, hfound⟩ := hfound
  constructor
  · intro cs hkind
    rw [hkind] at hfound
    obtain rfl := Except.ok.inj hfound
    exact hne rfl
  · intro cs hkind
    rw [hkind] at hfound
    obtain rfl := Except.ok.inj hfound
    exact hne rfl

/-- A node with an output above a node of the same round is a branch, and the node below it is the
one that merges its emissions. -/
theorem branch_of_above (ht : Treelike judgment plan root t) {n : PlanNode} (hn : n ∈ plan.nodes)
    (hkind : (∀ cs, n.kind ≠ .sequence cs) ∧ ∀ cs, n.kind ≠ .parallel cs)
    (hround : round plan t n.id = round plan t b) (hbelow : Descends t.children n.id b)
    (hne : n.id ≠ b) : ∃ policyRef mergeRef, n.kind = .branch policyRef ∧
      judgment.policy.bind Policy.mergeRef? = some mergeRef ∧ Descends t.children mergeRef.id b := by
  rcases Relation.ReflTransGen.cases_head hbelow with heq | ⟨c, hc, hcb⟩
  · exact absurd heq hne
  · have hnames := hc
    rw [ht.children_eq hn] at hnames
    obtain ⟨r, hr, rfl⟩ := List.mem_map.mp hnames
    cases hk : n.kind with
    | sequence cs => exact absurd hk (hkind.1 cs)
    | parallel cs => exact absurd hk (hkind.2 cs)
    | feedback f => exact absurd hround (ht.round_ne hn hk hbelow hne)
    | branch policyRef =>
      rw [hk, Judgment.childTargets, Option.mem_toList] at hr
      exact ⟨policyRef, r, rfl, hr, hcb⟩
    | use _ _ =>
      rw [hk] at hr
      cases hr
    | judgmentUse _ _ =>
      rw [hk] at hr
      cases hr

end Endpoints

end Kdna.Planning

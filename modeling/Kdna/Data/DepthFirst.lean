import Kdna.Data.Upsert
import Mathlib.Algebra.Order.BigOperators.Group.List
import Mathlib.Algebra.Order.Ring.Nat
import Mathlib.Logic.Relation

/-!
# An iterative depth-first search for a cycle

A search with a stack of frames, each a node and the place of its next successor. A node is marked
when the search enters it and again when it leaves it. A successor that is entered and not left
closes a cycle. The search ends, and it finds a cycle exactly where the graph has one.
-/

namespace Kdna

/-- What the search notes of a node. -/
inductive Mark
  | entered
  | left
  deriving DecidableEq

/-- The marks and the stack, with the last frame first. -/
structure DepthFirst (κ : Type) where
  marks : List (κ × Mark)
  stack : List (κ × ℕ)

/-- What a turn of the loop leads to. -/
inductive Turn (κ : Type)
  | goes (s : DepthFirst κ)
  | cycle
  | ended (marks : List (κ × Mark))

variable {κ : Type} [DecidableEq κ] (next : κ → List κ)

/-- One turn of the loop. -/
def DepthFirst.turn (s : DepthFirst κ) : Turn κ :=
  match s.stack with
  | [] => .ended s.marks
  | (node, index) :: rest =>
    match (next node)[index]? with
    | none => .goes ⟨upsert node (fun _ => .left) s.marks, rest⟩
    | some successor =>
      match getKey successor s.marks with
      | some .entered => .cycle
      | some .left => .goes ⟨s.marks, (node, index + 1) :: rest⟩
      | none => .goes ⟨upsert successor (fun _ => .entered) s.marks,
          (successor, 0) :: (node, index + 1) :: rest⟩

/-- The loop, in at most `fuel` turns: `none` where these are not enough, and then `none` for a
cycle or the marks in the end. -/
def DepthFirst.run : ℕ → DepthFirst κ → Option (Option (List (κ × Mark)))
  | 0, _ => none
  | fuel + 1, s =>
    match s.turn next with
    | .goes s => DepthFirst.run fuel s
    | .cycle => some none
    | .ended marks => some (some marks)

/-- The searches from some nodes: whether one of them finds a cycle. -/
def findsCycle (fuel : ℕ) : List κ → List (κ × Mark) → Option Bool
  | [], _ => some false
  | node :: nodes, marks =>
    if getKey node marks = some .left then findsCycle fuel nodes marks
    else
      match DepthFirst.run next fuel ⟨upsert node (fun _ => .entered) marks, [(node, 0)]⟩ with
      | none => none
      | some none => some true
      | some (some marks) => findsCycle fuel nodes marks

variable {next} {marks : List (κ × Mark)} {stack rest : List (κ × ℕ)} {node successor : κ}
  {index fuel : ℕ} {s t : DepthFirst κ}

section Ending

/-- The turns that a node takes. -/
def cost (next : κ → List κ) (node : κ) : ℕ := (next node).length + 2

/-- The turns that are left: those of the nodes that are not entered, and those of the frames. -/
def turnsLeft (next : κ → List κ) (known : List κ) (s : DepthFirst κ) : ℕ :=
  ((known.filter fun k => getKey k s.marks = none).map (cost next)).sum +
    (s.stack.map fun frame => (next frame.1).length - frame.2 + 1).sum

variable (next marks node) in
/-- A mark takes no turn. -/
theorem sum_upsert_le_self (known : List κ) (mark : Mark) :
    ((known.filter fun k => getKey k (upsert node (fun _ => mark) marks) = none).map
      (cost next)).sum ≤ ((known.filter fun k => getKey k marks = none).map (cost next)).sum := by
  have hsub : (known.filter fun k => getKey k (upsert node (fun _ => mark) marks) = none).Sublist
      (known.filter fun k => getKey k marks = none) := by
    apply List.monotone_filter_right
    intro k hk
    rw [decide_eq_true_eq, getKey_upsert] at hk
    split_ifs at hk
    exact decide_eq_true hk
  exact (hsub.map (cost next)).sum_le_sum fun _ _ => Nat.zero_le _

variable (next) in
/-- A node that is entered takes its cost from those that are not. -/
theorem sum_upsert_le {known : List κ} (hknown : node ∈ known) (hnew : getKey node marks = none) :
    ((known.filter fun k => getKey k (upsert node (fun _ => .entered) marks) = none).map
      (cost next)).sum + cost next node ≤
        ((known.filter fun k => getKey k marks = none).map (cost next)).sum := by
  have hsplit : (known.filter fun k => getKey k (upsert node (fun _ => Mark.entered) marks) = none) =
      (known.filter fun k => getKey k marks = none).filter (· ≠ node) := by
    rw [List.filter_filter]
    refine List.filter_congr fun k _ => ?_
    rw [getKey_upsert]
    by_cases hk : k = node <;> simp [hk]
  have hmem : node ∈ known.filter fun k => getKey k marks = none :=
    List.mem_filter.mpr ⟨hknown, decide_eq_true hnew⟩
  rw [hsplit]
  generalize known.filter (fun k => getKey k marks = none) = l at hmem ⊢
  induction l with
  | nil => exact absurd hmem List.not_mem_nil
  | cons a l ih =>
    by_cases ha : a = node
    · have hle : ((l.filter (· ≠ node)).map (cost next)).sum ≤ (l.map (cost next)).sum :=
        (List.Sublist.map (cost next) List.filter_sublist).sum_le_sum fun _ _ => Nat.zero_le _
      rw [List.filter_cons_of_neg (by simp [ha]), List.map_cons, List.sum_cons, ha]
      omega
    · have hrest := ih ((List.mem_cons.mp hmem).resolve_left fun h => ha h.symm)
      rw [List.filter_cons_of_pos (by simp [ha]), List.map_cons, List.sum_cons, List.map_cons,
        List.sum_cons]
      omega

/-- A turn that goes on takes one of the turns that are left. -/
theorem turnsLeft_lt {known : List κ} (hknown : ∀ a, ∀ b ∈ next a, b ∈ known)
    (h : s.turn next = .goes t) : turnsLeft next known t < turnsLeft next known s := by
  obtain ⟨marks, stack⟩ := s
  unfold DepthFirst.turn at h
  cases stack with
  | nil => cases h
  | cons frame rest =>
    obtain ⟨node, index⟩ := frame
    dsimp only at h
    split at h
    · cases h
      have hle := sum_upsert_le_self next marks node known .left
      simp only [turnsLeft, List.map_cons, List.sum_cons]
      omega
    · next successor hsuccessor =>
      obtain ⟨hindex, hget⟩ := List.getElem?_eq_some_iff.mp hsuccessor
      split at h
      · cases h
      · cases h
        simp only [turnsLeft, List.map_cons, List.sum_cons]
        omega
      · next hnew =>
        cases h
        have hle := sum_upsert_le next
          (hknown node successor (List.mem_of_getElem? hsuccessor)) hnew
        simp only [turnsLeft, List.map_cons, List.sum_cons]
        rw [cost] at hle
        omega

end Ending

section Searching

/-- One node follows another. -/
def Follows (next : κ → List κ) (b a : κ) : Prop := b ∈ next a

/-- What stands below the frame of `child`: the frame of a node before it, with all successors
before the place left but for the child. -/
def Behind (next : κ → List κ) (marks : List (κ × Mark)) : κ → List (κ × ℕ) → Prop
  | _, [] => True
  | child, (node, index) :: rest => child ∈ next node ∧
      (∀ b ∈ (next node).take index, b = child ∨ getKey b marks = some .left) ∧
      Behind next marks node rest

/-- The stack: all successors before the place of its last frame are left. -/
def OnTop (next : κ → List κ) (marks : List (κ × Mark)) : List (κ × ℕ) → Prop
  | [] => True
  | (node, index) :: rest => (∀ b ∈ (next node).take index, getKey b marks = some .left) ∧
      Behind next marks node rest

/-- The invariant of a search: a node that is left reaches no cycle, and the nodes of the stack are
those that are entered. -/
structure Searching (next : κ → List κ) (s : DepthFirst κ) : Prop where
  left_acc : ∀ a, getKey a s.marks = some .left → Acc (Follows next) a
  entered_iff : ∀ a, getKey a s.marks = some .entered ↔ a ∈ s.stack.map Prod.fst
  nodup : (s.stack.map Prod.fst).Nodup
  frames : OnTop next s.marks s.stack

/-- What is left stays left, so that the frames stay. -/
theorem Behind.mono {marks' : List (κ × Mark)} {child : κ}
    (hleft : ∀ a, getKey a marks = some .left → getKey a marks' = some .left)
    (h : Behind next marks child stack) : Behind next marks' child stack := by
  induction stack generalizing child with
  | nil => trivial
  | cons frame rest ih =>
    obtain ⟨hchild, hbefore, hrest⟩ := h
    exact ⟨hchild, fun b hb => (hbefore b hb).imp_right (hleft b), ih hrest⟩

/-- The node of each frame below reaches that of the last one. -/
theorem Behind.reaches {child : κ} (h : Behind next marks child stack) :
    ∀ a ∈ stack.map Prod.fst, Relation.TransGen (Follows next) child a := by
  induction stack generalizing child with
  | nil => exact fun _ ha => absurd ha List.not_mem_nil
  | cons frame rest ih =>
    obtain ⟨hchild, -, hrest⟩ := h
    intro a ha
    rcases List.mem_cons.mp ha with rfl | ha
    · exact .single hchild
    · exact .head hchild (ih hrest a ha)

/-- A node that is marked stays marked. -/
theorem upsert_ne_none {mark : Mark} {a : κ} (h : getKey a marks ≠ none) :
    getKey a (upsert node (fun _ => mark) marks) ≠ none := by
  rw [getKey_upsert]
  split_ifs
  · exact Option.some_ne_none _
  · exact h

omit [DecidableEq κ] in
/-- A node that is left is on no cycle. -/
theorem not_transGen_of_acc {a : κ} (h : Acc (Follows next) a) :
    ¬ Relation.TransGen (Follows next) a a := by
  intro hcycle
  have hgen : Acc (Relation.TransGen (Follows next)) a := h.transGen
  induction hgen with
  | intro a _ ih => exact ih a hcycle h hcycle

omit [DecidableEq κ] in
theorem mem_take_succ {b : κ} (hsuccessor : (next node)[index]? = some successor) :
    b ∈ (next node).take (index + 1) ↔ b ∈ (next node).take index ∨ b = successor := by
  rw [List.take_add_one, hsuccessor, List.mem_append, Option.toList_some, List.mem_singleton]

/-- A turn that leaves a node: all of its successors are left. -/
theorem searching_pop (hs : Searching next ⟨marks, (node, index) :: rest⟩)
    (hlast : (next node)[index]? = none) :
    Searching next ⟨upsert node (fun _ => .left) marks, rest⟩ := by
  obtain ⟨hacc, hentered, hnodup, hall, hbehind⟩ := hs
  obtain ⟨hnew, hrest⟩ := List.nodup_cons.mp hnodup
  have hleft : ∀ a, getKey a marks = some .left →
      getKey a (upsert node (fun _ => Mark.left) marks) = some .left := by
    intro a ha
    rw [getKey_upsert, ha]
    exact ite_self _
  rw [List.take_of_length_le (List.getElem?_eq_none_iff.mp hlast)] at hall
  refine ⟨fun a ha => ?_, fun a => ?_, hrest, ?_⟩
  · change getKey a (upsert node _ marks) = _ at ha
    rw [getKey_upsert] at ha
    split_ifs at ha with hnode
    · subst hnode
      exact Acc.intro a fun b hb => hacc b (hall b hb)
    · exact hacc a ha
  · change getKey a (upsert node _ marks) = _ ↔ a ∈ rest.map Prod.fst
    rw [getKey_upsert]
    by_cases hnode : a = node
    · subst hnode
      rw [if_pos rfl]
      exact iff_of_false (fun hleft => by cases hleft) hnew
    · rw [if_neg hnode]
      refine (hentered a).trans ⟨fun hmem => ?_, List.mem_cons_of_mem _⟩
      exact (List.mem_cons.mp hmem).resolve_left hnode
  · cases rest with
    | nil => trivial
    | cons frame rest =>
      obtain ⟨-, hbefore, hbelow⟩ := hbehind
      refine ⟨fun b hb => ?_, hbelow.mono hleft⟩
      rcases hbefore b hb with rfl | hb
      · rw [getKey_upsert, if_pos rfl]
      · exact hleft b hb

/-- A turn that passes over a successor that is left. -/
theorem searching_skip (hs : Searching next ⟨marks, (node, index) :: rest⟩)
    (hsuccessor : (next node)[index]? = some successor)
    (hleft : getKey successor marks = some .left) :
    Searching next ⟨marks, (node, index + 1) :: rest⟩ := by
  obtain ⟨hacc, hentered, hnodup, hall, hbehind⟩ := hs
  refine ⟨hacc, hentered, hnodup, fun b hb => ?_, hbehind⟩
  rcases (mem_take_succ hsuccessor).mp hb with hb | rfl
  · exact hall b hb
  · exact hleft

/-- A turn that enters a successor. -/
theorem searching_push (hs : Searching next ⟨marks, (node, index) :: rest⟩)
    (hsuccessor : (next node)[index]? = some successor) (hnew : getKey successor marks = none) :
    Searching next ⟨upsert successor (fun _ => .entered) marks,
      (successor, 0) :: (node, index + 1) :: rest⟩ := by
  obtain ⟨hacc, hentered, hnodup, hall, hbehind⟩ := hs
  have hleft : ∀ a, getKey a marks = some .left →
      getKey a (upsert successor (fun _ => Mark.entered) marks) = some .left := by
    intro a ha
    rw [getKey_upsert, if_neg, ha]
    rintro rfl
    rw [hnew] at ha
    cases ha
  have hfresh : successor ∉ node :: rest.map Prod.fst := by
    intro hmem
    have h := (hentered successor).mpr hmem
    change getKey successor marks = _ at h
    rw [hnew] at h
    cases h
  refine ⟨fun a ha => ?_, fun a => ?_, List.nodup_cons.mpr ⟨hfresh, hnodup⟩, ?_, ?_, ?_, ?_⟩
  · change getKey a (upsert successor _ marks) = _ at ha
    rw [getKey_upsert] at ha
    split_ifs at ha
    · cases ha
    · exact hacc a ha
  · change getKey a (upsert successor _ marks) = _ ↔ a ∈ successor :: node :: rest.map Prod.fst
    rw [getKey_upsert, List.mem_cons]
    by_cases ha : a = successor
    · rw [if_pos ha]
      exact iff_of_true rfl (.inl ha)
    · rw [if_neg ha]
      exact (hentered a).trans ⟨.inr, fun h => h.resolve_left ha⟩
  · exact fun b hb => absurd hb List.not_mem_nil
  · exact List.mem_of_getElem? hsuccessor
  · intro b hb
    rcases (mem_take_succ hsuccessor).mp hb with hb | rfl
    · exact .inr (hleft b (hall b hb))
    · exact .inl rfl
  · exact hbehind.mono hleft

/-- A turn keeps the invariant and the marked nodes. -/
theorem turn_goes (hs : Searching next s) (h : s.turn next = .goes t) :
    Searching next t ∧ ∀ a, getKey a s.marks ≠ none → getKey a t.marks ≠ none := by
  obtain ⟨marks, stack⟩ := s
  unfold DepthFirst.turn at h
  cases stack with
  | nil => cases h
  | cons frame rest =>
    obtain ⟨node, index⟩ := frame
    dsimp only at h
    split at h
    · next hlast =>
      cases h
      exact ⟨searching_pop hs hlast, fun a => upsert_ne_none⟩
    · next successor hsuccessor =>
      split at h
      · cases h
      · next hleft =>
        cases h
        exact ⟨searching_skip hs hsuccessor hleft, fun _ ha => ha⟩
      · next hnew =>
        cases h
        exact ⟨searching_push hs hsuccessor hnew, fun a => upsert_ne_none⟩

/-- A successor that is entered closes a cycle. -/
theorem turn_cycle (hs : Searching next s) (h : s.turn next = .cycle) :
    ∃ a, Relation.TransGen (Follows next) a a := by
  obtain ⟨marks, stack⟩ := s
  unfold DepthFirst.turn at h
  cases stack with
  | nil => cases h
  | cons frame rest =>
    obtain ⟨node, index⟩ := frame
    dsimp only at h
    split at h
    · cases h
    · next successor hsuccessor =>
      split at h
      · next hentered =>
        have hstep : Follows next successor node := List.mem_of_getElem? hsuccessor
        rcases List.mem_cons.mp ((hs.entered_iff successor).mp hentered) with rfl | hmem
        · exact ⟨_, .single hstep⟩
        · exact ⟨_, .head hstep (hs.frames.2.reaches successor hmem)⟩
      · cases h
      · cases h

theorem turn_ended {end_marks : List (κ × Mark)} (h : s.turn next = .ended end_marks) :
    s = ⟨end_marks, []⟩ := by
  obtain ⟨marks, stack⟩ := s
  unfold DepthFirst.turn at h
  cases stack with
  | nil =>
    cases h
    rfl
  | cons frame rest =>
    obtain ⟨node, index⟩ := frame
    dsimp only at h
    split at h
    · cases h
    · split at h <;> cases h

end Searching

section Runs

variable {known nodes : List κ}

/-- With enough turns, a search ends with a cycle or with the nodes that it marks left. -/
theorem run_spec (hknown : ∀ a, ∀ b ∈ next a, b ∈ known) (hs : Searching next s)
    (hfuel : turnsLeft next known s < fuel) :
    (s.run next fuel = some none ∧ ∃ a, Relation.TransGen (Follows next) a a) ∨
    ∃ marks, s.run next fuel = some (some marks) ∧ Searching next ⟨marks, []⟩ ∧
      ∀ a, getKey a s.marks ≠ none → getKey a marks ≠ none := by
  induction fuel generalizing s with
  | zero => omega
  | succ fuel ih =>
    unfold DepthFirst.run
    cases hturn : s.turn next with
    | cycle => exact .inl ⟨rfl, turn_cycle hs hturn⟩
    | ended marks =>
      obtain rfl := turn_ended hturn
      exact .inr ⟨marks, rfl, hs, fun _ ha => ha⟩
    | goes t =>
      obtain ⟨ht, hmarked⟩ := turn_goes hs hturn
      have hless := turnsLeft_lt hknown hturn
      rcases ih ht (by omega) with hcycle | ⟨marks, hrun, hend, hkept⟩
      · exact .inl hcycle
      · exact .inr ⟨marks, hrun, hend, fun a ha => hkept a (hmarked a ha)⟩

variable (node) in
/-- A search begins with one entered node. -/
theorem searching_start (hs : Searching next ⟨marks, []⟩) :
    Searching next ⟨upsert node (fun _ => .entered) marks, [(node, 0)]⟩ := by
  refine ⟨fun a ha => ?_, fun a => ?_, List.nodup_singleton node,
    fun b hb => absurd hb List.not_mem_nil, trivial⟩
  · change getKey a (upsert node _ marks) = _ at ha
    rw [getKey_upsert] at ha
    split_ifs at ha
    · cases ha
    · exact hs.left_acc a ha
  · change getKey a (upsert node _ marks) = _ ↔ a ∈ [node]
    rw [getKey_upsert, List.mem_singleton]
    by_cases ha : a = node
    · rw [if_pos ha]
      exact iff_of_true rfl ha
    · rw [if_neg ha]
      exact iff_of_false (fun h => absurd ((hs.entered_iff a).mp h) List.not_mem_nil) ha

/-- Behind a search, the marked nodes are left. -/
theorem acc_of_marked (hs : Searching next ⟨marks, []⟩) (h : getKey node marks ≠ none) :
    Acc (Follows next) node := by
  apply hs.left_acc
  match hmark : getKey node marks with
  | none => exact absurd hmark h
  | some .left => rfl
  | some .entered => exact absurd ((hs.entered_iff node).mp hmark) List.not_mem_nil

theorem turnsLeft_start_lt :
    turnsLeft next known ⟨marks, [(node, 0)]⟩ < (known.map (cost next)).sum + cost next node := by
  have hle : ((known.filter fun k => getKey k marks = none).map (cost next)).sum ≤
      (known.map (cost next)).sum :=
    (List.Sublist.map (cost next) List.filter_sublist).sum_le_sum fun _ _ => Nat.zero_le _
  simp only [turnsLeft, List.map_cons, List.sum_cons, List.map_nil, List.sum_nil]
  rw [cost]
  omega

/-- With enough turns, the searches find a cycle or leave all nodes. -/
theorem findsCycle_spec (hknown : ∀ a, ∀ b ∈ next a, b ∈ known)
    (hfuel : ∀ node ∈ nodes, (known.map (cost next)).sum + cost next node ≤ fuel)
    (hs : Searching next ⟨marks, []⟩) :
    (findsCycle next fuel nodes marks = some true ∧
      ∃ a, Relation.TransGen (Follows next) a a) ∨
    (findsCycle next fuel nodes marks = some false ∧ ∀ node ∈ nodes, Acc (Follows next) node) := by
  induction nodes generalizing marks with
  | nil => exact .inr ⟨rfl, List.forall_mem_nil _⟩
  | cons node nodes ih =>
    obtain ⟨hnode, hnodes⟩ := List.forall_mem_cons.mp hfuel
    unfold findsCycle
    split
    · next hleft =>
      have hacc := hs.left_acc node hleft
      rcases ih hnodes hs with hcycle | ⟨hnone, hall⟩
      · exact .inl hcycle
      · exact .inr ⟨hnone, List.forall_mem_cons.mpr ⟨hacc, hall⟩⟩
    · have hstart := searching_start node hs
      rcases run_spec hknown hstart (turnsLeft_start_lt.trans_le hnode) with
        ⟨hrun, hcycle⟩ | ⟨after, hrun, hafter, hkept⟩
      · rw [hrun]
        exact .inl ⟨rfl, hcycle⟩
      · rw [hrun]
        have hacc : Acc (Follows next) node := by
          apply acc_of_marked hafter
          apply hkept
          change getKey node (upsert node _ marks) ≠ none
          rw [getKey_upsert, if_pos rfl]
          exact Option.some_ne_none _
        rcases ih hnodes hafter with hcycle | ⟨hnone, hall⟩
        · exact .inl hcycle
        · exact .inr ⟨hnone, List.forall_mem_cons.mpr ⟨hacc, hall⟩⟩

/-- Searches from all nodes with successors end, and they find a cycle exactly where there is
one. -/
theorem findsCycle_iff (hnodes : ∀ a, next a ≠ [] → a ∈ nodes) : ∃ turns, ∀ fuel, turns ≤ fuel →
    ∃ found, findsCycle next fuel nodes [] = some found ∧
      (found = true ↔ ∃ a, Relation.TransGen (Follows next) a a) := by
  have hknown : ∀ a, ∀ b ∈ next a, b ∈ nodes.flatMap next := fun a b hb =>
    List.mem_flatMap.mpr ⟨a, hnodes a (List.ne_nil_of_mem hb), hb⟩
  have hnew : Searching next ⟨[], []⟩ :=
    ⟨nofun, fun _ => iff_of_false nofun List.not_mem_nil, List.nodup_nil, trivial⟩
  refine ⟨((nodes.flatMap next).map (cost next)).sum + (nodes.map (cost next)).sum,
    fun fuel hfuel => ?_⟩
  have henough : ∀ node ∈ nodes,
      ((nodes.flatMap next).map (cost next)).sum + cost next node ≤ fuel := by
    intro node hnode
    have hle := List.single_le_sum (fun _ _ => Nat.zero_le _) _ (List.mem_map_of_mem (f := cost next) hnode)
    omega
  rcases findsCycle_spec hknown henough hnew with ⟨hfound, hcycle⟩ | ⟨hfound, hall⟩
  · exact ⟨true, hfound, iff_of_true rfl hcycle⟩
  · refine ⟨false, hfound, iff_of_false Bool.false_ne_true ?_⟩
    rintro ⟨a, ha⟩
    obtain ⟨b, -, hb⟩ := Relation.TransGen.tail'_iff.mp ha
    exact not_transGen_of_acc (hall a (hnodes a (List.ne_nil_of_mem hb))) ha

end Runs

end Kdna

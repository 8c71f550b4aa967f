import Mathlib.Data.List.Chain
import Mathlib.Data.List.Nodup
import Mathlib.Data.List.Perm.Subperm
import Mathlib.Logic.Relation

/-!
# Ordered trees

A tree is given by the lists of children of its nodes. Its post-order has every node behind all
nodes below it, and the nodes below a child before those below the children to its right. Two nodes
meet at the first ancestor that they share, and stand below two of its children unless one of them
is above the other.
-/

namespace Kdna

section Order

variable {α : Type} (children : α → List α)

/-- `b` is `a` or stands below it. -/
def Descends (a b : α) : Prop := Relation.ReflTransGen (fun a b => b ∈ children a) a b

/-- The nodes below a node come before it, those below its children one after the other. -/
def postOrder : ℕ → α → List α
  | 0, _ => []
  | levels + 1, a => (children a).flatMap (postOrder levels) ++ [a]

/-- The nodes above a node, from the next one on. -/
def ancestors (parent : α → Option α) : ℕ → α → List α
  | 0, _ => []
  | levels + 1, a =>
    match parent a with
    | none => []
    | some b => b :: ancestors parent levels b

/-- A tree over finitely many nodes: every node but the root is a child once, and is reached from
the root. -/
structure OrderedTree (nodes : List α) (root : α) : Prop where
  root_mem : root ∈ nodes
  closed : ∀ a ∈ nodes, ∀ b ∈ children a, b ∈ nodes
  nodup : ∀ a, (children a).Nodup
  unique : ∀ a b c, c ∈ children a → c ∈ children b → a = b
  root_free : ∀ a, root ∉ children a
  reached : ∀ a ∈ nodes, Descends children root a

/-- How far a node is from the root. -/
inductive Depth (root : α) : α → ℕ → Prop
  | root : Depth root root 0
  | child {a b : α} {n : ℕ} (h : Depth root a n) (hb : b ∈ children a) : Depth root b (n + 1)

end Order

namespace OrderedTree

variable {α : Type} {children : α → List α} {nodes : List α} {root a b c d x y : α}
  {levels m n : ℕ}

theorem exists_depth (h : OrderedTree children nodes root) (ha : a ∈ nodes) :
    ∃ n, Depth children root a n := by
  have hreach := h.reached a ha
  clear ha
  induction hreach with
  | refl => exact ⟨0, .root⟩
  | tail _ hb ih =>
    obtain ⟨n, hn⟩ := ih
    exact ⟨n + 1, hn.child hb⟩

theorem depth_unique (h : OrderedTree children nodes root) (hm : Depth children root a m)
    (hn : Depth children root a n) : m = n := by
  induction hm generalizing n with
  | root =>
    cases hn with
    | root => rfl
    | child _ hb => exact absurd hb (h.root_free _)
  | @child a b m hm hb ih =>
    cases hn with
    | root => exact absurd hb (h.root_free _)
    | @child a' _ n hn hb' =>
      obtain rfl := h.unique a a' b hb hb'
      rw [ih hn]

theorem mem_of_depth (h : OrderedTree children nodes root) (hn : Depth children root a n) :
    a ∈ nodes := by
  induction hn with
  | root => exact h.root_mem
  | child _ hb ih => exact h.closed _ ih _ hb

/-- A node is not as deep as there are nodes: its ancestors are all different. -/
theorem depth_lt (h : OrderedTree children nodes root) (hn : Depth children root a n) :
    n < nodes.length := by
  have hpath : ∃ p : List α, p.length = n + 1 ∧ p.Nodup ∧
      ∀ x ∈ p, ∃ m ≤ n, Depth children root x m := by
    induction hn with
    | root =>
      refine ⟨[root], rfl, List.nodup_singleton root, fun x hx => ⟨0, Nat.le_refl 0, ?_⟩⟩
      rw [List.mem_singleton.mp hx]
      exact .root
    | @child a b n hn hb ih =>
      obtain ⟨p, hlength, hnodup, hp⟩ := ih
      refine ⟨b :: p, congrArg (· + 1) hlength, List.nodup_cons.mpr ⟨?_, hnodup⟩, ?_⟩
      · intro hmem
        obtain ⟨m, hm, hdepth⟩ := hp b hmem
        have heq := h.depth_unique hdepth (hn.child hb)
        omega
      · intro x hx
        rcases List.mem_cons.mp hx with rfl | hx
        · exact ⟨n + 1, Nat.le_refl _, hn.child hb⟩
        · obtain ⟨m, hm, hdepth⟩ := hp x hx
          exact ⟨m, by omega, hdepth⟩
  obtain ⟨p, hlength, hnodup, hp⟩ := hpath
  have hsub : p ⊆ nodes := by
    intro x hx
    obtain ⟨m, -, hdepth⟩ := hp x hx
    exact h.mem_of_depth hdepth
  have hle := (List.subperm_of_subset hnodup hsub).length_le
  omega

/-- What stands below a node is deeper. -/
theorem depth_of_descends (hbelow : Descends children a b) (hm : Depth children root a m) :
    ∃ k, Depth children root b (m + k) ∧ (k = 0 → a = b) := by
  induction hbelow with
  | refl => exact ⟨0, hm, fun _ => rfl⟩
  | tail _ hc ih =>
    obtain ⟨k, hk, -⟩ := ih
    exact ⟨k + 1, hk.child hc, fun hzero => absurd hzero (Nat.succ_ne_zero k)⟩

theorem descends_mem (h : OrderedTree children nodes root) (ha : a ∈ nodes)
    (hbelow : Descends children a b) : b ∈ nodes := by
  induction hbelow with
  | refl => exact ha
  | tail _ hc ih => exact h.closed _ ih _ hc

theorem above_mem (h : OrderedTree children nodes root) (hb : b ∈ nodes)
    (hbelow : Descends children a b) : a ∈ nodes := by
  obtain ⟨n, hn⟩ := h.exists_depth hb
  clear hb
  induction hn with
  | root =>
    rcases Relation.ReflTransGen.cases_tail hbelow with rfl | ⟨y, -, hy⟩
    · exact h.root_mem
    · exact absurd hy (h.root_free y)
  | @child b c n hn hc ih =>
    rcases Relation.ReflTransGen.cases_tail hbelow with rfl | ⟨y, hay, hy⟩
    · exact h.mem_of_depth (hn.child hc)
    · obtain rfl := h.unique b y c hc hy
      exact ih hay

/-- No node stands below one of its children. -/
theorem not_descends_child (h : OrderedTree children nodes root) (ha : a ∈ nodes)
    (hc : c ∈ children a) : ¬ Descends children c a := by
  intro hbelow
  obtain ⟨n, hn⟩ := h.exists_depth ha
  obtain ⟨k, hk, -⟩ := depth_of_descends hbelow (hn.child hc)
  have heq := h.depth_unique hn hk
  omega

/-- Of two nodes above a node, the deeper one stands below the other. -/
theorem descends_of_depth_le (h : OrderedTree children nodes root) (hc : Depth children root c m)
    (hd : Depth children root d n) (hle : m ≤ n) (hcx : Descends children c x)
    (hdx : Descends children d x) : Descends children c d := by
  induction hcx with
  | refl =>
    obtain ⟨k, hk, heq⟩ := depth_of_descends hdx hd
    have hlength := h.depth_unique hc hk
    rw [heq (by omega)]
    exact .refl
  | @tail y x hcy hx ih =>
    rcases Relation.ReflTransGen.cases_tail hdx with rfl | ⟨y', hdy, hx'⟩
    · exact Relation.ReflTransGen.tail hcy hx
    · obtain rfl := h.unique y y' x hx hx'
      exact ih hdy

/-- Two nodes above a node that are as deep as each other are the same one. -/
theorem eq_of_descends (h : OrderedTree children nodes root) (hc : Depth children root c m)
    (hd : Depth children root d m) (hcx : Descends children c x) (hdx : Descends children d x) :
    c = d := by
  obtain ⟨k, hk, heq⟩ := depth_of_descends (h.descends_of_depth_le hc hd (Nat.le_refl m) hcx hdx) hc
  have hlength := h.depth_unique hd hk
  exact heq (by omega)

/-- Two nodes that stand below different children of a node stand below different children of no
other one. -/
theorem eq_of_meeting (h : OrderedTree children nodes root) {l r l' r' : α} (ha : a ∈ nodes)
    (hb : b ∈ nodes) (hl : l ∈ children a) (hr : r ∈ children a) (hne : l ≠ r)
    (hlx : Descends children l x) (hry : Descends children r y) (hl' : l' ∈ children b)
    (hr' : r' ∈ children b) (hne' : l' ≠ r') (hlx' : Descends children l' x)
    (hry' : Descends children r' y) : a = b := by
  obtain ⟨m, hm⟩ := h.exists_depth ha
  obtain ⟨n, hn⟩ := h.exists_depth hb
  have hbx := Relation.ReflTransGen.head hl' hlx'
  have hby := Relation.ReflTransGen.head hr' hry'
  have hax := Relation.ReflTransGen.head hl hlx
  have hay := Relation.ReflTransGen.head hr hry
  rcases Nat.lt_trichotomy m n with hlt | rfl | hlt
  · have hlb := h.descends_of_depth_le (hm.child hl) hn hlt hlx hbx
    have hrb := h.descends_of_depth_le (hm.child hr) hn hlt hry hby
    exact absurd (h.eq_of_descends (hm.child hl) (hm.child hr) hlb hrb) hne
  · exact h.eq_of_descends hm hn hax hbx
  · have hla := h.descends_of_depth_le (hn.child hl') hm hlt hlx' hax
    have hra := h.descends_of_depth_le (hn.child hr') hm hlt hry' hay
    exact absurd (h.eq_of_descends (hn.child hl') (hn.child hr') hla hra) hne'

/-- A node is in the post-order of those that it stands below. -/
theorem mem_postOrder (h : OrderedTree children nodes root) (hn : Depth children root a n)
    (hlevels : nodes.length ≤ levels + n) : b ∈ postOrder children levels a ↔ Descends children a b := by
  induction levels generalizing a n with
  | zero =>
    have hlt := h.depth_lt hn
    omega
  | succ levels ih =>
    have hrest {c : α} (hc : c ∈ children a) :
        b ∈ postOrder children levels c ↔ Descends children c b :=
      ih (hn.child hc) (by omega)
    rw [postOrder, List.mem_append, List.mem_flatMap, List.mem_singleton]
    constructor
    · rintro (⟨c, hc, hmem⟩ | rfl)
      · exact Relation.ReflTransGen.head hc ((hrest hc).mp hmem)
      · exact .refl
    · intro hbelow
      rcases Relation.ReflTransGen.cases_head hbelow with rfl | ⟨c, hc, hcb⟩
      · exact Or.inr rfl
      · exact Or.inl ⟨c, hc, (hrest hc).mpr hcb⟩

/-- No node is twice in a post-order. -/
theorem nodup_postOrder (h : OrderedTree children nodes root) (hn : Depth children root a n)
    (hlevels : nodes.length ≤ levels + n) : (postOrder children levels a).Nodup := by
  induction levels generalizing a n with
  | zero => exact List.nodup_nil
  | succ levels ih =>
    have hbound : nodes.length ≤ levels + (n + 1) := by omega
    rw [postOrder]
    apply List.Nodup.append
    · rw [List.nodup_flatMap]
      constructor
      · intro c hc
        exact ih (hn.child hc) hbound
      · refine (h.nodup a).imp_of_mem ?_
        intro c d hc hd hne x hcx hdx
        apply hne
        exact h.eq_of_descends (hn.child hc) (hn.child hd)
          ((h.mem_postOrder (hn.child hc) hbound).mp hcx)
          ((h.mem_postOrder (hn.child hd) hbound).mp hdx)
    · exact List.nodup_singleton a
    · intro x hx hxa
      rw [List.mem_singleton.mp hxa] at hx
      obtain ⟨c, hc, hmem⟩ := List.mem_flatMap.mp hx
      exact h.not_descends_child (h.mem_of_depth hn) hc
        ((h.mem_postOrder (hn.child hc) hbound).mp hmem)

/-- The post-order of the whole tree has every node once. -/
theorem postOrder_perm (h : OrderedTree children nodes root) (hnodes : nodes.Nodup)
    (hlevels : nodes.length ≤ levels) : (postOrder children levels root).Perm nodes := by
  apply (List.perm_ext_iff_of_nodup (h.nodup_postOrder .root hlevels) hnodes).mpr
  intro a
  rw [h.mem_postOrder .root hlevels]
  constructor
  · exact h.descends_mem h.root_mem
  · exact h.reached a

/-- The post-order of a node is a part of that of any node above it. -/
theorem postOrder_infix (h : OrderedTree children nodes root) (hn : Depth children root a n)
    (hlevels : nodes.length ≤ levels + n) (hbelow : Descends children a b) :
    ∃ k m, Depth children root b m ∧ nodes.length ≤ k + m ∧
      postOrder children k b <:+: postOrder children levels a := by
  induction hbelow with
  | refl => exact ⟨levels, n, hn, hlevels, List.infix_rfl⟩
  | @tail b c _ hc ih =>
    obtain ⟨k, m, hm, hk, hinfix⟩ := ih
    cases k with
    | zero =>
      have hlt := h.depth_lt hm
      omega
    | succ k =>
      refine ⟨k, m + 1, hm.child hc, by omega, List.IsInfix.trans ?_ hinfix⟩
      obtain ⟨l, r, hlist⟩ := List.append_of_mem hc
      rw [postOrder, hlist, List.flatMap_append, List.flatMap_cons]
      exact ⟨l.flatMap (postOrder children k), r.flatMap (postOrder children k) ++ [b], by
        simp only [List.append_assoc]⟩

/-- A node comes before those that it stands below. -/
theorem sublist_of_descends (h : OrderedTree children nodes root) (hlevels : nodes.length ≤ levels)
    (ha : a ∈ nodes) (hbelow : Descends children a x) (hne : x ≠ a) :
    [x, a].Sublist (postOrder children levels root) := by
  obtain ⟨k, m, hm, hk, hinfix⟩ := h.postOrder_infix .root hlevels (h.reached a ha)
  refine List.Sublist.trans ?_ hinfix.sublist
  have hmem := (h.mem_postOrder hm hk).mpr hbelow
  cases k with
  | zero => cases hmem
  | succ k =>
    rw [postOrder] at hmem ⊢
    rcases List.mem_append.mp hmem with hmem | hxa
    · exact (List.singleton_sublist.mpr hmem).append (List.Sublist.refl [a])
    · exact absurd (List.mem_singleton.mp hxa) hne

/-- What stands below a child comes before what stands below the children to its right. -/
theorem sublist_of_left (h : OrderedTree children nodes root) (hlevels : nodes.length ≤ levels)
    (ha : a ∈ nodes) {l r : List α} (hchildren : children a = l ++ c :: r) (hd : d ∈ r)
    (hcx : Descends children c x) (hdy : Descends children d y) :
    [x, y].Sublist (postOrder children levels root) := by
  obtain ⟨k, m, hm, hk, hinfix⟩ := h.postOrder_infix .root hlevels (h.reached a ha)
  refine List.Sublist.trans ?_ hinfix.sublist
  cases k with
  | zero =>
    have hlt := h.depth_lt hm
    omega
  | succ k =>
    have hbound : nodes.length ≤ k + (m + 1) := by omega
    have hc : c ∈ children a := by
      rw [hchildren]
      exact List.mem_append_right l List.mem_cons_self
    have hd' : d ∈ children a := by
      rw [hchildren]
      exact List.mem_append_right l (List.mem_cons_of_mem c hd)
    have hx := (h.mem_postOrder (hm.child hc) hbound).mpr hcx
    have hy : y ∈ r.flatMap (postOrder children k) :=
      List.mem_flatMap.mpr ⟨d, hd, (h.mem_postOrder (hm.child hd') hbound).mpr hdy⟩
    have htwo : [x, y].Sublist (postOrder children k c ++ r.flatMap (postOrder children k)) :=
      (List.singleton_sublist.mpr hx).append (List.singleton_sublist.mpr hy)
    rw [postOrder, hchildren, List.flatMap_append, List.flatMap_cons, List.append_assoc]
    exact (htwo.trans (List.sublist_append_left _ _)).trans (List.sublist_append_right _ _)

end OrderedTree

namespace OrderedTree

variable {α : Type} {children : α → List α} {parent : α → Option α} {nodes : List α}
  {root a b c x : α} {levels n : ℕ}

theorem ancestors_root (h : OrderedTree children nodes root)
    (hparent : ∀ a b, parent a = some b ↔ a ∈ children b) : ancestors parent levels root = [] := by
  cases levels with
  | zero => rfl
  | succ levels =>
    rw [ancestors]
    cases hp : parent root with
    | none => rfl
    | some b => exact absurd ((hparent root b).mp hp) (h.root_free b)

/-- The walk up from a node passes what the node stands below. -/
theorem mem_ancestors (h : OrderedTree children nodes root)
    (hparent : ∀ a b, parent a = some b ↔ a ∈ children b) (hn : Depth children root a n)
    (hlevels : n ≤ levels) : x ∈ a :: ancestors parent levels a ↔ Descends children x a := by
  induction hn generalizing levels with
  | root =>
    rw [h.ancestors_root hparent, List.mem_singleton]
    constructor
    · rintro rfl
      exact .refl
    · intro hbelow
      rcases Relation.ReflTransGen.cases_tail hbelow with heq | ⟨y, -, hy⟩
      · exact heq.symm
      · exact absurd hy (h.root_free y)
  | @child a b n hn hb ih =>
    obtain ⟨levels, rfl⟩ := Nat.exists_eq_succ_of_ne_zero (by omega : levels ≠ 0)
    rw [ancestors, (hparent b a).mpr hb, List.mem_cons, ih (by omega)]
    constructor
    · rintro (rfl | hbelow)
      · exact .refl
      · exact Relation.ReflTransGen.tail hbelow hb
    · intro hbelow
      rcases Relation.ReflTransGen.cases_tail hbelow with heq | ⟨y, hxy, hy⟩
      · exact Or.inl heq.symm
      · obtain rfl := h.unique a y b hb hy
        exact Or.inr hxy

/-- Further steps change nothing where the walk has reached the root. -/
theorem ancestors_eq (h : OrderedTree children nodes root)
    (hparent : ∀ a b, parent a = some b ↔ a ∈ children b) (hn : Depth children root a n)
    {levels' : ℕ} (hlevels : n ≤ levels) (hlevels' : n ≤ levels') :
    ancestors parent levels a = ancestors parent levels' a := by
  induction hn generalizing levels levels' with
  | root =>
    rw [h.ancestors_root hparent, h.ancestors_root hparent]
  | child _ hb ih =>
    obtain ⟨levels, rfl⟩ := Nat.exists_eq_succ_of_ne_zero (by omega : levels ≠ 0)
    obtain ⟨levels', rfl⟩ := Nat.exists_eq_succ_of_ne_zero (by omega : levels' ≠ 0)
    rw [ancestors, ancestors, (hparent _ _).mpr hb]
    exact congrArg _ (ih (by omega) (by omega))

/-- The walk up from a node goes on above an ancestor as the walk up from there. -/
theorem ancestors_split (h : OrderedTree children nodes root)
    (hparent : ∀ a b, parent a = some b ↔ a ∈ children b) (hlevels : nodes.length ≤ levels)
    (ha : a ∈ nodes) (hbelow : Descends children a b) (hne : a ≠ b) :
    ∃ passed, ancestors parent levels b = passed ++ a :: ancestors parent levels a := by
  induction hbelow with
  | refl => exact absurd rfl hne
  | @tail c b hac hb ih =>
    obtain ⟨n, hn⟩ := h.exists_depth (h.descends_mem ha hac)
    have hlt := h.depth_lt (hn.child hb)
    obtain ⟨k, rfl⟩ := Nat.exists_eq_succ_of_ne_zero (by omega : levels ≠ 0)
    have hup : ancestors parent (k + 1) b = c :: ancestors parent (k + 1) c := by
      rw [ancestors, (hparent b c).mpr hb]
      exact congrArg _ (h.ancestors_eq hparent hn (by omega) (by omega))
    by_cases heq : a = c
    · rw [heq]
      exact ⟨[], hup⟩
    · obtain ⟨passed, hpassed⟩ := ih heq
      exact ⟨c :: passed, hup.trans (congrArg (c :: ·) hpassed)⟩

/-- Each node on the walk is a child of the next one. -/
theorem isChain_ancestors (hparent : ∀ a b, parent a = some b ↔ a ∈ children b) :
    (a :: ancestors parent levels a).IsChain fun x y => x ∈ children y := by
  induction levels generalizing a with
  | zero => exact List.isChain_singleton a
  | succ levels ih =>
    rw [ancestors]
    cases hp : parent a with
    | none => exact List.isChain_singleton a
    | some b => exact List.isChain_cons_cons.mpr ⟨(hparent a b).mp hp, ih⟩

variable [DecidableEq α]

/-- On a chain, an element behind the first one follows one of its children. -/
theorem child_before {l : List α} (hchain : l.IsChain fun x y => x ∈ children y) (hc : c ∈ l)
    (hfirst : l.head? ≠ some c) :
    ∃ s x t, l = s ++ x :: c :: t ∧ c ∉ s ∧ l[l.idxOf c - 1]? = some x ∧ x ∈ children c := by
  obtain ⟨s, t, rfl, hs⟩ := List.eq_append_cons_of_mem hc
  rcases List.eq_nil_or_concat s with rfl | ⟨s, x, rfl⟩
  · exact absurd rfl hfirst
  · rw [List.concat_eq_append] at hs hchain ⊢
    refine ⟨s, x, t, List.append_assoc s [x] (c :: t), fun hmem => hs (List.mem_append_left [x] hmem),
      ?_, ?_⟩
    · rw [List.idxOf_append_of_notMem hs, List.idxOf_cons_self, List.length_append,
        List.length_singleton, Nat.add_zero, Nat.add_sub_cancel, List.append_assoc,
        List.getElem?_append_right (Nat.le_refl s.length), Nat.sub_self]
      rfl
    · rw [List.append_assoc] at hchain
      exact (List.isChain_append_cons_cons.mp hchain).2.1

/-- Two nodes meet at a node above both. Unless it is one of them, they stand below two of its
children, the ones that the walks up pass last before it. -/
theorem exists_meeting (h : OrderedTree children nodes root)
    (hparent : ∀ a b, parent a = some b ↔ a ∈ children b) (hlevels : nodes.length ≤ levels)
    (ha : a ∈ nodes) (hb : b ∈ nodes) :
    ∃ c, (a :: ancestors parent levels a).find? (· ∈ b :: ancestors parent levels b) = some c ∧
      Descends children c a ∧ Descends children c b ∧ (c ≠ a → c ≠ b → ∃ l r,
        (a :: ancestors parent levels a)[(a :: ancestors parent levels a).idxOf c - 1]? = some l ∧
        (b :: ancestors parent levels b)[(b :: ancestors parent levels b).idxOf c - 1]? = some r ∧
        l ∈ children c ∧ r ∈ children c ∧ l ≠ r ∧ Descends children l a ∧ Descends children r b) := by
  have hmem {x y : α} (hx : x ∈ nodes) :
      y ∈ x :: ancestors parent levels x ↔ Descends children y x := by
    obtain ⟨n, hn⟩ := h.exists_depth hx
    have hlt := h.depth_lt hn
    exact h.mem_ancestors hparent hn (by omega)
  have hsome : ((a :: ancestors parent levels a).find?
      (· ∈ b :: ancestors parent levels b)).isSome := by
    rw [List.find?_isSome]
    exact ⟨root, (hmem ha).mpr (h.reached a ha), decide_eq_true ((hmem hb).mpr (h.reached b hb))⟩
  obtain ⟨c, hc⟩ := Option.isSome_iff_exists.mp hsome
  have hca := List.mem_of_find?_eq_some hc
  have hcb : c ∈ b :: ancestors parent levels b := by
    simpa using List.find?_some hc
  refine ⟨c, hc, (hmem ha).mp hca, (hmem hb).mp hcb, fun hnea hneb => ?_⟩
  obtain ⟨s, l, t, hl, hs, hgetl, hlc⟩ := child_before (isChain_ancestors hparent) hca
    (fun hhead => hnea (Option.some.inj hhead).symm)
  obtain ⟨s', r, t', hr, -, hgetr, hrc⟩ := child_before (isChain_ancestors hparent) hcb
    (fun hhead => hneb (Option.some.inj hhead).symm)
  have hla : l ∈ a :: ancestors parent levels a := by
    rw [hl]
    exact List.mem_append_right s List.mem_cons_self
  have hrb : r ∈ b :: ancestors parent levels b := by
    rw [hr]
    exact List.mem_append_right s' List.mem_cons_self
  refine ⟨l, r, hgetl, hgetr, hlc, hrc, ?_, (hmem ha).mp hla, (hmem hb).mp hrb⟩
  -- a shared child would be met before its parent
  rintro rfl
  rw [hl, List.find?_append, Option.or_eq_some_iff] at hc
  rcases hc with hfound | ⟨-, hfound⟩
  · exact hs (List.mem_of_find?_eq_some hfound)
  · have hpos : (decide (l ∈ b :: ancestors parent levels b)) = true := decide_eq_true hrb
    obtain rfl : l = c := by simpa only [List.find?_cons, hpos, Option.some.injEq] using hfound
    exact h.not_descends_child (h.above_mem ha ((hmem ha).mp hla)) hlc .refl

end OrderedTree

end Kdna

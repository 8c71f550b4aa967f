import Kdna.Data.DepthFirst
import Kdna.Data.OrderedTree

/-!
# Recursive searches

A search visits the nodes behind a node before it is done with it. It fails where it comes back to
a node that it is visiting, and so succeeds exactly where no path comes back to its start. A search
that never fails reaches only what stands below its first node.
-/

namespace Kdna

section Searches

variable {α : Type} [DecidableEq α] (next : α → List α)

/-- The nodes that are done behind the visit of `a`, which the nodes `active` wait for; `none` where
it comes back to one of them. -/
def visit : ℕ → List α → List α → α → Option (List α)
  | 0, _, _, _ => none
  | levels + 1, active, done, a =>
    if a ∈ done then some done
    else if a ∈ active then none
    else ((next a).foldlM (visit levels (a :: active)) done).map (· ++ [a])

/-- The visits of all nodes succeed. -/
def acyclic (nodes : List α) : Bool :=
  (nodes.foldlM (visit next (nodes.length + 1) []) []).isSome

/-- What is reached behind the visit of `a`. -/
def reachFrom : ℕ → List α → α → List α
  | 0, reached, _ => reached
  | levels + 1, reached, a =>
    if a ∈ reached then reached else (next a).foldl (reachFrom levels) (reached ++ [a])

end Searches

section Cycles

variable {α : Type} [DecidableEq α] {next : α → List α} {nodes active done done' : List α}
  {a b : α} {levels : ℕ}

/-- What is done leads to no cycle. -/
def Done (next : α → List α) (done : List α) : Prop := ∀ a ∈ done, Acc (Follows next) a

omit [DecidableEq α] in
/-- Visits one behind the other, each of which is done with its node. -/
theorem done_of_foldlM {f : List α → α → Option (List α)}
    (hf : ∀ {done done' b}, Done next done → f done b = some done' →
      Done next done' ∧ done ⊆ done' ∧ b ∈ done') {l : List α} (hdone : Done next done)
    (h : l.foldlM f done = some done') : Done next done' ∧ done ⊆ done' ∧ l ⊆ done' := by
  induction l generalizing done with
  | nil =>
    obtain rfl := Option.some.inj h
    exact ⟨hdone, List.Subset.refl done, List.nil_subset done⟩
  | cons b l ih =>
    rw [List.foldlM_cons, Option.bind_eq_bind, Option.bind_eq_some_iff] at h
    obtain ⟨done₁, hb, hl⟩ := h
    obtain ⟨hdone₁, hsub₁, hmem₁⟩ := hf hdone hb
    obtain ⟨hfound, hsub, hrest⟩ := ih hdone₁ hl
    exact ⟨hfound, List.Subset.trans hsub₁ hsub, List.cons_subset.mpr ⟨hsub hmem₁, hrest⟩⟩

omit [DecidableEq α] in
/-- Where visits fail, one of them does. -/
theorem exists_none_of_foldlM {f : List α → α → Option (List α)} {l : List α}
    (h : l.foldlM f done = none) : ∃ b ∈ l, ∃ done, f done b = none := by
  induction l generalizing done with
  | nil => cases h
  | cons b l ih =>
    rw [List.foldlM_cons, Option.bind_eq_bind] at h
    cases hb : f done b with
    | none => exact ⟨b, List.mem_cons_self, done, hb⟩
    | some done₁ =>
      rw [hb, Option.bind_some] at h
      obtain ⟨c, hc, hnone⟩ := ih h
      exact ⟨c, List.mem_cons_of_mem b hc, hnone⟩

/-- A visit that succeeds is done with the node and all that was done before. -/
theorem done_of_visit (hdone : Done next done) (h : visit next levels active done a = some done') :
    Done next done' ∧ done ⊆ done' ∧ a ∈ done' := by
  induction levels generalizing active done done' a with
  | zero => cases h
  | succ levels ih =>
    rw [visit] at h
    split_ifs at h with hmem hactive
    · obtain rfl := Option.some.inj h
      exact ⟨hdone, List.Subset.refl done, hmem⟩
    · obtain ⟨found, hfound, rfl⟩ := Option.map_eq_some_iff.mp h
      obtain ⟨hacc, hsub, hnext⟩ := done_of_foldlM (fun hdone => ih hdone) hdone hfound
      refine ⟨?_, List.Subset.trans hsub (List.subset_append_left found [a]),
        List.mem_append_right found (List.mem_singleton_self a)⟩
      intro b hb
      rcases List.mem_append.mp hb with hb | hb
      · exact hacc b hb
      · rw [List.mem_singleton.mp hb]
        exact ⟨a, fun c hc => hacc c (hnext hc)⟩

/-- A visit fails only where there is a cycle, as long as it has room for every node. -/
theorem exists_cycle_of_visit (hclosed : ∀ a ∈ nodes, ∀ b ∈ next a, b ∈ nodes) (ha : a ∈ nodes)
    (hnodup : active.Nodup) (hactive : active ⊆ nodes)
    (hpath : ∀ b ∈ active, Relation.TransGen (Follows next) a b)
    (hlevels : nodes.length < levels + active.length)
    (h : visit next levels active done a = none) :
    ∃ b ∈ nodes, Relation.TransGen (Follows next) b b := by
  induction levels generalizing active done a with
  | zero =>
    have hle := (List.subperm_of_subset hnodup hactive).length_le
    omega
  | succ levels ih =>
    rw [visit] at h
    split_ifs at h with hmem hback
    · exact ⟨a, ha, hpath a hback⟩
    · rw [Option.map_eq_none_iff] at h
      obtain ⟨b, hb, done₁, hnone⟩ := exists_none_of_foldlM h
      refine ih (hclosed a ha b hb) (List.nodup_cons.mpr ⟨hback, hnodup⟩)
        (List.cons_subset.mpr ⟨ha, hactive⟩) ?_ ?_ hnone
      · intro c hc
        rcases List.mem_cons.mp hc with rfl | hc
        · exact .single hb
        · exact Relation.TransGen.head hb (hpath c hc)
      · rw [List.length_cons]
        omega

/-- Where the visits of all nodes succeed, none of them is on a cycle. -/
theorem not_transGen_of_acyclic (h : acyclic next nodes = true) (ha : a ∈ nodes) :
    ¬ Relation.TransGen (Follows next) a a := by
  obtain ⟨done, hdone⟩ := Option.isSome_iff_exists.mp h
  obtain ⟨hacc, -, hmem⟩ := done_of_foldlM (fun hdone h => done_of_visit hdone h)
    (fun a ha => absurd ha List.not_mem_nil) hdone
  exact not_transGen_of_acc (hacc a (hmem ha))

/-- The visits of all nodes succeed exactly where none of them is on a cycle. -/
theorem acyclic_iff (hclosed : ∀ a ∈ nodes, ∀ b ∈ next a, b ∈ nodes) :
    acyclic next nodes = true ↔ ∀ a ∈ nodes, ¬ Relation.TransGen (Follows next) a a := by
  constructor
  · exact fun h a => not_transGen_of_acyclic h
  · intro hcycle
    rw [acyclic, Option.isSome_iff_exists]
    cases hvisits : nodes.foldlM (visit next (nodes.length + 1) []) [] with
    | some done => exact ⟨done, rfl⟩
    | none =>
      obtain ⟨a, ha, done, hnone⟩ := exists_none_of_foldlM hvisits
      obtain ⟨b, hb, hloop⟩ := exists_cycle_of_visit hclosed ha List.nodup_nil (List.nil_subset nodes)
        (fun b hb => absurd hb List.not_mem_nil) (by omega) hnone
      exact absurd hloop (hcycle b hb)

end Cycles

section Reaching

variable {α : Type} [DecidableEq α] {next : α → List α} {nodes reached : List α} {root a b : α}
  {levels : ℕ}

/-- What is reached stands below the first node, and is reached once. -/
theorem descends_of_reachFrom (hreached : ∀ b ∈ reached, Descends next root b) (hnodup : reached.Nodup)
    (ha : Descends next root a) :
    (∀ b ∈ reachFrom next levels reached a, Descends next root b) ∧
      (reachFrom next levels reached a).Nodup := by
  induction levels generalizing reached a with
  | zero => exact ⟨hreached, hnodup⟩
  | succ levels ih =>
    rw [reachFrom]
    split_ifs with hmem
    · exact ⟨hreached, hnodup⟩
    · have hstart : (∀ b ∈ reached ++ [a], Descends next root b) ∧ (reached ++ [a]).Nodup := by
        constructor
        · intro b hb
          rcases List.mem_append.mp hb with hb | hb
          · exact hreached b hb
          · rw [List.mem_singleton.mp hb]
            exact ha
        · exact List.nodup_append.mpr ⟨hnodup, List.nodup_singleton a, by
            rintro x hx y hy rfl
            exact hmem (List.mem_singleton.mp hy ▸ hx)⟩
      have hnext : ∀ b ∈ next a, Descends next root b := fun b hb => Relation.ReflTransGen.tail ha hb
      generalize reached ++ [a] = start at hstart
      generalize next a = l at hnext
      induction l generalizing start with
      | nil => exact hstart
      | cons b l ihl =>
        rw [List.foldl_cons]
        exact ihl _ (ih hstart.1 hstart.2 (hnext b List.mem_cons_self))
          (fun c hc => hnext c (List.mem_cons_of_mem b hc))

end Reaching

end Kdna

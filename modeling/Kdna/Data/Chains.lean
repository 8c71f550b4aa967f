import Mathlib.Data.List.Chain
import Mathlib.Data.List.Nodup
import Mathlib.Data.List.Perm.Subperm
import Mathlib.Logic.Relation

/-!
# Chains of links

Each item is linked to at most one next item. A walk follows the links and remembers the items it
passed. It stops at an item that is linked to none, or at one it has passed before, so over
finitely many linked items it always stops, and it comes back exactly when the chain does not end.
-/

namespace Kdna

variable {α : Type}

/-- The chain from an item ends. -/
inductive ChainEnds (next : α → Option α) : α → Prop
  | stop {a : α} (h : next a = none) : ChainEnds next a
  | link {a b : α} (h : next a = some b) (hb : ChainEnds next b) : ChainEnds next a

variable {next : α → Option α} {a b node : α}

/-- The chain from a linked item ends when the one behind it does. -/
theorem chainEnds_iff_of_link (h : next a = some b) : ChainEnds next a ↔ ChainEnds next b := by
  constructor
  · intro ha
    cases ha with
    | stop hnone => exact absurd (hnone.symm.trans h) (Option.some_ne_none b).symm
    | link hnext hb => exact Option.some.inj (hnext.symm.trans h) ▸ hb
  · exact ChainEnds.link h

/-- A chain ends when the links behind it are well founded. -/
theorem chainEnds_iff_acc : ChainEnds next a ↔ Acc (fun b a => next a = some b) a := by
  constructor
  · intro h
    induction h with
    | stop h => exact ⟨_, fun b hb => absurd (h.symm.trans hb) (Option.some_ne_none b).symm⟩
    | link h _ ih => exact ⟨_, fun b hb => Option.some.inj (h.symm.trans hb) ▸ ih⟩
  · intro h
    induction h with
    | intro a _ ih =>
      cases hnext : next a with
      | none => exact .stop hnext
      | some b => exact .link hnext (ih b hnext)

/-- A chain that comes back does not end. -/
theorem not_chainEnds_of_loop (h : Relation.TransGen (fun a b => next a = some b) a a) :
    ¬ChainEnds next a := by
  intro hends
  induction hends with
  | @stop a hnone =>
    obtain ⟨b, hab, -⟩ := Relation.TransGen.head'_iff.mp h
    exact Option.some_ne_none b (hab.symm.trans hnone)
  | @link a b hab _ ih =>
    obtain ⟨b', hab', hrest⟩ := Relation.TransGen.head'_iff.mp h
    obtain rfl := Option.some.inj (hab.symm.trans hab')
    exact ih (Relation.TransGen.tail' hrest hab)

variable [DecidableEq α]

/-- Follow the links from `node` behind the items of `chain`: the items passed, and the one
among them that the walk comes back to. -/
def walk (next : α → Option α) : ℕ → List α → α → Option (List α × Option α)
  | 0, _, _ => none
  | fuel + 1, chain, node =>
    match next node with
    | none => some (chain, none)
    | some target =>
      if node ∈ chain then some (chain, some node) else walk next fuel (chain ++ [node]) target

variable {chain support passed : List α} {back : Option α} {fuel : ℕ}

theorem walk_of_none (h : next node = none) :
    walk next (fuel + 1) chain node = some (chain, none) := by
  rw [walk, h]

theorem walk_of_mem (h : next node = some b) (hmem : node ∈ chain) :
    walk next (fuel + 1) chain node = some (chain, some node) := by
  rw [walk, h]
  exact if_pos hmem

theorem walk_of_not_mem (h : next node = some b) (hmem : node ∉ chain) :
    walk next (fuel + 1) chain node = walk next fuel (chain ++ [node]) b := by
  rw [walk, h]
  exact if_neg hmem

/-- More rounds change nothing. -/
theorem walk_mono {fuel' : ℕ} (hle : fuel ≤ fuel')
    (h : walk next fuel chain node = some (passed, back)) :
    walk next fuel' chain node = some (passed, back) := by
  induction fuel generalizing fuel' chain node with
  | zero => exact absurd h (Option.some_ne_none _).symm
  | succ fuel ih =>
    obtain ⟨fuel', rfl⟩ := Nat.exists_eq_succ_of_ne_zero (by omega : fuel' ≠ 0)
    cases hnext : next node with
    | none => rwa [walk_of_none hnext] at h ⊢
    | some target =>
      by_cases hmem : node ∈ chain
      · rwa [walk_of_mem hnext hmem] at h ⊢
      · rw [walk_of_not_mem hnext hmem] at h ⊢
        exact ih (by omega) h

/-- A walk over finitely many linked items stops. -/
theorem walk_isSome (hlinked : ∀ a, next a ≠ none → a ∈ support) (hnodup : chain.Nodup)
    (hchain : chain ⊆ support) (hfuel : support.length < fuel + chain.length) :
    (walk next fuel chain node).isSome := by
  induction fuel generalizing chain node with
  | zero =>
    have hle := (List.subperm_of_subset hnodup hchain).length_le
    omega
  | succ fuel ih =>
    cases hnext : next node with
    | none => rw [walk_of_none hnext, Option.isSome_some]
    | some target =>
      by_cases hmem : node ∈ chain
      · rw [walk_of_mem hnext hmem, Option.isSome_some]
      · have hnode : node ∈ support := hlinked node (by rw [hnext]; exact Option.some_ne_none _)
        rw [walk_of_not_mem hnext hmem]
        apply ih
        · exact List.nodup_append.mpr ⟨hnodup, List.nodup_singleton node, by
            rintro x hx y hy rfl
            exact hmem (List.mem_singleton.mp hy ▸ hx)⟩
        · exact List.append_subset.mpr ⟨hchain, List.cons_subset.mpr ⟨hnode, List.nil_subset _⟩⟩
        · rw [List.length_append, List.length_singleton]
          omega

/-- A walk keeps what it was behind. -/
theorem subset_of_walk (h : walk next fuel chain node = some (passed, back)) :
    chain ⊆ passed := by
  induction fuel generalizing chain node with
  | zero => exact absurd h (Option.some_ne_none _).symm
  | succ fuel ih =>
    cases hnext : next node with
    | none =>
      rw [walk_of_none hnext] at h
      obtain ⟨rfl, -⟩ := Prod.mk.inj (Option.some.inj h)
      exact List.Subset.refl chain
    | some target =>
      by_cases hmem : node ∈ chain
      · rw [walk_of_mem hnext hmem] at h
        obtain ⟨rfl, -⟩ := Prod.mk.inj (Option.some.inj h)
        exact List.Subset.refl chain
      · rw [walk_of_not_mem hnext hmem] at h
        exact fun x hx => ih h (List.mem_append_left _ hx)

/-- A walk passes a linked item it starts from. -/
theorem mem_of_walk (hlinked : next node ≠ none)
    (h : walk next fuel [] node = some (passed, back)) : node ∈ passed := by
  cases fuel with
  | zero => exact absurd h (Option.some_ne_none _).symm
  | succ fuel =>
    obtain ⟨target, hnext⟩ := Option.ne_none_iff_exists'.mp hlinked
    rw [walk_of_not_mem hnext List.not_mem_nil] at h
    exact subset_of_walk h (List.mem_singleton_self node)

/-- A walk that comes back has passed a chain that does. -/
theorem isChain_of_walk (hchain : (chain ++ [node]).IsChain fun a b => next a = some b)
    (h : walk next fuel chain node = some (passed, some a)) :
    (passed ++ [a]).IsChain (fun a b => next a = some b) ∧ a ∈ passed := by
  induction fuel generalizing chain node with
  | zero => exact absurd h (Option.some_ne_none _).symm
  | succ fuel ih =>
    cases hnext : next node with
    | none =>
      rw [walk_of_none hnext] at h
      exact absurd (Prod.mk.inj (Option.some.inj h)).2 (Option.some_ne_none a).symm
    | some target =>
      by_cases hmem : node ∈ chain
      · rw [walk_of_mem hnext hmem] at h
        obtain ⟨rfl, hback⟩ := Prod.mk.inj (Option.some.inj h)
        obtain rfl := Option.some.inj hback
        exact ⟨hchain, hmem⟩
      · rw [walk_of_not_mem hnext hmem] at h
        apply ih _ h
        rw [List.append_assoc]
        exact List.isChain_append_cons_cons.mpr ⟨hchain, hnext, List.isChain_singleton target⟩

/-- The chains of all items a walk passes end unless the walk comes back. -/
theorem chainEnds_iff_of_walk
    (hchain : ∀ c ∈ chain, Relation.TransGen (fun a b => next a = some b) c node)
    (hends : ∀ c ∈ chain, (ChainEnds next c ↔ ChainEnds next node))
    (h : walk next fuel chain node = some (passed, back)) :
    ∀ c ∈ passed, (ChainEnds next c ↔ back = none) := by
  induction fuel generalizing chain node with
  | zero => exact absurd h (Option.some_ne_none _).symm
  | succ fuel ih =>
    cases hnext : next node with
    | none =>
      rw [walk_of_none hnext] at h
      obtain ⟨rfl, rfl⟩ := Prod.mk.inj (Option.some.inj h)
      intro c hc
      simpa only [iff_true] using (hends c hc).mpr (.stop hnext)
    | some target =>
      by_cases hmem : node ∈ chain
      · rw [walk_of_mem hnext hmem] at h
        obtain ⟨rfl, rfl⟩ := Prod.mk.inj (Option.some.inj h)
        intro c hc
        have hloop : ¬ChainEnds next node := not_chainEnds_of_loop (hchain node hmem)
        simpa only [reduceCtorEq, iff_false, hends c hc] using hloop
      · rw [walk_of_not_mem hnext hmem] at h
        have hstep := chainEnds_iff_of_link hnext
        apply ih _ _ h
        · intro c hc
          rcases List.mem_append.mp hc with hc | hc
          · exact (hchain c hc).tail hnext
          · rw [List.mem_singleton.mp hc]
            exact .single hnext
        · intro c hc
          rcases List.mem_append.mp hc with hc | hc
          · exact (hends c hc).trans hstep
          · rw [List.mem_singleton.mp hc]
            exact hstep

end Kdna

import Mathlib.Data.Finite.Prod
import Mathlib.Data.Fintype.Card
import Mathlib.Order.WellFounded

/-!
# Declarations that lead to declarations

A name that is declared leads to declarations of its own, where it has any at all. The declarations
that a list leads to are walked in order, each before those of its name; there is a walk exactly
where every name has declarations and none leads back to itself.
-/

namespace Kdna.Declared

variable {α ρ : Type} (next : α → Option (List (α × ρ)))

/-- A name is declared, with what it is declared with, by a list or by what the list leads to. -/
inductive Declares : List (α × ρ) → α → ρ → Prop
  | here {ds : List (α × ρ)} {n : α} {r : ρ} : (n, r) ∈ ds → Declares ds n r
  | there {ds es : List (α × ρ)} {m n : α} {s r : ρ} : (m, s) ∈ ds → next m = some es →
      Declares es n r → Declares ds n r

/-- What a list declares is walked, each declaration before those of its name. -/
inductive Walk : List (α × ρ) → List (α × ρ) → Prop
  | nil : Walk [] []
  | cons {ds es u w : List (α × ρ)} {n : α} {r : ρ} : next n = some es → Walk es u → Walk ds w →
      Walk ((n, r) :: ds) ((n, r) :: u ++ w)

/-- No declared name leads to itself. -/
def Acyclic (ds : List (α × ρ)) : Prop :=
  ∀ n r es s, Declares next ds n r → next n = some es → ¬ Declares next es n s

/-- Every declared name has declarations. -/
def Resolved (ds : List (α × ρ)) : Prop := ∀ n r, Declares next ds n r → (next n).isSome = true

/-- The first declaration of each name that is not in a list. -/
def firsts [DecidableEq α] (seen : List α) : List (α × ρ) → List (α × ρ)
  | [] => []
  | (n, r) :: w => if n ∈ seen then firsts seen w else (n, r) :: firsts (seen ++ [n]) w

variable {next} {ds es u w : List (α × ρ)} {n m : α} {r s : ρ}

section Walks

theorem Declares.mono (h : Declares next ds n r) (hsub : ds ⊆ es) : Declares next es n r := by
  cases h with
  | here hmem => exact .here (hsub hmem)
  | there hmem hnext hrest => exact .there (hsub hmem) hnext hrest

theorem Declares.trans (h : Declares next ds m s) (hnext : next m = some es)
    (h' : Declares next es n r) : Declares next ds n r := by
  induction h with
  | here hmem => exact .there hmem hnext h'
  | there hmem hn _ ih => exact .there hmem hn (ih hnext)

/-- A walk holds what is declared. -/
theorem Walk.mem_iff (hw : Walk next ds w) : (n, r) ∈ w ↔ Declares next ds n r := by
  induction hw with
  | nil =>
    refine ⟨fun h => absurd h List.not_mem_nil, fun h => ?_⟩
    cases h with
    | here hmem => exact absurd hmem List.not_mem_nil
    | there hmem => exact absurd hmem List.not_mem_nil
  | @cons ds es u w m s hnext _ _ ihu ihw =>
    rw [List.cons_append, List.mem_cons, List.mem_append, ihu, ihw]
    constructor
    · rintro (heq | h | h)
      · exact .here (heq ▸ List.mem_cons_self)
      · exact .there List.mem_cons_self hnext h
      · exact h.mono (List.subset_cons_self _ _)
    · intro h
      cases h with
      | here hmem => exact (List.mem_cons.mp hmem).imp id fun hrest => .inr (.here hrest)
      | there hmem hn hrest =>
        rcases List.mem_cons.mp hmem with heq | hmem
        · obtain ⟨rfl, rfl⟩ := Prod.mk.inj heq
          obtain rfl := Option.some.inj (hnext.symm.trans hn)
          exact .inr (.inl hrest)
        · exact .inr (.inr (.there hmem hn hrest))

theorem Walk.unique (hw : Walk next ds w) (hu : Walk next ds u) : w = u := by
  induction hw generalizing u with
  | nil =>
    cases hu
    rfl
  | cons hnext _ _ ihu ihw =>
    cases hu with
    | cons hnext' hu' hw' =>
      obtain rfl := Option.some.inj (hnext.symm.trans hnext')
      rw [ihu hu', ihw hw']

/-- The walk of a declared name is a shorter one. -/
theorem Walk.of_declares (hw : Walk next ds w) (h : Declares next ds n r) :
    ∃ es u, next n = some es ∧ Walk next es u ∧ u.length < w.length := by
  induction hw with
  | nil =>
    cases h with
    | here hmem => exact absurd hmem List.not_mem_nil
    | there hmem => exact absurd hmem List.not_mem_nil
  | @cons ds es u w m s hnext hu _ ihu ihw =>
    have hlength : ((m, s) :: u ++ w).length = u.length + w.length + 1 := by
      rw [List.length_append, List.length_cons]
      omega
    have hrest (h : Declares next ds n r) : ∃ es' u', next n = some es' ∧ Walk next es' u' ∧
        u'.length < ((m, s) :: u ++ w).length := by
      obtain ⟨es', u', hn, hu', hlt⟩ := ihw h
      exact ⟨es', u', hn, hu', by omega⟩
    cases h with
    | here hmem =>
      rcases List.mem_cons.mp hmem with heq | hmem
      · obtain ⟨rfl, rfl⟩ := Prod.mk.inj heq
        exact ⟨es, u, hnext, hu, by omega⟩
      · exact hrest (.here hmem)
    | there hmem hn hinner =>
      rcases List.mem_cons.mp hmem with heq | hmem
      · obtain ⟨rfl, rfl⟩ := Prod.mk.inj heq
        obtain rfl := Option.some.inj (hnext.symm.trans hn)
        obtain ⟨es', u', hn', hu', hlt⟩ := ihu hinner
        exact ⟨es', u', hn', hu', by omega⟩
      · exact hrest (.there hmem hn hinner)

theorem Walk.resolved (hw : Walk next ds w) : Resolved next ds := by
  intro n r h
  obtain ⟨es, _, hn, -⟩ := hw.of_declares h
  rw [hn, Option.isSome_some]

/-- What is walked leads nowhere back. -/
theorem Walk.acyclic (hw : Walk next ds w) : Acyclic next ds := by
  intro n r es s h hnext hback
  obtain ⟨es', u, hn, hu, -⟩ := hw.of_declares h
  obtain rfl := Option.some.inj (hnext.symm.trans hn)
  obtain ⟨es'', u', hn', hu', hlt⟩ := hu.of_declares hback
  obtain rfl := Option.some.inj (hnext.symm.trans hn')
  rw [hu.unique hu'] at hlt
  exact lt_irrefl _ hlt

/-- A list is walked whose names have walks. -/
theorem exists_walk_of_forall (h : ∀ d ∈ ds, ∃ es u, next d.1 = some es ∧ Walk next es u) :
    ∃ w, Walk next ds w := by
  induction ds with
  | nil => exact ⟨[], .nil⟩
  | cons d ds ih =>
    obtain ⟨es, u, hnext, hu⟩ := h d List.mem_cons_self
    obtain ⟨w, hw⟩ := ih fun d' hd' => h d' (List.mem_cons_of_mem _ hd')
    exact ⟨_, .cons hnext hu hw⟩

end Walks

section Finite

/-- Of finitely many names, what leads nowhere back is walked. -/
theorem exists_walk {names : Finset α} (hnames : ∀ n es, next n = some es → n ∈ names)
    (hacyclic : Acyclic next ds) (hresolved : Resolved next ds) : ∃ w, Walk next ds w := by
  let Reached := {n : α // n ∈ names ∧ ∃ r, Declares next ds n r}
  let leads (m n : Reached) : Prop := ∃ es r, next n.1 = some es ∧ Declares next es m.1 r
  have hfinite : Finite Reached :=
    Finite.of_injective (fun n => (⟨n.1, n.2.1⟩ : names)) fun a b h =>
      Subtype.ext (Subtype.mk.inj h)
  have htrans : IsTrans Reached leads := by
    refine ⟨fun a b c ⟨es, r, hb, hab⟩ ⟨fs, s, hc, hbc⟩ => ⟨fs, r, hc, hbc.trans hb hab⟩⟩
  have hirrefl : Std.Irrefl leads := by
    refine ⟨fun a ⟨es, s, ha, hself⟩ => ?_⟩
    obtain ⟨r, hr⟩ := a.2.2
    exact hacyclic a.1 r es s hr ha hself
  have hwalks (n : Reached) : ∃ es u, next n.1 = some es ∧ Walk next es u := by
    induction n using (Finite.wellFounded_of_trans_of_irrefl leads).induction with
    | _ n ih =>
      obtain ⟨r, hr⟩ := n.2.2
      obtain ⟨es, hes⟩ := Option.isSome_iff_exists.mp (hresolved n.1 r hr)
      have hwalk : ∃ u, Walk next es u := exists_walk_of_forall fun d hd => by
        have hdeclared : Declares next ds d.1 d.2 := hr.trans hes (.here hd)
        obtain ⟨fs, hfs⟩ := Option.isSome_iff_exists.mp (hresolved _ _ hdeclared)
        exact ih ⟨d.1, hnames _ _ hfs, d.2, hdeclared⟩ ⟨es, d.2, hes, .here hd⟩
      obtain ⟨u, hu⟩ := hwalk
      exact ⟨es, u, hes, hu⟩
  refine exists_walk_of_forall fun d hd => ?_
  obtain ⟨es, hes⟩ := Option.isSome_iff_exists.mp (hresolved d.1 d.2 (.here hd))
  exact hwalks ⟨d.1, hnames _ _ hes, d.2, .here hd⟩

/-- There is a walk of finitely many names exactly where all have declarations and none leads back
to itself. -/
theorem exists_walk_iff {names : Finset α} (hnames : ∀ n es, next n = some es → n ∈ names) :
    (∃ w, Walk next ds w) ↔ Acyclic next ds ∧ Resolved next ds :=
  ⟨fun ⟨_, hw⟩ => ⟨hw.acyclic, hw.resolved⟩, fun h => exists_walk hnames h.1 h.2⟩

end Finite

section Firsts

variable [DecidableEq α] {seen seen' : List α}

theorem firsts_congr (h : ∀ n, n ∈ seen ↔ n ∈ seen') (w : List (α × ρ)) :
    firsts seen w = firsts seen' w := by
  induction w generalizing seen seen' with
  | nil => rfl
  | cons d w ih =>
    obtain ⟨n, r⟩ := d
    have hnext : ∀ m, m ∈ seen ++ [n] ↔ m ∈ seen' ++ [n] := fun m => by
      rw [List.mem_append, List.mem_append, h]
    rw [firsts, firsts, ih h, ih hnext]
    exact if_congr (h n) rfl rfl

theorem firsts_append (seen : List α) (u w : List (α × ρ)) :
    firsts seen (u ++ w) = firsts seen u ++ firsts (seen ++ u.map Prod.fst) w := by
  induction u generalizing seen with
  | nil => rw [List.map_nil, List.append_nil, List.nil_append, firsts, List.nil_append]
  | cons d u ih =>
    obtain ⟨n, r⟩ := d
    rw [List.cons_append, firsts, firsts, ih, ih, List.map_cons]
    split
    · next hmem =>
      congr 1
      refine firsts_congr (fun m => ?_) w
      simp only [List.mem_append, List.mem_cons]
      constructor
      · exact Or.imp_right .inr
      · rintro (h | rfl | h)
        · exact .inl h
        · exact .inl hmem
        · exact .inr h
    · rw [List.cons_append, List.append_assoc, List.singleton_append]

theorem firsts_eq_nil (h : ∀ d ∈ w, d.1 ∈ seen) : firsts seen w = [] := by
  induction w with
  | nil => rfl
  | cons d w ih =>
    obtain ⟨hd, hw⟩ := List.forall_mem_cons.mp h
    rw [firsts, if_pos hd, ih hw]

theorem firsts_subset (seen : List α) (w : List (α × ρ)) : firsts seen w ⊆ w := by
  induction w generalizing seen with
  | nil => exact List.nil_subset _
  | cons d w ih =>
    rw [firsts]
    split
    · exact List.Subset.trans (ih seen) (List.subset_cons_self _ _)
    · exact List.cons_subset_cons _ (ih _)

/-- A name that a list does not declare makes no difference to it. -/
theorem firsts_of_not_mem (h : ∀ d ∈ w, d.1 ≠ n) : firsts (seen ++ [n]) w = firsts seen w := by
  induction w generalizing seen with
  | nil => rfl
  | cons d w ih =>
    obtain ⟨hd, hw⟩ := List.forall_mem_cons.mp h
    have hmem : d.1 ∈ seen ++ [n] ↔ d.1 ∈ seen := by
      rw [List.mem_append, List.mem_singleton, or_iff_left hd]
    have hswap : firsts (seen ++ [n] ++ [d.1]) w = firsts (seen ++ [d.1]) w := by
      have hlast : firsts (seen ++ [d.1] ++ [n]) w = firsts (seen ++ [d.1]) w := ih hw
      rw [← hlast]
      refine firsts_congr (fun m => ?_) w
      simp only [List.mem_append, or_right_comm]
    rw [firsts, firsts, ih hw, hswap]
    exact if_congr hmem rfl rfl

end Firsts

section Orders

variable (next) in
/-- Every name of the list has declarations, all of names before it. -/
def Sorted (seen : List α) : Prop :=
  ∀ before n after, seen = before ++ n :: after → ∃ es, next n = some es ∧ ∀ d ∈ es, d.1 ∈ before

variable {seen before after : List α}

theorem sorted_nil : Sorted next [] := fun _ _ _ heq =>
  absurd heq.symm (List.append_ne_nil_of_right_ne_nil _ (List.cons_ne_nil _ _))

theorem Sorted.append_name (hs : Sorted next seen) (hnext : next n = some es)
    (hes : ∀ d ∈ es, d.1 ∈ seen) : Sorted next (seen ++ [n]) := by
  intro before m after heq
  rcases List.eq_nil_or_concat after with rfl | ⟨rest, last, rfl⟩
  · obtain ⟨rfl, hlast⟩ := List.append_inj' heq rfl
    obtain rfl := List.singleton_inj.mp hlast
    exact ⟨es, hnext, hes⟩
  · rw [List.concat_eq_append, ← List.cons_append, ← List.append_assoc] at heq
    obtain ⟨rfl, -⟩ := List.append_inj' heq rfl
    exact hs before m rest rfl

/-- What a name leads to comes before it. -/
theorem Sorted.mem_of_declares (hs : Sorted next seen) (heq : seen = before ++ n :: after)
    (hnext : next n = some es) (h : Declares next es m r) : m ∈ before := by
  induction h generalizing before n after with
  | here hmem =>
    obtain ⟨es', hnext', hes⟩ := hs before n after heq
    obtain rfl := Option.some.inj (hnext.symm.trans hnext')
    exact hes _ hmem
  | there hmem hm _ ih =>
    obtain ⟨es', hnext', hes⟩ := hs before n after heq
    obtain rfl := Option.some.inj (hnext.symm.trans hnext')
    obtain ⟨first, rest, rfl⟩ := List.append_of_mem (hes _ hmem)
    exact List.mem_append_left _ (ih (by rw [heq, List.append_assoc, List.cons_append]) hm)

/-- What is declared where all of a list is sorted is part of it. -/
theorem Sorted.closed (hs : Sorted next seen) (hds : ∀ d ∈ ds, d.1 ∈ seen)
    (h : Declares next ds m r) : m ∈ seen := by
  cases h with
  | here hmem => exact hds _ hmem
  | there hmem hn hrest =>
    obtain ⟨before, after, rfl⟩ := List.append_of_mem (hds _ hmem)
    exact List.mem_append_left _ (hs.mem_of_declares rfl hn hrest)

/-- A sorted name has a walk. -/
theorem Sorted.exists_walk (hs : Sorted next seen) (hn : n ∈ seen) :
    ∃ es u, next n = some es ∧ Walk next es u := by
  induction hlength : seen.length using Nat.strong_induction_on generalizing seen n with
  | _ k ih =>
    obtain ⟨before, after, rfl⟩ := List.append_of_mem hn
    obtain ⟨es, hnext, hes⟩ := hs before n after rfl
    have hbefore : Sorted next before := fun first m rest heq =>
      hs first m (rest ++ n :: after) (by rw [heq, List.append_assoc, List.cons_append])
    have hlt : before.length < k := by
      rw [← hlength, List.length_append, List.length_cons]
      omega
    obtain ⟨u, hu⟩ := exists_walk_of_forall fun d hd => ih _ hlt hbefore (hes d hd) rfl
    exact ⟨es, u, hnext, hu⟩

end Orders

end Kdna.Declared

import Mathlib.Data.List.Sort

/-!
# Groups of a sorted list

A list is grouped by a key: one group a key, in the order in which the keys first occur, with all
that has the key in the order of the list. Of a sorted list these are the only sorted groups, one a
key, whose first members are sorted as well.
-/

namespace Kdna

variable {α κ : Type} [DecidableEq κ] (key : α → κ) (r : α → α → Prop)

/-- The groups of a list by a key. -/
def grouped (l : List α) : List (κ × List α) :=
  (l.map key).eraseDups.map fun k => (k, l.filter fun a => key a = k)

/-- Sorted groups, one a key, with sorted first members. -/
structure Groups (gs : List (κ × List α)) : Prop where
  filled : ∀ g ∈ gs, g.2 ≠ []
  keyed : ∀ g ∈ gs, ∀ a ∈ g.2, key a = g.1
  sorted : ∀ g ∈ gs, g.2.Pairwise r
  distinct : (gs.map Prod.fst).Nodup
  heads : gs.Pairwise fun g g' => ∃ a ∈ g.2.head?, ∃ b ∈ g'.2.head?, r a b

variable {key r} {l : List α} {gs : List (κ × List α)} {g : κ × List α} {a b : α}

theorem grouped_cons (a : α) (l : List α) : grouped key (a :: l) =
    (key a, a :: l.filter fun b => key b = key a) :: grouped key (l.filter fun b => key b ≠ key a) := by
  have hkeys : (l.map key).filter (fun k => !k == key a) =
      (l.filter fun b => key b ≠ key a).map key := by
    rw [List.filter_map]
    congr 1
    refine List.filter_congr fun b _ => ?_
    rw [Function.comp_apply, Bool.eq_iff_iff, Bool.not_eq_true', beq_eq_false_iff_ne,
      decide_eq_true_eq]
  have hself : (a :: l).filter (fun b => key b = key a) = a :: l.filter fun b => key b = key a :=
    List.filter_cons_of_pos (decide_eq_true rfl)
  rw [grouped, List.map_cons, List.eraseDups_cons, hkeys, List.map_cons, grouped, hself]
  congr 1
  refine List.map_congr_left fun k hk => ?_
  obtain ⟨b, hb, rfl⟩ := List.mem_map.mp (List.mem_eraseDups.mp hk)
  have hne : key b ≠ key a := of_decide_eq_true (List.mem_filter.mp hb).2
  rw [List.filter_cons_of_neg (by simpa using hne.symm), List.filter_filter]
  congr 1
  refine List.filter_congr fun c _ => ?_
  by_cases hc : key c = key b
  · simp [hc, hne]
  · simp [hc]

/-- The groups hold what the list holds. -/
theorem mem_grouped : (∃ g ∈ grouped key l, a ∈ g.2) ↔ a ∈ l := by
  constructor
  · rintro ⟨g, hg, ha⟩
    obtain ⟨k, -, rfl⟩ := List.mem_map.mp hg
    exact (List.mem_filter.mp ha).1
  · intro ha
    refine ⟨_, List.mem_map_of_mem (List.mem_eraseDups.mpr (List.mem_map_of_mem ha)), ?_⟩
    exact List.mem_filter.mpr ⟨ha, decide_eq_true rfl⟩

/-- The first member of a group comes from the list. -/
theorem head_mem_of_grouped (hg : g ∈ grouped key l) : ∃ a ∈ g.2.head?, a ∈ l := by
  obtain ⟨k, hk, rfl⟩ := List.mem_map.mp hg
  obtain ⟨b, hb, rfl⟩ := List.mem_map.mp (List.mem_eraseDups.mp hk)
  have hmem : b ∈ l.filter fun c => key c = key b := List.mem_filter.mpr ⟨hb, decide_eq_true rfl⟩
  obtain ⟨a, rest, heq⟩ := List.exists_cons_of_ne_nil (List.ne_nil_of_mem hmem)
  refine ⟨a, ?_, ?_⟩
  · dsimp only
    rw [heq]
    rfl
  · exact (List.mem_filter.mp (heq ▸ List.mem_cons_self : a ∈ l.filter fun c => key c = key b)).1

/-- The groups of a sorted list are sorted. -/
theorem groups_grouped (hl : l.Pairwise r) : Groups key r (grouped key l) := by
  induction hlength : l.length using Nat.strong_induction_on generalizing l with
  | _ n ih =>
    cases l with
    | nil => exact ⟨List.forall_mem_nil _, List.forall_mem_nil _, List.forall_mem_nil _,
        List.nodup_nil, .nil⟩
    | cons a l =>
      obtain ⟨hhead, hrest⟩ := List.pairwise_cons.mp hl
      have hlt : (l.filter fun b => key b ≠ key a).length < n :=
        (List.length_filter_le _ _).trans_lt (hlength ▸ Nat.lt_succ_self _)
      have hgroups := ih _ hlt (hrest.filter _) rfl
      rw [grouped_cons]
      refine ⟨List.forall_mem_cons.mpr ⟨List.cons_ne_nil _ _, hgroups.filled⟩,
        List.forall_mem_cons.mpr ⟨List.forall_mem_cons.mpr ⟨rfl, fun b hb => ?_⟩, hgroups.keyed⟩,
        List.forall_mem_cons.mpr ⟨List.pairwise_cons.mpr ⟨fun b hb => ?_, hrest.filter _⟩,
          hgroups.sorted⟩, List.nodup_cons.mpr ⟨fun hmem => ?_, hgroups.distinct⟩,
        List.pairwise_cons.mpr ⟨fun g hg => ?_, hgroups.heads⟩⟩
      · exact of_decide_eq_true (List.mem_filter.mp hb).2
      · exact hhead b (List.mem_filter.mp hb).1
      · obtain ⟨g, hg, heq⟩ := List.mem_map.mp hmem
        obtain ⟨b, hb, hbl⟩ := head_mem_of_grouped hg
        have hkey := hgroups.keyed g hg b (List.mem_of_mem_head? hb)
        exact of_decide_eq_true (List.mem_filter.mp hbl).2 (hkey.trans heq)
      · obtain ⟨b, hb, hbl⟩ := head_mem_of_grouped hg
        exact ⟨a, rfl, b, hb, hhead b (List.mem_filter.mp hbl).1⟩

omit [DecidableEq κ] in
/-- The first member of the first group comes first. -/
theorem Groups.head_lt [IsTrans α r] {a : α} {as : List α} {k : κ}
    (hgs : Groups key r ((k, a :: as) :: gs)) (hg : g ∈ gs) (hb : b ∈ g.2) : r a b := by
  obtain ⟨a', ha', c, hc, hac⟩ := (List.pairwise_cons.mp hgs.heads).1 g hg
  obtain rfl := Option.some.inj ha'
  obtain ⟨k', cs⟩ := g
  cases cs with
  | nil => cases hc
  | cons c' cs =>
    obtain rfl := Option.some.inj hc
    rcases List.mem_cons.mp hb with rfl | hb
    · exact hac
    · exact IsTrans.trans _ _ _ hac ((List.pairwise_cons.mp
        (hgs.sorted _ (List.mem_cons_of_mem _ hg))).1 b hb)

/-- Sorted groups of what a sorted list holds are its groups. -/
theorem Groups.eq_grouped [IsTrans α r] [Std.Asymm r] (hgs : Groups key r gs) (hl : l.Pairwise r)
    (hmem : ∀ a, (∃ g ∈ gs, a ∈ g.2) ↔ a ∈ l) : gs = grouped key l := by
  induction gs generalizing l with
  | nil =>
    cases l with
    | nil => rfl
    | cons a l =>
      obtain ⟨g, hg, -⟩ := (hmem a).mpr List.mem_cons_self
      exact absurd hg List.not_mem_nil
  | cons g gs ih =>
    obtain ⟨k, as⟩ := g
    cases as with
    | nil => exact absurd rfl (hgs.filled _ List.mem_cons_self)
    | cons a as =>
      have hkey : key a = k := hgs.keyed _ List.mem_cons_self a List.mem_cons_self
      obtain ⟨hfirst, hdistinct⟩ := List.nodup_cons.mp hgs.distinct
      have hother {g : κ × List α} (hg : g ∈ gs) {b : α} (hb : b ∈ g.2) : key b ≠ k := by
        rw [hgs.keyed g (List.mem_cons_of_mem _ hg) b hb]
        exact fun heq => hfirst (List.mem_map.mpr ⟨g, hg, heq⟩)
      have hafter : ∀ b ∈ as, r a b := (List.pairwise_cons.mp (hgs.sorted _ List.mem_cons_self)).1
      have hne {b : α} (hab : r a b) : b ≠ a := fun heq => Std.Irrefl.irrefl a (heq ▸ hab)
      cases l with
      | nil => exact absurd ((hmem a).mp ⟨_, List.mem_cons_self, List.mem_cons_self⟩) List.not_mem_nil
      | cons h t =>
        obtain ⟨hht, ht⟩ := List.pairwise_cons.mp hl
        have hhead : h = a := by
          by_contra hne'
          have hat : a ∈ t := (List.mem_cons.mp
            ((hmem a).mp ⟨_, List.mem_cons_self, List.mem_cons_self⟩)).resolve_left (Ne.symm hne')
          obtain ⟨g, hg, hhg⟩ := (hmem h).mpr List.mem_cons_self
          rcases List.mem_cons.mp hg with rfl | hg
          · rcases List.mem_cons.mp hhg with heq | hhas
            · exact hne' heq
            · exact Std.Asymm.asymm _ _ (hht a hat) (hafter h hhas)
          · exact Std.Asymm.asymm _ _ (hht a hat) (hgs.head_lt hg hhg)
        subst hhead
        have htail {b : α} (hb : b ∈ t) : ∃ g ∈ (k, h :: as) :: gs, b ∈ g.2 :=
          (hmem b).mpr (List.mem_cons_of_mem _ hb)
        have hgroup : as = t.filter fun b => key b = key h := by
          refine (List.pairwise_cons.mp (hgs.sorted _ List.mem_cons_self)).2.eq_of_mem_iff
            (ht.filter _) fun b => ?_
          rw [List.mem_filter, decide_eq_true_eq, hkey]
          constructor
          · intro hb
            have hbl := (hmem b).mp ⟨_, List.mem_cons_self, List.mem_cons_of_mem _ hb⟩
            exact ⟨(List.mem_cons.mp hbl).resolve_left (hne (hafter b hb)),
              hgs.keyed _ List.mem_cons_self b (List.mem_cons_of_mem _ hb)⟩
          · rintro ⟨hb, hbk⟩
            obtain ⟨g, hg, hbg⟩ := htail hb
            rcases List.mem_cons.mp hg with rfl | hg
            · exact (List.mem_cons.mp hbg).resolve_left (hne (hht b hb))
            · exact absurd hbk (hother hg hbg)
        have hrest := ih ⟨fun g hg => hgs.filled g (List.mem_cons_of_mem _ hg),
            fun g hg => hgs.keyed g (List.mem_cons_of_mem _ hg),
            fun g hg => hgs.sorted g (List.mem_cons_of_mem _ hg), hdistinct,
            (List.pairwise_cons.mp hgs.heads).2⟩ (ht.filter fun b => key b ≠ key h) fun b => by
          rw [List.mem_filter, decide_eq_true_eq, hkey]
          constructor
          · rintro ⟨g, hg, hb⟩
            have hbl := (hmem b).mp ⟨g, List.mem_cons_of_mem _ hg, hb⟩
            exact ⟨(List.mem_cons.mp hbl).resolve_left (hne (hgs.head_lt hg hb)), hother hg hb⟩
          · rintro ⟨hb, hbk⟩
            obtain ⟨g, hg, hbg⟩ := htail hb
            rcases List.mem_cons.mp hg with rfl | hg
            · exact absurd (hgs.keyed _ List.mem_cons_self b hbg) hbk
            · exact ⟨g, hg, hbg⟩
        rw [grouped_cons, ← hgroup, ← hrest, hkey]

/-- Sorted groups are those of a sorted list exactly where they hold the same. -/
theorem eq_grouped_iff [IsTrans α r] [Std.Asymm r] (hl : l.Pairwise r) :
    gs = grouped key l ↔ Groups key r gs ∧ ∀ a, (∃ g ∈ gs, a ∈ g.2) ↔ a ∈ l := by
  constructor
  · rintro rfl
    exact ⟨groups_grouped hl, fun _ => mem_grouped⟩
  · rintro ⟨hgs, hmem⟩
    exact hgs.eq_grouped hl hmem

/-- The groups hold the list, one after another. -/
theorem grouped_perm : ((grouped key l).flatMap Prod.snd).Perm l := by
  induction hlength : l.length using Nat.strong_induction_on generalizing l with
  | _ n ih =>
    cases l with
    | nil => exact .nil
    | cons a l =>
      have hlt : (l.filter fun b => key b ≠ key a).length < n :=
        (List.length_filter_le _ _).trans_lt (hlength ▸ Nat.lt_succ_self _)
      have hnot : (l.filter fun b => key b ≠ key a) = l.filter fun b => !decide (key b = key a) :=
        List.filter_congr fun b _ => decide_not
      rw [grouped_cons, List.flatMap_cons, List.cons_append]
      refine .cons a (((ih _ hlt rfl).append_left _).trans ?_)
      rw [hnot]
      exact List.filter_append_perm _ l

omit [DecidableEq κ] in
/-- Sorted groups of one member each of what a sorted list holds are its members, each alone. -/
theorem eq_singles [IsTrans α r] [Std.Asymm r] (hl : l.Pairwise r)
    (hsingle : ∀ g ∈ gs, ∃ a, g = (key a, [a]))
    (hheads : gs.Pairwise fun g g' => ∃ a ∈ g.2.head?, ∃ b ∈ g'.2.head?, r a b)
    (hmem : ∀ a, (∃ g ∈ gs, a ∈ g.2) ↔ a ∈ l) : gs = l.map fun a => (key a, [a]) := by
  have hgs : gs = (gs.flatMap Prod.snd).map fun a => (key a, [a]) := by
    clear hheads hmem
    induction gs with
    | nil => rfl
    | cons g gs ih =>
      obtain ⟨a, rfl⟩ := hsingle g List.mem_cons_self
      rw [List.flatMap_cons, List.map_append, ← ih fun g hg => hsingle g (List.mem_cons_of_mem _ hg)]
      rfl
  have hsorted : (gs.flatMap Prod.snd).Pairwise r := by
    refine List.pairwise_flatMap.mpr ⟨fun g hg => ?_, hheads.imp_of_mem fun {g g'} hg hg' hr => ?_⟩
    · obtain ⟨a, rfl⟩ := hsingle g hg
      exact List.pairwise_singleton _ _
    · obtain ⟨a, rfl⟩ := hsingle g hg
      obtain ⟨b, rfl⟩ := hsingle g' hg'
      obtain ⟨a', ha', b', hb', hab⟩ := hr
      obtain rfl := Option.some.inj ha'
      obtain rfl := Option.some.inj hb'
      exact List.forall_mem_singleton.mpr (List.forall_mem_singleton.mpr hab)
  have heq : gs.flatMap Prod.snd = l :=
    hsorted.eq_of_mem_iff hl fun a => List.mem_flatMap.trans (hmem a)
  rw [← heq]
  exact hgs

end Kdna

import Kdna.Data.Fallible
import Mathlib.Data.List.Sort
import Mathlib.Data.List.Nodup
import Mathlib.Data.List.Perm.Basic

/-!
# Fallible steps on reordered lists

Two fallible steps agree when both succeed with related values or both fail with related
errors. A step over the elements of a list agrees with itself on every reordering, and so does
a search for a key that no two elements share.
-/

namespace Kdna

variable {ε α β γ δ κ : Type}

/-- Both steps succeed with related values or both fail with related errors. -/
def Agree (q : ε → ε → Prop) (r : α → β → Prop) : Except ε α → Except ε β → Prop
  | .ok a, .ok b => r a b
  | .error e, .error e' => q e e'
  | _, _ => False

namespace Agree

variable {q : ε → ε → Prop} {r : α → β → Prop} {s : γ → δ → Prop}

theorem of_eq {r : α → α → Prop} (hq : ∀ e, q e e) (hr : ∀ a, r a a) {x y : Except ε α}
    (h : x = y) : Agree q r x y := by
  subst h
  cases x with
  | ok a => exact hr a
  | error e => exact hq e

/-- Sequences agree where their first steps do and what follows agrees on related values. -/
theorem bind {x : Except ε α} {y : Except ε β} {f : α → Except ε γ} {g : β → Except ε δ}
    (h : Agree q r x y)
    (hnext : ∀ a b, x = .ok a → y = .ok b → r a b → Agree q s (f a) (g b)) :
    Agree q s (x >>= f) (y >>= g) := by
  cases x with
  | ok a =>
    cases y with
    | ok b => exact hnext a b rfl rfl h
    | error e => exact h.elim
  | error e =>
    cases y with
    | ok b => exact h.elim
    | error e' => exact h

/-- A sequence that begins with one step on both sides. -/
theorem bind_same {x : Except ε α} {f : α → Except ε γ} {g : α → Except ε δ} (hq : ∀ e, q e e)
    (hnext : ∀ a, x = .ok a → Agree q s (f a) (g a)) : Agree q s (x >>= f) (x >>= g) := by
  cases x with
  | ok a => exact hnext a rfl
  | error e => exact hq e

theorem mono {q' : ε → ε → Prop} {r' : α → β → Prop} (hq : ∀ e e', q e e' → q' e e')
    (hr : ∀ a b, r a b → r' a b) {x : Except ε α} {y : Except ε β} (h : Agree q r x y) :
    Agree q' r' x y := by
  cases x with
  | ok a =>
    cases y with
    | ok b => exact hr a b h
    | error e => exact h.elim
  | error e =>
    cases y with
    | ok b => exact h.elim
    | error e' => exact hq e e' h

end Agree

theorem require_congr {p p' : Prop} [Decidable p] [Decidable p'] (h : p ↔ p') (e : ε) :
    require p e = require p' e := by
  unfold require
  split_ifs <;> simp_all

/-- A mapped step fails with the error of one of its elements. -/
theorem exists_of_mapM_eq_error {f : α → Except ε β} {l : List α} {e : ε}
    (h : l.mapM f = .error e) : ∃ a ∈ l, f a = .error e := by
  induction l with
  | nil => exact nomatch h
  | cons a l ih =>
    rw [List.mapM_cons] at h
    cases ha : f a with
    | error e' =>
      rw [ha] at h
      exact ⟨a, List.mem_cons_self, by rw [ha, Except.error.inj h]⟩
    | ok b =>
      rw [ha, ok_bind] at h
      cases hl : l.mapM f with
      | error e' =>
        rw [hl] at h
        obtain rfl := Except.error.inj h
        obtain ⟨a', ha', hf⟩ := ih hl
        exact ⟨a', .tail _ ha', hf⟩
      | ok r =>
        rw [hl] at h
        exact nomatch h

/-- A mapped step on a reordered list yields the reordered results. -/
theorem exists_mapM_perm {f : α → Except ε β} {l l' : List α} {r : List β} (h : l.Perm l')
    (hr : l.mapM f = .ok r) : ∃ r', l'.mapM f = .ok r' ∧ r.Perm r' := by
  induction h generalizing r with
  | nil => exact ⟨r, hr, .refl r⟩
  | cons a h ih =>
    simp only [List.mapM_cons, bind_eq_ok_iff, pure_eq_ok, Except.ok.injEq] at hr
    obtain ⟨b, hb, r, hr, rfl⟩ := hr
    obtain ⟨r', hr', hperm⟩ := ih hr
    exact ⟨b :: r', by rw [List.mapM_cons, hb, hr']; rfl, hperm.cons b⟩
  | swap a a' l =>
    simp only [List.mapM_cons, bind_eq_ok_iff, pure_eq_ok, Except.ok.injEq] at hr
    obtain ⟨b', hb', _, ⟨b, hb, r, hr, rfl⟩, rfl⟩ := hr
    refine ⟨b :: b' :: r, ?_, .swap b b' r⟩
    rw [List.mapM_cons, List.mapM_cons, hb, hb', hr]
    rfl
  | trans _ _ ih ih' =>
    obtain ⟨r', hr', hperm⟩ := ih hr
    obtain ⟨r'', hr'', hperm'⟩ := ih' hr'
    exact ⟨r'', hr'', hperm.trans hperm'⟩

/-- A mapped step agrees with itself on a reordered list. -/
theorem agree_mapM_perm {q : ε → ε → Prop} {f : α → Except ε β} {l l' : List α} (h : l.Perm l')
    (hq : ∀ a ∈ l, ∀ a' ∈ l, ∀ e e', f a = .error e → f a' = .error e' → q e e') :
    Agree q List.Perm (l.mapM f) (l'.mapM f) := by
  cases hl : l.mapM f with
  | ok r =>
    obtain ⟨r', hr', hperm⟩ := exists_mapM_perm h hl
    rw [hr']
    exact hperm
  | error e =>
    cases hl' : l'.mapM f with
    | ok r' =>
      obtain ⟨r, hr, -⟩ := exists_mapM_perm h.symm hl'
      rw [hl] at hr
      exact nomatch hr
    | error e' =>
      obtain ⟨a, ha, hf⟩ := exists_of_mapM_eq_error hl
      obtain ⟨a', ha', hf'⟩ := exists_of_mapM_eq_error hl'
      exact hq a ha a' (h.mem_iff.mpr ha') e e' hf hf'

/-- Options that all hold a value are the list of these values. -/
theorem mapM_orFail_eq_ok_iff {e : ε} {l : List (Option α)} {r : List α} :
    l.mapM (orFail e) = .ok r ↔ l = r.map some := by
  simp only [mapM_eq_ok_iff, orFail_eq_ok_iff]
  rw [← List.forall₂_eq_eq_eq, List.forall₂_map_right_iff]

section Keys

variable [DecidableEq κ] {key : α → κ} {k : κ} {l l' : List α}

/-- A key that no two elements share is found at its element. -/
theorem find?_key_eq_some_iff (hnodup : (l.map key).Nodup) {a : α} :
    l.find? (fun x => key x = k) = some a ↔ a ∈ l ∧ key a = k := by
  constructor
  · intro h
    exact ⟨List.mem_of_find?_eq_some h, by simpa using List.find?_some h⟩
  · rintro ⟨ha, rfl⟩
    have hsome : (l.find? fun x => key x = key a).isSome :=
      List.find?_isSome.mpr ⟨a, ha, by simp⟩
    obtain ⟨a', ha'⟩ := Option.isSome_iff_exists.mp hsome
    have hkey : key a' = key a := by simpa using List.find?_some ha'
    rw [ha', List.inj_on_of_nodup_map hnodup (List.mem_of_find?_eq_some ha') ha hkey]

theorem find?_key_perm (hnodup : (l.map key).Nodup) (h : l.Perm l') :
    l.find? (fun x => key x = k) = l'.find? fun x => key x = k := by
  ext a
  rw [find?_key_eq_some_iff hnodup, find?_key_eq_some_iff ((h.map key).nodup_iff.mp hnodup),
    h.mem_iff]

/-- What the element of a key yields. -/
theorem findSome?_key (hnodup : (l.map key).Nodup) (g : α → Option β) :
    l.findSome? (fun x => if key x = k then g x else none) =
      (l.find? fun x => key x = k).bind g := by
  induction l with
  | nil => rfl
  | cons a l ih =>
    rw [List.map_cons, List.nodup_cons] at hnodup
    rw [List.findSome?_cons, List.find?_cons]
    by_cases hkey : key a = k
    · have hnone : l.findSome? (fun x => if key x = k then g x else none) = none := by
        rw [List.findSome?_eq_none_iff]
        intro x hx
        rw [if_neg]
        rintro hx'
        exact hnodup.1 (List.mem_map.mpr ⟨x, hx, hx'.trans hkey.symm⟩)
      rw [if_pos hkey, hnone, decide_eq_true hkey]
      cases hg : g a <;> simp [hg]
    · rw [if_neg hkey, ih hnodup.2, decide_eq_false hkey]

end Keys

section Sorted

variable {α β : Type} [LinearOrder β] {key : α → β} {l l' : List α}

/-- Sorting elements with keys of their own does not depend on the order before. -/
theorem insertionSort_eq_of_perm (hkey : ∀ a ∈ l, ∀ b ∈ l, key a = key b → a = b) (h : l.Perm l') :
    l.insertionSort (fun a b => key a ≤ key b) = l'.insertionSort fun a b => key a ≤ key b := by
  have hsorted (l : List α) := List.pairwise_insertionSort (fun a b => key a ≤ key b) l
  have hperm (l : List α) := List.perm_insertionSort (fun a b => key a ≤ key b) l
  refine List.Perm.eq_of_pairwise ?_ (hsorted l) (hsorted l') (((hperm l).trans h).trans (hperm l').symm)
  intro a b ha hb hle hge
  have ha' : a ∈ l := (hperm l).mem_iff.mp ha
  have hb' : b ∈ l := h.mem_iff.mpr ((hperm l').mem_iff.mp hb)
  exact hkey a ha' b hb' (le_antisymm hle hge)

end Sorted

end Kdna

import Kdna.Data.Utf8
import Mathlib.Data.List.Lex
import Mathlib.Data.List.Sort

/-!
# The order of UTF-8 octets

Names, identifiers and table keys are ordered by their UTF-8 octets. A sorted list
without repetition is determined by its elements.
-/

namespace Kdna

/-- The octets that order a text. -/
def utf8Key (s : String) : List ℕ := (Utf8.encode s).map UInt8.toNat

theorem utf8Key_injective : Function.Injective utf8Key := by
  have hbyte : Function.Injective UInt8.toNat := fun _ _ h => UInt8.toNat_inj.mp h
  exact fun s t h => Utf8.encode_injective (List.map_injective_iff.mpr hbyte h)

variable {α : Type}

/-- The elements sorted by the octets of their keys; elements with one key keep their
order. -/
def sortByUtf8 (key : α → String) (l : List α) : List α :=
  l.insertionSort fun a b => utf8Key (key a) ≤ utf8Key (key b)

theorem sortByUtf8_perm (key : α → String) (l : List α) : (sortByUtf8 key l).Perm l :=
  List.perm_insertionSort _ _

theorem sortByUtf8_pairwise (key : α → String) (l : List α) :
    (sortByUtf8 key l).Pairwise fun a b => utf8Key (key a) ≤ utf8Key (key b) :=
  List.pairwise_insertionSort _ _

/-- `sortedUnique(xs)`: each text before the next. -/
def SortedUnique (names : List String) : Prop :=
  names.IsChain fun s t => utf8Key s < utf8Key t

instance (names : List String) : Decidable (SortedUnique names) := by
  unfold SortedUnique
  infer_instance

theorem sortedUnique_iff_pairwise {names : List String} :
    SortedUnique names ↔ names.Pairwise fun s t => utf8Key s < utf8Key t :=
  List.isChain_iff_pairwise

theorem SortedUnique.nodup {names : List String} (h : SortedUnique names) : names.Nodup := by
  refine (sortedUnique_iff_pairwise.mp h).imp ?_
  rintro s t hlt rfl
  exact lt_irrefl _ hlt

/-- Sorting distinct keys sorts them strictly. -/
theorem sortedUnique_sortByUtf8 {key : α → String} {l : List α} (h : (l.map key).Nodup) :
    SortedUnique ((sortByUtf8 key l).map key) := by
  rw [sortedUnique_iff_pairwise, List.pairwise_map]
  have hnodup : ((sortByUtf8 key l).map key).Nodup :=
    (((sortByUtf8_perm key l).map key).nodup_iff).mpr h
  rw [List.Nodup, List.pairwise_map] at hnodup
  refine ((sortByUtf8_pairwise key l).and hnodup).imp ?_
  rintro a b ⟨hle, hne⟩
  exact lt_of_le_of_ne hle fun heq => hne (utf8Key_injective heq)

/-- Strictly sorted names with the same elements are the same list. -/
theorem SortedUnique.eq_of_perm {names names' : List String} (h : SortedUnique names)
    (h' : SortedUnique names') (hperm : names.Perm names') : names = names' := by
  refine List.Perm.eq_of_pairwise ?_ (sortedUnique_iff_pairwise.mp h)
    (sortedUnique_iff_pairwise.mp h') hperm
  exact fun _ _ _ _ hlt hgt => absurd hgt (lt_asymm hlt)

/-- Sorting distinct keys does not depend on the order before. -/
theorem sortByUtf8_eq_of_perm {key : α → String} {l l' : List α} (hnodup : (l.map key).Nodup)
    (h : l.Perm l') : sortByUtf8 key l = sortByUtf8 key l' := by
  have hperm : (sortByUtf8 key l).Perm (sortByUtf8 key l') :=
    ((sortByUtf8_perm key l).trans h).trans (sortByUtf8_perm key l').symm
  refine List.Perm.eq_of_pairwise ?_ (sortByUtf8_pairwise key l) (sortByUtf8_pairwise key l') hperm
  intro a b ha hb hle hge
  have ha' : a ∈ l := (sortByUtf8_perm key l).mem_iff.mp ha
  have hb' : b ∈ l := h.mem_iff.mpr ((sortByUtf8_perm key l').mem_iff.mp hb)
  exact List.inj_on_of_nodup_map hnodup ha' hb' (utf8Key_injective (le_antisymm hle hge))

/-- A strictly sorted list of keys is sorted already. -/
theorem sortByUtf8_eq_self {key : α → String} {l : List α} (h : SortedUnique (l.map key)) :
    sortByUtf8 key l = l := by
  rw [sortedUnique_iff_pairwise, List.pairwise_map] at h
  exact (h.imp fun hlt => le_of_lt hlt).insertionSort_eq

end Kdna

import Kdna.Data.Bytes

/-!
# Delimited pieces

A byte string behind its length in a fixed number of octets ends where it says, and a text
without line feeds ends at the next one. A sequence of such pieces is therefore determined
by the concatenation.
-/

namespace Kdna

namespace Bytes

/-- A byte string behind its length. -/
def field (width : ℕ) (b : Bytes) : Bytes := beWord width b.length ++ b

theorem beWord_inj {width m n : ℕ} (hm : m < 256 ^ width) (hn : n < 256 ^ width)
    (h : beWord width m = beWord width n) : m = n := by
  rw [← beValue_beWord_of_lt hm, h, beValue_beWord_of_lt hn]

/-- A word ends after its width. -/
theorem beWord_append_inj {width m n : ℕ} {x y : Bytes} (hm : m < 256 ^ width)
    (hn : n < 256 ^ width) (h : beWord width m ++ x = beWord width n ++ y) : m = n ∧ x = y := by
  obtain ⟨hword, hrest⟩ := List.append_inj h (by rw [length_beWord, length_beWord])
  exact ⟨beWord_inj hm hn hword, hrest⟩

/-- A field ends where it says. -/
theorem field_append_inj {width : ℕ} {a b x y : Bytes} (ha : a.length < 256 ^ width)
    (hb : b.length < 256 ^ width) (h : field width a ++ x = field width b ++ y) :
    a = b ∧ x = y := by
  rw [field, field, List.append_assoc, List.append_assoc] at h
  obtain ⟨hlength, hrest⟩ := beWord_append_inj ha hb h
  exact List.append_inj hrest hlength

end Bytes

variable {α β : Type}

/-- Pieces that end by themselves determine each of two concatenations of as many pieces. -/
theorem flatMap_inj_of_delimited {p : α → Prop} {piece : α → List β}
    (hpiece : ∀ a b x y, p a → p b → piece a ++ x = piece b ++ y → a = b ∧ x = y) {l l' : List α}
    (hlength : l.length = l'.length) (hl : ∀ a ∈ l, p a) (hl' : ∀ a ∈ l', p a)
    (h : l.flatMap piece = l'.flatMap piece) : l = l' := by
  induction l generalizing l' with
  | nil => exact (List.length_eq_zero_iff.mp hlength.symm).symm
  | cons a l ih =>
    cases l' with
    | nil => exact nomatch hlength
    | cons b l' =>
      rw [List.forall_mem_cons] at hl hl'
      rw [List.flatMap_cons, List.flatMap_cons] at h
      obtain ⟨rfl, hrest⟩ := hpiece a b _ _ hl.1 hl'.1 h
      rw [ih (Nat.succ.inj hlength) hl.2 hl'.2 hrest]

/-- The part of a list before an element that it does not hold is determined. -/
theorem append_cons_inj {c : α} {l l' m m' : List α} (hl : c ∉ l) (hl' : c ∉ l')
    (h : l ++ c :: m = l' ++ c :: m') : l = l' ∧ m = m' := by
  induction l generalizing l' with
  | nil =>
    cases l' with
    | nil => exact ⟨rfl, (List.cons.inj h).2⟩
    | cons d l' =>
      rw [List.nil_append, List.cons_append, List.cons.injEq] at h
      exact absurd (h.1 ▸ List.mem_cons_self) hl'
  | cons d l ih =>
    cases l' with
    | nil =>
      rw [List.nil_append, List.cons_append, List.cons.injEq] at h
      exact absurd (h.1 ▸ List.mem_cons_self) hl
    | cons d' l' =>
      rw [List.cons_append, List.cons_append, List.cons.injEq] at h
      rw [List.mem_cons, not_or] at hl hl'
      obtain ⟨heq, rfl⟩ := ih hl.2 hl'.2 h.2
      exact ⟨by rw [h.1, heq], rfl⟩

/-- The part of a list behind an element that it does not hold is determined. -/
theorem append_cons_inj_right {c : α} {l l' m m' : List α} (hm : c ∉ m) (hm' : c ∉ m')
    (h : l ++ c :: m = l' ++ c :: m') : l = l' ∧ m = m' := by
  have hreverse := congrArg List.reverse h
  simp only [List.reverse_append, List.reverse_cons, List.append_assoc, List.singleton_append]
    at hreverse
  obtain ⟨hback, hfront⟩ := append_cons_inj (by simpa using hm) (by simpa using hm') hreverse
  exact ⟨List.reverse_injective hfront, List.reverse_injective hback⟩

/-- Pieces that are not empty and do not hold the separator are determined by the text that
joins them. -/
theorem intercalate_inj [DecidableEq α] {c : α} {l l' : List (List α)}
    (hl : ∀ t ∈ l, c ∉ t ∧ t ≠ []) (hl' : ∀ t ∈ l', c ∉ t ∧ t ≠ [])
    (h : List.intercalate [c] l = List.intercalate [c] l') : l = l' := by
  have hempty {m : List (List α)} (hm : ∀ t ∈ m, c ∉ t ∧ t ≠ [])
      (hnil : List.intercalate [c] m = []) : m = [] := by
    cases m with
    | nil => rfl
    | cons t ts =>
      have hsplit : (List.intercalate [c] (t :: ts)).splitOn c = t :: ts :=
        List.splitOn_intercalate c (fun u hu => (hm u hu).1) (by simp)
      rw [hnil, List.splitOn_nil, List.cons.injEq] at hsplit
      exact absurd hsplit.1.symm (hm t List.mem_cons_self).2
  by_cases hnil : l = []
  · subst hnil
    exact (hempty hl' (by simpa using h.symm)).symm
  by_cases hnil' : l' = []
  · subst hnil'
    exact hempty hl (by simpa using h)
  · rw [← List.splitOn_intercalate c (fun u hu => (hl u hu).1) hnil, h,
      List.splitOn_intercalate c (fun u hu => (hl' u hu).1) hnil']

end Kdna

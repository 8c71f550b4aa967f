import Mathlib.Data.List.Basic

/-!
# Lists in chunks

A loop that steps through a list by `n` takes it apart into chunks of `n` elements, of which only
the last one may be shorter.
-/

namespace Kdna

variable {α : Type} {n : ℕ} {l : List α}

/-- `for (let i = 0; i < l.length; i += n)` with the chunks `l.slice(i, i + n)` -/
def chunks (n : ℕ) (l : List α) : List (List α) :=
  (List.range ((l.length + (n - 1)) / n)).map fun i => (l.drop (n * i)).take n

/-- `packs[p] ??= []; packs[p].push(a)` -/
def pushAt (a : α) : ℕ → List (List α) → List (List α)
  | 0, [] => [[a]]
  | 0, c :: cs => (c ++ [a]) :: cs
  | p + 1, [] => [] :: pushAt a p []
  | p + 1, c :: cs => c :: pushAt a p cs

theorem length_chunks (n : ℕ) (l : List α) : (chunks n l).length = (l.length + (n - 1)) / n := by
  rw [chunks, List.length_map, List.length_range]

theorem getElem?_chunks (n : ℕ) (l : List α) (i : ℕ) : (chunks n l)[i]? =
    if i < (l.length + (n - 1)) / n then some ((l.drop (n * i)).take n) else none := by
  rw [chunks, List.getElem?_map]
  split_ifs with hi
  · rw [List.getElem?_range hi]
    rfl
  · rw [List.getElem?_eq_none (by simpa using hi)]
    rfl

theorem chunks_nil (hn : 0 < n) : chunks n ([] : List α) = [] := by
  apply List.eq_nil_of_length_eq_zero
  rw [length_chunks, List.length_nil, Nat.zero_add]
  exact Nat.div_eq_of_lt (by omega)

/-- The first chunk, and the chunks behind it. -/
theorem chunks_of_ne_nil (hn : 0 < n) (hl : l ≠ []) :
    chunks n l = l.take n :: chunks n (l.drop n) := by
  have hpos : 0 < l.length := List.length_pos_of_ne_nil hl
  have hcount : (l.length + (n - 1)) / n = ((l.drop n).length + (n - 1)) / n + 1 := by
    rw [List.length_drop]
    by_cases hle : n ≤ l.length
    · rw [← Nat.add_div_right _ hn]
      congr 1
      omega
    · have h0 : (l.length - n + (n - 1)) / n = 0 := Nat.div_eq_of_lt (by omega)
      rw [h0]
      exact Nat.div_eq_of_lt_le (by omega) (by omega)
  rw [chunks, chunks, hcount, List.range_succ_eq_map, List.map_cons, List.map_map]
  congr 1
  apply List.map_congr_left
  intro i _
  simp only [Function.comp_apply, List.drop_drop, Nat.succ_eq_add_one]
  rw [Nat.mul_add, Nat.mul_one, Nat.add_comm]

/-- The chunks are the list. -/
theorem flatten_chunks (hn : 0 < n) (l : List α) : (chunks n l).flatten = l := by
  induction hlen : l.length using Nat.strongRecOn generalizing l with
  | ind k ih =>
    by_cases hl : l = []
    · rw [hl, chunks_nil hn, List.flatten_nil]
    · have hpos : 0 < l.length := List.length_pos_of_ne_nil hl
      have hlt : (l.drop n).length < k := by
        rw [List.length_drop]
        omega
      rw [chunks_of_ne_nil hn hl, List.flatten_cons, ih _ hlt _ rfl, List.take_append_drop]

theorem length_le_of_mem_chunks {c : List α} (h : c ∈ chunks n l) : c.length ≤ n := by
  obtain ⟨i, -, rfl⟩ := List.mem_map.mp h
  exact List.length_take_le _ _

theorem length_flatten_le {m : ℕ} {ls : List (List α)} (h : ∀ c ∈ ls, c.length ≤ m) :
    ls.flatten.length ≤ ls.length * m := by
  induction ls with
  | nil => simp
  | cons c ls ih =>
    rw [List.forall_mem_cons] at h
    rw [List.flatten_cons, List.length_append, List.length_cons, Nat.succ_mul, Nat.add_comm]
    exact Nat.add_le_add (ih h.2) h.1

/-- Only the last chunk may be shorter. -/
theorem length_chunk (hn : 0 < n) {i : ℕ} {c : List α} (hc : (chunks n l)[i]? = some c) :
    0 < c.length ∧ (i + 1 = (chunks n l).length ∨ c.length = n) := by
  rw [getElem?_chunks] at hc
  split_ifs at hc with hi
  obtain rfl := Option.some.inj hc
  rw [length_chunks, List.length_take, List.length_drop]
  have hlow : n * i + n ≤ l.length + (n - 1) := by
    have := (Nat.le_div_iff_mul_le hn).mp hi
    rw [Nat.succ_mul, Nat.mul_comm] at this
    exact this
  refine ⟨by omega, ?_⟩
  by_cases hfull : n * i + n ≤ l.length
  · exact Or.inr (by omega)
  · refine Or.inl (Nat.le_antisymm hi ?_)
    rw [← Nat.lt_succ_iff, Nat.div_lt_iff_lt_mul hn, Nat.succ_mul, Nat.succ_mul, Nat.mul_comm]
    omega

/-- The chunk of an element. -/
theorem chunk_split (hn : 0 < n) {k : ℕ} {a : α} (hk : l[k]? = some a) :
    ∃ post, (chunks n l)[k / n]? =
      some ((l.take k).drop (n * (k / n)) ++ a :: post) := by
  have hlt : k < l.length := (List.getElem?_eq_some_iff.mp hk).1
  have hle : n * (k / n) ≤ k := Nat.mul_div_le k n
  have hmod : k < n * (k / n) + n := by
    have := Nat.div_add_mod k n
    have := Nat.mod_lt k hn
    omega
  have hcount : k / n < (l.length + (n - 1)) / n := by
    rw [Nat.lt_iff_add_one_le, Nat.le_div_iff_mul_le hn, Nat.succ_mul, Nat.mul_comm]
    omega
  refine ⟨(l.drop (k + 1)).take (n * (k / n) + n - (k + 1)), ?_⟩
  rw [getElem?_chunks, if_pos hcount, Option.some.injEq]
  have hsplit : l = l.take k ++ a :: l.drop (k + 1) := by
    rw [← (List.getElem?_eq_some_iff.mp hk).2, List.getElem_cons_drop, List.take_append_drop]
  have hlength : (l.take k).length = k := List.length_take_of_le (Nat.le_of_lt hlt)
  conv_lhs => rw [hsplit]
  rw [List.drop_append_of_le_length (by omega), List.take_append, List.length_drop, hlength,
    List.take_of_length_le (by rw [List.length_drop, hlength]; omega)]
  congr 1
  have hroom : n - (k - n * (k / n)) = (n * (k / n) + n - (k + 1)) + 1 := by omega
  rw [hroom, List.take_succ_cons]

/-- An element that is pushed to the chunk of its index stands behind the list. -/
theorem pushAt_chunks (hn : 0 < n) (a : α) (l : List α) :
    pushAt a (l.length / n) (chunks n l) = chunks n (l ++ [a]) := by
  induction hlen : l.length using Nat.strongRecOn generalizing l with
  | ind k ih =>
    subst hlen
    have hne : l ++ [a] ≠ [] := by simp
    rw [chunks_of_ne_nil hn hne]
    by_cases hlt : l.length < n
    · have hrest : (l ++ [a]).drop n = [] := List.drop_eq_nil_of_le (by simp; omega)
      rw [hrest, chunks_nil hn, List.take_of_length_le (by simp; omega), Nat.div_eq_of_lt hlt]
      by_cases hl : l = []
      · rw [hl, chunks_nil hn]
        rfl
      · rw [chunks_of_ne_nil hn hl, List.drop_eq_nil_of_le (Nat.le_of_lt hlt), chunks_nil hn,
          List.take_of_length_le (Nat.le_of_lt hlt)]
        rfl
    · have hle : n ≤ l.length := by omega
      have hl : l ≠ [] := by
        rintro rfl
        exact absurd hle (by simp; omega)
      have hdiv : l.length / n = (l.drop n).length / n + 1 := by
        rw [List.length_drop, Nat.div_eq_sub_div hn hle]
      have hlt' : (l.drop n).length < l.length := by
        rw [List.length_drop]
        omega
      rw [chunks_of_ne_nil hn hl, hdiv, pushAt, ih _ hlt' _ rfl, List.take_append_of_le_length hle,
        List.drop_append_of_le_length hle]

end Kdna

import Mathlib.Algebra.Ring.Nat
import Mathlib.Data.List.Basic
import Mathlib.Data.Nat.Notation

/-!
# Folding what has one key

An element may have a key. Where two or more elements of a list share one, a single element stands
for them all: it takes the place of the first, and the others leave. A fold keeps what each key
adds up to and the order in which the keys first occur, and a second fold changes nothing.
-/

namespace Kdna

variable {α κ : Type} [DecidableEq κ] (key : α → Option κ) (whole : α → ℕ → α)

/-- How many elements have the key `k`. -/
def sharing (k : κ) (l : List α) : ℕ := l.countP fun a => key a = some k

/-- What stands in the place that `a` has in `all` behind `before`. -/
def placed (all before : List α) (a : α) : Option α :=
  match key a with
  | none => some a
  | some k =>
    if sharing key k all < 2 then some a
    else if 0 < sharing key k before then none
    else some (whole a (sharing key k all))

/-- The fold of the elements of `all` behind `before`. -/
def foldBehind (all : List α) : List α → List α → List α
  | _, [] => []
  | before, a :: rest =>
    (placed key whole all before a).toList ++ foldBehind all (before ++ [a]) rest

/-- The fold of a list. -/
def folded (l : List α) : List α := foldBehind key whole l [] l

variable {key whole} {all before rest l : List α} {a : α} {k : κ}

theorem sharing_nil : sharing key k ([] : List α) = 0 := rfl

theorem sharing_cons :
    sharing key k (a :: l) = sharing key k l + if key a = some k then 1 else 0 := by
  simp only [sharing, List.countP_cons, decide_eq_true_eq]

theorem sharing_append (l l' : List α) :
    sharing key k (l ++ l') = sharing key k l + sharing key k l' :=
  List.countP_append

theorem sharing_concat :
    sharing key k (l ++ [a]) = sharing key k l + if key a = some k then 1 else 0 := by
  rw [sharing_append, sharing_cons, sharing_nil, Nat.zero_add]

/-- Each element leaves something of its own or nothing in its place. -/
theorem foldBehind_eq (before rest : List α) :
    foldBehind key whole (before ++ rest) before rest =
      (rest.zipIdx before.length).filterMap fun p =>
        placed key whole (before ++ rest) ((before ++ rest).take p.2) p.1 := by
  induction rest generalizing before with
  | nil => rfl
  | cons a rest ih =>
    have hsplit : before ++ a :: rest = before ++ [a] ++ rest := by simp
    have hlength : (before ++ [a]).length = before.length + 1 := List.length_append
    rw [foldBehind, hsplit, ih (before ++ [a]), hlength, List.zipIdx_cons, List.filterMap_cons,
      ← hsplit, List.take_left' rfl]
    cases placed key whole (before ++ a :: rest) before a <;> rfl

/-- The fold by the places of the list. -/
theorem folded_eq (l : List α) : folded key whole l =
    l.zipIdx.filterMap fun p => placed key whole l (l.take p.2) p.1 :=
  foldBehind_eq [] l

theorem sharing_le_length (l : List α) : sharing key k l ≤ l.length := List.countP_le_length

/-- A fold depends on which keys are the same alone. -/
theorem folded_map {κ' : Type} [DecidableEq κ'] {f : κ → κ'} (hf : Function.Injective f)
    (l : List α) : folded (fun a => (key a).map f) whole l = folded key whole l := by
  have hsharing (l' : List α) (k : κ) : sharing (fun a => (key a).map f) (f k) l' = sharing key k l' := by
    refine List.countP_congr fun a _ => ?_
    rw [decide_eq_true_eq, decide_eq_true_eq, Option.map_eq_some_iff]
    exact ⟨fun ⟨_, hm, hk⟩ => hf hk ▸ hm, fun h => ⟨k, h, rfl⟩⟩
  rw [folded_eq, folded_eq]
  refine List.filterMap_congr fun p _ => ?_
  rw [placed, placed]
  cases key p.1 with
  | none => rfl
  | some k =>
    dsimp only [Option.map_some]
    rw [hsharing, hsharing]

section Totals

variable {weight : α → ℕ}

/-- What the rest adds up to, for a key that occurs once at most. -/
theorem sum_foldBehind_of_lt (hfew : sharing key k all < 2)
    (hsingle : ∀ a l, key a = some l → weight a = if l = k then 1 else 0)
    (hwhole : ∀ a l, key a = some l → weight (whole a (sharing key l all)) =
      if l = k then sharing key l all else 0) :
    ((foldBehind key whole all before rest).map weight).sum = (rest.map weight).sum := by
  induction rest generalizing before with
  | nil => rfl
  | cons a rest ih =>
    have hplaced : ((placed key whole all before a).toList.map weight).sum = weight a := by
      rw [placed]
      cases hkey : key a with
      | none => exact Nat.add_zero _
      | some l =>
        dsimp only
        by_cases hl : l = k
        · subst hl
          rw [if_pos hfew]
          exact Nat.add_zero _
        · have hnothing : weight a = 0 := by rw [hsingle a l hkey, if_neg hl]
          split_ifs with hfew' hbefore
          · exact Nat.add_zero _
          · exact hnothing.symm
          · simp only [Option.toList_some, List.map_cons, List.map_nil, List.sum_cons, List.sum_nil,
              hwhole a l hkey, if_neg hl, hnothing, Nat.add_zero]
    rw [foldBehind, List.map_append, List.sum_append, hplaced, ih, List.map_cons, List.sum_cons]

/-- What the rest adds up to, for a key that occurs more than once: its first element has the
whole. -/
theorem sum_foldBehind_of_le (before rest : List α) (hmany : 2 ≤ sharing key k all)
    (hsingle : ∀ a l, key a = some l → weight a = if l = k then 1 else 0)
    (hwhole : ∀ a l, key a = some l → weight (whole a (sharing key l all)) =
      if l = k then sharing key l all else 0) :
    ((foldBehind key whole all before rest).map weight).sum + sharing key k rest =
      (rest.map weight).sum + if 0 < sharing key k before then 0
        else if 0 < sharing key k rest then sharing key k all else 0 := by
  induction rest generalizing before with
  | nil => simp [foldBehind, sharing]
  | cons a rest ih =>
    have hrest := ih (before ++ [a])
    rw [sharing_concat] at hrest
    rw [foldBehind, List.map_append, List.sum_append, List.map_cons, List.sum_cons, sharing_cons,
      placed]
    cases hkey : key a with
    | none =>
      simp only [hkey, reduceCtorEq, if_false, Nat.add_zero] at hrest ⊢
      simp only [Option.toList_some, List.map_cons, List.map_nil, List.sum_cons, List.sum_nil]
      omega
    | some l =>
      have hself := hsingle a l hkey
      have hall := hwhole a l hkey
      simp only [hkey, Option.some.injEq] at hrest ⊢
      by_cases hl : l = k
      · subst hl
        rw [if_neg (by omega : ¬ sharing key l all < 2)]
        rw [if_pos rfl] at hself hall hrest
        rw [if_pos (by omega : 0 < sharing key l before + 1)] at hrest
        by_cases hbefore : 0 < sharing key l before
        · simp only [if_pos hbefore, reduceIte, Option.toList_none, List.map_nil, List.sum_nil]
          omega
        · simp only [if_neg hbefore, reduceIte, Nat.zero_lt_succ, Option.toList_some, List.map_cons,
            List.map_nil, List.sum_cons, List.sum_nil]
          omega
      · rw [if_neg hl] at hself hall hrest
        split_ifs with hfew hbefore hbefore' <;>
          simp only [Option.toList_some, Option.toList_none, List.map_cons, List.map_nil,
            List.sum_cons, List.sum_nil] <;> grind

/-- A fold keeps what a key adds up to. -/
theorem sum_folded (l : List α)
    (hsingle : ∀ a m, key a = some m → weight a = if m = k then 1 else 0)
    (hwhole : ∀ a m, key a = some m → weight (whole a (sharing key m l)) =
      if m = k then sharing key m l else 0) :
    ((folded key whole l).map weight).sum = (l.map weight).sum := by
  rcases Nat.lt_or_ge (sharing key k l) 2 with hfew | hmany
  · exact sum_foldBehind_of_lt hfew hsingle hwhole
  · have h := sum_foldBehind_of_le [] l hmany hsingle hwhole
    have hbefore : ¬ 0 < sharing key k ([] : List α) := Nat.lt_irrefl 0
    rw [if_neg hbefore, if_pos (by omega : 0 < sharing key k l)] at h
    exact Nat.add_right_cancel h

end Totals

section Names

variable {name : α → Option κ}

/-- A repetition adds nothing to what occurs. -/
theorem eraseDups_append_cons (xs ys : List κ) (h : k ∈ xs) :
    (xs ++ k :: ys).eraseDups = (xs ++ ys).eraseDups := by
  have hskip : (k :: ys).removeAll xs = ys.removeAll xs := by
    simp [List.removeAll, h]
  rw [List.eraseDups_append, List.eraseDups_append, hskip]

/-- The names behind those of `before` first occur in one order. -/
theorem eraseDups_foldBehind (hkey : ∀ a k, key a = some k → name a = some k)
    (hwhole : ∀ a k n, key a = some k → name (whole a n) = some k) (before rest : List α)
    (xs : List κ) (hbefore : ∀ k, 0 < sharing key k before → k ∈ xs) :
    (xs ++ (foldBehind key whole all before rest).filterMap name).eraseDups =
      (xs ++ rest.filterMap name).eraseDups := by
  induction rest generalizing before xs with
  | nil => rfl
  | cons a rest ih =>
    have hnext : ∀ ks, (∀ k ∈ xs, k ∈ ks) → (∀ k, key a = some k → k ∈ ks) →
        (ks ++ (foldBehind key whole all (before ++ [a]) rest).filterMap name).eraseDups =
          (ks ++ rest.filterMap name).eraseDups := by
      intro ks hxs ha
      refine ih (before ++ [a]) ks fun k hk => ?_
      rw [sharing_concat] at hk
      by_cases hself : key a = some k
      · exact ha k hself
      · rw [if_neg hself] at hk
        exact hxs k (hbefore k hk)
    have hnamed : ∀ k, name a = some k → (∀ l, key a = some l → l = k) →
        (xs ++ k :: (foldBehind key whole all (before ++ [a]) rest).filterMap name).eraseDups =
          (xs ++ k :: rest.filterMap name).eraseDups := by
      intro k _ hself
      have hself := hnext (xs ++ [k]) (fun l hl => List.mem_append_left _ hl) fun l hl => by
        rw [hself l hl]
        exact List.mem_append_right _ (List.mem_singleton_self k)
      simpa only [List.append_assoc, List.singleton_append] using hself
    rw [foldBehind, placed]
    cases hself : key a with
    | none =>
      simp only [Option.toList_some, List.singleton_append, List.filterMap_cons]
      cases hname : name a with
      | none => exact hnext xs (fun k hk => hk) fun k hk => nomatch hself.symm.trans hk
      | some k => exact hnamed k hname fun l hl => nomatch hself.symm.trans hl
    | some k =>
      have hname := hkey a k hself
      have hone : ∀ l, key a = some l → l = k := fun l hl =>
        Option.some.inj (hl.symm.trans hself)
      simp only [List.filterMap_cons, hname]
      split_ifs with hfew hpresent
      · simp only [Option.toList_some, List.singleton_append, List.filterMap_cons, hname]
        exact hnamed k hname hone
      · have hmem := hbefore k hpresent
        rw [Option.toList_none, List.nil_append, eraseDups_append_cons _ _ hmem]
        exact hnext xs (fun l hl => hl) fun l hl => hone l hl ▸ hmem
      · simp only [Option.toList_some, List.singleton_append, List.filterMap_cons,
          hwhole a k _ hself]
        exact hnamed k hname hone

/-- A fold keeps the order in which the names first occur. -/
theorem eraseDups_folded (hkey : ∀ a k, key a = some k → name a = some k)
    (hwhole : ∀ a k n, key a = some k → name (whole a n) = some k) (l : List α) :
    ((folded key whole l).filterMap name).eraseDups = (l.filterMap name).eraseDups :=
  eraseDups_foldBehind hkey hwhole [] l [] fun _ h => absurd h (Nat.lt_irrefl 0)

end Names

section Twice

/-- Behind a fold no key occurs more than once. -/
theorem sharing_foldBehind (hwhole : ∀ a n, key (whole a n) = none) (before rest : List α) :
    sharing key k (foldBehind key whole all before rest) =
      if sharing key k all < 2 then sharing key k rest else 0 := by
  induction rest generalizing before with
  | nil =>
    rw [foldBehind, sharing_nil]
    split_ifs <;> rfl
  | cons a rest ih =>
    rw [foldBehind, sharing_append, ih, sharing_cons, placed]
    cases hself : key a with
    | none =>
      rw [Option.toList_some, sharing_cons, sharing_nil, hself, if_neg (Option.some_ne_none k).symm]
      split_ifs <;> omega
    | some l =>
      dsimp only
      by_cases hl : l = k
      · subst hl
        rw [if_pos (rfl : some l = some l)]
        split_ifs <;> simp only [Option.toList_some, Option.toList_none, sharing_cons, sharing_nil,
          hwhole, if_pos hself, reduceIte, reduceCtorEq]
        omega
      · have hne : ¬ key a = some k := fun h => hl (Option.some.inj (hself.symm.trans h))
        rw [← hself, if_neg hne]
        split_ifs <;> simp only [Option.toList_some, Option.toList_none, sharing_cons, sharing_nil,
          hwhole, if_neg hne, reduceIte, reduceCtorEq] <;> omega

theorem sharing_folded_lt (hwhole : ∀ a n, key (whole a n) = none) (l : List α) :
    sharing key k (folded key whole l) < 2 := by
  rw [folded, sharing_foldBehind hwhole]
  split_ifs with h
  · exact h
  · exact Nat.zero_lt_two

/-- A list with single keys stays as it is. -/
theorem foldBehind_eq_self (hfew : ∀ k, sharing key k all < 2) (before rest : List α) :
    foldBehind key whole all before rest = rest := by
  induction rest generalizing before with
  | nil => rfl
  | cons a rest ih =>
    have hplaced : placed key whole all before a = some a := by
      rw [placed]
      cases key a with
      | none => rfl
      | some k => exact if_pos (hfew k)
    rw [foldBehind, ih, hplaced]
    rfl

theorem folded_eq_self (hfew : ∀ k, sharing key k l < 2) : folded key whole l = l :=
  foldBehind_eq_self hfew [] l

/-- A second fold changes nothing. -/
theorem folded_folded (hwhole : ∀ a n, key (whole a n) = none) (l : List α) :
    folded key whole (folded key whole l) = folded key whole l :=
  folded_eq_self fun _ => sharing_folded_lt hwhole l

end Twice

end Kdna

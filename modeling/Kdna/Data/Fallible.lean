import Mathlib.Data.List.Forall2

/-!
# Fallible steps

A sequence of checks either stops at the first failure or yields a value. The
lemmas here take a successful sequence apart into the conditions that held, so
that a proof about a checked program never unfolds the monad.
-/

namespace Kdna

variable {ε α β : Type}

/-- Continue when the condition holds and stop with `e` otherwise. -/
def require (p : Prop) [Decidable p] (e : ε) : Except ε Unit := if p then .ok () else .error e

/-- The value of an option, or the failure `e`. -/
def orFail (e : ε) : Option α → Except ε α
  | some a => .ok a
  | none => .error e

@[simp] theorem ok_bind (a : α) (f : α → Except ε β) : (Except.ok a >>= f) = f a := rfl

@[simp] theorem error_bind (e : ε) (f : α → Except ε β) :
    ((Except.error e : Except ε α) >>= f) = .error e := rfl

/-- A sequence succeeds exactly when its first step does and the rest follows. -/
theorem bind_eq_ok_iff {x : Except ε α} {f : α → Except ε β} {b : β} :
    (x >>= f) = .ok b ↔ ∃ a, x = .ok a ∧ f a = .ok b := by
  cases x <;> simp

@[simp] theorem require_eq_ok_iff {p : Prop} [Decidable p] {e : ε} {u : Unit} :
    require p e = .ok u ↔ p := by
  unfold require
  split <;> simp_all

/-- A passed check is a proof of its condition. -/
theorem require_bind_eq_ok_iff {p : Prop} [Decidable p] {e : ε} {f : Unit → Except ε β} {b : β} :
    (require p e >>= f) = .ok b ↔ p ∧ f () = .ok b := by
  unfold require
  split <;> simp_all

/-- A check whose condition holds does not stop the sequence. -/
theorem require_bind_of_pos {p : Prop} [Decidable p] (h : p) {e : ε} (f : Unit → Except ε β) :
    (require p e >>= f) = f () := by
  simp [require, h]

@[simp] theorem orFail_eq_ok_iff {e : ε} {o : Option α} {a : α} :
    orFail e o = .ok a ↔ o = some a := by
  cases o <;> simp [orFail]

theorem toOption_eq_some_iff {x : Except ε α} {a : α} : x.toOption = some a ↔ x = .ok a := by
  cases x <;> simp [Except.toOption]

theorem pure_eq_ok (a : α) : (pure a : Except ε α) = .ok a := rfl

/-- A mapped step succeeds exactly when it does on every element. -/
theorem mapM_eq_ok_iff {f : α → Except ε β} {l : List α} {r : List β} :
    l.mapM f = .ok r ↔ List.Forall₂ (fun a b => f a = .ok b) l r := by
  induction l generalizing r with
  | nil =>
    rw [List.mapM_nil, List.forall₂_nil_left_iff, pure_eq_ok, Except.ok.injEq, eq_comm]
  | cons a l ih =>
    rw [List.mapM_cons, List.forall₂_cons_left_iff, bind_eq_ok_iff]
    refine exists_congr fun b => ?_
    simp only [bind_eq_ok_iff, ih, pure_eq_ok, Except.ok.injEq]
    constructor
    · rintro ⟨hb, bs, hbs, rfl⟩
      exact ⟨bs, hb, hbs, rfl⟩
    · rintro ⟨bs, hb, hbs, rfl⟩
      exact ⟨hb, bs, hbs, rfl⟩

/-- Every element of the second of two related lists is related to one of the first. -/
theorem exists_of_mem_forall₂ {R : α → β → Prop} {l : List α} {r : List β} (h : List.Forall₂ R l r)
    {b : β} (hb : b ∈ r) : ∃ a ∈ l, R a b := by
  induction h with
  | nil => exact absurd hb List.not_mem_nil
  | cons ha _ ih =>
    rcases List.mem_cons.mp hb with rfl | htail
    · exact ⟨_, List.mem_cons_self, ha⟩
    · obtain ⟨a, hmem, hrel⟩ := ih htail
      exact ⟨a, .tail _ hmem, hrel⟩

/-- Every element of the first of two related lists is related to one of the second. -/
theorem exists_mem_forall₂ {R : α → β → Prop} {l : List α} {r : List β} (h : List.Forall₂ R l r)
    {a : α} (ha : a ∈ l) : ∃ b ∈ r, R a b :=
  exists_of_mem_forall₂ h.flip ha

/-- Two lists that are related to one list are related to each other. -/
theorem forall₂_of_common {γ : Type} {R : α → β → Prop} {S : γ → β → Prop} {T : α → γ → Prop}
    {l : List α} {m : List β} {l' : List γ} (h : List.Forall₂ R l m) (h' : List.Forall₂ S l' m)
    (hT : ∀ a b c, R a b → S c b → T a c) : List.Forall₂ T l l' := by
  induction h generalizing l' with
  | nil =>
    cases h'
    exact .nil
  | cons ha _ ih =>
    cases h' with
    | cons hc hrest => exact .cons (hT _ _ _ ha hc) (ih hrest)

/-- Every result of a mapped step comes from an element. -/
theorem exists_of_mem_mapM {f : α → Except ε β} {l : List α} {r : List β}
    (h : l.mapM f = .ok r) {b : β} (hb : b ∈ r) : ∃ a ∈ l, f a = .ok b :=
  exists_of_mem_forall₂ (mapM_eq_ok_iff.mp h) hb

/-- Every element of a mapped step has a result. -/
theorem exists_mem_mapM {f : α → Except ε β} {l : List α} {r : List β} (h : l.mapM f = .ok r) {a : α}
    (ha : a ∈ l) : ∃ b ∈ r, f a = .ok b :=
  exists_mem_forall₂ (mapM_eq_ok_iff.mp h) ha

/-- Lists read off the results of a mapped step, related piece by piece, are related as a
whole. -/
theorem forall₂_flatMap_of_mapM {γ δ : Type} {f : α → Except ε β} {g : α → List γ} {k : β → List δ}
    {R : γ → δ → Prop} {l : List α} {r : List β} (h : l.mapM f = .ok r)
    (hf : ∀ a ∈ l, ∀ b, f a = .ok b → List.Forall₂ R (g a) (k b)) :
    List.Forall₂ R (l.flatMap g) (r.flatMap k) := by
  rw [mapM_eq_ok_iff] at h
  induction h with
  | nil => exact .nil
  | cons hb _ ih =>
    rw [List.forall_mem_cons] at hf
    rw [List.flatMap_cons, List.flatMap_cons]
    exact List.rel_append (hf.1 _ hb) (ih hf.2)

/-- A mapped reading succeeds exactly when it does on every element. -/
theorem mapM_eq_some_iff {f : α → Option β} {l : List α} {r : List β} :
    l.mapM f = some r ↔ List.Forall₂ (fun a b => f a = some b) l r := by
  induction l generalizing r with
  | nil =>
    rw [List.mapM_nil, List.forall₂_nil_left_iff, Option.pure_def, Option.some.injEq, eq_comm]
  | cons a l ih =>
    rw [List.mapM_cons, List.forall₂_cons_left_iff, Option.bind_eq_bind, Option.bind_eq_some_iff]
    refine exists_congr fun b => ?_
    simp only [Option.bind_eq_bind, Option.bind_eq_some_iff, ih, Option.pure_def,
      Option.some.injEq]
    constructor
    · rintro ⟨hb, bs, hbs, rfl⟩
      exact ⟨bs, hb, hbs, rfl⟩
    · rintro ⟨bs, hb, hbs, rfl⟩
      exact ⟨hb, bs, hbs, rfl⟩

/-- Every element of a mapped reading has a result. -/
theorem exists_mem_mapM_some {f : α → Option β} {l : List α} {r : List β} (h : l.mapM f = some r)
    {a : α} (ha : a ∈ l) : ∃ b ∈ r, f a = some b :=
  exists_mem_forall₂ (mapM_eq_some_iff.mp h) ha

/-- Every result of a mapped reading comes from an element. -/
theorem exists_of_mem_mapM_some {f : α → Option β} {l : List α} {r : List β}
    (h : l.mapM f = some r) {b : β} (hb : b ∈ r) : ∃ a ∈ l, f a = some b :=
  exists_of_mem_forall₂ (mapM_eq_some_iff.mp h) hb

end Kdna

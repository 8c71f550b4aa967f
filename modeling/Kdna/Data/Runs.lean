import Mathlib.Data.List.Basic
import Mathlib.Data.List.Induction

/-!
# Runs of a state machine

A run takes the steps of a sequence of events from one state to another. What every
step preserves holds behind every run.
-/

namespace Kdna

variable {σ ε : Type}

/-- The events of the list lead from the first state to the second. -/
inductive Run (step : σ → ε → σ → Prop) : σ → List ε → σ → Prop
  | nil (s : σ) : Run step s [] s
  | cons {s t u : σ} {e : ε} {es : List ε} (first : step s e t) (rest : Run step t es u) :
    Run step s (e :: es) u

namespace Run

variable {step : σ → ε → σ → Prop} {p : σ → Prop}

/-- What every step preserves, every run preserves. -/
theorem preserves (hstep : ∀ s e t, p s → step s e t → p t) {s t : σ} {es : List ε}
    (hrun : Run step s es t) (hs : p s) : p t := by
  induction hrun with
  | nil => exact hs
  | cons first _ ih => exact ih (hstep _ _ _ hs first)

/-- What the steps under a condition preserve, every run of such steps preserves. -/
theorem preserves_of {q : ε → Prop} (hstep : ∀ s e t, q e → p s → step s e t → p t) {s t : σ}
    {es : List ε} (hrun : Run step s es t) (hall : ∀ e ∈ es, q e) (hs : p s) : p t := by
  induction hrun with
  | nil => exact hs
  | cons first _ ih =>
    rw [List.forall_mem_cons] at hall
    exact ih hall.2 (hstep _ _ _ hall.1 hs first)

/-- A machine whose step is a function runs through every list of events. -/
theorem of_foldl (f : σ → ε → σ) (s : σ) (es : List ε) :
    Run (fun s e t => f s e = t) s es (es.foldl f s) := by
  induction es generalizing s with
  | nil => exact .nil s
  | cons e es ih => exact .cons rfl (ih (f s e))

/-- A run over a joined list of events is two runs. -/
theorem append_iff {s u : σ} {es fs : List ε} :
    Run step s (es ++ fs) u ↔ ∃ t, Run step s es t ∧ Run step t fs u := by
  induction es generalizing s with
  | nil =>
    constructor
    · exact fun h => ⟨s, .nil s, h⟩
    · rintro ⟨t, hnil, h⟩
      cases hnil
      exact h
  | cons e es ih =>
    constructor
    · intro h
      cases h with
      | cons first rest =>
        obtain ⟨t, hes, hfs⟩ := ih.mp rest
        exact ⟨t, .cons first hes, hfs⟩
    · rintro ⟨t, h, hfs⟩
      cases h with
      | cons first rest => exact .cons first (ih.mpr ⟨t, rest, hfs⟩)

end Run

section Functions

variable {f : σ → ε → σ} {r : σ → σ → Prop}

/-- Where each step keeps to a preorder, every state of a run is before the last. -/
theorem rel_foldl_of_mem_scanl (hrefl : ∀ s, r s s) (htrans : ∀ s t u, r s t → r t u → r s u)
    (hstep : ∀ s e, r s (f s e)) {s t : σ} {es : List ε} (ht : t ∈ es.scanl f s) :
    r t (es.foldl f s) := by
  induction es generalizing s t with
  | nil =>
    rw [List.scanl_nil, List.mem_singleton] at ht
    rw [ht]
    exact hrefl s
  | cons e es ih =>
    rw [List.scanl_cons, List.mem_cons] at ht
    rcases ht with rfl | htail
    · have hhead : f t e ∈ es.scanl f (f t e) := List.mem_of_mem_head? List.head?_scanl
      exact htrans _ _ _ (hstep t e) (ih hhead)
    · exact ih htail

/-- Where each step keeps to a preorder, every state of a run is before each later one. -/
theorem pairwise_scanl (hrefl : ∀ s, r s s) (htrans : ∀ s t u, r s t → r t u → r s u)
    (hstep : ∀ s e, r s (f s e)) (s : σ) (es : List ε) : (es.scanl f s).Pairwise r := by
  induction es using List.reverseRecOn with
  | nil => exact List.pairwise_singleton r s
  | append_singleton es e ih =>
    rw [List.scanl_append, List.pairwise_append]
    refine ⟨ih, List.pairwise_singleton r _, fun t ht u hu => ?_⟩
    rw [List.mem_singleton.mp hu]
    exact htrans _ _ _ (rel_foldl_of_mem_scanl hrefl htrans hstep ht) (hstep _ e)

end Functions

end Kdna

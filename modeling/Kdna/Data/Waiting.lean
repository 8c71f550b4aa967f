import Kdna.Data.EventLoop

/-!
# Where a call waits

What a history says of the questions that were asked and of where one call waits.
-/

namespace Kdna.EventLoop

variable {κ σ ω α β : Type} {id : ℕ} {q : ω} {h h' : List (Entry κ σ ω α β)}
  {e : Entry κ σ ω α β}

/-- Some call has asked the question. -/
def EverAsked (h : List (Entry κ σ ω α β)) (q : ω) : Prop := ∃ e ∈ h, e.outcome = .asked q

/-- The call has asked the question and has not taken up an answer, although one may have come. -/
def Waits (id : ℕ) (q : ω) (h : List (Entry κ σ ω α β)) : Prop :=
  ∃ pre e, e.id = id ∧ e.outcome = .asked q ∧ Extends id (pre ++ [e]) h

/-- The entry is no stop of the call. -/
def Passes (id : ℕ) (e : Entry κ σ ω α β) : Prop := e.id = id → ∃ a, e.outcome = .settled a

theorem everAsked_append : EverAsked (h ++ [e]) q ↔ EverAsked h q ∨ e.outcome = .asked q := by
  simp only [EverAsked, List.mem_append, List.mem_singleton, or_and_right, exists_or,
    exists_eq_left]

theorem EverAsked.mono (hq : EverAsked h q) (hsub : h ⊆ h') : EverAsked h' q := by
  obtain ⟨e, he, hasked⟩ := hq
  exact ⟨e, hsub he, hasked⟩

/-- An entry that is no stop of a call leaves it where it waits. -/
theorem waits_append (he : Passes id e) : Waits id q (h ++ [e]) ↔ Waits id q h := by
  constructor
  · rintro ⟨pre, f, hid, hf, more, hmore, hsettled⟩
    rcases List.eq_nil_or_concat more with rfl | ⟨more', last, rfl⟩
    · rw [List.append_nil] at hmore
      obtain ⟨-, hlast⟩ := List.append_inj' hmore rfl
      obtain rfl := List.singleton_inj.mp hlast
      obtain ⟨a, ha⟩ := he hid
      cases ha.symm.trans hf
    · rw [List.concat_eq_append, ← List.append_assoc] at hmore
      obtain ⟨rfl, -⟩ := List.append_inj' hmore rfl
      exact ⟨pre, f, hid, hf, more', rfl, fun g hg => hsettled g (by simp [hg])⟩
  · rintro ⟨pre, f, hid, hf, hext⟩
    refine ⟨pre, f, hid, hf, hext.trans ⟨[e], rfl, fun g hg => ?_⟩⟩
    rw [List.mem_singleton.mp hg]
    exact he

/-- A call that asks waits. -/
theorem waits_asking (hid : e.id = id) (he : e.outcome = .asked q) : Waits id q (h ++ [e]) :=
  ⟨h, e, hid, he, Extends.refl _⟩

/-- A call that stops elsewhere does not wait. -/
theorem not_waits_append (hid : e.id = id) (hsettled : ∀ a, e.outcome ≠ .settled a)
    (hasked : e.outcome ≠ .asked q) : ¬ Waits id q (h ++ [e]) := by
  rintro ⟨pre, f, -, hf, more, hmore, hmine⟩
  rcases List.eq_nil_or_concat more with rfl | ⟨more', last, rfl⟩
  · rw [List.append_nil] at hmore
    obtain ⟨-, hlast⟩ := List.append_inj' hmore rfl
    exact hasked (List.singleton_inj.mp hlast ▸ hf)
  · rw [List.concat_eq_append, ← List.append_assoc] at hmore
    obtain ⟨-, hlast⟩ := List.append_inj' hmore rfl
    obtain rfl := List.singleton_inj.mp hlast
    obtain ⟨a, ha⟩ := hmine _ (by simp) hid
    exact hsettled a ha

theorem Waits.everAsked (hw : Waits id q h) : EverAsked h q := by
  obtain ⟨pre, e, -, he, more, rfl, -⟩ := hw
  exact ⟨e, by simp, he⟩

/-- What always holds holds of the beginning. -/
theorem Always.of_append {τ : Type} {P : List τ → τ → Prop} {h h' : List τ}
    (hh : Always P (h ++ h')) : Always P h := by
  rintro pre e post rfl
  exact hh pre e (post ++ h') (by rw [List.append_assoc, List.cons_append])

/-- A call that has returned waits nowhere. -/
theorem not_waits_of_returned {ρ : Rules κ σ ω α β} (heach : Always (Entered ρ) h) (he : e ∈ h)
    (hid : e.id = id) {r : β} (hr : e.outcome = .returned r) : ¬ Waits id q h := by
  rintro ⟨pre, f, hf, hasked, more, rfl, hmore⟩
  rcases List.mem_append.mp he with hmem | hmem
  · rcases List.mem_append.mp hmem with hmem | hmem
    · exact (heach pre f more (by simp)).alive e hmem (hid.trans hf.symm) r hr
    · rw [List.mem_singleton.mp hmem] at hr
      cases hr.symm.trans hasked
  · obtain ⟨a, ha⟩ := hmore e hmem hid
    cases ha.symm.trans hr

/-- The call has asked the question, and what it awaits has not been settled. -/
def Unsettled (id : ℕ) (q : ω) (h : List (Entry κ σ ω α β)) : Prop :=
  ∃ before e after, h = before ++ e :: after ∧ e.id = id ∧ e.outcome = .asked q ∧
    ∀ f ∈ after, f.id ≠ id

/-- The entry asks the question. -/
def asks [DecidableEq ω] (q : ω) (e : Entry κ σ ω α β) : Bool :=
  match e.outcome with
  | .asked q' => q' = q
  | _ => false

theorem asks_iff [DecidableEq ω] : asks q e = true ↔ e.outcome = .asked q := by
  rw [asks]
  split
  · next q' hq => rw [hq, decide_eq_true_eq, Outcome.asked.injEq]
  · next hne => exact ⟨fun h => absurd h Bool.false_ne_true, fun he => absurd he (hne q)⟩

/-- What is not settled is the last that the call did. -/
theorem Unsettled.last [DecidableEq ω] (hq : Unsettled id q h) :
    (h.filter fun e => e.id = id).getLast?.any (asks q) = true := by
  obtain ⟨before, e, after, rfl, hid, he, hafter⟩ := hq
  have hnil : after.filter (fun e => e.id = id) = [] :=
    List.filter_eq_nil_iff.mpr fun f hf => by simpa using hafter f hf
  rw [List.filter_append, List.filter_cons_of_pos (by simpa using hid), hnil,
    List.getLast?_append_of_ne_nil _ (List.cons_ne_nil _ _), List.getLast?_singleton, Option.any_some]
  exact asks_iff.mpr he

end Kdna.EventLoop

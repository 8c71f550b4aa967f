import Kdna.Data.Fallible
import Mathlib.Order.Defs.Unbundled

/-!
# Passes over a state

A pass changes a state step by step and may stop. A pass that came to its end is taken apart
into the steps it has taken, and what relates the states around every step relates the ends of
the pass.
-/

namespace Kdna

/-- A pass over a state `σ` that may stop with `ε`. -/
abbrev StatePass (σ ε : Type) := StateT σ (Except ε)

namespace StatePass

variable {σ ε α β : Type} {s t : σ}

/-- A pass comes to its end when its first step does and the rest follows. -/
theorem bind_ok_iff {p : StatePass σ ε α} {f : α → StatePass σ ε β} {x : β × σ} :
    (p >>= f) s = .ok x ↔ ∃ a t, p s = .ok (a, t) ∧ f a t = .ok x := by
  have hbind : (p >>= f) s = (p s >>= fun y => f y.1 y.2) := rfl
  rw [hbind, bind_eq_ok_iff]
  constructor
  · rintro ⟨⟨a, t⟩, hp, hf⟩
    exact ⟨a, t, hp, hf⟩
  · rintro ⟨a, t, hp, hf⟩
    exact ⟨(a, t), hp, hf⟩

/-- The rest of a pass came to its end. -/
theorem exists_rest {p : StatePass σ ε α} {f : α → StatePass σ ε β} {x : β × σ}
    (h : (p >>= f) s = .ok x) : ∃ a t, f a t = .ok x := by
  obtain ⟨a, t, -, hrest⟩ := bind_ok_iff.mp h
  exact ⟨a, t, hrest⟩

theorem pure_ok_iff {a b : α} :
    (pure a : StatePass σ ε α) s = .ok (b, t) ↔ b = a ∧ t = s := by
  have hpure : (pure a : StatePass σ ε α) s = .ok (a, s) := rfl
  rw [hpure, Except.ok.injEq, eq_comm, Prod.mk.injEq]

/-- A check leaves the state as it is. -/
theorem lift_ok_iff {p : Except ε α} {a : α} :
    (liftM p : StatePass σ ε α) s = .ok (a, t) ↔ p = .ok a ∧ t = s := by
  have hlift : (liftM p : StatePass σ ε α) s = (p >>= fun b => .ok (b, s)) := rfl
  rw [hlift, bind_eq_ok_iff]
  constructor
  · rintro ⟨b, hp, hx⟩
    obtain ⟨rfl, rfl⟩ := Prod.mk.inj (Except.ok.inj hx)
    exact ⟨hp, rfl⟩
  · rintro ⟨hp, rfl⟩
    exact ⟨a, hp, rfl⟩

theorem discard_eq (p : StatePass σ ε α) :
    (discard p : StatePass σ ε PUnit) = (p >>= fun _ => pure ⟨⟩) := rfl

/-- The relation holds between the ends of the pass. -/
def Keeps (r : σ → σ → Prop) (p : StatePass σ ε α) : Prop := ∀ s a t, p s = .ok (a, t) → r s t

section Keeps

variable {r : σ → σ → Prop} [IsPreorder σ r]

@[simp] theorem keeps_pure (a : α) : Keeps r (pure a : StatePass σ ε α) := by
  intro s b t h
  obtain ⟨-, rfl⟩ := pure_ok_iff.mp h
  exact refl_of r t

@[simp] theorem keeps_lift (p : Except ε α) : Keeps r (liftM p : StatePass σ ε α) := by
  intro s a t h
  obtain ⟨-, rfl⟩ := lift_ok_iff.mp h
  exact refl_of r t

@[simp] theorem keeps_bind {p : StatePass σ ε α} {f : α → StatePass σ ε β} (hp : Keeps r p)
    (hf : ∀ a, Keeps r (f a)) : Keeps r (p >>= f) := by
  intro s b u h
  obtain ⟨a, t, hfirst, hrest⟩ := bind_ok_iff.mp h
  exact trans_of r (hp s a t hfirst) (hf a t b u hrest)

@[simp] theorem keeps_map {p : StatePass σ ε α} {f : α → β} (hp : Keeps r p) :
    Keeps r (f <$> p) :=
  keeps_bind hp fun _ => keeps_pure _

omit [IsPreorder σ r] in
@[simp] theorem keeps_ite {c : Prop} [Decidable c] {p q : StatePass σ ε α} (hp : Keeps r p)
    (hq : Keeps r q) : Keeps r (if c then p else q) := by
  split_ifs
  · exact hp
  · exact hq

@[simp] theorem keeps_forM {l : List β} {f : β → StatePass σ ε PUnit} (hf : ∀ b, Keeps r (f b)) :
    Keeps r (forM l f) := by
  induction l with
  | nil => exact keeps_pure _
  | cons b l ih => exact keeps_bind (hf b) fun _ => ih

@[simp] theorem keeps_foldlM {l : List β} {f : α → β → StatePass σ ε α} (hf : ∀ a b, Keeps r (f a b))
    {a : α} : Keeps r (l.foldlM f a) := by
  induction l generalizing a with
  | nil => exact keeps_pure _
  | cons b l ih =>
    rw [List.foldlM_cons]
    exact keeps_bind (hf a b) fun _ => ih

@[simp] theorem keeps_mapM {l : List β} {f : β → StatePass σ ε α} (hf : ∀ b, Keeps r (f b)) :
    Keeps r (l.mapM f) := by
  induction l with
  | nil =>
    rw [List.mapM_nil]
    exact keeps_pure _
  | cons b l ih =>
    rw [List.mapM_cons]
    exact keeps_bind (hf b) fun _ => keeps_bind ih fun _ => keeps_pure _

/-- Every turn of a loop was taken between its ends. -/
theorem exists_turn {l : List β} {f : β → StatePass σ ε PUnit} (hf : ∀ b, Keeps r (f b)) {u : PUnit}
    (h : l.forM f s = .ok (u, t)) {b : β} (hb : b ∈ l) :
    ∃ s' t', f b s' = .ok (⟨⟩, t') ∧ r s s' ∧ r t' t := by
  induction l generalizing s with
  | nil => exact absurd hb List.not_mem_nil
  | cons c l ih =>
    obtain ⟨u', s₁, hfirst, hrest⟩ := bind_ok_iff.mp h
    rcases List.mem_cons.mp hb with rfl | hb
    · exact ⟨s, s₁, hfirst, refl_of r s, keeps_forM hf _ _ _ hrest⟩
    · obtain ⟨s', t', hturn, hbefore, hbehind⟩ := ih hrest hb
      exact ⟨s', t', hturn, trans_of r (hf c _ _ _ hfirst) hbefore, hbehind⟩

/-- Every turn of a loop with a value that goes along was taken between its ends. -/
theorem exists_turn_foldlM {l : List β} {f : α → β → StatePass σ ε α} (hf : ∀ a b, Keeps r (f a b))
    {a a' : α} (h : l.foldlM f a s = .ok (a', t)) {b : β} (hb : b ∈ l) :
    ∃ c c' s' t', f c b s' = .ok (c', t') ∧ r s s' ∧ r t' t := by
  induction l generalizing s a with
  | nil => exact absurd hb List.not_mem_nil
  | cons d l ih =>
    rw [List.foldlM_cons] at h
    obtain ⟨a₁, s₁, hfirst, hrest⟩ := bind_ok_iff.mp h
    rcases List.mem_cons.mp hb with rfl | hb
    · exact ⟨a, a₁, s, s₁, hfirst, refl_of r s, keeps_foldlM hf _ _ _ hrest⟩
    · obtain ⟨c, c', s', t', hturn, hbefore, hbehind⟩ := ih hrest hb
      exact ⟨c, c', s', t', hturn, trans_of r (hf a d _ _ _ hfirst) hbefore, hbehind⟩

end Keeps

end StatePass

end Kdna

import Kdna.Data.Fallible
import Mathlib.Logic.Relation
import Mathlib.Order.Bounds.Basic

/-!
# Worklists

A walk over a graph that notes a target when it first meets it and lets it wait for its own
turn. What the walk finds is the least set that holds what it started from and is closed
under the links.
-/

namespace Kdna

variable {α ε : Type} [DecidableEq α]

/-- The targets of one element: each that was not met is met and waits. It has to be known. -/
def sweep (unknown : ε) (known : List α) : List α → List α × List α →
    Except ε (List α × List α)
  | [], state => .ok state
  | t :: ts, (found, queue) =>
    if t ∈ found then sweep unknown known ts (found, queue)
    else do
      require (t ∈ known) unknown
      sweep unknown known ts (found ++ [t], queue ++ [t])

/-- The walk: `found` holds what was met, `queue` what waits. -/
def reach (unknown : ε) (known : List α) (next : α → List α) :
    ℕ → List α → List α → Except ε (List α)
  | _, found, [] => .ok found
  | 0, _, _ => .error unknown
  | fuel + 1, found, current :: queue => do
    let state ← sweep unknown known (next current) (found, queue)
    reach unknown known next fuel state.1 state.2

/-- The sets that hold the elements and what links lead to. -/
def LinkClosed (next : α → List α) (elements : List α) : Set (Set α) :=
  {S | (∀ t ∈ elements, t ∈ S) ∧ ∀ r ∈ S, ∀ t ∈ next r, t ∈ S}

omit [DecidableEq α] in
/-- The least closed set holds what links reach from the elements. -/
theorem mem_iff_of_isLeast {next : α → List α} {elements : List α} {S : Set α}
    (h : IsLeast (LinkClosed next elements) S) {t : α} :
    t ∈ S ↔ ∃ s ∈ elements, Relation.ReflTransGen (fun a b => b ∈ next a) s t := by
  constructor
  · have hclosed : {t | ∃ s ∈ elements, Relation.ReflTransGen (fun a b => b ∈ next a) s t} ∈
        LinkClosed next elements := by
      constructor
      · exact fun s hs => ⟨s, hs, .refl⟩
      · rintro r ⟨s, hs, hr⟩ t ht
        exact ⟨s, hs, hr.tail ht⟩
    exact fun ht => h.2 hclosed ht
  · rintro ⟨s, hs, hreach⟩
    induction hreach with
    | refl => exact h.1.1 s hs
    | tail _ ht ih => exact h.1.2 _ ih _ ht

/-- The turns that are left: those that wait, and those of the elements not yet met. -/
def turns (known found queue : List α) : ℕ :=
  queue.length + (known.filter fun t => t ∉ found).length

variable {unknown : ε} {known : List α} {next : α → List α} {found queue ts : List α}

theorem turns_append {t : α} (hknown : t ∈ known) (hnew : t ∉ found) :
    turns known (found ++ [t]) (queue ++ [t]) ≤ turns known found queue := by
  have hlt : (known.filter fun u => u ∉ found ++ [t]).length <
      (known.filter fun u => u ∉ found).length := by
    have hfilter : (known.filter fun u => u ∉ found ++ [t]) =
        (known.filter fun u => u ∉ found).filter fun u => u ≠ t := by
      rw [List.filter_filter]
      refine List.filter_congr fun u _ => ?_
      by_cases hu : u = t <;> simp [hu]
    rw [hfilter]
    refine List.length_filter_lt_length_iff_exists.mpr ⟨t, ?_, by simp⟩
    exact List.mem_filter.mpr ⟨hknown, by simpa using hnew⟩
  rw [turns, turns, List.length_append, List.length_singleton]
  omega

/-- A sweep adds to both lists the same new targets. -/
theorem sweep_spec {found' queue' : List α}
    (h : sweep unknown known ts (found, queue) = .ok (found', queue')) :
    ∃ new, found' = found ++ new ∧ queue' = queue ++ new ∧ (∀ t ∈ new, t ∈ ts ∧ t ∈ known) ∧
      (∀ t ∈ ts, t ∈ found') ∧ turns known found' queue' ≤ turns known found queue := by
  induction ts generalizing found queue with
  | nil =>
    rw [sweep, Except.ok.injEq, Prod.mk.injEq] at h
    obtain ⟨rfl, rfl⟩ := h
    exact ⟨[], by simp, by simp, by simp, by simp, le_refl _⟩
  | cons t ts ih =>
    rw [sweep] at h
    split_ifs at h with hmem
    · obtain ⟨new, rfl, rfl, hnew, hall, hturns⟩ := ih h
      refine ⟨new, rfl, rfl, fun u hu => ⟨.tail _ (hnew u hu).1, (hnew u hu).2⟩, ?_, hturns⟩
      exact List.forall_mem_cons.mpr ⟨List.mem_append_left _ hmem, hall⟩
    · obtain ⟨hknown, h⟩ := require_bind_eq_ok_iff.mp h
      obtain ⟨new, rfl, rfl, hnew, hall, hturns⟩ := ih h
      refine ⟨t :: new, by simp, by simp, ?_, ?_, hturns.trans (turns_append hknown hmem)⟩
      · exact List.forall_mem_cons.mpr ⟨⟨List.mem_cons_self, hknown⟩,
          fun u hu => ⟨.tail _ (hnew u hu).1, (hnew u hu).2⟩⟩
      · refine List.forall_mem_cons.mpr ⟨?_, hall⟩
        exact List.mem_append_left _ (List.mem_append_right _ (List.mem_singleton_self t))

/-- A sweep over known targets does not fail. -/
theorem sweep_isOk (hts : ∀ t ∈ ts, t ∈ known) :
    ∃ state, sweep unknown known ts (found, queue) = .ok state := by
  induction ts generalizing found queue with
  | nil => exact ⟨_, rfl⟩
  | cons t ts ih =>
    rw [List.forall_mem_cons] at hts
    rw [sweep]
    split_ifs
    · exact ih hts.2
    · rw [require_bind_of_pos hts.1]
      exact ih hts.2

/-- The walk finds the least closed set: what was met is closed up to what waits. -/
theorem reach_isLeast {fuel : ℕ} {all : List α}
    (h : reach unknown known next fuel found queue = .ok all) (hqueue : ∀ t ∈ queue, t ∈ found)
    (hclosed : ∀ r ∈ found, r ∈ queue ∨ ∀ t ∈ next r, t ∈ found) :
    IsLeast (LinkClosed next found) {t | t ∈ all} := by
  induction fuel generalizing found queue with
  | zero =>
    cases queue with
    | nil =>
      obtain rfl := Except.ok.inj h
      refine ⟨⟨fun _ ht => ht, fun r hr => ?_⟩, fun S hS t ht => hS.1 t ht⟩
      exact (hclosed r hr).resolve_left List.not_mem_nil
    | cons current queue => exact nomatch h
  | succ fuel ih =>
    cases queue with
    | nil =>
      obtain rfl := Except.ok.inj h
      refine ⟨⟨fun _ ht => ht, fun r hr => ?_⟩, fun S hS t ht => hS.1 t ht⟩
      exact (hclosed r hr).resolve_left List.not_mem_nil
    | cons current queue =>
      rw [reach, bind_eq_ok_iff] at h
      obtain ⟨⟨found', queue'⟩, hsweep, h⟩ := h
      obtain ⟨new, rfl, rfl, hnew, hall, -⟩ := sweep_spec hsweep
      have hcurrent : current ∈ found := hqueue current List.mem_cons_self
      have hleast := ih h ?_ ?_
      · -- The new targets are links of an element that every closed set has.
        have hsets : LinkClosed next (found ++ new) = LinkClosed next found := by
          ext S
          refine and_congr_left fun hS => ⟨fun hfound t ht => ?_, fun hfound t ht => ?_⟩
          · exact hfound t (List.mem_append_left _ ht)
          · rcases List.mem_append.mp ht with hold | hmem
            · exact hfound t hold
            · exact hS current (hfound current hcurrent) t (hnew t hmem).1
        rwa [hsets] at hleast
      · intro t ht
        rcases List.mem_append.mp ht with hold | hmem
        · exact List.mem_append_left _ (hqueue t (.tail _ hold))
        · exact List.mem_append_right _ hmem
      · intro r hr
        rcases List.mem_append.mp hr with hold | hmem
        · rcases hclosed r hold with hwaits | hdone
          · rcases List.mem_cons.mp hwaits with rfl | htail
            · exact .inr hall
            · exact .inl (List.mem_append_left _ htail)
          · exact .inr fun t ht => List.mem_append_left _ (hdone t ht)
        · exact .inl (List.mem_append_right _ hmem)

/-- The walk never runs out of turns while the targets it meets are known. -/
theorem reach_isOk (hnext : ∀ r, ∀ t ∈ next r, t ∈ known) {fuel : ℕ}
    (hfuel : turns known found queue ≤ fuel) :
    ∃ all, reach unknown known next fuel found queue = .ok all := by
  induction fuel generalizing found queue with
  | zero =>
    obtain rfl : queue = [] := List.length_eq_zero_iff.mp (by rw [turns] at hfuel; omega)
    exact ⟨_, rfl⟩
  | succ fuel ih =>
    cases queue with
    | nil => exact ⟨_, rfl⟩
    | cons current queue =>
      obtain ⟨⟨found', queue'⟩, hsweep⟩ :
          ∃ state, sweep unknown known (next current) (found, queue) = .ok state :=
        sweep_isOk (hnext current)
      obtain ⟨-, -, -, -, -, hturns⟩ := sweep_spec hsweep
      rw [reach, hsweep, ok_bind]
      refine ih (hturns.trans ?_)
      rw [turns, List.length_cons] at hfuel
      rw [turns]
      omega

end Kdna

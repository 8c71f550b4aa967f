import Kdna.Ir.Registry
import Mathlib.Algebra.BigOperators.Group.List.Basic
import Mathlib.Order.Bounds.Basic

/-!
# Links and closures

The semantic pass links the records of a registry. A closure follows the mandatory
links from its seeds and lists the records it meets in the order of the registry.
-/

namespace Kdna.Ir

/-- What the semantic pass leaves in the registry: the linked targets of each record with
the strongest link to each, the separate meanings of each link, and the references to
other assets. The targets of one record stand in the order of their first link. -/
structure Links where
  edges : Ref → List (Ref × Bool)
  referenceRoles : Ref → List (Ref × List (Option String × Bool))
  unresolved : List Json

/-- The targets of mandatory links. -/
def Links.mandatory (links : Links) (from' : Ref) : List Ref :=
  ((links.edges from').filter Prod.snd).map Prod.fst

/-- The loop of `closure`: `selected` holds the targets met, `queue` those to visit. -/
def closureLoop (known : List Ref) (next : Ref → List Ref) :
    ℕ → List Ref → List Ref → Except Failure (List Ref)
  | _, selected, [] => .ok selected
  | 0, _, _ => .error .coreInvalid
  | fuel + 1, selected, current :: queue =>
    if current ∈ selected then closureLoop known next fuel selected queue
    else do
      require (current ∈ known) Failure.coreInvalid
      closureLoop known next fuel (current :: selected) (queue ++ next current)

/-- A bound on the visits of a closure: each seed and each link is visited once. -/
def closureFuel (known : List Ref) (next : Ref → List Ref) (seeds : List Ref) : ℕ :=
  seeds.length + (known.map fun r => (next r).length).sum

/-- `closure(seeds)` -/
def closure (records : List Record) (links : Links) (seeds : List Ref) :
    Except Failure (List Record) := do
  let known := records.map Record.target
  let selected ← closureLoop known links.mandatory (closureFuel known links.mandatory seeds) [] seeds
  return records.filter fun r => r.target ∈ selected

section Loop

variable {known : List Ref} {next : Ref → List Ref}

/-- The links of the targets not yet met bound the visits that are left. -/
def pending (known : List Ref) (next : Ref → List Ref) (selected : List Ref) : ℕ :=
  ((known.filter fun r => r ∉ selected).map fun r => (next r).length).sum

theorem pending_cons {current : Ref} {selected : List Ref} (hknown : known.Nodup)
    (hcurrent : current ∈ known) (hnew : current ∉ selected) :
    pending known next (current :: selected) + (next current).length =
      pending known next selected := by
  have hsplit : (known.filter fun r => r ∉ selected).Perm
      (current :: known.filter fun r => r ∉ current :: selected) := by
    refine (List.perm_ext_iff_of_nodup (hknown.filter _) ?_).mpr fun r => ?_
    · rw [List.nodup_cons]
      exact ⟨fun hmem => by simp at hmem, hknown.filter _⟩
    · by_cases hr : r = current
      · simp [hr, hcurrent, hnew]
      · simp [hr]
  rw [pending, pending, (hsplit.map _).sum_nat, List.map_cons, List.sum_cons, Nat.add_comm]

/-- The loop never runs out of fuel while the targets it meets are known. -/
theorem closureLoop_isOk (hknown : known.Nodup) (hnext : ∀ r ∈ known, ∀ t ∈ next r, t ∈ known)
    {fuel : ℕ} {selected queue : List Ref} (hqueue : ∀ t ∈ queue, t ∈ known)
    (hfuel : queue.length + pending known next selected ≤ fuel) :
    ∃ all, closureLoop known next fuel selected queue = .ok all := by
  induction fuel generalizing selected queue with
  | zero =>
    obtain rfl : queue = [] := List.length_eq_zero_iff.mp (by omega)
    exact ⟨_, by rw [closureLoop]⟩
  | succ fuel ih =>
    cases queue with
    | nil => exact ⟨_, by rw [closureLoop]⟩
    | cons current queue =>
      have hcurrent := hqueue current List.mem_cons_self
      rw [List.length_cons] at hfuel
      by_cases hmem : current ∈ selected
      · rw [closureLoop, if_pos hmem]
        exact ih (fun t ht => hqueue t (.tail _ ht)) (by omega)
      · have hcons : pending known next (current :: selected) + (next current).length =
            pending known next selected := pending_cons hknown hcurrent hmem
        rw [closureLoop, if_neg hmem, require_bind_of_pos hcurrent]
        apply ih
        · intro t ht
          rcases List.mem_append.mp ht with htail | hlink
          · exact hqueue t (.tail _ htail)
          · exact hnext current hcurrent t hlink
        · rw [List.length_append]
          omega

/-- The sets that hold the seeds and what their elements link to. -/
def Closed (next : Ref → List Ref) (seeds : Ref → Prop) : Set (Set Ref) :=
  {S | (∀ t, seeds t → t ∈ S) ∧ ∀ r ∈ S, ∀ t ∈ next r, t ∈ S}

/-- The loop finds the least closed set: what was selected is closed up to the queue. -/
theorem closureLoop_isLeast {fuel : ℕ} {selected queue all : List Ref}
    (h : closureLoop known next fuel selected queue = .ok all)
    (hselected : ∀ r ∈ selected, ∀ t ∈ next r, t ∈ selected ∨ t ∈ queue) :
    IsLeast (Closed next fun t => t ∈ selected ∨ t ∈ queue) {t | t ∈ all} := by
  induction fuel generalizing selected queue with
  | zero =>
    cases queue with
    | nil =>
      rw [closureLoop] at h
      cases h
      refine ⟨⟨fun t ht => ht.resolve_right List.not_mem_nil, fun r hr t ht => ?_⟩, ?_⟩
      · exact (hselected r hr t ht).resolve_right List.not_mem_nil
      · exact fun S hS t ht => hS.1 t (.inl ht)
    | cons current queue => exact nomatch h
  | succ fuel ih =>
    cases queue with
    | nil =>
      rw [closureLoop] at h
      cases h
      refine ⟨⟨fun t ht => ht.resolve_right List.not_mem_nil, fun r hr t ht => ?_⟩, ?_⟩
      · exact (hselected r hr t ht).resolve_right List.not_mem_nil
      · exact fun S hS t ht => hS.1 t (.inl ht)
    | cons current queue =>
      by_cases hmem : current ∈ selected
      · rw [closureLoop, if_pos hmem] at h
        have hsame (t : Ref) : t ∈ selected ∨ t ∈ current :: queue ↔ t ∈ selected ∨ t ∈ queue := by
          rw [List.mem_cons]
          constructor
          · rintro (ht | rfl | ht)
            · exact .inl ht
            · exact .inl hmem
            · exact .inr ht
          · exact Or.imp_right .inr
        simp only [hsame] at hselected ⊢
        exact ih h hselected
      · rw [closureLoop, if_neg hmem, require_bind_eq_ok_iff] at h
        have hleast := ih h.2 ?_
        · convert hleast using 1
          ext S
          constructor
          · rintro ⟨hseeds, hclosed⟩
            refine ⟨?_, hclosed⟩
            have hcurrent : current ∈ S := hseeds current (.inr List.mem_cons_self)
            simp only [List.mem_cons, List.mem_append]
            rintro t ((rfl | ht) | ht | ht)
            · exact hcurrent
            · exact hseeds t (.inl ht)
            · exact hseeds t (.inr (.tail _ ht))
            · exact hclosed current hcurrent t ht
          · rintro ⟨hseeds, hclosed⟩
            refine ⟨?_, hclosed⟩
            rintro t (ht | ht)
            · exact hseeds t (.inl (.tail _ ht))
            · rcases List.mem_cons.mp ht with rfl | htail
              · exact hseeds t (.inl List.mem_cons_self)
              · exact hseeds t (.inr (List.mem_append_left _ htail))
        · intro r hr t ht
          rw [List.mem_cons, List.mem_append]
          rcases List.mem_cons.mp hr with rfl | hr
          · exact .inr (.inr ht)
          · rcases hselected r hr t ht with hold | hqueue
            · exact .inl (.inr hold)
            · rcases List.mem_cons.mp hqueue with rfl | hqueue
              · exact .inl (.inl rfl)
              · exact .inr (.inl hqueue)

/-- The loop meets known targets only. -/
theorem mem_known_of_closureLoop {fuel : ℕ} {selected queue all : List Ref}
    (h : closureLoop known next fuel selected queue = .ok all)
    (hselected : ∀ t ∈ selected, t ∈ known) : ∀ t ∈ all, t ∈ known := by
  induction fuel generalizing selected queue with
  | zero =>
    cases queue with
    | nil =>
      rw [closureLoop] at h
      cases h
      exact hselected
    | cons current queue => exact nomatch h
  | succ fuel ih =>
    cases queue with
    | nil =>
      rw [closureLoop] at h
      cases h
      exact hselected
    | cons current queue =>
      rw [closureLoop] at h
      split_ifs at h
      · exact ih h hselected
      · obtain ⟨hcurrent, h⟩ := require_bind_eq_ok_iff.mp h
        exact ih h (List.forall_mem_cons.mpr ⟨hcurrent, hselected⟩)

end Loop

/-- A closure lists records of the registry, in its order. -/
theorem closure_sublist {records closed : List Record} {links : Links} {seeds : List Ref}
    (h : closure records links seeds = .ok closed) : closed.Sublist records := by
  obtain ⟨selected, -, hclosed⟩ := bind_eq_ok_iff.mp h
  rw [← Except.ok.inj hclosed]
  exact List.filter_sublist

/-- The targets of a closure are the least set that holds the seeds and what mandatory links
lead to. -/
theorem closure_isLeast {records closed : List Record} {links : Links} {seeds : List Ref}
    (h : closure records links seeds = .ok closed) :
    IsLeast (Closed links.mandatory (· ∈ seeds)) {t | t ∈ closed.map Record.target} := by
  obtain ⟨selected, hselected, hclosed⟩ := bind_eq_ok_iff.mp h
  rw [pure_eq_ok, Except.ok.injEq] at hclosed
  have hleast := closureLoop_isLeast hselected (List.forall_mem_nil _)
  have hknown := mem_known_of_closureLoop hselected (List.forall_mem_nil _)
  have hall : {t | t ∈ closed.map Record.target} = {t | t ∈ selected} := by
    ext t
    rw [← hclosed]
    simp only [Set.mem_ofPred_eq, List.mem_map, List.mem_filter, decide_eq_true_eq]
    constructor
    · rintro ⟨r, ⟨-, hr⟩, rfl⟩
      exact hr
    · intro ht
      obtain ⟨r, hr, rfl⟩ := List.mem_map.mp (hknown t ht)
      exact ⟨r, ⟨hr, ht⟩, rfl⟩
  rw [hall]
  simpa only [List.not_mem_nil, false_or] using hleast

/-- Where every mandatory link leads to a record, a closure of recorded seeds exists. -/
theorem closure_isOk {records : List Record} {links : Links} {seeds : List Ref}
    (hnodup : (records.map Record.target).Nodup)
    (hlinks : ∀ r ∈ records.map Record.target, ∀ t ∈ links.mandatory r,
      t ∈ records.map Record.target)
    (hseeds : ∀ t ∈ seeds, t ∈ records.map Record.target) :
    ∃ closed, closure records links seeds = .ok closed := by
  obtain ⟨selected, hselected⟩ : ∃ all, closureLoop (records.map Record.target) links.mandatory
      (closureFuel (records.map Record.target) links.mandatory seeds) [] seeds = .ok all := by
    apply closureLoop_isOk hnodup hlinks hseeds
    simp [pending, closureFuel]
  exact ⟨_, by rw [closure, hselected]; rfl⟩

end Kdna.Ir

import Kdna.Data.Fallible

/-!
# Loops that collect

A loop that extends a list by one element in each round, where what it asks of an element
depends on the elements before it. The state of such a loop is a function of the list, so
that a run succeeds exactly when every element fits behind its predecessors.
-/

namespace Kdna

variable {α σ ε : Type}

/-- A step taken a number of times. -/
def repeatM (step : σ → Except ε σ) : ℕ → σ → Except ε σ
  | 0, s => .ok s
  | count + 1, s => do
    let s' ← step s
    repeatM step count s'

/-- What relates the states around every step relates the ends of a run. -/
theorem repeatM_rel {step : σ → Except ε σ} {R : σ → σ → Prop} (hrefl : ∀ s, R s s)
    (htrans : ∀ s t u, R s t → R t u → R s u) (hstep : ∀ s s', step s = .ok s' → R s s')
    {count : ℕ} {s s' : σ} (h : repeatM step count s = .ok s') : R s s' := by
  induction count generalizing s with
  | zero =>
    obtain rfl := Except.ok.inj h
    exact hrefl _
  | succ count ih =>
    rw [repeatM, bind_eq_ok_iff] at h
    obtain ⟨t, hfirst, hrest⟩ := h
    exact htrans _ _ _ (hstep _ _ hfirst) (ih hrest)

/-- Each element of the second list fits behind the ones before it. -/
def Steps (P : List α → α → Prop) : List α → List α → Prop
  | _, [] => True
  | before, a :: rest => P before a ∧ Steps P (before ++ [a]) rest

namespace Steps

variable {P Q : List α → α → Prop} {before rest : List α}

/-- Elements fit when each of them does behind everything that precedes it. -/
theorem iff_forall_split : Steps P before rest ↔
    ∀ front a back, rest = front ++ a :: back → P (before ++ front) a := by
  induction rest generalizing before with
  | nil => simp [Steps]
  | cons b rest ih =>
    rw [Steps, ih]
    constructor
    · rintro ⟨hb, hrest⟩ front a back hsplit
      cases front with
      | nil =>
        obtain ⟨rfl, -⟩ := List.cons.inj hsplit
        rwa [List.append_nil]
      | cons c front =>
        obtain ⟨rfl, htail⟩ := List.cons.inj hsplit
        rw [List.append_cons]
        exact hrest front a back htail
    · intro hall
      constructor
      · simpa using hall [] b rest rfl
      · intro front a back hsplit
        rw [← List.append_cons]
        exact hall (b :: front) a back (by rw [hsplit, List.cons_append])

/-- What the elements satisfy may be replaced by what follows from it at each of them. -/
theorem imp (h : Steps P before rest)
    (hPQ : ∀ front a back, rest = front ++ a :: back → P (before ++ front) a →
      Q (before ++ front) a) : Steps Q before rest :=
  iff_forall_split.mpr fun front a back hsplit =>
    hPQ front a back hsplit (iff_forall_split.mp h front a back hsplit)

/-- Every element fits somewhere. -/
theorem exists_of_mem (h : Steps P before rest) {a : α} (ha : a ∈ rest) :
    ∃ front back, rest = front ++ a :: back ∧ P (before ++ front) a := by
  obtain ⟨front, back, hsplit⟩ := List.append_of_mem ha
  exact ⟨front, back, hsplit, iff_forall_split.mp h front a back hsplit⟩

end Steps

/-- A repeated step collects exactly the lists whose elements all fit. -/
theorem repeatM_eq_ok_iff {step : σ → Except ε σ} {state : List α → σ} {P : List α → α → Prop}
    (hstep : ∀ before s', step (state before) = .ok s' ↔
      ∃ a, P before a ∧ s' = state (before ++ [a]))
    {count : ℕ} {before : List α} {s' : σ} :
    repeatM step count (state before) = .ok s' ↔
      ∃ rest, rest.length = count ∧ Steps P before rest ∧ s' = state (before ++ rest) := by
  induction count generalizing before with
  | zero =>
    rw [repeatM, Except.ok.injEq, eq_comm]
    constructor
    · rintro rfl
      exact ⟨[], rfl, trivial, by rw [List.append_nil]⟩
    · rintro ⟨rest, hlength, -, rfl⟩
      rw [List.length_eq_zero_iff.mp hlength, List.append_nil]
  | succ count ih =>
    rw [repeatM, bind_eq_ok_iff]
    constructor
    · rintro ⟨s₁, hfirst, hrest⟩
      obtain ⟨a, ha, rfl⟩ := (hstep before s₁).mp hfirst
      obtain ⟨rest, hlength, hsteps, rfl⟩ := ih.mp hrest
      exact ⟨a :: rest, by rw [List.length_cons, hlength], ⟨ha, hsteps⟩, by rw [← List.append_cons]⟩
    · rintro ⟨rest, hlength, hsteps, rfl⟩
      cases rest with
      | nil => simp at hlength
      | cons a rest =>
        obtain ⟨ha, hsteps⟩ := hsteps
        refine ⟨_, (hstep before _).mpr ⟨a, ha, rfl⟩, ih.mpr ⟨rest, ?_, hsteps, ?_⟩⟩
        · rw [List.length_cons] at hlength
          omega
        · rw [← List.append_cons]

/-- What relates the states around every turn of a loop relates the ends of a run, and each turn
was taken between them. -/
theorem foldlM_rel {step : σ → α → Except ε σ} {R : σ → σ → Prop} (hrefl : ∀ s, R s s)
    (htrans : ∀ s t u, R s t → R t u → R s u) {l : List α}
    (hstep : ∀ s a s', a ∈ l → step s a = .ok s' → R s s') {s s' : σ}
    (h : l.foldlM step s = .ok s') :
    R s s' ∧ ∀ a ∈ l, ∃ t t', step t a = .ok t' ∧ R s t ∧ R t' s' := by
  induction l generalizing s with
  | nil =>
    obtain rfl := Except.ok.inj h
    exact ⟨hrefl s, fun a ha => absurd ha List.not_mem_nil⟩
  | cons b l ih =>
    rw [List.foldlM_cons, bind_eq_ok_iff] at h
    obtain ⟨t, hb, hrest⟩ := h
    obtain ⟨hrel, hall⟩ := ih (fun s a s' ha => hstep s a s' (List.mem_cons_of_mem b ha)) hrest
    have hfirst := hstep s b t List.mem_cons_self hb
    refine ⟨htrans s t s' hfirst hrel, ?_⟩
    intro a ha
    rcases List.mem_cons.mp ha with rfl | ha
    · exact ⟨s, t, hb, hrefl s, hrel⟩
    · obtain ⟨u, u', hu, hsu, hus⟩ := hall a ha
      exact ⟨u, u', hu, htrans s t u hfirst hsu, hus⟩

/-- A loop that adds the name of each element and stops at a name that has occurred. -/
theorem foldlM_distinct_eq_ok_iff {β : Type} {step : List β → α → Except ε (List β)} {f : α → β}
    {P : α → Prop} (hstep : ∀ seen a r, step seen a = .ok r ↔ r = seen ++ [f a] ∧ P a ∧ f a ∉ seen)
    {l : List α} {seen r : List β} : l.foldlM step seen = .ok r ↔
      r = seen ++ l.map f ∧ (∀ a ∈ l, P a) ∧ (l.map f).Nodup ∧ ∀ a ∈ l, f a ∉ seen := by
  induction l generalizing seen with
  | nil =>
    rw [List.foldlM_nil, pure_eq_ok, Except.ok.injEq, eq_comm]
    simp
  | cons a l ih =>
    rw [List.foldlM_cons, bind_eq_ok_iff]
    constructor
    · rintro ⟨middle, hfirst, hrest⟩
      obtain ⟨rfl, ha, hnew⟩ := (hstep seen a middle).mp hfirst
      obtain ⟨rfl, hall, hnodup, hapart⟩ := ih.mp hrest
      refine ⟨by simp, List.forall_mem_cons.mpr ⟨ha, hall⟩, ?_, ?_⟩
      · refine List.nodup_cons.mpr ⟨fun hmem => ?_, hnodup⟩
        obtain ⟨b, hb, heq⟩ := List.mem_map.mp hmem
        exact hapart b hb (heq ▸ List.mem_append_right _ (List.mem_singleton_self _))
      · exact List.forall_mem_cons.mpr ⟨hnew, fun b hb h => hapart b hb (List.mem_append_left _ h)⟩
    · rintro ⟨rfl, hall, hnodup, hapart⟩
      obtain ⟨ha, hall⟩ := List.forall_mem_cons.mp hall
      obtain ⟨hnew, hapart⟩ := List.forall_mem_cons.mp hapart
      obtain ⟨hfirst, hnodup⟩ := List.nodup_cons.mp hnodup
      refine ⟨seen ++ [f a], (hstep _ _ _).mpr ⟨rfl, ha, hnew⟩, ih.mpr ⟨by simp, hall, hnodup, ?_⟩⟩
      intro b hb hmem
      rcases List.mem_append.mp hmem with hmem | hmem
      · exact hapart b hb hmem
      · exact hfirst (List.mem_map.mpr ⟨b, hb, List.mem_singleton.mp hmem⟩)

/-- A loop that notes errors and goes on. Without errors at its end there were none on the way, and
the names of what its elements stand for are new, each in its turn. -/
theorem foldl_distinct {β γ : Type} {errors : σ → List ε} {seen : σ → List β} {step : σ → α → σ}
    {P : α → γ → Prop} {f : γ → β}
    (hstep : ∀ s a, errors (step s a) = [] →
      errors s = [] ∧ ∃ c, P a c ∧ f c ∉ seen s ∧ seen (step s a) = f c :: seen s)
    {l : List α} {s : σ} (h : errors (l.foldl step s) = []) :
    errors s = [] ∧ ∃ cs, List.Forall₂ P l cs ∧ (cs.map f).Nodup ∧ (∀ c ∈ cs, f c ∉ seen s) ∧
      seen (l.foldl step s) = (cs.map f).reverse ++ seen s := by
  induction l generalizing s with
  | nil => exact ⟨h, [], .nil, List.nodup_nil, List.forall_mem_nil _, rfl⟩
  | cons a l ih =>
    obtain ⟨hnext, cs, hall, hnodup, hapart, hseen⟩ := ih h
    obtain ⟨hs, c, hc, hnew, hafter⟩ := hstep s a hnext
    rw [hafter] at hapart hseen
    have hfirst : f c ∉ cs.map f := by
      intro hmem
      obtain ⟨d, hd, heq⟩ := List.mem_map.mp hmem
      exact hapart d hd (heq ▸ List.mem_cons_self)
    refine ⟨hs, c :: cs, .cons hc hall, List.nodup_cons.mpr ⟨hfirst, hnodup⟩, ?_, ?_⟩
    · exact List.forall_mem_cons.mpr
        ⟨hnew, fun d hd hmem => hapart d hd (List.mem_cons_of_mem _ hmem)⟩
    · rw [List.foldl_cons, hseen, List.map_cons, List.reverse_cons, List.append_assoc]
      rfl

/-- A run of steps is undone by what undoes each of them, in the reverse order. -/
theorem foldl_reverse_undo {step undo : σ → α → σ} {P : σ → Prop} {l : List α}
    (hkeep : ∀ a ∈ l, ∀ s, P s → P (step s a)) (hundo : ∀ a ∈ l, ∀ s, P s → undo (step s a) a = s)
    {s : σ} (hs : P s) : l.reverse.foldl undo (l.foldl step s) = s := by
  induction l generalizing s with
  | nil => rfl
  | cons a l ih =>
    obtain ⟨hkeepa, hkeep⟩ := List.forall_mem_cons.mp hkeep
    obtain ⟨hundoa, hundo⟩ := List.forall_mem_cons.mp hundo
    rw [List.foldl_cons, List.reverse_cons, List.foldl_append, ih hkeep hundo (hkeepa s hs),
      List.foldl_cons, List.foldl_nil, hundoa s hs]

/-- What each step keeps, a run keeps. -/
theorem foldl_keeps {step : σ → α → σ} {P : σ → Prop} {l : List α}
    (hkeep : ∀ a ∈ l, ∀ s, P s → P (step s a)) {s : σ} (hs : P s) : P (l.foldl step s) := by
  induction l generalizing s with
  | nil => exact hs
  | cons a l ih =>
    obtain ⟨hkeepa, hkeep⟩ := List.forall_mem_cons.mp hkeep
    exact ih hkeep (hkeepa s hs)

end Kdna

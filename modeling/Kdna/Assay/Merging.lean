import Kdna.Assay.Evaluate
import Mathlib.Algebra.Module.Submodule.Lattice
import Mathlib.Data.List.Permutation
import Mathlib.Tactic.FieldSimp

/-!
# Merging domains

`evaluateCandidates` evaluates a candidate on each domain that has rules and weight, and merges the
scores. One such domain is its own merge, as far as the bounds of the scores are whole numbers: a
score is rounded before it is bounded, in each domain and again behind the merge.
-/

namespace Kdna.Evaluate

open Assay (Texts)

section Records

variable {α : Type} {f : String → Option α → α} {g : String → α} {names : List String}
  {done record : List (String × α)} {name : String}

theorem upsert_of_not_mem {update : Option α → α} (h : name ∉ done.map Prod.fst) :
    upsert name update done = done ++ [(name, update none)] := by
  induction done with
  | nil => rfl
  | cons entry done ih =>
    rw [List.map_cons, List.mem_cons, not_or] at h
    rw [upsert, if_neg (Ne.symm h.1), ih h.2]
    rfl

theorem upsert_append_cons {update : Option α → α} {a : α} {rest : List (String × α)}
    (h : name ∉ done.map Prod.fst) :
    upsert name update (done ++ (name, a) :: rest) = done ++ (name, update (some a)) :: rest := by
  induction done with
  | nil => exact if_pos rfl
  | cons entry done ih =>
    rw [List.map_cons, List.mem_cons, not_or] at h
    rw [List.cons_append, upsert, if_neg (Ne.symm h.1), ih h.2]
    rfl

theorem fst_map_pair (names : List String) (g : String → α) :
    (names.map fun name => (name, g name)).map Prod.fst = names := by
  rw [List.map_map]
  exact List.map_id _

/-- An assignment to new names adds them in turn. -/
theorem assign_append (hnodup : names.Nodup) (hnew : ∀ name ∈ names, name ∉ done.map Prod.fst) :
    assign f names done = done ++ names.map fun name => (name, f name none) := by
  induction names generalizing done with
  | nil => exact (List.append_nil done).symm
  | cons name names ih =>
    obtain ⟨hname, hnodup⟩ := List.nodup_cons.mp hnodup
    have hrest : ∀ n ∈ names, n ∉ (done ++ [(name, f name none)]).map Prod.fst := by
      intro n hn hmem
      rw [List.map_append, List.mem_append] at hmem
      rcases hmem with hmem | hmem
      · exact hnew n (.tail _ hn) hmem
      · have heq : n = name := List.mem_singleton.mp hmem
        exact hname (heq ▸ hn)
    rw [assign, List.foldl_cons, upsert_of_not_mem (hnew name List.mem_cons_self), ← assign,
      ih hnodup hrest, List.append_assoc]
    rfl

theorem assign_nil (hnodup : names.Nodup) :
    assign f names [] = names.map fun name => (name, f name none) :=
  assign_append hnodup fun _ _ => List.not_mem_nil

/-- An assignment to the names of a record changes their values in place. -/
theorem assign_append_map (done : List (String × α)) (hnodup : names.Nodup)
    (hnew : ∀ name ∈ names, name ∉ done.map Prod.fst) :
    assign f names (done ++ names.map fun name => (name, g name)) =
      done ++ names.map fun name => (name, f name (some (g name))) := by
  induction names generalizing done with
  | nil => rfl
  | cons name names ih =>
    obtain ⟨hname, hnodup⟩ := List.nodup_cons.mp hnodup
    have hrest : ∀ n ∈ names, n ∉ (done ++ [(name, f name (some (g name)))]).map Prod.fst := by
      intro n hn hmem
      rw [List.map_append, List.mem_append] at hmem
      rcases hmem with hmem | hmem
      · exact hnew n (.tail _ hn) hmem
      · have heq : n = name := List.mem_singleton.mp hmem
        exact hname (heq ▸ hn)
    have hstep := ih _ hnodup hrest
    rw [List.append_assoc, List.append_assoc] at hstep
    rw [assign, List.foldl_cons, List.map_cons, upsert_append_cons (hnew name List.mem_cons_self),
      ← assign]
    exact hstep

theorem assign_map (hnodup : names.Nodup) :
    assign f names (names.map fun name => (name, g name)) =
      names.map fun name => (name, f name (some (g name))) :=
  assign_append_map [] hnodup fun _ _ => List.not_mem_nil

/-- A record without repeated names is what it returns for its names. -/
theorem map_getKey (record : List (String × α)) (hnodup : (record.map Prod.fst).Nodup)
    (otherwise : α) :
    (record.map Prod.fst).map (fun name => (name, (getKey name record).getD otherwise)) = record := by
  rw [List.map_map]
  conv_rhs => rw [← List.map_id record]
  refine List.map_congr_left fun entry hentry => ?_
  have hget : getKey entry.1 record = some entry.2 := (getKey_eq_some_iff hnodup).mpr hentry
  simp [hget]

/-- An update of a name that a record has keeps its names. -/
theorem keys_upsert_of_getKey {update : Option α → α} {a : α} (h : getKey name record = some a) :
    (upsert name update record).map Prod.fst = record.map Prod.fst := by
  induction record with
  | nil => cases h
  | cons entry record ih =>
    obtain ⟨n, b⟩ := entry
    rw [getKey] at h
    rw [upsert]
    split_ifs at h ⊢ with hn
    · rfl
    · rw [List.map_cons, List.map_cons, ih h]

end Records

section Scores

variable {t : Texts} {candidate : Json} {rules : List Rule} {c : Context} {clamp : Option Clamp}
  {x : ℚ}

theorem keys_addDelta (delta : Amount) (dimensions : List (String × Amount)) (dim : String) :
    (addDelta delta dimensions dim).map Prod.fst = dimensions.map Prod.fst := by
  rw [addDelta]
  cases h : getKey dim dimensions with
  | none => rfl
  | some value => exact keys_upsert_of_getKey h

theorem keys_applyRule (index : ℕ) (s : List (String × Amount) × List Triggered) (rule : Rule) :
    (applyRule t candidate index s rule).1.map Prod.fst = s.1.map Prod.fst := by
  rw [applyRule]
  split_ifs
  · dsimp only
    generalize deltaOf t candidate rule index = delta
    induction rule.dimensions generalizing s with
    | nil => rfl
    | cons dim dims ih => rw [List.foldl_cons, ih (addDelta delta s.1 dim, s.2), keys_addDelta]
  · rfl

/-- An evaluation reports the dimensions of its context. -/
theorem keys_evaluateAxioms (hnodup : c.names.Nodup) :
    (evaluateAxioms t candidate rules c).dimensions.map Prod.fst = c.names := by
  have hrules (s : List (String × Amount) × List Triggered) :
      (rules.foldl (applyRule t candidate c.index) s).1.map Prod.fst = s.1.map Prod.fst := by
    induction rules generalizing s with
    | nil => rfl
    | cons rule rules ih => rw [List.foldl_cons, ih, keys_applyRule]
  rw [evaluateAxioms]
  dsimp only
  rw [List.map_map]
  refine (hrules (c.defaults, [])).trans ?_
  rw [Context.defaults, assign_nil hnodup, fst_map_pair]

theorem clampScore_mem (h : lowest clamp ≤ highest clamp) (x : ℚ) :
    lowest clamp ≤ clampScore clamp x ∧ clampScore clamp x ≤ highest clamp :=
  ⟨le_max_left _ _, max_le h (min_le_left _ _)⟩

/-- The bounds of the scores are whole numbers. -/
def Whole (clamp : Option Clamp) : Prop := ∃ a b : ℤ, lowest clamp = a ∧ highest clamp = b

theorem clampScore_clampScore (h : Whole clamp) (x : ℚ) :
    clampScore clamp (clampScore clamp x) = clampScore clamp x := by
  obtain ⟨a, b, ha, hb⟩ := h
  have hscore : ∀ y : ℚ, clampScore clamp y = ((max a (min b ⌊y + 1 / 2⌋) : ℤ) : ℚ) := by
    intro y
    rw [clampScore, ha, hb]
    push_cast
    rfl
  have hround : ∀ n : ℤ, ⌊(n : ℚ) + 1 / 2⌋ = n := by
    intro n
    rw [Int.floor_intCast_add]
    norm_num
  rw [hscore (clampScore clamp x), hscore x, hround]
  congr 1
  omega

end Scores

section Merge

variable {t : Texts} {o : Options} {candidate : Json} {index : ℕ} {d : Domain} {weight : ℚ}

/-- The context of the options themselves. -/
def Options.own (o : Options) (index : ℕ) : Context :=
  ⟨index, o.dimensionDefaults, o.dimensionNames, o.dimensionWeights, o.scoreClamp⟩

theorem evaluateAxioms_context (rules : List Rule) :
    evaluateAxioms t candidate rules (o.context index) =
      evaluateAxioms t candidate rules (o.own index) := rfl

/-- A score of an evaluation, weighed. -/
def Evaluation.weighed (e : Evaluation) (weight : ℚ) (dim : String) : Amount :=
  ((getKey dim e.dimensions).getD (some defaultScore)).map (· * weight)

/-- The sums behind a domain. -/
def Merged.add (o : Options) (domainId : String) (weight : ℚ) (e : Evaluation) (s : Merged) : Merged :=
  ⟨assign (fun dim value => Option.map₂ (· + ·) (value.getD (some 0)) (e.weighed weight dim)) o.names
    s.dimensions, s.totalWeight + weight, s.triggered ++ e.triggered.map (domainId, ·)⟩

theorem mergeDomain_of_rules {s : Merged} (hrules : extractRules d.data ≠ [])
    (hweight : o.weights.get d.domainId = some weight) (hpos : 0 < weight) :
    mergeDomain t o candidate index s d = .ok (s.add o d.domainId weight
      (evaluateAxioms t candidate (extractRules d.data) (o.context index))) := by
  rw [mergeDomain, if_neg hrules, hweight, validateWeight, if_neg (not_lt.mpr hpos.le), ok_bind,
    if_neg hpos.ne']
  rfl

/-- A domain without rules, or without weight, is skipped. -/
theorem mergeDomain_of_skipped {s : Merged}
    (h : extractRules d.data = [] ∨ o.weights.get d.domainId = some 0) :
    mergeDomain t o candidate index s d = .ok s := by
  rw [mergeDomain]
  split_ifs with hrules
  · rfl
  · rw [h.resolve_left hrules, validateWeight, if_neg (lt_irrefl 0), ok_bind, if_pos rfl]
    rfl

/-- The merge of one domain is its evaluation. -/
theorem evaluateCandidate_singleton (hnodup : o.names.Nodup) (hnames : o.names ≠ [])
    (hwhole : Whole o.scoreClamp) (hrules : extractRules d.data ≠ [])
    (hweight : o.weights.get d.domainId = some weight) (hpos : 0 < weight) :
    evaluateCandidate t o [d] candidate index = .ok
      ⟨(evaluateAxioms t candidate (extractRules d.data) (o.own index)).score,
        (evaluateAxioms t candidate (extractRules d.data) (o.own index)).dimensions,
        (evaluateAxioms t candidate (extractRules d.data) (o.own index)).triggered.map
          (d.domainId, ·)⟩ := by
  rw [evaluateCandidate, if_neg hnames, List.foldlM_cons, mergeDomain_of_rules hrules hweight hpos,
    ok_bind, List.foldlM_nil, pure_eq_ok, ok_bind, pure_eq_ok, evaluateAxioms_context]
  have hkeys : (evaluateAxioms t candidate (extractRules d.data) (o.own index)).dimensions.map
      Prod.fst = o.names := keys_evaluateAxioms hnodup
  have hscored : ∀ p ∈ (evaluateAxioms t candidate (extractRules d.data) (o.own index)).dimensions,
      p.2.map (clampScore o.scoreClamp) = p.2 := by
    intro p hp
    obtain ⟨q, -, rfl⟩ := List.mem_map.mp hp
    cases q.2 with
    | none => rfl
    | some x => exact congrArg some (clampScore_clampScore hwhole x)
  have hscore : computeComposite (evaluateAxioms t candidate (extractRules d.data)
      (o.own index)).dimensions o.dimensionWeights o.names =
        (evaluateAxioms t candidate (extractRules d.data) (o.own index)).score := rfl
  generalize evaluateAxioms t candidate (extractRules d.data) (o.own index) = e at *
  have hmerged : assign (fun _ (value : Option Amount) => (value.getD (some 0)).map fun x =>
      clampScore o.scoreClamp (x / weight)) o.names (assign (fun dim value =>
        Option.map₂ (· + ·) (value.getD (some 0)) (e.weighed weight dim)) o.names
          (assign (fun _ _ => some 0) o.names [])) = e.dimensions := by
    rw [assign_nil hnodup, assign_map hnodup, assign_map hnodup]
    conv_rhs => rw [← map_getKey e.dimensions (hkeys ▸ hnodup) (some defaultScore)]
    rw [hkeys]
    refine List.map_congr_left fun dim hdim => ?_
    have hmem : dim ∈ e.dimensions.map Prod.fst := hkeys ▸ hdim
    obtain ⟨value, hvalue⟩ := Option.ne_none_iff_exists'.mp (getKey_ne_none hmem)
    have hself := hscored _ (mem_of_getKey hvalue)
    rw [Evaluation.weighed, hvalue]
    cases value with
    | none => rfl
    | some x =>
      have hquotient : (0 + x * weight) / weight = x := by
        rw [zero_add, mul_div_cancel_right₀ x hpos.ne']
      have hx : clampScore o.scoreClamp x = x := Option.some.inj hself
      refine Prod.ext rfl ?_
      change some (clampScore o.scoreClamp ((0 + x * weight) / weight)) = some x
      rw [hquotient, hx]
  have htotal : ¬ (0 : ℚ) + weight = 0 := by rw [zero_add]; exact hpos.ne'
  rw [Merged.add, Merged.result, if_neg htotal]
  dsimp only
  rw [zero_add, hmerged, hscore, List.nil_append]

/-- A skipped domain changes nothing. -/
theorem evaluateCandidate_skipped {before after : List Domain}
    (h : extractRules d.data = [] ∨ o.weights.get d.domainId = some 0) :
    evaluateCandidate t o (before ++ d :: after) candidate index =
      evaluateCandidate t o (before ++ after) candidate index := by
  have hskip (s : Merged) : (d :: after).foldlM (mergeDomain t o candidate index) s =
      after.foldlM (mergeDomain t o candidate index) s := by
    rw [List.foldlM_cons, mergeDomain_of_skipped h, ok_bind]
  simp only [evaluateCandidate, List.foldlM_append, hskip]

/-- The dimensions of the sums are those of the options. -/
def Merged.Keyed (o : Options) (s : Merged) (g : String → Amount) : Prop :=
  s.dimensions = o.names.map fun name => (name, g name)

theorem keyed_initial (hnodup : o.names.Nodup) :
    Merged.Keyed o ⟨assign (fun _ _ => some 0) o.names [], 0, []⟩ fun _ => some 0 :=
  assign_nil hnodup

/-- What one domain adds. -/
theorem mergeDomain_spec {s s' : Merged} (h : mergeDomain t o candidate index s d = .ok s') :
    (s' = s ∧ (extractRules d.data = [] ∨ o.weights.get d.domainId = some 0)) ∨
      ∃ weight, extractRules d.data ≠ [] ∧ o.weights.get d.domainId = some weight ∧ 0 < weight := by
  by_cases hrules : extractRules d.data = []
  · rw [mergeDomain, if_pos hrules] at h
    exact .inl ⟨(Except.ok.inj h).symm, .inl hrules⟩
  · rw [mergeDomain, if_neg hrules] at h
    dsimp only at h
    cases hweight : o.weights.get d.domainId with
    | none =>
      rw [hweight] at h
      cases h
    | some weight =>
      rw [hweight, validateWeight] at h
      split_ifs at h with hneg
      · cases h
      · rw [ok_bind] at h
        by_cases hzero : weight = 0
        · rw [if_pos hzero] at h
          exact .inl ⟨(Except.ok.inj h).symm, .inr (congrArg some hzero)⟩
        · exact .inr ⟨weight, hrules, rfl, lt_of_le_of_ne (not_lt.mp hneg) (Ne.symm hzero)⟩

/-- The value of a dimension behind a domain. -/
def Evaluation.added (e : Evaluation) (weight : ℚ) (g : String → Amount) (dim : String) : Amount :=
  Option.map₂ (· + ·) (g dim) (e.weighed weight dim)

theorem Merged.Keyed.add (hnodup : o.names.Nodup) {s : Merged} {g : String → Amount}
    (h : s.Keyed o g) (domainId : String) (weight : ℚ) (e : Evaluation) :
    (s.add o domainId weight e).Keyed o (e.added weight g) := by
  rw [Merged.Keyed, Merged.add, h, assign_map hnodup]
  rfl

theorem mergeDomain_keyed (hnodup : o.names.Nodup) {s s' : Merged} {g : String → Amount}
    (hkeyed : s.Keyed o g) (h : mergeDomain t o candidate index s d = .ok s') :
    (∃ g', s'.Keyed o g') ∧ s.totalWeight ≤ s'.totalWeight ∧
      (extractRules d.data ≠ [] → o.weights.get d.domainId ≠ some 0 →
        s.totalWeight < s'.totalWeight) := by
  rcases mergeDomain_spec h with ⟨rfl, hskipped⟩ | ⟨weight, hrules, hweight, hpos⟩
  · exact ⟨⟨g, hkeyed⟩, le_rfl, fun hrules hweight => absurd hskipped (not_or.mpr ⟨hrules, hweight⟩)⟩
  · rw [mergeDomain_of_rules hrules hweight hpos] at h
    obtain rfl := Except.ok.inj h
    have hlt : s.totalWeight < s.totalWeight + weight := lt_add_of_pos_right _ hpos
    exact ⟨⟨_, hkeyed.add hnodup _ _ _⟩, hlt.le, fun _ _ => hlt⟩

/-- A merge keeps the dimensions, and gains weight at a domain that counts. -/
theorem foldlM_mergeDomain_keyed (hnodup : o.names.Nodup) {domains : List Domain} {s s' : Merged}
    {g : String → Amount} (hkeyed : s.Keyed o g)
    (h : domains.foldlM (mergeDomain t o candidate index) s = .ok s') :
    (∃ g', s'.Keyed o g') ∧ s.totalWeight ≤ s'.totalWeight ∧
      ((∃ d ∈ domains, extractRules d.data ≠ [] ∧ o.weights.get d.domainId ≠ some 0) →
        s.totalWeight < s'.totalWeight) := by
  induction domains generalizing s g with
  | nil =>
    obtain rfl := Except.ok.inj h
    exact ⟨⟨g, hkeyed⟩, le_rfl, fun ⟨_, hd, _⟩ => absurd hd List.not_mem_nil⟩
  | cons d domains ih =>
    rw [List.foldlM_cons] at h
    obtain ⟨s₁, hs₁, hrest⟩ := bind_eq_ok_iff.mp h
    obtain ⟨⟨g₁, hkeyed₁⟩, hle, hlt⟩ := mergeDomain_keyed hnodup hkeyed hs₁
    obtain ⟨hkeyed', hle', hlt'⟩ := ih hkeyed₁ hrest
    refine ⟨hkeyed', hle.trans hle', fun ⟨e, he, hrules, hweight⟩ => ?_⟩
    rcases List.mem_cons.mp he with rfl | he
    · exact (hlt hrules hweight).trans_le hle'
    · exact hle.trans_lt (hlt' ⟨e, he, hrules, hweight⟩)

/-- Where a domain counts, the dimensions are inside the bounds. -/
theorem evaluateCandidate_mem (hnodup : o.names.Nodup)
    (hbounds : lowest o.scoreClamp ≤ highest o.scoreClamp) {domains : List Domain}
    (hcounts : ∃ d ∈ domains, extractRules d.data ≠ [] ∧ o.weights.get d.domainId ≠ some 0)
    {r : CandidateResult} (h : evaluateCandidate t o domains candidate index = .ok r) :
    ∀ p ∈ r.dimensions, ∀ x ∈ p.2, lowest o.scoreClamp ≤ x ∧ x ≤ highest o.scoreClamp := by
  rw [evaluateCandidate] at h
  split_ifs at h with hnames
  · obtain rfl := Except.ok.inj h
    exact fun p hp => absurd hp List.not_mem_nil
  · obtain ⟨s, hs, hr⟩ := bind_eq_ok_iff.mp h
    obtain rfl := Except.ok.inj hr
    obtain ⟨⟨g, hkeyed⟩, -, hlt⟩ := foldlM_mergeDomain_keyed hnodup (keyed_initial hnodup) hs
    have htotal : s.totalWeight ≠ 0 := (hlt hcounts).ne'
    intro p hp x hx
    rw [Merged.result, if_neg htotal] at hp
    dsimp only at hp
    rw [hkeyed, assign_map hnodup] at hp
    obtain ⟨name, -, rfl⟩ := List.mem_map.mp hp
    obtain ⟨y, -, rfl⟩ := Option.map_eq_some_iff.mp hx
    exact clampScore_mem hbounds _

section Scale

variable {weights : Weights} {c : ℚ}

/-- The same options with other weights. -/
def Options.reweighed (o : Options) (weights : Weights) : Options := { o with weights := weights }

/-- The sums with all weights multiplied. -/
structure Scaled (o : Options) (c : ℚ) (s s' : Merged) (g : String → Amount) : Prop where
  keyed : s.Keyed o g
  dimensions : s'.Keyed o fun name => (g name).map (c * ·)
  totalWeight : s'.totalWeight = c * s.totalWeight
  triggered : s'.triggered = s.triggered

theorem Scaled.add (hnodup : o.names.Nodup) {s s' : Merged} {g : String → Amount}
    (h : Scaled o c s s' g) (domainId : String) (weight : ℚ) (e : Evaluation) :
    Scaled o c (s.add o domainId weight e)
      (s'.add (o.reweighed weights) domainId (c * weight) e) (e.added weight g) where
  keyed := h.keyed.add hnodup domainId weight e
  dimensions := by
    have hnames : (o.reweighed weights).names = o.names := rfl
    rw [Merged.Keyed, Merged.add, h.dimensions, hnames, assign_map hnodup]
    refine List.map_congr_left fun name _ => Prod.ext rfl ?_
    dsimp only [Option.getD_some, Evaluation.added, Evaluation.weighed]
    cases g name with
    | none => rfl
    | some x =>
      cases (getKey name e.dimensions).getD (some defaultScore) with
      | none => rfl
      | some y =>
        have hsum : c * x + y * (c * weight) = c * (x + y * weight) := by ring
        exact congrArg some hsum
  totalWeight := by
    rw [Merged.add, Merged.add, h.totalWeight, mul_add]
  triggered := by
    rw [Merged.add, Merged.add, h.triggered]

theorem mergeDomain_scaled (hnodup : o.names.Nodup) (hc : 0 < c)
    (hweights : weights.get d.domainId = (o.weights.get d.domainId).map (c * ·)) {s s' s₁ : Merged}
    {g : String → Amount} (hscaled : Scaled o c s s' g)
    (h : mergeDomain t o candidate index s d = .ok s₁) :
    ∃ s₁' g₁, mergeDomain t (o.reweighed weights) candidate index s' d = .ok s₁' ∧
      Scaled o c s₁ s₁' g₁ := by
  rcases mergeDomain_spec h with ⟨rfl, hskipped⟩ | ⟨weight, hrules, hweight, hpos⟩
  · have hskipped' : extractRules d.data = [] ∨
        (o.reweighed weights).weights.get d.domainId = some 0 := by
      refine hskipped.imp id fun hzero => ?_
      rw [Options.reweighed, hweights, hzero, Option.map_some, mul_zero]
    exact ⟨s', g, mergeDomain_of_skipped hskipped', hscaled⟩
  · have hweight' : (o.reweighed weights).weights.get d.domainId = some (c * weight) := by
      rw [Options.reweighed, hweights, hweight, Option.map_some]
    rw [mergeDomain_of_rules hrules hweight hpos] at h
    obtain rfl := Except.ok.inj h
    exact ⟨_, _, mergeDomain_of_rules hrules hweight' (mul_pos hc hpos),
      hscaled.add hnodup d.domainId weight _⟩

theorem foldlM_mergeDomain_scaled (hnodup : o.names.Nodup) (hc : 0 < c) {domains : List Domain}
    (hweights : ∀ d ∈ domains, weights.get d.domainId = (o.weights.get d.domainId).map (c * ·))
    {s s' r : Merged} {g : String → Amount} (hscaled : Scaled o c s s' g)
    (h : domains.foldlM (mergeDomain t o candidate index) s = .ok r) :
    ∃ r' g', domains.foldlM (mergeDomain t (o.reweighed weights) candidate index) s' = .ok r' ∧
      Scaled o c r r' g' := by
  induction domains generalizing s s' g with
  | nil =>
    obtain rfl := Except.ok.inj h
    exact ⟨s', g, rfl, hscaled⟩
  | cons d domains ih =>
    rw [List.foldlM_cons] at h
    obtain ⟨s₁, hs₁, hrest⟩ := bind_eq_ok_iff.mp h
    obtain ⟨s₁', g₁, hs₁', hscaled₁⟩ :=
      mergeDomain_scaled hnodup hc (hweights d List.mem_cons_self) hscaled hs₁
    obtain ⟨r', g', hr', hscaled'⟩ := ih (fun e he => hweights e (.tail _ he)) hscaled₁ hrest
    refine ⟨r', g', ?_, hscaled'⟩
    rw [List.foldlM_cons, hs₁', ok_bind, hr']

/-- The result of multiplied sums is that of the sums. -/
theorem Scaled.result (hnodup : o.names.Nodup) (hc : 0 < c) {s s' : Merged} {g : String → Amount}
    (h : Scaled o c s s' g) : s'.result (o.reweighed weights) = s.result o := by
  have hnames : (o.reweighed weights).names = o.names := rfl
  have hclamp : (o.reweighed weights).scoreClamp = o.scoreClamp := rfl
  have hdimensionWeights : (o.reweighed weights).dimensionWeights = o.dimensionWeights := rfl
  by_cases hzero : s.totalWeight = 0
  · have hzero' : s'.totalWeight = 0 := by rw [h.totalWeight, hzero, mul_zero]
    rw [Merged.result, Merged.result, if_pos hzero, if_pos hzero', hnames]
  · have hzero' : ¬ s'.totalWeight = 0 := by
      rw [h.totalWeight]
      exact mul_ne_zero hc.ne' hzero
    have hdimensions : assign (fun _ (value : Option Amount) => (value.getD (some 0)).map fun x =>
        clampScore o.scoreClamp (x / s'.totalWeight)) o.names s'.dimensions =
          assign (fun _ (value : Option Amount) => (value.getD (some 0)).map fun x =>
            clampScore o.scoreClamp (x / s.totalWeight)) o.names s.dimensions := by
      rw [h.keyed, h.dimensions, assign_map hnodup, assign_map hnodup]
      refine List.map_congr_left fun name _ => Prod.ext rfl ?_
      dsimp only [Option.getD_some]
      rw [Option.map_map]
      refine congrArg (Option.map · (g name)) (funext fun x => ?_)
      rw [Function.comp_apply, h.totalWeight, mul_div_mul_left _ _ hc.ne']
    rw [Merged.result, Merged.result, if_neg hzero, if_neg hzero', hnames, hclamp, hdimensionWeights,
      hdimensions, h.triggered]

/-- Weights that are all multiplied give the same result. -/
theorem evaluateCandidate_reweighed (hnodup : o.names.Nodup) (hc : 0 < c) {domains : List Domain}
    (hweights : ∀ d ∈ domains, weights.get d.domainId = (o.weights.get d.domainId).map (c * ·))
    {r : CandidateResult} (h : evaluateCandidate t o domains candidate index = .ok r) :
    evaluateCandidate t (o.reweighed weights) domains candidate index = .ok r := by
  have hnames : (o.reweighed weights).names = o.names := rfl
  rw [evaluateCandidate] at h ⊢
  rw [hnames]
  split_ifs at h ⊢ with hnil
  · exact h
  · obtain ⟨s, hs, hr⟩ := bind_eq_ok_iff.mp h
    have hinitial : Scaled o c ⟨assign (fun _ _ => some 0) o.names [], 0, []⟩
        ⟨assign (fun _ _ => some 0) o.names [], 0, []⟩ fun _ => some 0 := by
      refine ⟨keyed_initial hnodup, ?_, (mul_zero c).symm, rfl⟩
      rw [Option.map_some, mul_zero]
      exact keyed_initial hnodup
    obtain ⟨s', g', hs', hscaled⟩ := foldlM_mergeDomain_scaled hnodup hc hweights hinitial hs
    rw [hs', ok_bind, hscaled.result hnodup hc]
    exact hr

end Scale

end Merge

section Laws

variable (t : Texts) (candidates : List Json) (o : Options)

/-- A domain that counts: it has rules, and its weight is not zero. -/
def Counts (d : Domain) : Prop :=
  extractRules d.data ≠ [] ∧ o.weights.get d.domainId ≠ some 0

/-- The result of a candidate by the rules of one domain. -/
def evaluated (d : Domain) (candidate : Json) (index : ℕ) : CandidateResult :=
  let e := evaluateAxioms t candidate (extractRules d.data) (o.own index)
  ⟨e.score, e.dimensions, e.triggered.map (d.domainId, ·)⟩

/-- The laws of a merge. -/
structure Lawful : Prop where
  single : ∀ (d : Domain) (weight : ℚ), o.names ≠ [] → Whole o.scoreClamp →
    extractRules d.data ≠ [] → o.weights.get d.domainId = some weight → 0 < weight →
      o.checkWeights = .ok () → evaluateCandidates t candidates [d] o =
        .ok (candidates.zipIdx.map fun p => evaluated t o d p.1 p.2)
  skipped : ∀ (before after : List Domain) (d : Domain),
    (extractRules d.data = [] ∨ o.weights.get d.domainId = some 0) →
      evaluateCandidates t candidates (before ++ d :: after) o =
        evaluateCandidates t candidates (before ++ after) o
  scaled : ∀ (domains : List Domain) (weights : Weights) (c : ℚ) (results : List CandidateResult),
    0 < c → (o.reweighed weights).checkWeights = .ok () →
      (∀ d ∈ domains, weights.get d.domainId = (o.weights.get d.domainId).map (c * ·)) →
        evaluateCandidates t candidates domains o = .ok results →
          evaluateCandidates t candidates domains (o.reweighed weights) = .ok results
  bounded : ∀ (domains : List Domain) (results : List CandidateResult),
    lowest o.scoreClamp ≤ highest o.scoreClamp → (∃ d ∈ domains, Counts o d) →
      evaluateCandidates t candidates domains o = .ok results →
        ∀ r ∈ results, ∀ p ∈ r.dimensions, ∀ x ∈ p.2,
          lowest o.scoreClamp ≤ x ∧ x ≤ highest o.scoreClamp

variable {t candidates o}

theorem evaluateCandidates_eq_ok {domains : List Domain} {results : List CandidateResult}
    (hweights : o.checkWeights = .ok ()) : evaluateCandidates t candidates domains o = .ok results ↔
      List.Forall₂ (fun p r => evaluateCandidate t o domains p.1 p.2 = .ok r) candidates.zipIdx
        results := by
  rw [evaluateCandidates, hweights, ok_bind]
  exact mapM_eq_ok_iff

/-- A rule that always adds to one dimension. -/
def sampleRule : Rule := ⟨"r", ⟨"index", "between", .null, 0, 0⟩, some 30, none, none, ["a"]⟩

/-- Options with one dimension. -/
def sampleOptions (clamp : Option Clamp) : Options := ⟨.map [], some [("a", 70)], none, none, clamp⟩

end Laws

end Kdna.Evaluate

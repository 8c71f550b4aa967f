import Kdna.Data.Fallible
import Kdna.Data.Upsert
import Mathlib.Data.List.Chain
import Mathlib.Data.Nat.Find
import Mathlib.Logic.Relation

/-!
# Longest paths below a bound

A recursive search for the longest path from a node, which remembers what it has found. It fails on
a node that is being visited, on a path beyond a bound and on a result beyond it. Whatever the order
of the nodes and of their successors, it succeeds exactly where no path is longer than the bound,
and then the graph has no cycle.
-/

namespace Kdna

/-- Why a search fails. -/
inductive PathFailure
  | cycle
  | limit
  deriving DecidableEq

section Paths

variable {κ : Type} (next : κ → List κ) (bound : ℕ)

/-- The nodes behind a node form a path. -/
def IsPath (node : κ) (path : List κ) : Prop := (node :: path).IsChain fun a b => b ∈ next a

/-- No path from a node is longer than the bound. -/
def Bounded (node : κ) : Prop := ∀ path, IsPath next node path → path.length ≤ bound

variable {next bound} {node successor : κ} {path : List κ} {n m : ℕ}

theorem isPath_nil (node : κ) : IsPath next node [] := List.isChain_singleton _

theorem isPath_cons : IsPath next node (successor :: path) ↔
    successor ∈ next node ∧ IsPath next successor path :=
  List.isChain_cons_cons

theorem Bounded.mono (h : Bounded next n node) (hle : n ≤ m) : Bounded next m node :=
  fun path hpath => (h path hpath).trans hle

/-- The paths from a node go through its successors. -/
theorem bounded_of_successors (h : ∀ s ∈ next node, ∃ m, Bounded next m s ∧ 1 + m ≤ n) :
    Bounded next n node := by
  intro path hpath
  cases path with
  | nil => exact Nat.zero_le n
  | cons s path =>
    obtain ⟨hs, hrest⟩ := isPath_cons.mp hpath
    obtain ⟨m, hm, hle⟩ := h s hs
    have hlength := hm path hrest
    rw [List.length_cons]
    omega

end Paths

section Ranks

variable {κ : Type} {next : κ → List κ} {bound : ℕ} {node : κ}

/-- A rank falls along each edge. -/
def Falls (next : κ → List κ) (rank : κ → ℕ) : Prop := ∀ a, ∀ b ∈ next a, rank b < rank a

/-- The length of the longest path from a node, up to the bound. -/
noncomputable def rankOf (next : κ → List κ) (bound : ℕ) (node : κ) : ℕ :=
  @Nat.findGreatest (fun n => ∃ path, IsPath next node path ∧ path.length = n)
    (Classical.decPred _) bound

theorem rankOf_le : rankOf next bound node ≤ bound :=
  @Nat.findGreatest_le _ (Classical.decPred _) bound

theorem exists_path_rankOf (next : κ → List κ) (bound : ℕ) (node : κ) :
    ∃ path, IsPath next node path ∧ path.length = rankOf next bound node := by
  classical
  exact Nat.findGreatest_spec (P := fun n => ∃ path, IsPath next node path ∧ path.length = n)
    (Nat.zero_le bound) ⟨[], isPath_nil node, rfl⟩

/-- Where paths are bounded, the longest ones shorten along each edge. -/
theorem falls_rankOf (h : ∀ a, Bounded next bound a) : Falls next (rankOf next bound) := by
  classical
  intro a b hb
  obtain ⟨path, hpath, hlength⟩ := exists_path_rankOf next bound b
  have hlonger : IsPath next a (b :: path) := isPath_cons.mpr ⟨hb, hpath⟩
  have hle : path.length + 1 ≤ rankOf next bound a :=
    Nat.le_findGreatest (h a _ hlonger) ⟨_, hlonger, rfl⟩
  omega

theorem Falls.lt_of_transGen {rank : κ → ℕ} (h : Falls next rank) {a b : κ}
    (hab : Relation.TransGen (fun a b => b ∈ next a) a b) : rank b < rank a := by
  induction hab with
  | single hb => exact h a _ hb
  | tail _ hc ih => exact (h _ _ hc).trans ih

/-- Where paths are bounded there is no cycle. -/
theorem acyclic_of_bounded (h : ∀ a, Bounded next bound a) (a : κ) :
    ¬ Relation.TransGen (fun a b => b ∈ next a) a a :=
  fun hcycle => lt_irrefl _ ((falls_rankOf h).lt_of_transGen hcycle)

end Ranks

section Search

variable {κ : Type} [DecidableEq κ] (next : κ → List κ) (bound : ℕ)

/-- One successor of a node: the longest path so far, and what is remembered. -/
def extendPath (search : κ → List (κ × ℕ) → Except PathFailure (ℕ × List (κ × ℕ)))
    (found : ℕ × List (κ × ℕ)) (successor : κ) : Except PathFailure (ℕ × List (κ × ℕ)) := do
  let (depth, longest) ← search successor found.2
  return (max found.1 (1 + depth), longest)

/-- The search from a node, which may go `levels` nodes deep. -/
def longestPath : ℕ → List κ → κ → List (κ × ℕ) → Except PathFailure (ℕ × List (κ × ℕ))
  | 0, _, _, _ => .error .limit
  | levels + 1, visiting, node, longest => do
    require (node ∉ visiting) PathFailure.cycle
    match getKey node longest with
    | some depth => return (depth, longest)
    | none =>
      let (value, longest) ←
        (next node).foldlM (extendPath (longestPath levels (node :: visiting))) (0, longest)
      require (value ≤ bound) PathFailure.limit
      return (value, upsert node (fun _ => value) longest)

/-- The searches from some nodes, one after the other. -/
def searchAll (nodes : List κ) : Except PathFailure (List (κ × ℕ)) :=
  nodes.foldlM (fun longest node => Prod.snd <$> longestPath next bound (bound + 1) [] node longest) []

end Search

variable {κ : Type} [DecidableEq κ] {next : κ → List κ} {bound : ℕ}
  {levels depth : ℕ} {visiting path : List κ} {node successor : κ}
  {longest : List (κ × ℕ)} {found result : ℕ × List (κ × ℕ)}

section Soundness

/-- What is remembered bounds the paths from its nodes. -/
def Remembers (next : κ → List κ) (bound : ℕ) (longest : List (κ × ℕ)) : Prop :=
  ∀ node depth, getKey node longest = some depth → Bounded next depth node ∧ depth ≤ bound

/-- The successors of a node, for a search that is sound. -/
theorem extendPath_sound {search : κ → List (κ × ℕ) → Except PathFailure (ℕ × List (κ × ℕ))}
    (hsearch : ∀ s longest result, Remembers next bound longest → search s longest = .ok result →
      Bounded next result.1 s ∧ Remembers next bound result.2) {successors : List κ}
    (hfound : Remembers next bound found.2)
    (h : successors.foldlM (extendPath search) found = .ok result) :
    Remembers next bound result.2 ∧ found.1 ≤ result.1 ∧
      ∀ s ∈ successors, ∃ m, Bounded next m s ∧ 1 + m ≤ result.1 := by
  induction successors generalizing found with
  | nil =>
    obtain rfl := Except.ok.inj h
    exact ⟨hfound, le_rfl, nofun⟩
  | cons s successors ih =>
    rw [List.foldlM_cons, bind_eq_ok_iff] at h
    obtain ⟨middle, hstep, hrest⟩ := h
    rw [extendPath, bind_eq_ok_iff] at hstep
    obtain ⟨one, hone, hmiddle⟩ := hstep
    obtain rfl := Except.ok.inj hmiddle
    obtain ⟨hbounded, hremembers⟩ := hsearch s _ one hfound hone
    have hmiddle : Remembers next bound (max found.1 (1 + one.1), one.2).2 := hremembers
    obtain ⟨hresult, hle, hall⟩ := ih hmiddle hrest
    refine ⟨hresult, (le_max_left _ _).trans hle, List.forall_mem_cons.mpr ⟨⟨one.1, hbounded, ?_⟩, hall⟩⟩
    exact (le_max_right _ _).trans hle

/-- What a search returns bounds the paths from the node. -/
theorem longestPath_sound (hlongest : Remembers next bound longest)
    (h : longestPath next bound levels visiting node longest = .ok result) :
    (Bounded next result.1 node ∧ result.1 ≤ bound) ∧ Remembers next bound result.2 := by
  induction levels generalizing visiting node longest result with
  | zero => cases h
  | succ levels ih =>
    rw [longestPath, require_bind_eq_ok_iff] at h
    obtain ⟨-, h⟩ := h
    cases hget : getKey node longest with
    | some depth =>
      rw [hget] at h
      obtain rfl := Except.ok.inj h
      exact ⟨hlongest node depth hget, hlongest⟩
    | none =>
      rw [hget] at h
      obtain ⟨⟨value, after⟩, hfold, h⟩ := bind_eq_ok_iff.mp h
      obtain ⟨hle, h⟩ := require_bind_eq_ok_iff.mp h
      obtain rfl := Except.ok.inj h
      obtain ⟨hafter, -, hall⟩ := extendPath_sound
        (fun s l r hl hr => ⟨(ih hl hr).1.1, (ih hl hr).2⟩) hlongest hfold
      have hvalue : Bounded next value node := bounded_of_successors hall
      refine ⟨⟨hvalue, hle⟩, fun k d hk => ?_⟩
      rw [getKey_upsert] at hk
      split_ifs at hk with heq
      · obtain rfl := Option.some.inj hk
        exact heq ▸ ⟨hvalue, hle⟩
      · exact hafter k d hk

end Soundness

section Completeness

variable {rank : κ → ℕ}

/-- What is remembered is at most the rank. -/
def Below (rank : κ → ℕ) (longest : List (κ × ℕ)) : Prop :=
  ∀ node depth, getKey node longest = some depth → depth ≤ rank node

theorem extendPath_complete {search : κ → List (κ × ℕ) → Except PathFailure (ℕ × List (κ × ℕ))}
    {n : ℕ} {successors : List κ} (hsearch : ∀ s ∈ successors, ∀ longest, Below rank longest →
      ∃ result, search s longest = .ok result ∧ result.1 ≤ rank s ∧ Below rank result.2)
    (hrank : ∀ s ∈ successors, rank s < n) (hfound : Below rank found.2) (hle : found.1 ≤ n) :
    ∃ result, successors.foldlM (extendPath search) found = .ok result ∧ result.1 ≤ n ∧
      Below rank result.2 := by
  induction successors generalizing found with
  | nil => exact ⟨found, rfl, hle, hfound⟩
  | cons s successors ih =>
    obtain ⟨one, hone, hdepth, hbelow⟩ := hsearch s List.mem_cons_self found.2 hfound
    have hs := hrank s List.mem_cons_self
    have hmiddle : (max found.1 (1 + one.1), one.2).1 ≤ n := by
      dsimp only
      omega
    have hbelow : Below rank (max found.1 (1 + one.1), one.2).2 := hbelow
    obtain ⟨result, hrest, hresult⟩ := ih (fun t ht => hsearch t (.tail _ ht))
      (fun t ht => hrank t (.tail _ ht)) hbelow hmiddle
    refine ⟨result, ?_, hresult⟩
    have hstep : extendPath search found s = .ok (max found.1 (1 + one.1), one.2) := by
      rw [extendPath, hone]
      rfl
    rw [List.foldlM_cons, hstep]
    exact hrest

/-- A search succeeds below a rank. -/
theorem longestPath_complete (hfalls : Falls next rank) (hbound : ∀ a, rank a ≤ bound)
    (hlevels : rank node < levels) (hvisiting : ∀ v ∈ visiting, rank node < rank v)
    (hlongest : Below rank longest) :
    ∃ result, longestPath next bound levels visiting node longest = .ok result ∧
      result.1 ≤ rank node ∧ Below rank result.2 := by
  induction levels generalizing visiting node longest with
  | zero => exact absurd hlevels (Nat.not_lt_zero _)
  | succ levels ih =>
    have hnew : node ∉ visiting := fun hmem => lt_irrefl _ (hvisiting node hmem)
    rw [longestPath, require_bind_of_pos hnew]
    cases hget : getKey node longest with
    | some depth => exact ⟨(depth, longest), rfl, hlongest node depth hget, hlongest⟩
    | none =>
      have hsearch : ∀ s ∈ next node, ∀ longest, Below rank longest →
          ∃ result, longestPath next bound levels (node :: visiting) s longest = .ok result ∧
            result.1 ≤ rank s ∧ Below rank result.2 := by
        intro s hs longest hlongest
        have hs := hfalls node s hs
        refine ih (by omega) (List.forall_mem_cons.mpr ⟨hs, fun v hv => ?_⟩) hlongest
        exact hs.trans (hvisiting v hv)
      have hstart : Below rank ((0, longest) : ℕ × List (κ × ℕ)).2 := hlongest
      obtain ⟨⟨value, after⟩, hfold, hle, hafter⟩ :=
        extendPath_complete hsearch (hfalls node) hstart (Nat.zero_le (rank node))
      refine ⟨(value, upsert node (fun _ => value) after), ?_, hle, fun k d hk => ?_⟩
      · dsimp only
        rw [hfold]
        exact require_bind_of_pos (hle.trans (hbound node)) _
      · rw [getKey_upsert] at hk
        split_ifs at hk with heq
        · obtain rfl := Option.some.inj hk
          exact heq ▸ hle
        · exact hafter k d hk

end Completeness

section All

variable {nodes : List κ}

theorem searchAll_sound (h : ∃ longest, searchAll next bound nodes = .ok longest) :
    ∀ a ∈ nodes, Bounded next bound a := by
  have hfold : ∀ (nodes : List κ) (before after : List (κ × ℕ)), Remembers next bound before →
      nodes.foldlM (fun longest node =>
        Prod.snd <$> longestPath next bound (bound + 1) [] node longest) before = .ok after →
      ∀ a ∈ nodes, Bounded next bound a := by
    intro nodes
    induction nodes with
    | nil => exact fun _ _ _ _ => nofun
    | cons node nodes ih =>
      intro before after hbefore hok
      obtain ⟨middle, hstep, hrest⟩ := bind_eq_ok_iff.mp hok
      dsimp only at hstep
      cases hsearch : longestPath next bound (bound + 1) [] node before with
      | error e =>
        rw [hsearch] at hstep
        cases hstep
      | ok result =>
        rw [hsearch] at hstep
        obtain rfl := Except.ok.inj hstep
        obtain ⟨⟨hbounded, hle⟩, hresult⟩ := longestPath_sound hbefore hsearch
        exact List.forall_mem_cons.mpr ⟨hbounded.mono hle, ih _ _ hresult hrest⟩
  obtain ⟨longest, hlongest⟩ := h
  exact hfold nodes [] longest nofun hlongest

theorem searchAll_complete (h : ∀ a, Bounded next bound a) :
    ∃ longest, searchAll next bound nodes = .ok longest := by
  have hfold : ∀ (nodes : List κ) (before : List (κ × ℕ)), Below (rankOf next bound) before →
      ∃ after, nodes.foldlM (fun longest node =>
        Prod.snd <$> longestPath next bound (bound + 1) [] node longest) before = .ok after := by
    intro nodes
    induction nodes with
    | nil => exact fun before _ => ⟨before, rfl⟩
    | cons node nodes ih =>
      intro before hbefore
      obtain ⟨result, hresult, -, hbelow⟩ := longestPath_complete (falls_rankOf h)
        (fun _ => rankOf_le) (Nat.lt_succ_of_le rankOf_le) (List.forall_mem_nil _) hbefore
      obtain ⟨after, hafter⟩ := ih result.2 hbelow
      refine ⟨after, ?_⟩
      rw [List.foldlM_cons, hresult]
      exact hafter
  exact hfold nodes [] nofun

/-- The searches succeed where no path is longer than the bound, if the edges start at the
nodes. -/
theorem searchAll_isOk_iff (hnodes : ∀ a, next a ≠ [] → a ∈ nodes) :
    (∃ longest, searchAll next bound nodes = .ok longest) ↔ ∀ a, Bounded next bound a := by
  refine ⟨fun h a => ?_, searchAll_complete⟩
  by_cases ha : a ∈ nodes
  · exact searchAll_sound h a ha
  · have hnone : next a = [] := by
      by_contra hne
      exact ha (hnodes a hne)
    refine bounded_of_successors fun s hs => ?_
    rw [hnone] at hs
    exact absurd hs List.not_mem_nil

end All

end Kdna

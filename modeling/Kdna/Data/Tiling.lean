import Mathlib.Data.List.Basic
import Mathlib.Data.List.Pairwise
import Mathlib.Tactic.Ring

/-!
# Tilings of an interval

A finite family of half-open spans tiles `[lo, hi)` when the spans are pairwise
disjoint and cover exactly the positions of the interval. A chain of spans, each
starting where its predecessor ends, is a tiling; so is every rearrangement of one.
-/

namespace Kdna

/-- A half-open span of positions, as its two ends. -/
abbrev Span := ℕ × ℕ

namespace Span

/-- The position `x` lies in the span. -/
def Covers (s : Span) (x : ℕ) : Prop := s.1 ≤ x ∧ x < s.2

/-- Two spans share no position because one ends before the other starts. -/
def Apart (s t : Span) : Prop := s.2 ≤ t.1 ∨ t.2 ≤ s.1

theorem Apart.symm {s t : Span} (h : Apart s t) : Apart t s := Or.symm h

end Span

/-- The spans are pairwise apart and cover exactly the positions of `[lo, hi)`. -/
structure Tiles (spans : List Span) (lo hi : ℕ) : Prop where
  apart : spans.Pairwise Span.Apart
  covers_iff : ∀ x, (∃ s ∈ spans, s.Covers x) ↔ lo ≤ x ∧ x < hi

/-- Each span starts where the one before it ends, from `lo` to `hi`. -/
def SpanChain : ℕ → List Span → ℕ → Prop
  | lo, [], hi => lo = hi
  | lo, s :: ss, hi => s.1 = lo ∧ s.1 ≤ s.2 ∧ SpanChain s.2 ss hi

/-- A chain never runs backwards. -/
theorem SpanChain.le {lo hi : ℕ} {spans : List Span} (h : SpanChain lo spans hi) : lo ≤ hi := by
  induction spans generalizing lo with
  | nil => exact le_of_eq h
  | cons s ss ih =>
    obtain ⟨rfl, hle, htail⟩ := h
    exact hle.trans (ih htail)

/-- Every span of a chain lies between its ends. -/
theorem SpanChain.mem_bounds {lo hi : ℕ} {spans : List Span} (h : SpanChain lo spans hi)
    {s : Span} (hs : s ∈ spans) : lo ≤ s.1 ∧ s.1 ≤ s.2 ∧ s.2 ≤ hi := by
  induction spans generalizing lo with
  | nil => simp at hs
  | cons t ts ih =>
    obtain ⟨rfl, hle, htail⟩ := h
    rcases List.mem_cons.mp hs with rfl | hs
    · exact ⟨le_rfl, hle, htail.le⟩
    · obtain ⟨h1, h2, h3⟩ := ih htail hs
      exact ⟨hle.trans h1, h2, h3⟩

/-- Two chains that meet form one chain. -/
theorem SpanChain.append {lo mid hi : ℕ} {ss ts : List Span} (hs : SpanChain lo ss mid)
    (ht : SpanChain mid ts hi) : SpanChain lo (ss ++ ts) hi := by
  induction ss generalizing lo with
  | nil =>
    cases hs
    exact ht
  | cons s ss ih =>
    obtain ⟨rfl, hle, htail⟩ := hs
    exact ⟨rfl, hle, ih htail⟩

/-- A chain is a tiling of the interval between its ends. -/
theorem SpanChain.tiles {lo hi : ℕ} {spans : List Span} (h : SpanChain lo spans hi) :
    Tiles spans lo hi := by
  induction spans generalizing lo with
  | nil =>
    cases h
    refine ⟨List.Pairwise.nil, fun x => ⟨by simp, fun hx => ?_⟩⟩
    omega
  | cons s ss ih =>
    obtain ⟨rfl, hle, htail⟩ := h
    have hbound := htail.le
    refine ⟨List.pairwise_cons.mpr ⟨fun t ht => ?_, (ih htail).apart⟩, fun x => ?_⟩
    · exact Or.inl (htail.mem_bounds ht).1
    · rw [List.exists_mem_cons_iff, (ih htail).covers_iff]
      unfold Span.Covers
      omega

/-- A tiling does not depend on the order in which its spans are listed. -/
theorem Tiles.perm {lo hi : ℕ} {ss ts : List Span} (h : Tiles ss lo hi) (hp : ss.Perm ts) :
    Tiles ts lo hi := by
  refine ⟨hp.pairwise h.apart (fun hst => hst.symm), fun x => ?_⟩
  rw [← h.covers_iff]
  simp only [hp.mem_iff]

end Kdna

import Mathlib.Data.Prod.Lex
import Mathlib.Order.Compare

/-!
# Versions and what a comparison of them says

A version is three numbers of a linear order, compared from the first on. An operator relates a
version to its operand.
-/

namespace Kdna

/-- A version: `major.minor.patch`. -/
@[ext]
structure Version (α : Type) where
  major : α
  minor : α
  patch : α
  deriving DecidableEq, Repr

namespace Version

variable {α β : Type}

/-- The version with its numbers under a function. -/
def map (f : α → β) (v : Version α) : Version β := ⟨f v.major, f v.minor, f v.patch⟩

/-- The version as it is ordered. -/
def key (v : Version α) : α ×ₗ α ×ₗ α := toLex (v.major, toLex (v.minor, v.patch))

theorem key_injective : Function.Injective (key : Version α → α ×ₗ α ×ₗ α) := by
  intro v w h
  obtain ⟨hmajor, hrest⟩ := Prod.mk.inj h
  obtain ⟨hminor, hpatch⟩ := Prod.mk.inj hrest
  exact Version.ext hmajor hminor hpatch

section Order

variable [LinearOrder α] {v w : Version α}

theorem key_lt_iff : v.key < w.key ↔ v.major < w.major ∨
    v.major = w.major ∧ (v.minor < w.minor ∨ v.minor = w.minor ∧ v.patch < w.patch) := by
  rw [key, key, Prod.Lex.toLex_lt_toLex, Prod.Lex.toLex_lt_toLex]

theorem key_le_iff : v.key ≤ w.key ↔ ¬ w.key < v.key := not_lt.symm

theorem key_lt_map_iff [LinearOrder β] {f : α → β} (hf : StrictMono f) :
    (v.map f).key < (w.map f).key ↔ v.key < w.key := by
  rw [key_lt_iff, key_lt_iff]
  simp only [map, hf.lt_iff_lt, hf.injective.eq_iff]

end Order

end Version

/-- How a version stands to the operand of a comparison. -/
inductive Op
  | equal
  | caret
  | tilde
  | atLeast
  | above
  | atMost
  | below
  | unknown
  deriving DecidableEq, Repr

namespace Op

variable {α β : Type} [LinearOrder α] [LinearOrder β] {v w : Version α} {f : α → β}

/-- The versions that an operator allows with an operand. -/
def Relates (op : Op) (v w : Version α) : Prop :=
  match op with
  | equal => v = w
  | caret => v.major = w.major ∧ w.key ≤ v.key
  | tilde => v.major = w.major ∧ v.minor = w.minor ∧ w.key ≤ v.key
  | atLeast => w.key ≤ v.key
  | above => w.key < v.key
  | atMost => v.key ≤ w.key
  | below => v.key < w.key
  | unknown => False

/-- A strictly monotone function keeps what an operator says. -/
theorem relates_map_iff (hf : StrictMono f) (op : Op) :
    op.Relates (v.map f) (w.map f) ↔ op.Relates v w := by
  have hmajor : (v.map f).major = (w.map f).major ↔ v.major = w.major := hf.injective.eq_iff
  have hminor : (v.map f).minor = (w.map f).minor ↔ v.minor = w.minor := hf.injective.eq_iff
  have hpatch : (v.map f).patch = (w.map f).patch ↔ v.patch = w.patch := hf.injective.eq_iff
  cases op with
  | equal => simp only [Relates, Version.ext_iff, hmajor, hminor, hpatch]
  | caret => simp only [Relates, hmajor, Version.key_le_iff, Version.key_lt_map_iff hf]
  | tilde => simp only [Relates, hmajor, hminor, Version.key_le_iff, Version.key_lt_map_iff hf]
  | atLeast => simp only [Relates, Version.key_le_iff, Version.key_lt_map_iff hf]
  | above => exact Version.key_lt_map_iff hf
  | atMost => simp only [Relates, Version.key_le_iff, Version.key_lt_map_iff hf]
  | below => exact Version.key_lt_map_iff hf
  | unknown => exact Iff.rfl

end Op

end Kdna

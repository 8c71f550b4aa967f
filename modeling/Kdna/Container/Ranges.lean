import Kdna.Container.Semver
import Mathlib

/-!
# What a version range denotes

A range is read in two ways: as it is written, word by word with blanks between an operator and its
version, and as `satisfies` reads it, which stops at a first word that is a version, a caret or a
tilde, takes an operator by itself for one without a version, and counts a comparison that has no
version on one side as an equality. The claim of `satisfies` about the first reading holds exactly
where the second does not depart from it.
-/

namespace Kdna.Semver

section Reading

/-- The version of a text, with its exact numbers. -/
def versionOf (v : List Char) : Option (Version ℕ) := (groups (trim v)).map (·.map decimalValue)

/-- A comparison with the version of an operand, where it has one. -/
structure Part where
  op : Op
  operand : Option (Version ℕ)
  deriving DecidableEq

/-- The comparison that a word makes which starts with `<` or `>`. -/
def readComparison : List Char → Part
  | '>' :: '=' :: rest => ⟨.atLeast, versionOf rest⟩
  | '>' :: rest => ⟨.above, versionOf rest⟩
  | '<' :: '=' :: rest => ⟨.atMost, versionOf rest⟩
  | '<' :: rest => ⟨.below, versionOf rest⟩
  | _ => ⟨.unknown, none⟩

/-- The comparison that a word makes. -/
def readWord (w : List Char) : Part :=
  if w.head?.any Char.isDigit then ⟨.equal, versionOf w⟩
  else match w with
    | '^' :: rest => ⟨.caret, versionOf rest⟩
    | '~' :: rest => ⟨.tilde, versionOf rest⟩
    | _ => readComparison w

/-- The range that allows every version. -/
def Wildcard (range : List Char) : Prop := range = ['*'] ∨ trim range = []

instance (range : List Char) : Decidable (Wildcard range) := inferInstanceAs (Decidable (_ ∨ _))

/-- The text starts with a version, a caret or a tilde. -/
def opens (r : List Char) : Bool := r.head?.any fun c => c.isDigit || c = '^' || c = '~'

/-- The comparisons of a range as `satisfies` reads it. -/
def readParts (range : List Char) : List Part :=
  let r := trim range
  if Wildcard range then []
  else if opens r || ' ' ∉ r then [readWord r]
  else ((words r).filter (· ≠ ['*'])).map readWord

/-- The operator that a word is. -/
def operator? (w : List Char) : Option Op :=
  if w = ['^'] then some .caret else if w = ['~'] then some .tilde
  else if w = ['>', '='] then some .atLeast else if w = ['>'] then some .above
  else if w = ['<', '='] then some .atMost else if w = ['<'] then some .below
  else none

/-- The comparisons of words, where an operator takes the next word for its version. -/
def written : List (List Char) → List Part
  | [] => []
  | [w] => if w = ['*'] then [] else [readWord w]
  | w :: next :: rest =>
    match operator? w with
    | some op => ⟨op, versionOf next⟩ :: written rest
    | none => if w = ['*'] then written (next :: rest) else readWord w :: written (next :: rest)

/-- The comparisons of a range as it is written. -/
def writtenParts (range : List Char) : List Part := written (words (trim range))

/-- The comparison allows the version. -/
def Part.Holds (p : Part) (t : Version ℕ) : Prop := ∃ w, p.operand = some w ∧ p.op.Relates t w

/-- The versions that a range denotes. -/
def denoted (range : List Char) : Set (Version ℕ) := {t | ∀ p ∈ writtenParts range, p.Holds t}

end Reading

section Refusal

/-- The operator refuses what is no version. -/
def strict : Op → Bool
  | .equal => false
  | .atLeast => false
  | .atMost => false
  | _ => true

/-- The version with its numbers as `parseInt` reads them. -/
def rounded (t : Version ℕ) : Version ℕ := t.map toDouble

/-- The last difference of the comparison is that of two infinite numbers. -/
def Undefined (p q : Version ℕ) : Prop := p = q ∧ p.patch = overflow

/-- The comparison, as it is read, refuses the version. -/
def Part.Refuses (p : Part) (v : Option (Version ℕ)) : Prop :=
  match v, p.operand with
  | some t, some w => ¬ p.op.Relates (rounded t) (rounded w) ∨ Undefined (rounded t) (rounded w)
  | _, _ => strict p.op = true

theorem parseSemver_eq (v : List Char) : parseSemver v = (versionOf v).map rounded := by
  rw [parseSemver, versionOf, Option.map_map]
  rfl

/-- Numbers that differ are compared. -/
theorem minus_of_ne {a b : ℕ} (h : a ≠ b) : minus a b = some (cmp a b) :=
  if_neg fun hboth => h (hboth.1.trans hboth.2.symm)

/-- The order of two parsed versions, where it is defined. -/
theorem compareParsed_eq (p q : Version ℕ) :
    (Undefined p q → compareParsed p q = none) ∧
      (¬ Undefined p q → compareParsed p q = some (cmp p.key q.key)) := by
  constructor
  · rintro ⟨rfl, hpatch⟩
    rw [compareParsed, if_neg (not_not.mpr rfl), if_neg (not_not.mpr rfl), minus,
      if_pos ⟨hpatch, hpatch⟩]
  · intro hdefined
    rw [compareParsed]
    split
    · next hmajor =>
      rw [minus_of_ne hmajor]
      rcases lt_or_gt_of_ne hmajor with h | h
      · rw [(cmp_eq_lt_iff _ _).mpr h, (cmp_eq_lt_iff _ _).mpr (Version.key_lt_iff.mpr (.inl h))]
      · rw [(cmp_eq_gt_iff _ _).mpr h, (cmp_eq_gt_iff _ _).mpr (Version.key_lt_iff.mpr (.inl h))]
    · next hmajor =>
      replace hmajor := not_not.mp hmajor
      split
      · next hminor =>
        rw [minus_of_ne hminor]
        rcases lt_or_gt_of_ne hminor with h | h
        · rw [(cmp_eq_lt_iff _ _).mpr h,
            (cmp_eq_lt_iff _ _).mpr (Version.key_lt_iff.mpr (.inr ⟨hmajor, .inl h⟩))]
        · rw [(cmp_eq_gt_iff _ _).mpr h,
            (cmp_eq_gt_iff _ _).mpr (Version.key_lt_iff.mpr (.inr ⟨hmajor.symm, .inl h⟩))]
      · next hminor =>
        replace hminor := not_not.mp hminor
        rcases lt_trichotomy p.patch q.patch with h | h | h
        · rw [minus_of_ne h.ne, (cmp_eq_lt_iff _ _).mpr h,
            (cmp_eq_lt_iff _ _).mpr (Version.key_lt_iff.mpr (.inr ⟨hmajor, .inr ⟨hminor, h⟩⟩))]
        · obtain rfl : p = q := Version.ext hmajor hminor h
          rw [minus, if_neg fun hboth => hdefined ⟨rfl, hboth.1⟩, cmp_self_eq_eq, cmp_self_eq_eq]
        · have hkey : q.key < p.key :=
            Version.key_lt_iff.mpr (.inr ⟨hmajor.symm, .inr ⟨hminor.symm, h⟩⟩)
          rw [minus_of_ne h.ne', (cmp_eq_gt_iff _ _).mpr h, (cmp_eq_gt_iff _ _).mpr hkey]

/-- What `satisfies` asks of a comparison for an operator. -/
def test : Op → Ordering → Bool
  | .equal => Ordering.isEq
  | .above => Ordering.isGT
  | .atMost => Ordering.isLE
  | .below => Ordering.isLT
  | _ => Ordering.isGE

/-- An operator that is one comparison. -/
def simple : Op → Bool
  | .caret => false
  | .tilde => false
  | .unknown => false
  | _ => true

theorem test_cmp {op : Op} (hop : simple op = true) (p q : Version ℕ) :
    test op (cmp p.key q.key) = true ↔ op.Relates p q := by
  have hkey : p.key = q.key ↔ p = q := Version.key_injective.eq_iff
  cases op with
  | equal => rw [test, Ordering.isEq_iff_eq_eq, cmp_eq_eq_iff, hkey, Op.Relates]
  | atLeast =>
    rw [Op.Relates, ← not_lt, ← cmp_eq_lt_iff]
    cases cmp p.key q.key <;> decide
  | above => rw [test, Ordering.isGT_iff_eq_gt, cmp_eq_gt_iff, Op.Relates]
  | atMost =>
    rw [test, Op.Relates, ← not_lt, ← cmp_eq_gt_iff]
    cases cmp p.key q.key <;> decide
  | below => rw [test, Ordering.isLT_iff_eq_lt, cmp_eq_lt_iff, Op.Relates]
  | _ => cases hop

theorem any_compareParsed {op : Op} (hop : simple op = true) (p q : Version ℕ) :
    (compareParsed p q).any (test op) = true ↔ op.Relates p q ∧ ¬ Undefined p q := by
  obtain ⟨hundefined, hdefined⟩ := compareParsed_eq p q
  by_cases h : Undefined p q
  · rw [hundefined h, Option.any_none]
    exact ⟨fun hf => absurd hf Bool.false_ne_true, fun hr => absurd h hr.2⟩
  · rw [hdefined h, Option.any_some, test_cmp hop]
    exact ⟨fun hr => ⟨hr, h⟩, And.left⟩

/-- A comparison of texts is one of their versions, or an equality. -/
theorem any_compareSemver {op : Op} (hop : simple op = true) (version text : List Char) :
    (compareSemver version text).any (test op) = true ↔
      ¬ (Part.mk op (versionOf text)).Refuses (versionOf version) := by
  have heq : (some Ordering.eq).any (test op) = true ↔ ¬ strict op = true := by
    cases op <;> first | decide | cases hop
  rw [compareSemver, parseSemver_eq, parseSemver_eq]
  cases versionOf version with
  | none => exact heq
  | some t =>
    cases versionOf text with
    | none => exact heq
    | some w =>
      have hnot : ¬ (Part.mk op (some w)).Refuses (some t) ↔
          op.Relates (rounded t) (rounded w) ∧ ¬ Undefined (rounded t) (rounded w) := by
        unfold Part.Refuses
        rw [not_or, not_not]
      exact (any_compareParsed hop (rounded t) (rounded w)).trans hnot.symm

end Refusal

section Satisfied

variable {version r range : List Char}

/-- A version is refused only by the numbers of both sides. -/
theorem not_refuses_iff (op : Op) (t w : Version ℕ) :
    ¬ (Part.mk op (some w)).Refuses (some t) ↔
      op.Relates (rounded t) (rounded w) ∧ ¬ Undefined (rounded t) (rounded w) := by
  unfold Part.Refuses
  rw [not_or, not_not]

/-- A caret or a tilde has a test of the first numbers, and is a comparison behind it. -/
theorem guarded_iff {op : Op} (hstrict : strict op = true) {p : Version ℕ → Version ℕ → Bool}
    (hop : ∀ t w : Version ℕ, op.Relates t w ↔ p t w = true ∧ Op.atLeast.Relates t w)
    (version min : List Char) :
    (match parseSemver min, parseSemver version with
      | some parsedMin, some parsedVer =>
        p parsedVer parsedMin && (compareSemver version min).any Ordering.isGE
      | _, _ => false) = true ↔ ¬ (Part.mk op (versionOf min)).Refuses (versionOf version) := by
  have hany : (compareSemver version min).any (test .atLeast) = true ↔ _ :=
    any_compareSemver rfl version min
  rw [parseSemver_eq, parseSemver_eq]
  cases hmin : versionOf min with
  | none =>
    refine ⟨fun h => absurd h Bool.false_ne_true, fun h => absurd ?_ h⟩
    cases versionOf version with
    | none => exact hstrict
    | some t => exact hstrict
  | some w =>
    cases hversion : versionOf version with
    | none => exact ⟨fun h => absurd h Bool.false_ne_true, fun h => absurd hstrict h⟩
    | some t =>
      rw [hmin, hversion, not_refuses_iff] at hany
      rw [not_refuses_iff, hop]
      dsimp only [Option.map_some]
      rw [Bool.and_eq_true, and_assoc]
      exact and_congr_right fun _ => hany

theorem opens_of_digit {r : List Char} (h : r.head?.any Char.isDigit = true) : opens r = true := by
  obtain ⟨c, hc, hdigit⟩ := (Option.any_eq_true _ _).mp h
  rw [opens, hc, Option.any_some, hdigit, Bool.true_or, Bool.true_or]

/-- A text that opens with neither a version nor a caret nor a tilde. -/
theorem not_opens_of {r : List Char} (hdigit : ¬ r.head?.any Char.isDigit = true)
    (hcaret : ∀ min, r = '^' :: min → False) (htilde : ∀ min, r = '~' :: min → False) :
    opens r = false := by
  cases r with
  | nil => rfl
  | cons c rest =>
    have hc : c ≠ '^' := fun h => hcaret rest (by rw [h])
    have ht : c ≠ '~' := fun h => htilde rest (by rw [h])
    have hd : c.isDigit = false := Bool.eq_false_iff.mpr hdigit
    simp [opens, hc, ht, hd]

theorem satisfiesComparison_iff (version r : List Char) :
    satisfiesComparison version r = true ↔ ¬ (readComparison r).Refuses (versionOf version) := by
  unfold satisfiesComparison
  split
  · exact any_compareSemver (show simple .atLeast = true from rfl) version _
  · next rest hrest =>
    rw [readComparison.eq_2 rest hrest]
    exact any_compareSemver (show simple .above = true from rfl) version rest
  · exact any_compareSemver (show simple .atMost = true from rfl) version _
  · next rest hrest =>
    rw [readComparison.eq_4 rest hrest]
    exact any_compareSemver (show simple .below = true from rfl) version rest
  · next h₁ h₂ h₃ h₄ =>
    rw [readComparison.eq_5 r h₁ h₂ h₃ h₄]
    refine ⟨fun h => absurd h Bool.false_ne_true, fun h => absurd ?_ h⟩
    cases versionOf version <;> rfl

/-- A text that is read as one comparison. -/
theorem satisfies_word (hr : trim range = r) (hwild : ¬ Wildcard range)
    (hword : opens r = true ∨ ' ' ∉ r) :
    satisfies version range = true ↔ ¬ (readWord r).Refuses (versionOf version) := by
  have hnone : ¬ (range = [] ∨ range = ['*'] ∨ trim range = []) := by
    rintro (rfl | h)
    · exact hwild (.inr rfl)
    · exact hwild h
  rw [satisfies, if_neg hnone]
  unfold readWord
  dsimp only
  rw [hr]
  by_cases hdigit : r.head?.any Char.isDigit = true
  · rw [if_pos hdigit, if_pos hdigit, decide_eq_true_eq, ← any_compareSemver rfl, test]
    cases compareSemver version r with
    | none => decide
    | some o => cases o <;> decide
  · rw [if_neg hdigit, if_neg hdigit]
    split
    · next min =>
      exact guarded_iff (p := fun t w => t.major = w.major) rfl
        (fun t w => by rw [Op.Relates, decide_eq_true_eq, Op.Relates]) version min
    · next min =>
      refine guarded_iff (p := fun t w => t.major = w.major && t.minor = w.minor) rfl
        (fun t w => ?_) version min
      rw [Op.Relates, Op.Relates, Bool.and_eq_true, decide_eq_true_eq, decide_eq_true_eq, and_assoc]
    · next hcaret htilde =>
      have hopens := not_opens_of hdigit hcaret htilde
      rw [dif_neg (hword.resolve_left (Bool.eq_false_iff.mp hopens))]
      have hcomparison := satisfiesComparison_iff version r
      cases r with
      | nil => exact hcomparison
      | cons c min =>
        by_cases hc : c = '^'
        · exact absurd (by rw [hc]) (hcaret min)
        by_cases ht : c = '~'
        · exact absurd (by rw [ht]) (htilde min)
        simpa only [hc, ht] using hcomparison

/-- The words of a text are read one by one. -/
theorem satisfies_mem_words {w : List Char} (hw : w ∈ words r) : satisfies version w = true ↔
    (w ≠ ['*'] → ¬ (readWord w).Refuses (versionOf version)) := by
  obtain ⟨hmem, hne⟩ := List.mem_filter.mp hw
  have hnone := (of_mem_splitOnP hmem).2
  have htrim : trim w = w := trim_of_forall hnone
  by_cases hstar : w = ['*']
  · rw [satisfies, if_pos (.inr (.inl hstar))]
    exact ⟨fun _ h => absurd hstar h, fun _ => rfl⟩
  · have hwild : ¬ Wildcard w := by
      rintro (h | h)
      · exact hstar h
      · exact absurd (htrim.symm.trans h) (of_decide_eq_true hne)
    have hblank : ' ' ∉ w := fun hmem => absurd (hnone ' ' hmem) (by decide)
    rw [satisfies_word htrim hwild (.inr hblank)]
    exact ⟨fun h _ => h, fun h => h hstar⟩

/-- The code takes a version that no comparison it reads refuses. -/
theorem satisfies_iff (version range : List Char) : satisfies version range = true ↔
    ∀ p ∈ readParts range, ¬ p.Refuses (versionOf version) := by
  unfold readParts
  dsimp only
  by_cases hwild : Wildcard range
  · rw [if_pos hwild, satisfies, if_pos (.inr hwild)]
    exact ⟨fun _ => List.forall_mem_nil _, fun _ => rfl⟩
  rw [if_neg hwild]
  split
  · next hword =>
    rw [Bool.or_eq_true, decide_eq_true_eq] at hword
    rw [satisfies_word rfl hwild hword, List.forall_mem_singleton]
  · next hword =>
    rw [Bool.or_eq_true, decide_eq_true_eq, not_or, not_not] at hword
    obtain ⟨hopens, hblank⟩ := hword
    have hnone : ¬ (range = [] ∨ range = ['*'] ∨ trim range = []) := by
      rintro (rfl | h)
      · exact hwild (.inr rfl)
      · exact hwild h
    rw [satisfies, if_neg hnone]
    dsimp only
    rw [if_neg fun hdigit => hopens (opens_of_digit hdigit)]
    split
    · next min heq => exact absurd (heq ▸ rfl) hopens
    · next min heq => exact absurd (heq ▸ rfl) hopens
    · rw [dif_pos hblank, List.all_eq_true]
      constructor
      · intro h p hp
        obtain ⟨w, hw, rfl⟩ := List.mem_map.mp hp
        obtain ⟨hmem, hne⟩ := List.mem_filter.mp hw
        exact (satisfies_mem_words hmem).mp (h ⟨w, hmem⟩ (List.mem_attach _ _)) (of_decide_eq_true hne)
      · intro h w _
        exact (satisfies_mem_words w.2).mpr fun hne =>
          h _ (List.mem_map_of_mem (List.mem_filter.mpr ⟨w.2, decide_eq_true hne⟩))

end Satisfied

section Preorder

/-- A version that `parseSemver` accepts. -/
abbrev Accepted := {v : List Char // (parseSemver v).isSome = true}

/-- `compareSemver(u, v) <= 0` -/
def AtMost (u v : Accepted) : Prop := (compareSemver u v).any Ordering.isLE = true

/-- `compareSemver` orders the versions. -/
structure TotalPreorderOn (A : Set Accepted) : Prop where
  refl : ∀ v ∈ A, AtMost v v
  trans : ∀ u ∈ A, ∀ v ∈ A, ∀ w ∈ A, AtMost u v → AtMost v w → AtMost u w
  total : ∀ u ∈ A, ∀ v ∈ A, AtMost u v ∨ AtMost v u
  swap : ∀ u ∈ A, ∀ v ∈ A, compareSemver v u = (compareSemver u v).map Ordering.swap

/-- The last number of the version is read as `Infinity`. -/
def Overflows (v : Accepted) : Prop := ∃ p, parseSemver v = some p ∧ p.patch = overflow

theorem compareSemver_accepted {u v : Accepted} {p q : Version ℕ} (hp : parseSemver u = some p)
    (hq : parseSemver v = some q) : compareSemver u v = compareParsed p q := by
  rw [compareSemver, hp, hq]

theorem compareSemver_defined {u v : Accepted} {p q : Version ℕ} (hu : ¬ Overflows u)
    (hp : parseSemver u = some p) (hq : parseSemver v = some q) :
    compareSemver u v = some (cmp p.key q.key) := by
  rw [compareSemver_accepted hp hq]
  exact (compareParsed_eq p q).2 fun hundefined => hu ⟨p, hp, hundefined.2⟩

theorem atMost_iff {u v : Accepted} {p q : Version ℕ} (hu : ¬ Overflows u)
    (hp : parseSemver u = some p) (hq : parseSemver v = some q) : AtMost u v ↔ p.key ≤ q.key := by
  rw [AtMost, compareSemver_defined hu hp hq, Option.any_some]
  exact test_cmp (show simple .atMost = true from rfl) p q

/-- `compareSemver` is a total preorder of accepted versions exactly where none ends with a number
that is read as `Infinity`. -/
theorem totalPreorderOn_iff (A : Set Accepted) : TotalPreorderOn A ↔ ∀ v ∈ A, ¬ Overflows v := by
  have hparsed (v : Accepted) : ∃ p, parseSemver v = some p := Option.isSome_iff_exists.mp v.2
  constructor
  · rintro hA v hv ⟨p, hp, hpatch⟩
    have hself := hA.refl v hv
    rw [AtMost, compareSemver_accepted hp hp, (compareParsed_eq p p).1 ⟨rfl, hpatch⟩] at hself
    exact Bool.false_ne_true hself
  · intro hA
    refine ⟨fun v hv => ?_, fun u hu v hv w hw huv hvw => ?_, fun u hu v hv => ?_,
      fun u hu v hv => ?_⟩
    · obtain ⟨p, hp⟩ := hparsed v
      exact (atMost_iff (hA v hv) hp hp).mpr le_rfl
    · obtain ⟨p, hp⟩ := hparsed u
      obtain ⟨q, hq⟩ := hparsed v
      obtain ⟨r, hr⟩ := hparsed w
      rw [atMost_iff (hA u hu) hp hq] at huv
      rw [atMost_iff (hA v hv) hq hr] at hvw
      exact (atMost_iff (hA u hu) hp hr).mpr (huv.trans hvw)
    · obtain ⟨p, hp⟩ := hparsed u
      obtain ⟨q, hq⟩ := hparsed v
      rw [atMost_iff (hA u hu) hp hq, atMost_iff (hA v hv) hq hp]
      exact le_total p.key q.key
    · obtain ⟨p, hp⟩ := hparsed u
      obtain ⟨q, hq⟩ := hparsed v
      rw [compareSemver_defined (hA u hu) hp hq, compareSemver_defined (hA v hv) hq hp,
        Option.map_some, cmp_swap]

end Preorder

section Soundness

/-- What a range that is no wildcard takes is a version that it denotes. -/
def Sound (version range : List Char) : Prop :=
  satisfies version range = true →
    Wildcard range ∨ ∃ t, versionOf version = some t ∧ t ∈ denoted range

/-- The numbers stand so only once they are rounded. -/
def Confounds (op : Op) (t w : Version ℕ) : Prop :=
  op.Relates (rounded t) (rounded w) ∧ ¬ op.Relates t w

/-- Where a range is taken as it is meant: it is a wildcard, or a comparison that is read refuses
the version, or what is taken is a version, each comparison that is written and read has a version
from which rounding keeps it apart, and each that is written and not read allows it. -/
def TakenAsMeant (version range : List Char) : Prop :=
  Wildcard range ∨ (∃ p ∈ readParts range, p.Refuses (versionOf version)) ∨
    ∃ t, versionOf version = some t ∧ ∀ p ∈ writtenParts range,
      if p ∈ readParts range then ∃ w, p.operand = some w ∧ ¬ Confounds p.op t w else p.Holds t

/-- Up to `2 ^ 53` an integer is its own double. -/
theorem toDouble_of_le {n : ℕ} (hn : n ≤ 2 ^ 53) : toDouble n = n * Binary64.one := by
  have hrep := Binary64.representable_mul_one hn
  have hround := Binary64.roundUnits_mul hrep Nat.one_pos
  rw [Nat.mul_one] at hround
  rw [toDouble, hround]
  exact min_eq_left hrep.1.le

/-- Only numbers beyond `2 ^ 53` are confounded. -/
theorem long_of_confounds {op : Op} {t w : Version ℕ} (h : Confounds op t w) :
    ∃ n ∈ [t.major, t.minor, t.patch, w.major, w.minor, w.patch], 2 ^ 53 < n := by
  by_contra hshort
  push Not at hshort
  simp only [List.forall_mem_cons] at hshort
  obtain ⟨h₁, h₂, h₃, h₄, h₅, h₆, -⟩ := hshort
  have ht : rounded t = t.map (· * Binary64.one) := by
    rw [rounded, Version.map, toDouble_of_le h₁, toDouble_of_le h₂, toDouble_of_le h₃, Version.map]
  have hw : rounded w = w.map (· * Binary64.one) := by
    rw [rounded, Version.map, toDouble_of_le h₄, toDouble_of_le h₅, toDouble_of_le h₆, Version.map]
  have hmono : StrictMono (· * Binary64.one) := fun _ _ hlt =>
    Nat.mul_lt_mul_of_pos_right hlt Binary64.one_pos
  have hrelates := h.1
  rw [ht, hw, Op.relates_map_iff hmono] at hrelates
  exact h.2 hrelates

/-- The comparison of a version that is not refused, behind the numbers that are not confounded. -/
theorem holds_of_not_refuses {p : Part} {t w : Version ℕ} (hw : p.operand = some w)
    (hrefuses : ¬ p.Refuses (some t)) (hconfounds : ¬ Confounds p.op t w) : p.Holds t := by
  obtain ⟨op, operand⟩ := p
  obtain rfl : operand = some w := hw
  rw [not_refuses_iff] at hrefuses
  exact ⟨w, rfl, not_not.mp fun hnot => hconfounds ⟨hrefuses.1, hnot⟩⟩

theorem sound_iff (version range : List Char) :
    Sound version range ↔ TakenAsMeant version range := by
  rw [Sound, satisfies_iff]
  constructor
  · intro hsound
    by_cases hrefused : ∃ p ∈ readParts range, p.Refuses (versionOf version)
    · exact .inr (.inl hrefused)
    · rcases hsound fun p hp hr => hrefused ⟨p, hp, hr⟩ with hwild | ⟨t, ht, hdenoted⟩
      · exact .inl hwild
      · refine .inr (.inr ⟨t, ht, fun p hp => ?_⟩)
        obtain ⟨w, hw, hrelates⟩ := hdenoted p hp
        split
        · exact ⟨w, hw, fun hconfounds => hconfounds.2 hrelates⟩
        · exact ⟨w, hw, hrelates⟩
  · rintro (hwild | ⟨p, hp, hrefuses⟩ | ⟨t, ht, hparts⟩) htaken
    · exact .inl hwild
    · exact absurd hrefuses (htaken p hp)
    · refine .inr ⟨t, ht, fun p hp => ?_⟩
      have hpart := hparts p hp
      split at hpart
      · next hread =>
        obtain ⟨w, hw, hconfounds⟩ := hpart
        exact holds_of_not_refuses hw (ht ▸ htaken p hread) hconfounds
      · exact hpart

/-- `compareSemver` is a total preorder of the accepted versions exactly where none ends with a
number that is read as `Infinity`, and `satisfies` takes only what a range denotes exactly where the
range is taken as it is meant. -/
theorem ranges_denote_iff (A : Set Accepted) (version range : List Char) :
    (TotalPreorderOn A ↔ ∀ v ∈ A, ¬ Overflows v) ∧
      (Sound version range ↔ TakenAsMeant version range) :=
  ⟨totalPreorderOn_iff A, sound_iff version range⟩

/-- What is no version is taken by a range of the versions from one on. -/
theorem unversioned_taken : ¬ Sound "latest".toList ">=1.0.0".toList := by
  intro hsound
  have hnone : versionOf "latest".toList = none := by decide
  have hparts : readParts ">=1.0.0".toList = [⟨.atLeast, some ⟨1, 0, 0⟩⟩] := by decide
  have htaken : satisfies "latest".toList ">=1.0.0".toList = true := by
    rw [satisfies_iff, hparts, hnone, List.forall_mem_singleton]
    exact Bool.false_ne_true
  rcases hsound htaken with hwild | ⟨t, ht, -⟩
  · exact absurd hwild (by decide)
  · cases hnone.symm.trans ht

end Soundness

end Kdna.Semver

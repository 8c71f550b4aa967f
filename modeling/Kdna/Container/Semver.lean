import Kdna.Data.Versions
import Kdna.Json.Value
import Mathlib.Data.List.DropRight
import Mathlib.Order.Compare

/-!
# Version ranges

`parseSemver`, `compareSemver` and `satisfies` of `container/index.js`. The numbers of a version are
read by `parseInt`, so that they are rounded to doubles, and the difference of two infinite ones is
no number. A number is counted in units of the least positive double.
-/

namespace Kdna.Semver

section Text

/-- What `trim` removes and what `\s` matches. -/
def isBlank (c : Char) : Bool :=
  c ∈ ['\t', '\n', '\x0b', '\x0c', '\r', ' ', '\u00a0', '\u1680', '\u2028', '\u2029', '\u202f',
    '\u205f', '\u3000', '\ufeff'] || ('\u2000' ≤ c && c ≤ '\u200a')

/-- `text.trim()` -/
def trim (cs : List Char) : List Char := (cs.dropWhile isBlank).rdropWhile isBlank

/-- `text.split(/\s+/)` of a trimmed text. -/
def words (cs : List Char) : List (List Char) := (cs.splitOnP isBlank).filter (· ≠ [])

/-- `[0-9]+`, with what follows. -/
def number (cs : List Char) : Option (List Char × List Char) :=
  match cs.span Char.isDigit with
  | ([], _) => none
  | (digits, rest) => some (digits, rest)

/-- A point, behind which the text goes on. -/
def point : List Char → Option (List Char)
  | '.' :: rest => some rest
  | _ => none

/-- The groups of `/^v?([0-9]+)\.([0-9]+)\.([0-9]+)(?:-[a-zA-Z0-9.]+)?/`. -/
def groups (cs : List Char) : Option (Version (List Char)) := do
  let (major, rest) ← number (match cs with | 'v' :: rest => rest | _ => cs)
  let (minor, rest) ← number (← point rest)
  let (patch, _) ← number (← point rest)
  return ⟨major, minor, patch⟩

theorem length_trim_le (cs : List Char) : (trim cs).length ≤ cs.length :=
  ((List.rdropWhile_prefix _ _).length_le).trans (List.dropWhile_suffix _).length_le

/-- A word is part of its text and has no blank. -/
theorem of_mem_splitOnP {cs w : List Char} (hw : w ∈ cs.splitOnP isBlank) :
    w.length ≤ cs.length ∧ ∀ c ∈ w, isBlank c = false := by
  induction cs generalizing w with
  | nil =>
    obtain rfl := List.mem_singleton.mp hw
    exact ⟨le_rfl, List.forall_mem_nil _⟩
  | cons c cs ih =>
    rw [List.splitOnP_cons_eq_if_modifyHead] at hw
    split at hw
    · rcases List.mem_cons.mp hw with rfl | hw
      · exact ⟨Nat.zero_le _, List.forall_mem_nil _⟩
      · exact ⟨(ih hw).1.trans (Nat.le_succ _), (ih hw).2⟩
    · next hblank =>
      obtain ⟨first, rest, heq⟩ := List.exists_cons_of_ne_nil (List.splitOnP_ne_nil isBlank cs)
      rw [heq, List.modifyHead_cons] at hw
      rcases List.mem_cons.mp hw with rfl | hw
      · obtain ⟨hlength, hnone⟩ := ih (heq ▸ List.mem_cons_self)
        exact ⟨Nat.succ_le_succ hlength,
          List.forall_mem_cons.mpr ⟨Bool.eq_false_iff.mpr hblank, hnone⟩⟩
      · obtain ⟨hlength, hnone⟩ := ih (heq ▸ List.mem_cons_of_mem _ hw)
        exact ⟨hlength.trans (Nat.le_succ _), hnone⟩

/-- The words of a text with a blank are shorter. -/
theorem length_lt_of_mem_words {r w : List Char} (hblank : ' ' ∈ r) (hw : w ∈ words r) :
    w.length < r.length := by
  obtain ⟨before, after, rfl⟩ := List.append_of_mem hblank
  have hmem := (List.mem_filter.mp hw).1
  rw [List.splitOnP_append_cons _ _ (by decide), List.mem_append] at hmem
  rw [List.length_append, List.length_cons]
  rcases hmem with hmem | hmem
  · have := (of_mem_splitOnP hmem).1
    omega
  · have := (of_mem_splitOnP hmem).1
    omega

/-- A text without blanks is its own trimmed text. -/
theorem trim_of_forall {cs : List Char} (h : ∀ c ∈ cs, isBlank c = false) : trim cs = cs := by
  have hdrop : cs.dropWhile isBlank = cs := by
    cases cs with
    | nil => rfl
    | cons c cs => rw [List.dropWhile_cons_of_neg (by simp [h c List.mem_cons_self])]
  rw [trim, hdrop, List.rdropWhile_eq_self_iff]
  intro hne hlast
  exact absurd hlast (by simp [h _ (List.getLast_mem hne)])

end Text

section Code

/-- The double nearest to an integer; `overflow` stands for `Infinity`. -/
def toDouble (n : ℕ) : ℕ := min (Binary64.roundUnits (n * Binary64.one) 1) overflow

/-- `parseInt(digits, 10)` -/
def parseInt (digits : List Char) : ℕ := toDouble (decimalValue digits)

/-- `parseSemver(v)` -/
def parseSemver (v : List Char) : Option (Version ℕ) := (groups (trim v)).map (·.map parseInt)

/-- The sign of a difference of two numbers; `none` is that of `NaN`. -/
def minus (a b : ℕ) : Option Ordering := if a = overflow ∧ b = overflow then none else some (cmp a b)

/-- The comparison of two parsed versions. -/
def compareParsed (p1 p2 : Version ℕ) : Option Ordering :=
  if p1.major ≠ p2.major then minus p1.major p2.major
  else if p1.minor ≠ p2.minor then minus p1.minor p2.minor
  else minus p1.patch p2.patch

/-- `compareSemver(leftVersion, rightVersion)`: the sign of its result. -/
def compareSemver (leftVersion rightVersion : List Char) : Option Ordering :=
  match parseSemver leftVersion, parseSemver rightVersion with
  | some p1, some p2 => compareParsed p1 p2
  | _, _ => some .eq

/-- The last four tests of `satisfies`. -/
def satisfiesComparison (version : List Char) : List Char → Bool
  | '>' :: '=' :: rest => (compareSemver version rest).any Ordering.isGE
  | '>' :: rest => (compareSemver version rest).any Ordering.isGT
  | '<' :: '=' :: rest => (compareSemver version rest).any Ordering.isLE
  | '<' :: rest => (compareSemver version rest).any Ordering.isLT
  | _ => false

/-- `satisfies(version, range)` -/
def satisfies (version range : List Char) : Bool :=
  if range = [] ∨ range = ['*'] ∨ trim range = [] then true
  else
    let r := trim range
    if r.head?.any Char.isDigit then compareSemver version r = some .eq
    else match r with
      | '^' :: min =>
        match parseSemver min, parseSemver version with
        | some parsedMin, some parsedVer =>
          parsedVer.major = parsedMin.major && (compareSemver version min).any Ordering.isGE
        | _, _ => false
      | '~' :: min =>
        match parseSemver min, parseSemver version with
        | some parsedMin, some parsedVer =>
          parsedVer.major = parsedMin.major && parsedVer.minor = parsedMin.minor &&
            (compareSemver version min).any Ordering.isGE
        | _, _ => false
      | _ =>
        if _hblank : ' ' ∈ r then (words r).attach.all fun part => satisfies version part.1
        else satisfiesComparison version r
  termination_by range.length
  decreasing_by exact (length_lt_of_mem_words ‹_› part.2).trans_le (length_trim_le range)

end Code

end Kdna.Semver

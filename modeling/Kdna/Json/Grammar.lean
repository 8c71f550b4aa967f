import Kdna.Json.NumberLiteral
import Kdna.Json.StringLiteral

/-!
# JSON texts

The grammar of RFC 8259 as a relation between a document and its texts. A document
lists the members of an object in the order of the text; its texts are scalar
strings and its numbers are finite.
-/

namespace Kdna

/-- JSON whitespace: space, tab, LF and CR. -/
def isSpace (c : Char) : Bool := c == ' ' || c == '\t' || c == '\n' || c == '\r'

/-- A text of whitespace. -/
def Space (cs : List Char) : Prop := ∀ c ∈ cs, isSpace c = true

/-- A text of `p` with whitespace around it. -/
def Spaced (p : List Char → Prop) (cs : List Char) : Prop :=
  ∃ a b c, Space a ∧ p b ∧ Space c ∧ cs = a ++ (b ++ c)

/-- Texts with whitespace around them, separated by commas. -/
def CommaList : List (List Char → Prop) → List Char → Prop
  | [], cs => Space cs
  | [p], cs => Spaced p cs
  | p :: q :: ps, cs => ∃ c d, Spaced p c ∧ CommaList (q :: ps) d ∧ cs = c ++ ',' :: d

/-- A text of a key and of the value behind a colon. -/
def Member (key : String) (value : List Char → Prop) (cs : List Char) : Prop :=
  ∃ k a b c, StringLiteral key k ∧ Space a ∧ Space b ∧ value c ∧
    cs = k ++ (a ++ ':' :: (b ++ c))

/-- `JsonText d cs`: the text `cs`, without whitespace around it, denotes `d`. -/
def JsonText : Json → List Char → Prop :=
  Value.fold
    { null := (· = "null".toList)
      bool := fun b cs => cs = if b then "true".toList else "false".toList
      num := NumberLiteral
      str := StringLiteral
      arr := fun items cs => ∃ body, CommaList items body ∧ cs = '[' :: (body ++ [']'])
      obj := fun props cs => ∃ body, CommaList (props.map fun p => Member p.1 p.2) body ∧
        cs = '{' :: (body ++ ['}']) }

@[simp] theorem jsonText_null (cs : List Char) : JsonText .null cs ↔ cs = "null".toList := Iff.rfl

@[simp] theorem jsonText_bool (b : Bool) (cs : List Char) :
    JsonText (.bool b) cs ↔ cs = if b then "true".toList else "false".toList := Iff.rfl

@[simp] theorem jsonText_num (x : Binary64) (cs : List Char) :
    JsonText (.num x) cs ↔ NumberLiteral x cs := Iff.rfl

@[simp] theorem jsonText_str (t : String) (cs : List Char) :
    JsonText (.str t) cs ↔ StringLiteral t cs := Iff.rfl

@[simp] theorem jsonText_arr (items : List Json) (cs : List Char) :
    JsonText (.arr items) cs ↔
      ∃ body, CommaList (items.map JsonText) body ∧ cs = '[' :: (body ++ [']']) := by
  simp [JsonText]

@[simp] theorem jsonText_obj (props : List (String × Json)) (cs : List Char) :
    JsonText (.obj props) cs ↔
      ∃ body, CommaList (props.map fun p => Member p.1 (JsonText p.2)) body ∧
        cs = '{' :: (body ++ ['}']) := by
  simp [JsonText, Function.comp_def]

/-- `whitespace()` -/
def skipSpace (cs : List Char) : List Char := cs.dropWhile isSpace

/-- A text starts with no whitespace. -/
def NoSpace (cs : List Char) : Prop := ∀ c, cs.head? = some c → isSpace c = false

/-- Whitespace is skipped up to a text that starts with none. -/
theorem skipSpace_append {a r : List Char} (ha : Space a) (hr : NoSpace r) :
    skipSpace (a ++ r) = r := by
  induction a with
  | nil =>
    cases r with
    | nil => rfl
    | cons c r =>
      have hc := hr c rfl
      rw [List.nil_append, skipSpace, List.dropWhile_cons_of_neg (by simp [hc])]
  | cons c a ih =>
    have hc := ha c List.mem_cons_self
    rw [List.cons_append, skipSpace, List.dropWhile_cons_of_pos hc]
    exact ih fun d hd => ha d (.tail _ hd)

/-- What is skipped is whitespace. -/
theorem skipSpace_split (cs : List Char) : ∃ a, Space a ∧ cs = a ++ skipSpace cs :=
  ⟨cs.takeWhile isSpace, List.all_eq_true.mp List.all_takeWhile,
    List.takeWhile_append_dropWhile.symm⟩

end Kdna

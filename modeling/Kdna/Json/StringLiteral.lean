import Kdna.Data.Fallible
import Kdna.Data.Utf16
import Kdna.StrictInput

/-!
# String literals

A string literal denotes a sequence of UTF-16 code units. The scanner of
`strict-input.js` first looks for the closing quote, then lets `JSON.parse` read
the literal, and last refuses unpaired surrogates and long texts.
-/

namespace Kdna

/-- The value of a hexadecimal digit. -/
def hexDigit (c : Char) : Option ℕ :=
  if '0' ≤ c ∧ c ≤ '9' then some (c.toNat - '0'.toNat)
  else if 'a' ≤ c ∧ c ≤ 'f' then some (c.toNat - 'a'.toNat + 10)
  else if 'A' ≤ c ∧ c ≤ 'F' then some (c.toNat - 'A'.toNat + 10)
  else none

/-- The code unit of four hexadecimal digits. -/
def hexUnit (a b c d : Char) : Option ℕ := do
  let a ← hexDigit a
  let b ← hexDigit b
  let c ← hexDigit c
  let d ← hexDigit d
  return ((a * 16 + b) * 16 + c) * 16 + d

/-- The code unit of a character after a backslash. -/
def simpleEscape (c : Char) : Option ℕ :=
  if c = '"' then some 0x22
  else if c = '\\' then some 0x5C
  else if c = '/' then some 0x2F
  else if c = 'b' then some 0x08
  else if c = 'f' then some 0x0C
  else if c = 'n' then some 0x0A
  else if c = 'r' then some 0x0D
  else if c = 't' then some 0x09
  else none

/-- A character that may stand in a literal as it is. -/
def isPlain (c : Char) : Bool := c ≠ '"' && c ≠ '\\' && 0x20 ≤ c.toNat

/-- The text between the quotes of a literal that denotes the code units. -/
inductive Escaped : List ℕ → List Char → Prop
  | nil : Escaped [] []
  | plain {c : Char} {ns : List ℕ} {cs : List Char} (hc : isPlain c = true) (hcs : Escaped ns cs) :
      Escaped (Utf16.units c ++ ns) (c :: cs)
  | simple {c : Char} {n : ℕ} {ns : List ℕ} {cs : List Char} (hc : simpleEscape c = some n)
      (hcs : Escaped ns cs) : Escaped (n :: ns) ('\\' :: c :: cs)
  | hex {c₁ c₂ c₃ c₄ : Char} {n : ℕ} {ns : List ℕ} {cs : List Char}
      (hc : hexUnit c₁ c₂ c₃ c₄ = some n) (hcs : Escaped ns cs) :
      Escaped (n :: ns) ('\\' :: 'u' :: c₁ :: c₂ :: c₃ :: c₄ :: cs)

/-- `cs` is a string literal of the text `s`. -/
def StringLiteral (s : String) (cs : List Char) : Prop :=
  ∃ body, Escaped (Utf16.encode s.toList) body ∧ cs = '"' :: (body ++ ['"'])

/-- `JSON.parse` of a string literal, on the text between its quotes. -/
def unescape : List Char → Option (List ℕ)
  | [] => some []
  | '\\' :: 'u' :: c₁ :: c₂ :: c₃ :: c₄ :: cs =>
    (hexUnit c₁ c₂ c₃ c₄).bind fun n => (unescape cs).map (n :: ·)
  | '\\' :: c :: cs => (simpleEscape c).bind fun n => (unescape cs).map (n :: ·)
  | c :: cs => if isPlain c then (unescape cs).map (Utf16.units c ++ ·) else none

/-- The loop of `string()`: the text up to the closing quote, and the rest. -/
def scanString : List Char → Except Failure (List Char × List Char)
  | [] => .error .inputInvalid
  | '"' :: r => .ok ([], r)
  | '\\' :: c :: cs => do
    let (body, r) ← scanString cs
    return ('\\' :: c :: body, r)
  | c :: cs => do
    require (32 ≤ c.toNat) Failure.inputInvalid
    let (body, r) ← scanString cs
    return (c :: body, r)

/-- `string()`, from behind the opening quote. -/
def parseString (cs : List Char) : Except Failure (String × List Char) := do
  let (body, r) ← scanString cs
  let units ← orFail Failure.syntaxError (unescape body)
  let chars ← orFail Failure.inputInvalid (Utf16.decode units)
  require (scalarString (String.ofList chars) maxStringBytes true) Failure.inputInvalid
  return (String.ofList chars, r)

/-- `JSON.parse` reads exactly the escaped texts. -/
theorem unescape_eq_some_iff {cs : List Char} {ns : List ℕ} :
    unescape cs = some ns ↔ Escaped ns cs := by
  constructor
  · intro h
    induction cs using unescape.induct generalizing ns with
    | case1 =>
      obtain rfl := Option.some.inj h
      exact .nil
    | case2 c₁ c₂ c₃ c₄ cs ih =>
      rw [unescape, Option.bind_eq_some_iff] at h
      obtain ⟨n, hn, h⟩ := h
      obtain ⟨ms, hms, rfl⟩ := Option.map_eq_some_iff.mp h
      exact .hex hn (ih hms)
    | case3 c cs hu ih =>
      rw [unescape, Option.bind_eq_some_iff] at h
      · obtain ⟨n, hn, h⟩ := h
        obtain ⟨ms, hms, rfl⟩ := Option.map_eq_some_iff.mp h
        exact .simple hn (ih hms)
      · exact hu
    | case4 c cs hu hslash hc ih =>
      rw [unescape, if_pos hc] at h
      · obtain ⟨ms, hms, rfl⟩ := Option.map_eq_some_iff.mp h
        exact .plain hc (ih hms)
      · exact hu
      · exact hslash
    | case5 c cs hu hslash hc =>
      rw [unescape, if_neg hc] at h
      · cases h
      · exact hu
      · exact hslash
  · intro h
    induction h with
    | nil => rfl
    | @plain c ns cs hc hcs ih =>
      have hslash : c ≠ '\\' := by
        rintro rfl
        exact absurd hc (by decide)
      rw [unescape, if_pos hc, ih]
      · rfl
      · exact fun _ _ _ _ _ h => absurd h hslash
      · exact fun _ _ h => absurd h hslash
    | @simple c n ns cs hc hcs ih =>
      have hu : c ≠ 'u' := by
        rintro rfl
        exact nomatch (show none = some n from hc)
      rw [unescape, hc, ih]
      · rfl
      · exact fun _ _ _ _ _ h => absurd h hu
    | hex hc hcs ih =>
      rw [unescape, hc, ih]
      rfl

/-- The scan splits the text at the closing quote. -/
theorem scanString_split {cs body r : List Char} (h : scanString cs = .ok (body, r)) :
    cs = body ++ '"' :: r := by
  induction cs using scanString.induct generalizing body with
  | case1 => cases h
  | case2 r' =>
    obtain ⟨rfl, rfl⟩ := Prod.mk.inj (Except.ok.inj h)
    rfl
  | case3 c cs ih =>
    rw [scanString] at h
    obtain ⟨⟨body', r'⟩, hscan, h⟩ := bind_eq_ok_iff.mp h
    obtain ⟨rfl, rfl⟩ := Prod.mk.inj (Except.ok.inj h)
    rw [ih hscan]
    rfl
  | case4 c cs hquote hslash ih =>
    rw [scanString] at h
    · obtain ⟨-, h⟩ := require_bind_eq_ok_iff.mp h
      obtain ⟨⟨body', r'⟩, hscan, h⟩ := bind_eq_ok_iff.mp h
      obtain ⟨rfl, rfl⟩ := Prod.mk.inj (Except.ok.inj h)
      rw [ih hscan]
      rfl
    · exact hquote
    · exact hslash

/-- A hexadecimal digit may stand in a literal. -/
theorem isPlain_of_hexDigit {c : Char} {n : ℕ} (h : hexDigit c = some n) : isPlain c = true := by
  have hquote : c ≠ '"' := by
    rintro rfl
    exact nomatch (show none = some n from h)
  have hslash : c ≠ '\\' := by
    rintro rfl
    exact nomatch (show none = some n from h)
  have hle : '0' ≤ c := by
    unfold hexDigit at h
    split_ifs at h with h0 ha hA
    · exact h0.1
    · exact Char.le_trans (show '0' ≤ 'a' by decide) ha.1
    · exact Char.le_trans (show '0' ≤ 'A' by decide) hA.1
  have hge : 0x20 ≤ c.toNat := le_trans (by decide) (UInt32.le_iff_toNat_le.mp (Char.le_def.mp hle))
  simp [isPlain, hquote, hslash, hge]

/-- The scan passes over a plain character. -/
theorem scanString_plain {c : Char} {cs body r : List Char} (hc : isPlain c = true)
    (h : scanString cs = .ok (body, r)) : scanString (c :: cs) = .ok (c :: body, r) := by
  simp only [isPlain, Bool.and_eq_true, decide_eq_true_eq] at hc
  rw [scanString, require_bind_of_pos hc.2, h]
  · rfl
  · exact hc.1.1
  · exact fun _ _ h => absurd h hc.1.2

/-- The scan finds the closing quote behind an escaped text. -/
theorem scanString_escaped {ns : List ℕ} {body : List Char} (h : Escaped ns body) (r : List Char) :
    scanString (body ++ '"' :: r) = .ok (body, r) := by
  induction h with
  | nil => rfl
  | plain hc hcs ih => exact scanString_plain hc ih
  | simple hc hcs ih =>
    rw [List.cons_append, List.cons_append, scanString, ih]
    rfl
  | hex hc hcs ih =>
    simp only [hexUnit, Option.bind_eq_bind, Option.bind_eq_some_iff] at hc
    obtain ⟨_, h₁, _, h₂, _, h₃, _, h₄, -⟩ := hc
    have hdigits := scanString_plain (isPlain_of_hexDigit h₁) (scanString_plain
      (isPlain_of_hexDigit h₂) (scanString_plain (isPlain_of_hexDigit h₃)
        (scanString_plain (isPlain_of_hexDigit h₄) ih)))
    simp only [List.cons_append]
    rw [scanString, hdigits]
    rfl

/-- A literal of a text within the bound is read as the text. -/
theorem parseString_complete {s : String} {cs : List Char} (h : StringLiteral s cs)
    (hs : (Utf8.encode s).length ≤ maxStringBytes) (r : List Char) :
    ∃ tail, cs = '"' :: tail ∧ parseString (tail ++ r) = .ok (s, r) := by
  obtain ⟨body, hbody, rfl⟩ := h
  refine ⟨_, rfl, ?_⟩
  have hscalar : scalarString s maxStringBytes true = true := by
    simp only [scalarString, Bool.true_or, Bool.true_and, decide_eq_true_eq]
    exact hs
  rw [parseString, List.append_assoc, List.singleton_append, scanString_escaped hbody, ok_bind]
  simp only
  rw [unescape_eq_some_iff.mpr hbody, orFail, ok_bind, Utf16.decode_eq_some_iff.mpr rfl, orFail,
    ok_bind, String.ofList_toList, require_bind_of_pos hscalar]
  rfl

/-- A text that is read has the literal that was read, and is within the bound. -/
theorem parseString_sound {cs r : List Char} {s : String} (h : parseString cs = .ok (s, r)) :
    ∃ literal, StringLiteral s literal ∧ '"' :: cs = literal ++ r ∧
      (Utf8.encode s).length ≤ maxStringBytes := by
  obtain ⟨⟨body, r'⟩, hscan, h⟩ := bind_eq_ok_iff.mp h
  obtain ⟨units, hunits, h⟩ := bind_eq_ok_iff.mp h
  obtain ⟨chars, hchars, h⟩ := bind_eq_ok_iff.mp h
  obtain ⟨hscalar, h⟩ := require_bind_eq_ok_iff.mp h
  obtain ⟨rfl, rfl⟩ := Prod.mk.inj (Except.ok.inj h)
  rw [orFail_eq_ok_iff] at hunits hchars
  obtain rfl := Utf16.decode_eq_some_iff.mp hchars
  refine ⟨_, ⟨body, by rw [String.toList_ofList]; exact unescape_eq_some_iff.mp hunits, rfl⟩, ?_, ?_⟩
  · rw [scanString_split hscan, List.cons_append, List.append_assoc]
    rfl
  · simpa [scalarString] using hscalar

end Kdna

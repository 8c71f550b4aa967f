import Kdna.Data.Decimal
import Kdna.Json.Value

/-!
# Number literals

A number literal is matched by the regular expression of `strict-input.js` and
denotes the binary64 number nearest to its decimal. The match is as long as it can
be, so it ends at a character that continues no number.
-/

namespace Kdna

/-- The exponent part of a number literal. -/
structure Exponent where
  mark : Char
  sign : List Char
  digits : List Char

/-- The parts of a number literal; an absent fraction has no digits. -/
structure NumberToken where
  negative : Bool
  whole : List Char
  fraction : List Char
  exponent : Option Exponent

namespace Exponent

/-- `[eE][+-]?[0-9]+` -/
structure Valid (e : Exponent) : Prop where
  mark : e.mark = 'e' ∨ e.mark = 'E'
  sign : e.sign = [] ∨ e.sign = ['+'] ∨ e.sign = ['-']
  ne_nil : e.digits ≠ []
  digits : ∀ c ∈ e.digits, c.isDigit = true

/-- The text of an exponent part. -/
def text (e : Exponent) : List Char := e.mark :: (e.sign ++ e.digits)

/-- The power of ten of an exponent part. -/
def value (e : Exponent) : ℤ :=
  if e.sign = ['-'] then -(decimalValue e.digits : ℤ) else decimalValue e.digits

end Exponent

namespace NumberToken

/-- `-?(?:0|[1-9][0-9]*)(?:\.[0-9]+)?(?:[eE][+-]?[0-9]+)?` -/
structure Valid (t : NumberToken) : Prop where
  whole : isCanonicalNumber t.whole = true
  fraction : ∀ c ∈ t.fraction, c.isDigit = true
  exponent : ∀ e, t.exponent = some e → e.Valid

/-- The text of the fraction part. -/
def fractionText (t : NumberToken) : List Char :=
  if t.fraction = [] then [] else '.' :: t.fraction

/-- The text of the exponent part. -/
def exponentText (t : NumberToken) : List Char := t.exponent.elim [] Exponent.text

/-- The text of a literal. -/
def text (t : NumberToken) : List Char :=
  (if t.negative then ['-'] else []) ++ (t.whole ++ (t.fractionText ++ t.exponentText))

/-- The power of ten that scales the digits of a literal. -/
def scale (t : NumberToken) : ℤ := t.exponent.elim 0 Exponent.value - t.fraction.length

/-- `Number(text)`; `none` when it is not finite. -/
def number (t : NumberToken) : Option Binary64 :=
  Binary64.round t.negative (decimalValue (t.whole ++ t.fraction) * Binary64.scaledDen t.scale)
    (10 ^ (-t.scale).toNat)

end NumberToken

/-- `cs` is a number literal that denotes `x`. -/
def NumberLiteral (x : Binary64) (cs : List Char) : Prop :=
  ∃ t : NumberToken, t.Valid ∧ t.number = some x ∧ cs = t.text

/-- `-?` -/
def matchMinus : List Char → Bool × List Char
  | [] => (false, [])
  | c :: cs => if c = '-' then (true, cs) else (false, c :: cs)

/-- `(?:0|[1-9][0-9]*)` -/
def matchWhole : List Char → Option (List Char × List Char)
  | [] => none
  | c :: cs =>
    if c = '0' then some (['0'], cs)
    else if '1' ≤ c ∧ c ≤ '9' then some (c :: cs.takeWhile Char.isDigit, cs.dropWhile Char.isDigit)
    else none

/-- `(?:\.[0-9]+)?` -/
def matchFraction : List Char → List Char × List Char
  | [] => ([], [])
  | c :: cs =>
    if c = '.' ∧ cs.takeWhile Char.isDigit ≠ [] then
      (cs.takeWhile Char.isDigit, cs.dropWhile Char.isDigit)
    else ([], c :: cs)

/-- `[+-]?` -/
def matchSign : List Char → List Char × List Char
  | [] => ([], [])
  | c :: cs => if c = '+' ∨ c = '-' then ([c], cs) else ([], c :: cs)

/-- `(?:[eE][+-]?[0-9]+)?` -/
def matchExponent : List Char → Option Exponent × List Char
  | [] => (none, [])
  | c :: cs =>
    let (sign, ds) := matchSign cs
    if (c = 'e' ∨ c = 'E') ∧ ds.takeWhile Char.isDigit ≠ [] then
      (some ⟨c, sign, ds.takeWhile Char.isDigit⟩, ds.dropWhile Char.isDigit)
    else (none, c :: cs)

/-- The regular expression, with the rest behind its match. -/
def matchNumber (cs : List Char) : Option (NumberToken × List Char) := do
  let (negative, cs) := matchMinus cs
  let (whole, cs) ← matchWhole cs
  let (fraction, cs) := matchFraction cs
  let (exponent, cs) := matchExponent cs
  return (⟨negative, whole, fraction, exponent⟩, cs)

/-- A character that can go on a number. -/
def continuesNumber (c : Char) : Bool := c.isDigit || c == '.' || c == 'e' || c == 'E'

/-- The text does not go on a number. -/
def Ends (r : List Char) : Prop := ∀ c, r.head? = some c → continuesNumber c = false

/-- A text starts with no digit. -/
def NoDigit (r : List Char) : Prop := ∀ c, r.head? = some c → c.isDigit = false

theorem Ends.noDigit {r : List Char} (h : Ends r) : NoDigit r := by
  intro c hc
  have hcontinues := h c hc
  simp only [continuesNumber, Bool.or_eq_false_iff] at hcontinues
  exact hcontinues.1.1.1

/-- Digits are split from a text that starts with none. -/
theorem span_digits {ds r : List Char} (hds : ∀ c ∈ ds, c.isDigit = true) (hr : NoDigit r) :
    (ds ++ r).takeWhile Char.isDigit = ds ∧ (ds ++ r).dropWhile Char.isDigit = r := by
  induction ds with
  | nil =>
    cases r with
    | nil => exact ⟨rfl, rfl⟩
    | cons c r =>
      have hc := hr c rfl
      exact ⟨by simp [hc], by simp [hc]⟩
  | cons d ds ih =>
    have hd := hds d List.mem_cons_self
    obtain ⟨h1, h2⟩ := ih fun c hc => hds c (.tail _ hc)
    exact ⟨by simp [hd, h1], by simp [hd, h2]⟩

/-- The digits taken are digits. -/
theorem isDigit_of_mem_takeWhile {cs : List Char} : ∀ c ∈ cs.takeWhile Char.isDigit,
    c.isDigit = true := List.all_eq_true.mp List.all_takeWhile

theorem matchMinus_sound {cs r : List Char} {negative : Bool}
    (h : matchMinus cs = (negative, r)) : cs = (if negative then ['-'] else []) ++ r := by
  cases cs with
  | nil =>
    obtain ⟨rfl, rfl⟩ := Prod.mk.inj h
    rfl
  | cons c cs =>
    simp only [matchMinus] at h
    split_ifs at h with hminus
    · obtain ⟨rfl, rfl⟩ := Prod.mk.inj h
      rw [hminus]
      rfl
    · obtain ⟨rfl, rfl⟩ := Prod.mk.inj h
      rfl

theorem matchMinus_complete (negative : Bool) {r : List Char} (hr : r.head? ≠ some '-') :
    matchMinus ((if negative then ['-'] else []) ++ r) = (negative, r) := by
  cases negative with
  | true => rfl
  | false =>
    cases r with
    | nil => rfl
    | cons c r =>
      have hc : c ≠ '-' := fun hc => hr (by rw [hc]; rfl)
      exact if_neg hc

theorem matchWhole_sound {cs whole r : List Char} (h : matchWhole cs = some (whole, r)) :
    isCanonicalNumber whole = true ∧ cs = whole ++ r := by
  cases cs with
  | nil => cases h
  | cons c cs =>
    simp only [matchWhole] at h
    split_ifs at h with hzero hdigit
    · obtain ⟨rfl, rfl⟩ := Prod.mk.inj (Option.some.inj h)
      rw [hzero]
      exact ⟨rfl, rfl⟩
    · obtain ⟨rfl, rfl⟩ := Prod.mk.inj (Option.some.inj h)
      refine ⟨?_, by rw [List.cons_append, List.takeWhile_append_dropWhile]⟩
      have hall : (cs.takeWhile Char.isDigit).all Char.isDigit = true :=
        List.all_eq_true.mpr isDigit_of_mem_takeWhile
      unfold isCanonicalNumber
      split
      · rfl
      · rename_i hc
        obtain ⟨rfl, rfl⟩ := List.cons.inj hc
        simp [hdigit.1, hdigit.2, hall]
      · rename_i hc
        cases hc

theorem matchWhole_complete {whole r : List Char} (h : isCanonicalNumber whole = true)
    (hr : NoDigit r) : matchWhole (whole ++ r) = some (whole, r) := by
  unfold isCanonicalNumber at h
  split at h
  · rfl
  · rename_i c cs hne
    simp only [Bool.and_eq_true, decide_eq_true_eq, List.all_eq_true] at h
    obtain ⟨htake, hdrop⟩ := span_digits h.2 hr
    have hzero : c ≠ '0' := by
      rintro rfl
      exact absurd h.1.1 (by decide)
    rw [List.cons_append, matchWhole, if_neg hzero, if_pos h.1, htake, hdrop]
  · cases h

theorem matchFraction_sound {cs fraction r : List Char} (h : matchFraction cs = (fraction, r)) :
    (∀ c ∈ fraction, c.isDigit = true) ∧
      cs = (if fraction = [] then [] else '.' :: fraction) ++ r := by
  cases cs with
  | nil =>
    obtain ⟨rfl, rfl⟩ := Prod.mk.inj h
    exact ⟨List.forall_mem_nil _, rfl⟩
  | cons c cs =>
    simp only [matchFraction] at h
    split_ifs at h with hpoint
    · obtain ⟨rfl, rfl⟩ := Prod.mk.inj h
      refine ⟨isDigit_of_mem_takeWhile, ?_⟩
      rw [if_neg hpoint.2, hpoint.1, List.cons_append, List.takeWhile_append_dropWhile]
    · obtain ⟨rfl, rfl⟩ := Prod.mk.inj h
      exact ⟨List.forall_mem_nil _, rfl⟩

theorem matchFraction_complete {fraction r : List Char} (h : ∀ c ∈ fraction, c.isDigit = true)
    (hr : NoDigit r) (hpoint : r.head? ≠ some '.') :
    matchFraction ((if fraction = [] then [] else '.' :: fraction) ++ r) = (fraction, r) := by
  split_ifs with hnil
  · subst hnil
    cases r with
    | nil => rfl
    | cons c r =>
      have hc : c ≠ '.' := fun hc => hpoint (by rw [hc]; rfl)
      rw [List.nil_append, matchFraction, if_neg fun h => hc h.1]
  · obtain ⟨htake, hdrop⟩ := span_digits h hr
    rw [List.cons_append, matchFraction, htake, hdrop, if_pos ⟨rfl, hnil⟩]

theorem matchSign_split (cs : List Char) : (matchSign cs).1 ++ (matchSign cs).2 = cs ∧
    ((matchSign cs).1 = [] ∨ (matchSign cs).1 = ['+'] ∨ (matchSign cs).1 = ['-']) := by
  cases cs with
  | nil => exact ⟨rfl, .inl rfl⟩
  | cons c cs =>
    simp only [matchSign]
    split_ifs with hsign
    · rcases hsign with rfl | rfl
      · exact ⟨rfl, .inr (.inl rfl)⟩
      · exact ⟨rfl, .inr (.inr rfl)⟩
    · exact ⟨rfl, .inl rfl⟩

theorem matchSign_complete {sign ds : List Char} (h : sign = [] ∨ sign = ['+'] ∨ sign = ['-'])
    (hds : ∀ c, ds.head? = some c → c.isDigit = true) : matchSign (sign ++ ds) = (sign, ds) := by
  rcases h with rfl | rfl | rfl
  · cases ds with
    | nil => rfl
    | cons d ds =>
      have hd := hds d rfl
      have hsign : ¬ (d = '+' ∨ d = '-') := by
        rintro (rfl | rfl)
        · exact absurd hd (by decide)
        · exact absurd hd (by decide)
      rw [List.nil_append, matchSign, if_neg hsign]
  · rfl
  · rfl

theorem matchExponent_sound {cs r : List Char} {exponent : Option Exponent}
    (h : matchExponent cs = (exponent, r)) :
    (∀ e, exponent = some e → e.Valid) ∧ cs = exponent.elim [] Exponent.text ++ r := by
  cases cs with
  | nil =>
    obtain ⟨rfl, rfl⟩ := Prod.mk.inj h
    exact ⟨fun _ he => (nomatch he), rfl⟩
  | cons c cs =>
    simp only [matchExponent] at h
    obtain ⟨hsplit, hsign⟩ := matchSign_split cs
    split_ifs at h with hmark
    · obtain ⟨rfl, rfl⟩ := Prod.mk.inj h
      constructor
      · intro e he
        obtain rfl := Option.some.inj he
        exact ⟨hmark.1, hsign, hmark.2, isDigit_of_mem_takeWhile⟩
      · rw [Option.elim_some, Exponent.text, List.cons_append, List.append_assoc,
          List.takeWhile_append_dropWhile, hsplit]
    · obtain ⟨rfl, rfl⟩ := Prod.mk.inj h
      exact ⟨fun _ he => (nomatch he), rfl⟩

theorem matchExponent_complete {exponent : Option Exponent} {r : List Char}
    (h : ∀ e, exponent = some e → e.Valid) (hr : Ends r) :
    matchExponent (exponent.elim [] Exponent.text ++ r) = (exponent, r) := by
  cases exponent with
  | none =>
    cases r with
    | nil => rfl
    | cons c r =>
      have hc := hr c rfl
      simp only [continuesNumber, Bool.or_eq_false_iff, beq_eq_false_iff_ne] at hc
      have hmark : ¬ ((c = 'e' ∨ c = 'E') ∧ (matchSign r).2.takeWhile Char.isDigit ≠ []) :=
        fun h => h.1.elim hc.1.2 hc.2
      simp only [Option.elim_none, List.nil_append, matchExponent]
      rw [if_neg hmark]
  | some e =>
    obtain ⟨hmark, hsign, hne, hdigits⟩ := h e rfl
    obtain ⟨htake, hdrop⟩ := span_digits hdigits hr.noDigit
    have hhead : ∀ c, (e.digits ++ r).head? = some c → c.isDigit = true := by
      intro c hc
      obtain ⟨d, ds, hds⟩ := List.exists_cons_of_ne_nil hne
      rw [hds, List.cons_append, List.head?_cons, Option.some.injEq] at hc
      exact hdigits c (by rw [hds, ← hc]; exact List.mem_cons_self)
    simp only [Option.elim_some, Exponent.text, List.cons_append, List.append_assoc, matchExponent]
    rw [matchSign_complete hsign hhead]
    simp only [htake, hdrop]
    rw [if_pos ⟨hmark, hne⟩]

/-- What follows the whole part of a literal starts with no digit. -/
theorem NumberToken.noDigit_tail {t : NumberToken} (ht : t.Valid) {r : List Char} (hr : Ends r) :
    NoDigit (t.fractionText ++ (t.exponentText ++ r)) ∧ NoDigit (t.exponentText ++ r) ∧
      (t.exponentText ++ r).head? ≠ some '.' := by
  have hexponent : NoDigit (t.exponentText ++ r) ∧ (t.exponentText ++ r).head? ≠ some '.' := by
    unfold NumberToken.exponentText
    cases he : t.exponent with
    | none =>
      refine ⟨hr.noDigit, fun hpoint => ?_⟩
      exact absurd (hr '.' hpoint) (by decide)
    | some e =>
      have hmark := (ht.exponent e he).mark
      constructor
      · intro c hc
        obtain rfl := Option.some.inj hc
        rcases hmark with hmark | hmark <;> rw [hmark] <;> decide
      · intro hpoint
        obtain hpoint := Option.some.inj hpoint
        rw [hpoint] at hmark
        exact absurd hmark (by decide)
  refine ⟨?_, hexponent⟩
  unfold NumberToken.fractionText
  split_ifs
  · exact hexponent.1
  · intro c hc
    obtain rfl := Option.some.inj hc
    decide

/-- A canonical number starts with a digit. -/
theorem head_of_isCanonicalNumber {cs : List Char} (h : isCanonicalNumber cs = true) :
    ∃ c ds, cs = c :: ds ∧ c.isDigit = true := by
  unfold isCanonicalNumber at h
  split at h
  · exact ⟨_, _, rfl, rfl⟩
  · rename_i c cs _
    simp only [Bool.and_eq_true, decide_eq_true_eq] at h
    refine ⟨c, cs, rfl, ?_⟩
    rw [Char.isDigit_iff_toNat]
    have hlo := UInt32.le_iff_toNat_le.mp (Char.le_def.mp h.1.1)
    have hhi := UInt32.le_iff_toNat_le.mp (Char.le_def.mp h.1.2)
    exact ⟨le_trans (by decide) hlo, hhi⟩
  · cases h

/-- The match of a literal that ends where the number does is the literal. -/
theorem matchNumber_complete {t : NumberToken} (ht : t.Valid) {r : List Char} (hr : Ends r) :
    matchNumber (t.text ++ r) = some (t, r) := by
  obtain ⟨htail, hexponent, hpoint⟩ := t.noDigit_tail ht hr
  have hminus : (t.whole ++ (t.fractionText ++ (t.exponentText ++ r))).head? ≠ some '-' := by
    obtain ⟨c, ds, hwhole, hc⟩ := head_of_isCanonicalNumber ht.whole
    rw [hwhole]
    intro hhead
    rw [Option.some.inj hhead] at hc
    exact absurd hc (by decide)
  have hfraction : matchFraction (t.fractionText ++ (t.exponentText ++ r)) =
      (t.fraction, t.exponentText ++ r) := matchFraction_complete ht.fraction hexponent hpoint
  have hmatch : matchExponent (t.exponentText ++ r) = (t.exponent, r) :=
    matchExponent_complete ht.exponent hr
  rw [matchNumber, NumberToken.text, List.append_assoc, List.append_assoc, List.append_assoc,
    matchMinus_complete t.negative hminus]
  simp only
  rw [matchWhole_complete ht.whole htail]
  simp only [Option.bind_eq_bind, Option.bind_some, hfraction, hmatch]
  rfl

/-- The match is a literal at the start of the text. -/
theorem matchNumber_sound {cs r : List Char} {t : NumberToken}
    (h : matchNumber cs = some (t, r)) : t.Valid ∧ cs = t.text ++ r := by
  obtain ⟨negative, cs₀, hminus⟩ : ∃ n c, matchMinus cs = (n, c) := ⟨_, _, rfl⟩
  rw [matchNumber, hminus] at h
  obtain ⟨⟨whole, cs₁⟩, hwhole, h⟩ := Option.bind_eq_some_iff.mp h
  obtain ⟨fraction, cs₂, hfraction⟩ : ∃ f c, matchFraction cs₁ = (f, c) := ⟨_, _, rfl⟩
  obtain ⟨exponent, cs₃, hexponent⟩ : ∃ e c, matchExponent cs₂ = (e, c) := ⟨_, _, rfl⟩
  simp only [hfraction, hexponent] at h
  obtain ⟨rfl, rfl⟩ := Prod.mk.inj (Option.some.inj h)
  obtain ⟨hvalid, rfl⟩ := matchWhole_sound hwhole
  obtain ⟨hdigits, rfl⟩ := matchFraction_sound hfraction
  obtain ⟨hvalid', rfl⟩ := matchExponent_sound hexponent
  refine ⟨⟨hvalid, hdigits, hvalid'⟩, ?_⟩
  rw [matchMinus_sound hminus]
  simp only [NumberToken.text, NumberToken.fractionText, NumberToken.exponentText,
    List.append_assoc]

end Kdna

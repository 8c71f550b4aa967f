import Kdna.Json.Grammar
import Kdna.Json.Text

/-!
# What is printed is a JSON text

`JSON.stringify` prints a JSON text of the value, except that negative zero is
printed as zero. A number is printed in one of four layouts of its shortest digits,
and each of them denotes the same decimal.
-/

namespace Kdna

/-- The value of digits behind other digits. -/
theorem decimalValue_append (ds es : List Char) :
    decimalValue (ds ++ es) = decimalValue ds * 10 ^ es.length + decimalValue es := by
  rw [decimalValue, Nat.ofDigitChars_append, Nat.ofDigitChars_eq_ofDigitChars_zero, decimalValue,
    decimalValue, Nat.mul_comm]

theorem decimalValue_replicate (n : ℕ) : decimalValue (List.replicate n '0') = 0 := by
  rw [decimalValue, Nat.ofDigitChars_replicate_zero, Nat.mul_zero]

theorem decimalValue_toDigits (n : ℕ) : decimalValue (Nat.toDigits 10 n) = n :=
  Nat.ofDigitChars_ten_toDigits

/-- Digits of which the first is not zero. -/
structure LeadsNonzero (ds : List Char) : Prop where
  head : ∃ c cs, ds = c :: cs ∧ '1' ≤ c ∧ c ≤ '9'
  digits : ∀ c ∈ ds, c.isDigit = true

theorem LeadsNonzero.canonical {ds : List Char} (h : LeadsNonzero ds) :
    isCanonicalNumber ds = true := by
  obtain ⟨⟨c, cs, rfl, hlo, hhi⟩, hdigits⟩ := h
  have hall : cs.all Char.isDigit = true :=
    List.all_eq_true.mpr fun d hd => hdigits d (.tail _ hd)
  unfold isCanonicalNumber
  split
  · rfl
  · rename_i heq
    obtain ⟨rfl, rfl⟩ := List.cons.inj heq
    simp [hlo, hhi, hall]
  · rename_i heq
    cases heq

theorem LeadsNonzero.append {ds es : List Char} (h : LeadsNonzero ds)
    (hes : ∀ c ∈ es, c.isDigit = true) : LeadsNonzero (ds ++ es) := by
  obtain ⟨⟨c, cs, rfl, hc⟩, hdigits⟩ := h
  exact ⟨⟨c, cs ++ es, rfl, hc⟩, List.forall_mem_append.mpr ⟨hdigits, hes⟩⟩

theorem LeadsNonzero.take {ds : List Char} (h : LeadsNonzero ds) {n : ℕ} (hn : 0 < n) :
    LeadsNonzero (ds.take n) := by
  obtain ⟨⟨c, cs, rfl, hc⟩, hdigits⟩ := h
  obtain ⟨n, rfl⟩ := Nat.exists_eq_succ_of_ne_zero hn.ne'
  exact ⟨⟨c, cs.take n, rfl, hc⟩, fun d hd => hdigits d (List.mem_of_mem_take hd)⟩

/-- The digits of a positive number do not start with zero. -/
theorem leadsNonzero_toDigits {n : ℕ} (hn : 0 < n) : LeadsNonzero (Nat.toDigits 10 n) := by
  refine ⟨?_, fun c hc => Nat.isDigit_of_mem_toDigits (by omega) (by omega) hc⟩
  induction n using Nat.strongRecOn with
  | ind n ih =>
    rcases Nat.lt_or_ge n 10 with hlt | hge
    · rw [Nat.toDigits_of_lt_base hlt]
      have hall : ∀ n < 10, 0 < n → '1' ≤ n.digitChar ∧ n.digitChar ≤ '9' := by decide
      exact ⟨_, [], rfl, hall n hlt hn⟩
    · obtain ⟨c, cs, hcs, hc⟩ := ih (n / 10) (by omega) (by omega)
      rw [Nat.toDigits_of_base_le (by omega) hge, hcs]
      exact ⟨c, _, rfl, hc⟩

/-- `cs`, behind a sign or not, is a literal of the decimal `s * 10 ^ e`. -/
def DecimalLiteral (s : ℕ) (e : ℤ) (cs : List Char) : Prop :=
  ∃ whole fraction exponent, ∀ negative,
    let t : NumberToken := ⟨negative, whole, fraction, exponent⟩
    t.Valid ∧ t.text = (if negative then ['-'] else []) ++ cs ∧
      Binary64.roundDecimal (decimalValue (t.whole ++ t.fraction)) t.scale =
        Binary64.roundDecimal s e

section Layouts

variable {digits : List Char} {s : ℕ} {e : ℤ}

private theorem isDigit_replicate (n : ℕ) : ∀ c ∈ List.replicate n '0', c.isDigit = true := by
  intro c hc
  rw [List.eq_of_mem_replicate hc]
  rfl

/-- Digits with zeros behind them. -/
theorem decimalLiteral_integer (hlead : LeadsNonzero digits) (hvalue : decimalValue digits = s)
    (he : 0 ≤ e) : DecimalLiteral s e (digits ++ List.replicate e.toNat '0') := by
  refine ⟨digits ++ List.replicate e.toNat '0', [], none, fun negative =>
    ⟨⟨(hlead.append (isDigit_replicate _)).canonical, by simp, by simp⟩, ?_, ?_⟩⟩
  · simp [NumberToken.text, NumberToken.fractionText, NumberToken.exponentText]
  · have hscale : (0 : ℤ) - ([] : List Char).length + e.toNat = e := by
      rw [List.length_nil]
      omega
    simp only [NumberToken.scale, Option.elim_none, List.append_nil]
    rw [decimalValue_append, decimalValue_replicate, Nat.add_zero, List.length_replicate, hvalue,
      Binary64.roundDecimal_mul_pow, hscale]

/-- Digits with a point among them. -/
theorem decimalLiteral_point (hlead : LeadsNonzero digits) (hvalue : decimalValue digits = s)
    {n : ℕ} (hn : 0 < n) (hlt : n < digits.length) (he : e = n - (digits.length : ℤ)) :
    DecimalLiteral s e (digits.take n ++ '.' :: digits.drop n) := by
  have hne : digits.drop n ≠ [] := by
    rw [Ne, List.drop_eq_nil_iff]
    omega
  refine ⟨digits.take n, digits.drop n, none, fun negative =>
    ⟨⟨(hlead.take hn).canonical, fun c hc => hlead.digits c (List.mem_of_mem_drop hc), by simp⟩,
      ?_, ?_⟩⟩
  · simp [NumberToken.text, NumberToken.fractionText, NumberToken.exponentText, hne]
  · have hscale : (0 : ℤ) - (digits.drop n).length = e := by
      rw [List.length_drop]
      omega
    simp only [NumberToken.scale, Option.elim_none]
    rw [List.take_append_drop, hvalue, hscale]

/-- Digits behind a point and zeros. -/
theorem decimalLiteral_small (hlead : LeadsNonzero digits) (hvalue : decimalValue digits = s)
    {n : ℕ} (he : e = -(n : ℤ) - digits.length) :
    DecimalLiteral s e ('0' :: '.' :: (List.replicate n '0' ++ digits)) := by
  have hne : List.replicate n '0' ++ digits ≠ [] := by
    obtain ⟨c, cs, rfl, -⟩ := hlead.head
    simp
  refine ⟨['0'], List.replicate n '0' ++ digits, none, fun negative =>
    ⟨⟨rfl, List.forall_mem_append.mpr ⟨isDigit_replicate n, hlead.digits⟩, by simp⟩, ?_, ?_⟩⟩
  · simp only [NumberToken.text, NumberToken.fractionText, NumberToken.exponentText, if_neg hne]
    simp
  · have hscale : (0 : ℤ) - (List.replicate n '0' ++ digits).length = e := by
      rw [List.length_append, List.length_replicate]
      omega
    have hzeros : ['0'] ++ (List.replicate n '0' ++ digits) =
        List.replicate (n + 1) '0' ++ digits := by
      rw [← List.append_assoc, List.replicate_succ]
      rfl
    simp only [NumberToken.scale, Option.elim_none]
    rw [hzeros, decimalValue_append, decimalValue_replicate, Nat.zero_mul, Nat.zero_add, hvalue,
      hscale]

/-- The exponent part of the printed power `m`. -/
def printedExponent (m : ℤ) : Exponent :=
  ⟨'e', [if 0 ≤ m then '+' else '-'], Nat.toDigits 10 m.natAbs⟩

theorem printedExponent_valid (m : ℤ) : (printedExponent m).Valid := by
  refine ⟨.inl rfl, ?_, Nat.toDigits_ne_nil, fun c hc =>
    Nat.isDigit_of_mem_toDigits (by omega) (by omega) hc⟩
  unfold printedExponent
  split_ifs
  · exact .inr (.inl rfl)
  · exact .inr (.inr rfl)

theorem printedExponent_value (m : ℤ) : (printedExponent m).value = m := by
  rw [Exponent.value, printedExponent]
  simp only [decimalValue_toDigits]
  by_cases hm : 0 ≤ m
  · rw [if_pos hm, if_neg (by decide)]
    omega
  · rw [if_neg hm, if_pos rfl]
    omega

/-- One digit, the others behind a point, and an exponent. -/
theorem decimalLiteral_exponent (hlead : LeadsNonzero digits) (hvalue : decimalValue digits = s)
    {m : ℤ} (he : e = m + 1 - digits.length) :
    DecimalLiteral s e (digits.take 1 ++ (if digits.length = 1 then [] else '.' :: digits.drop 1) ++
      (printedExponent m).text) := by
  have hone : digits.length = 1 ↔ digits.drop 1 = [] := by
    obtain ⟨c, cs, rfl, -⟩ := hlead.head
    rw [List.drop_eq_nil_iff, List.length_cons]
    omega
  refine ⟨digits.take 1, digits.drop 1, some (printedExponent m), fun negative =>
    ⟨⟨(hlead.take Nat.one_pos).canonical, fun c hc => hlead.digits c (List.mem_of_mem_drop hc), ?_⟩,
      ?_, ?_⟩⟩
  · intro q hq
    obtain rfl := Option.some.inj hq
    exact printedExponent_valid m
  · simp [NumberToken.text, NumberToken.fractionText, NumberToken.exponentText, hone]
  · have hscale : (printedExponent m).value - (digits.drop 1).length = e := by
      obtain ⟨c, cs, rfl, -⟩ := hlead.head
      rw [printedExponent_value, List.length_drop, he, List.length_cons]
      omega
    simp only [NumberToken.scale, Option.elim_some]
    rw [List.take_append_drop, hvalue, hscale]

end Layouts

/-- The printed digits are a literal of the decimal. -/
theorem decimalLiteral_decimalText {s : ℕ} (hs : 0 < s) (e : ℤ) :
    DecimalLiteral s e (Binary64.decimalText s e) := by
  have hlead := leadsNonzero_toDigits hs
  have hvalue := decimalValue_toDigits s
  unfold Binary64.decimalText
  generalize Nat.toDigits 10 s = digits at *
  have hpos : 0 < digits.length := by
    obtain ⟨c, cs, rfl, -⟩ := hlead.head
    exact Nat.succ_pos _
  simp only
  split
  case isTrue hA =>
    have hzeros : (e + digits.length).toNat - digits.length = e.toNat := by omega
    rw [hzeros]
    exact decimalLiteral_integer hlead hvalue (by omega)
  case isFalse hA =>
    split
    case isTrue hB => exact decimalLiteral_point hlead hvalue (by omega) (by omega) (by omega)
    case isFalse hB =>
      split
      case isTrue hC => exact decimalLiteral_small hlead hvalue (by omega)
      case isFalse hC =>
        have hsign : (0 < e + digits.length) ↔ 0 ≤ e + digits.length - 1 := by omega
        simp only [hsign]
        exact decimalLiteral_exponent hlead hvalue (by omega)

/-- The value with negative zero read as zero. -/
def Binary64.unsignedZero (x : Binary64) : Binary64 :=
  if x.units = 0 then ⟨false, x.units, x.representable⟩ else x

/-- The printed text of a number is a literal of it. -/
theorem numberLiteral_numberText (x : Binary64) :
    NumberLiteral x.unsignedZero (Binary64.numberText x) := by
  unfold Binary64.unsignedZero Binary64.numberText
  by_cases hzero : x.units = 0
  · rw [if_pos hzero, if_pos hzero]
    refine ⟨⟨false, ['0'], [], none⟩, ⟨rfl, by simp, by simp⟩, ?_, rfl⟩
    refine Binary64.round_eq_some ?_ rfl
    have hround := Binary64.roundUnits_mul x.representable Nat.one_pos
    rw [hzero] at hround
    have hdigits : decimalValue ['0'] = 0 := rfl
    simp only [hzero]
    simpa [NumberToken.scale, hdigits] using hround
  · rw [if_neg hzero, if_neg hzero]
    have hspec := Binary64.shortest_spec x.representable (Nat.pos_of_ne_zero hzero)
    obtain ⟨whole, fraction, exponent, h⟩ := decimalLiteral_decimalText hspec.pos
      (Binary64.shortest x.units).2
    obtain ⟨hvalid, htext, hround⟩ := h x.negative
    exact ⟨_, hvalid, Binary64.round_eq_some (hround.trans hspec.round) rfl, htext.symm⟩

/-- The escape of a control character. -/
theorem hexUnit_control {n : ℕ} (hn : n < 0x20) :
    hexUnit '0' '0' (Nat.digitChar (n / 16)) (Nat.digitChar (n % 16)) = some n := by
  have hall : ∀ n < 0x20,
      hexUnit '0' '0' (Nat.digitChar (n / 16)) (Nat.digitChar (n % 16)) = some n := by decide
  exact hall n hn

/-- What is printed for a character is read as its code units. -/
theorem escaped_quoteChar {ns : List ℕ} {cs : List Char} (c : Char) (h : Escaped ns cs) :
    Escaped (Utf16.units c ++ ns) (quoteChar c ++ cs) := by
  have hsimple : ∀ (e d : Char), d = c → simpleEscape e = some d.toNat → d.toNat < 0x10000 →
      Escaped (Utf16.units c ++ ns) ('\\' :: e :: cs) := by
    rintro e _ rfl he hlt
    rw [Utf16.units, if_pos hlt]
    exact .simple he h
  unfold quoteChar
  split_ifs with h1 h2 h3 h4 h5 h6 h7 h8
  · exact hsimple '"' _ h1.symm rfl (by decide)
  · exact hsimple '\\' _ h2.symm rfl (by decide)
  · exact hsimple 'b' _ h3.symm rfl (by decide)
  · exact hsimple 't' _ h4.symm rfl (by decide)
  · exact hsimple 'n' _ h5.symm rfl (by decide)
  · exact hsimple 'f' _ h6.symm rfl (by decide)
  · exact hsimple 'r' _ h7.symm rfl (by decide)
  · rw [Utf16.units, if_pos (by omega)]
    exact .hex (hexUnit_control h8) h
  · refine .plain ?_ h
    simp [isPlain, h1, h2, Nat.le_of_not_lt h8]

/-- The printed text of a string is a literal of it. -/
theorem stringLiteral_quote (s : String) : StringLiteral s (quote s) := by
  refine ⟨s.toList.flatMap quoteChar, ?_, rfl⟩
  induction s.toList with
  | nil => exact .nil
  | cons c cs ih => exact escaped_quoteChar c ih

/-- A quoted text is read back from in front of anything. -/
theorem quote_append_inj {s t : String} {r u : List Char} (h : quote s ++ r = quote t ++ u) :
    s = t ∧ r = u := by
  obtain ⟨body, hbody, hs⟩ := stringLiteral_quote s
  obtain ⟨body', hbody', ht⟩ := stringLiteral_quote t
  rw [hs, ht, List.cons_append, List.cons_append, List.append_assoc, List.append_assoc] at h
  have hscan := scanString_escaped hbody r
  rw [show body ++ '"' :: r = body' ++ '"' :: u from (List.cons.inj h).2,
    scanString_escaped hbody' u] at hscan
  obtain ⟨rfl, rfl⟩ := Prod.mk.inj (Except.ok.inj hscan)
  have hunits := (unescape_eq_some_iff.mpr hbody).symm.trans (unescape_eq_some_iff.mpr hbody')
  exact ⟨String.toList_injective (Utf16.encode_injective (Option.some.inj hunits)), rfl⟩

/-- Texts joined by commas are a list without whitespace. -/
theorem commaList_commaJoin {α : Type} {l : List α} {p : α → List Char → Prop}
    {f : α → List Char} (h : ∀ a ∈ l, p a (f a)) : CommaList (l.map p) (commaJoin (l.map f)) := by
  have hspaced : ∀ a ∈ l, Spaced (p a) (f a) := fun a ha =>
    ⟨[], f a, [], List.forall_mem_nil _, h a ha, List.forall_mem_nil _, (List.append_nil _).symm⟩
  induction l with
  | nil => exact List.forall_mem_nil _
  | cons a l ih =>
    cases l with
    | nil =>
      rw [List.map_singleton, List.map_singleton, commaJoin_singleton]
      exact hspaced a List.mem_cons_self
    | cons b l =>
      have htail := ih (fun c hc => h c (.tail _ hc)) (fun c hc => hspaced c (.tail _ hc))
      exact ⟨_, _, hspaced a List.mem_cons_self, htail, commaJoin_cons_cons _ _ _⟩

/-- The printed text of a value is a JSON text of it. -/
theorem jsonText_stringify (v : Json) : JsonText (v.mapNum Binary64.unsignedZero) (stringify v) := by
  induction v using Json.induction with
  | null => rfl
  | bool b => rfl
  | num x => exact numberLiteral_numberText x
  | str t => exact stringLiteral_quote t
  | arr items ih =>
    rw [Value.mapNum_arr, jsonText_arr, stringify_arr, List.map_map]
    exact ⟨_, commaList_commaJoin ih, rfl⟩
  | obj props ih =>
    rw [Value.mapNum_obj, jsonText_obj, stringify_obj, List.map_map]
    refine ⟨_, commaList_commaJoin fun p hp => ?_, rfl⟩
    exact ⟨quote p.1, [], [], stringify p.2, stringLiteral_quote p.1, List.forall_mem_nil _,
      List.forall_mem_nil _, ih p hp, rfl⟩

end Kdna

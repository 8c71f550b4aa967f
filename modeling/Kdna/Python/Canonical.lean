import Kdna.Data.ShortestDigits
import Kdna.Json.Canonical
import Kdna.Python.Values

/-!
# Both languages print alike

Digits, escapes and the order of keys are laid out in two ways that yield the same characters.
-/

namespace Kdna.Python

/-- The bounds on a text are those of `scalarString`. -/
theorem scalar_eq (value : String) (maximum : ℕ) (controls : Bool) :
    scalar value maximum controls = scalarString value maximum controls := by
  have hcontrol (c : Char) :
      (31 < c.toNat && !(127 ≤ c.toNat && c.toNat ≤ 159)) = !isControl c := by
    rw [isControl, Bool.eq_iff_iff]
    simp only [Bool.and_eq_true, Bool.not_eq_true', Bool.and_eq_false_iff, Bool.or_eq_false_iff,
      decide_eq_true_eq, decide_eq_false_iff_not]
    omega
  rw [scalar, scalarString, Bool.and_comm]
  simp only [hcontrol]

section Escapes

/-- A control character has an escape of two digits. -/
theorem escapeUnit_eq {n : ℕ} (hn : n < 0x20) :
    escapeUnit n = ['\\', 'u', '0', '0', Nat.digitChar (n / 16), Nat.digitChar (n % 16)] := by
  have hall : ∀ n < 0x20, escapeUnit n =
      ['\\', 'u', '0', '0', Nat.digitChar (n / 16), Nat.digitChar (n % 16)] := by decide
  exact hall n hn

theorem escape_eq (c : Char) : escape c = quoteChar c := by
  unfold escape quoteChar
  by_cases hquote : c = '"'
  · subst hquote
    rfl
  · by_cases hslash : c = '\\'
    · subst hslash
      rfl
    · rw [if_neg hslash, if_neg hquote, if_neg hquote, if_neg hslash]
      split_ifs with h1 h2 h3 h4 h5 h6 <;> first
        | rfl
        | (subst_vars; contradiction)
        | exact escapeUnit_eq ‹_›

theorem dumps_eq (s : String) : dumps s = quote s := by
  rw [dumps, quote, show escape = quoteChar from funext escape_eq]

end Escapes

section Keys

/-- The octets of two lists of code units are ordered as the units are. -/
theorem octets_lt {xs ys : List ℕ} (hxs : ∀ n ∈ xs, n < 0x10000) (hys : ∀ n ∈ ys, n < 0x10000)
    (h : xs < ys) : (xs.flatMap fun n => [n / 256, n % 256]) < ys.flatMap fun n => [n / 256, n % 256] := by
  induction xs generalizing ys with
  | nil =>
    cases ys with
    | nil => exact absurd h (lt_irrefl _)
    | cons y ys => exact List.nil_lt_cons _ _
  | cons x xs ih =>
    cases ys with
    | nil => exact absurd h (List.not_lt_nil _)
    | cons y ys =>
      rw [List.forall_mem_cons] at hxs hys
      rw [List.flatMap_cons, List.flatMap_cons]
      rcases List.cons_lt_cons_iff.mp h with hlt | ⟨rfl, hlt⟩
      · simp only [List.cons_append, List.nil_append, List.cons_lt_cons_iff]
        omega
      · simp only [List.cons_append, List.nil_append, List.cons_lt_cons_iff]
        exact .inr ⟨trivial, .inr ⟨trivial, ih hxs.2 hys.2 hlt⟩⟩

theorem units_lt (c : Char) : ∀ n ∈ Utf16.units c, n < 0x10000 := by
  have hbounds := Utf16.scalar_bounds c
  intro n hn
  unfold Utf16.units at hn
  split_ifs at hn
  · obtain rfl := List.mem_singleton.mp hn
    assumption
  · simp only [List.mem_cons, List.not_mem_nil, or_false] at hn
    omega

theorem utf16be_le_iff (s t : String) :
    utf16be s ≤ utf16be t ↔ Utf16.encode s.toList ≤ Utf16.encode t.toList := by
  have hunits (s : String) : ∀ n ∈ Utf16.encode s.toList, n < 0x10000 := by
    intro n hn
    obtain ⟨c, -, hc⟩ := List.mem_flatMap.mp hn
    exact units_lt c n hc
  constructor
  · intro h
    by_contra hlt
    exact absurd h (not_le.mpr (octets_lt (hunits t) (hunits s) (not_le.mp hlt)))
  · intro h
    rcases lt_or_eq_of_le h with hlt | heq
    · exact (octets_lt (hunits s) (hunits t) hlt).le
    · rw [utf16be, heq, utf16be]

theorem sortKeys_eq {α : Type} (props : List (String × α)) : sortKeys props = Kdna.sortKeys props := by
  unfold sortKeys Kdna.sortKeys
  congr 1
  funext p q
  exact propext (utf16be_le_iff p.1 q.1)

end Keys

section Numbers

/-- Digits without a zero at either end. -/
structure Bare (ds : List Char) : Prop where
  lead : LeadsNonzero ds
  last : rstrip ds = ds

theorem bare_toDigits {s : ℕ} (hs : ¬ 10 ∣ s) : Bare (Nat.toDigits 10 s) := by
  have hpos : 0 < s := Nat.pos_of_ne_zero fun hzero => hs (hzero ▸ Dvd.intro 0 rfl)
  refine ⟨leadsNonzero_toDigits hpos, ?_⟩
  have hlast : Nat.digitChar (s % 10) ≠ '0' := by
    have hall : ∀ d < 10, d ≠ 0 → Nat.digitChar d ≠ '0' := by decide
    exact hall _ (Nat.mod_lt _ (by omega)) fun hzero => hs (Nat.dvd_of_mod_eq_zero hzero)
  rcases Nat.lt_or_ge s 10 with hlt | hge
  · rw [Nat.mod_eq_of_lt hlt] at hlast
    rw [Nat.toDigits_of_lt_base hlt, rstrip, List.rdropWhile_singleton, if_neg (by simpa using hlast)]
  · rw [Nat.toDigits_of_base_le (by omega) hge, rstrip,
      List.rdropWhile_concat_neg _ _ _ (by simpa using hlast)]

variable {ds : List Char}

theorem lstrip_append (h : LeadsNonzero ds) (es : List Char) : lstrip (ds ++ es) = ds ++ es := by
  obtain ⟨⟨c, cs, rfl, hlo, -⟩, -⟩ := h
  have hne : c ≠ '0' := by
    rintro rfl
    exact absurd hlo (by decide)
  rw [List.cons_append, lstrip, List.dropWhile_cons_of_neg (by simpa using hne)]

theorem lstrip_self (h : LeadsNonzero ds) : lstrip ds = ds := by
  simpa using lstrip_append h []

theorem lstrip_zeros (n : ℕ) (cs : List Char) : lstrip (List.replicate n '0' ++ cs) = lstrip cs := by
  induction n with
  | zero => rfl
  | succ n ih =>
    rw [List.replicate_succ, List.cons_append, lstrip, List.dropWhile_cons_of_pos (by simp)]
    exact ih

theorem rstrip_zeros (n : ℕ) (cs : List Char) : rstrip (cs ++ List.replicate n '0') = rstrip cs := by
  induction n with
  | zero => rw [List.replicate_zero, List.append_nil]
  | succ n ih =>
    rw [List.replicate_succ', ← List.append_assoc, rstrip, List.rdropWhile_concat_pos _ _ _ (by simp)]
    exact ih

/-- A text is split at the first mark. -/
theorem partition_append {mark : Char} {cs : List Char} (h : mark ∉ cs) (es : List Char) :
    partition mark (cs ++ mark :: es) = (cs, es) := by
  have hcs : ∀ c ∈ cs, decide (c ≠ mark) = true := fun c hc =>
    decide_eq_true fun heq => h (heq ▸ hc)
  rw [partition, List.takeWhile_append_of_pos hcs, List.dropWhile_append_of_pos hcs,
    List.takeWhile_cons_of_neg (by simp), List.dropWhile_cons_of_neg (by simp), List.append_nil]
  rfl

theorem partition_self {mark : Char} {cs : List Char} (h : mark ∉ cs) :
    partition mark cs = (cs, []) := by
  have hcs : ∀ c ∈ cs, decide (c ≠ mark) = true := fun c hc =>
    decide_eq_true fun heq => h (heq ▸ hc)
  rw [partition, List.takeWhile_eq_self_iff.mpr hcs, List.dropWhile_eq_nil_iff.mpr hcs]
  rfl

/-- Neither mark is a digit. -/
theorem mark_not_mem {mark : Char} (hmark : mark.isDigit = false) {cs : List Char}
    (h : ∀ c ∈ cs, c.isDigit = true) : mark ∉ cs := by
  intro hmem
  rw [h mark hmem] at hmark
  exact nomatch hmark

/-- The whole part is `0` only where there is nothing but the zero. -/
theorem ne_zero_of_leads (h : LeadsNonzero ds) (es : List Char) : ds ++ es ≠ ['0'] := by
  obtain ⟨⟨c, cs, rfl, hlo, -⟩, -⟩ := h
  rintro heq
  obtain ⟨rfl, -⟩ := List.cons.inj heq
  exact absurd hlo (by decide)

theorem Bare.ne_nil (h : Bare ds) : ds ≠ [] := by
  obtain ⟨⟨c, cs, rfl, -⟩, -⟩ := h.lead
  exact List.cons_ne_nil c cs

/-- The parts of a printed float. -/
theorem digitsOf_eq {s mantissa exponent whole fraction : List Char} (h : Bare ds) {zeros : ℕ}
    (hexponent : partition 'e' s = (mantissa, exponent))
    (hpoint : partition '.' mantissa = (whole, fraction))
    (hdigits : lstrip (whole ++ fraction) = ds ++ List.replicate zeros '0') :
    digitsOf s = (ds, (if whole = ['0'] then -((fraction.length : ℤ) - (lstrip fraction).length)
      else whole.length) + int (if exponent = [] then ['0'] else exponent)) := by
  rw [digitsOf, hexponent]
  simp only [hpoint, hdigits, rstrip_zeros, h.last, if_neg h.ne_nil]
  split_ifs <;> rfl

/-- A text without an exponent. -/
theorem digitsOf_point {whole fraction : List Char} (hwhole : ∀ c ∈ whole, c.isDigit = true)
    (hfraction : ∀ c ∈ fraction, c.isDigit = true) (h : Bare ds) {zeros : ℕ}
    (hdigits : lstrip (whole ++ fraction) = ds ++ List.replicate zeros '0') :
    digitsOf (whole ++ '.' :: fraction) =
      (ds, if whole = ['0'] then -((fraction.length : ℤ) - (lstrip fraction).length)
        else whole.length) := by
  have hmark : 'e' ∉ whole ++ '.' :: fraction := by
    rw [List.mem_append, List.mem_cons, not_or, not_or]
    exact ⟨mark_not_mem rfl hwhole, by decide, mark_not_mem rfl hfraction⟩
  have hdot : '.' ∉ whole := mark_not_mem rfl hwhole
  have hzero : int ['0'] = 0 := rfl
  rw [digitsOf_eq h (partition_self hmark) (partition_append hdot fraction) hdigits, if_pos rfl, hzero,
    add_zero]

theorem int_exponent (power : ℤ) :
    int ((if 0 ≤ power then '+' else '-') :: exponentDigits power.natAbs) = power := by
  have hvalue : decimalValue (exponentDigits power.natAbs) = power.natAbs := by
    unfold exponentDigits
    split_ifs
    · have hzero : decimalValue ['0'] = 0 := rfl
      rw [← List.singleton_append, decimalValue_append, hzero, Nat.zero_mul, Nat.zero_add,
        decimalValue_toDigits]
    · exact decimalValue_toDigits _
  split_ifs
  · rw [int, hvalue]
    omega
  · rw [int, hvalue]
    omega

/-- A text with an exponent. -/
theorem digitsOf_exponent (h : Bare ds) (power : ℤ) :
    digitsOf (ds.take 1 ++ (if ds.length = 1 then [] else '.' :: ds.drop 1) ++
      'e' :: (if 0 ≤ power then '+' else '-') :: exponentDigits power.natAbs) = (ds, power + 1) := by
  obtain ⟨⟨c, cs, rfl, hlo, hhi⟩, hdigits⟩ := h.lead
  have hne : [c] ≠ ['0'] := by
    rintro heq
    obtain ⟨rfl, -⟩ := List.cons.inj heq
    exact absurd hlo (by decide)
  have hmark : 'e' ∉ c :: cs := mark_not_mem rfl hdigits
  have hpoint : '.' ∉ c :: cs := mark_not_mem rfl hdigits
  rw [List.mem_cons, not_or] at hmark hpoint
  have hfirst : '.' ∉ [c] := by simpa using hpoint.1
  have hself : lstrip ([c] ++ cs) = c :: cs ++ List.replicate 0 '0' := by
    rw [List.replicate_zero, List.append_nil]
    exact lstrip_self h.lead
  have hsplit : ∃ mantissa, (c :: cs).take 1 ++
        (if (c :: cs).length = 1 then [] else '.' :: (c :: cs).drop 1) = mantissa ∧
      'e' ∉ mantissa ∧ partition '.' mantissa = ([c], cs) := by
    refine ⟨_, rfl, ?_⟩
    cases cs with
    | nil => exact ⟨by simpa using hmark.1, partition_self hfirst⟩
    | cons d ds =>
      refine ⟨?_, partition_append hfirst (d :: ds)⟩
      simp only [List.take_succ_cons, List.take_zero, List.length_cons, List.drop_succ_cons,
        List.drop_zero, List.mem_append, List.mem_singleton, not_or]
      rw [if_neg (by omega), List.mem_cons, not_or]
      exact ⟨hmark.1, by decide, hmark.2⟩
  obtain ⟨mantissa, hmantissa, hno, hparts⟩ := hsplit
  rw [hmantissa, digitsOf_eq h (partition_append hno _) hparts hself, if_neg hne,
    if_neg (List.cons_ne_nil _ _), int_exponent, List.length_singleton, Nat.cast_one, add_comm]

/-- The digits and the point of a printed float are those that it was printed from. -/
theorem digitsOf_reprText (h : Bare ds) (point : ℤ) : digitsOf (reprText ds point) = (ds, point) := by
  have hzero : ∀ c ∈ ['0'], c.isDigit = true := List.forall_mem_singleton.mpr rfl
  have hzeros (n : ℕ) : ∀ c ∈ List.replicate n '0', c.isDigit = true := fun c hc =>
    List.eq_of_mem_replicate hc ▸ rfl
  have hpos := List.length_pos_of_ne_nil h.ne_nil
  by_cases hfixed : -4 < point ∧ point ≤ 16
  · rw [reprText, if_pos hfixed]
    split_ifs with hsmall hwhole
    · -- Zeros behind the point.
      have hstrip : lstrip (['0'] ++ (List.replicate (-point).toNat '0' ++ ds)) =
          ds ++ List.replicate 0 '0' := by
        rw [← List.replicate_one, lstrip_zeros, lstrip_zeros, List.replicate_zero, List.append_nil]
        exact lstrip_self h.lead
      have hread := digitsOf_point hzero (List.forall_mem_append.mpr ⟨hzeros _, h.lead.digits⟩) h hstrip
      rw [List.singleton_append] at hread
      rw [hread, if_pos rfl, lstrip_zeros, lstrip_self h.lead,
        List.length_append, List.length_replicate]
      refine Prod.ext rfl ?_
      simp only
      omega
    · -- Zeros before the point.
      have hstrip : lstrip (ds ++ List.replicate (point.toNat - ds.length) '0' ++ ['0']) =
          ds ++ List.replicate (point.toNat - ds.length + 1) '0' := by
        rw [List.append_assoc, lstrip_append h.lead, ← List.replicate_succ']
      have hread := digitsOf_point (List.forall_mem_append.mpr ⟨h.lead.digits, hzeros _⟩) hzero h hstrip
      rw [hread, if_neg (ne_zero_of_leads h.lead _), List.length_append, List.length_replicate]
      refine Prod.ext rfl ?_
      simp only
      omega
    · -- The point among the digits.
      have hstrip : lstrip (ds.take point.toNat ++ ds.drop point.toNat) = ds ++ List.replicate 0 '0' := by
        rw [List.take_append_drop, List.replicate_zero, List.append_nil]
        exact lstrip_self h.lead
      have hread := digitsOf_point (fun c hc => h.lead.digits c (List.mem_of_mem_take hc))
        (fun c hc => h.lead.digits c (List.mem_of_mem_drop hc)) h hstrip
      have hne : ds.take point.toNat ≠ ['0'] := by
        simpa using ne_zero_of_leads (h.lead.take (by omega)) []
      rw [hread, if_neg hne, List.length_take]
      refine Prod.ext rfl ?_
      simp only
      omega
  · rw [reprText, if_neg hfixed, digitsOf_exponent h, sub_add_cancel]

/-- The layout of `number_text` is that of the language's numbers. -/
theorem layout_toDigits (s : ℕ) (e : ℤ) :
    layout (Nat.toDigits 10 s) (e + (Nat.toDigits 10 s).length) = Binary64.decimalText s e := by
  have hpos : 0 < (Nat.toDigits 10 s).length := List.length_pos_of_ne_nil Nat.toDigits_ne_nil
  unfold layout Binary64.decimalText
  generalize Nat.toDigits 10 s = ds at *
  dsimp only
  generalize hn : e + (ds.length : ℤ) = n
  by_cases hlarge : 0 < n ∧ n ≤ 21
  · rw [if_pos hlarge]
    by_cases hwhole : (ds.length : ℤ) ≤ n
    · rw [if_neg (by omega), List.take_of_length_le (by omega), if_pos ⟨hwhole, hlarge.2⟩]
      congr 2
      omega
    · rw [if_pos (by omega), if_neg (by omega), if_pos hlarge]
  · have hwhole : ¬((ds.length : ℤ) ≤ n ∧ n ≤ 21) := by omega
    rw [if_neg hlarge, if_neg hwhole, if_neg hlarge]
    by_cases hsmall : -6 < n ∧ n ≤ 0
    · rw [if_pos hsmall, if_pos hsmall]
    · have hsign : (0 ≤ n - 1) ↔ 0 < n := by omega
      rw [if_neg hsmall, if_neg hsmall]
      simp only [hsign]
      by_cases hone : ds.length = 1
      · rw [if_neg (by omega), if_pos hone]
      · rw [if_pos (by omega), if_neg hone]

theorem toLower_eq {c : Char} (h : c.isDigit = true ∨ c ∈ ['.', 'e', '+', '-']) : c.toLower = c := by
  rcases h with hdigit | hmark
  · have hle : c ≤ '9' := by
      simp only [Char.isDigit, Bool.and_eq_true, decide_eq_true_eq] at hdigit
      exact hdigit.2
    refine dif_neg ?_
    rintro ⟨hge, -⟩
    exact absurd (Char.le_trans hge hle) (by decide)
  · simp only [List.mem_cons, List.not_mem_nil, or_false] at hmark
    rcases hmark with rfl | rfl | rfl | rfl <;> rfl

/-- A printed float has digits and marks only. -/
theorem mem_reprText (hdigits : ∀ c ∈ ds, c.isDigit = true) (point : ℤ) :
    ∀ c ∈ reprText ds point, c.isDigit = true ∨ c ∈ ['.', 'e', '+', '-'] := by
  have hds : ∀ c ∈ ds, c.isDigit = true ∨ c ∈ ['.', 'e', '+', '-'] := fun c hc => .inl (hdigits c hc)
  have hzeros (n : ℕ) : ∀ c ∈ List.replicate n '0', c.isDigit = true ∨ c ∈ ['.', 'e', '+', '-'] :=
    fun c hc => .inl (List.eq_of_mem_replicate hc ▸ rfl)
  have htake (n : ℕ) : ∀ c ∈ ds.take n, c.isDigit = true ∨ c ∈ ['.', 'e', '+', '-'] :=
    fun c hc => hds c (List.mem_of_mem_take hc)
  have hdrop (n : ℕ) : ∀ c ∈ ds.drop n, c.isDigit = true ∨ c ∈ ['.', 'e', '+', '-'] :=
    fun c hc => hds c (List.mem_of_mem_drop hc)
  have hnumber (n : ℕ) : ∀ c ∈ Nat.toDigits 10 n, c.isDigit = true ∨ c ∈ ['.', 'e', '+', '-'] :=
    fun c hc => .inl (Nat.isDigit_of_mem_toDigits (by omega) (by omega) hc)
  have hexponent (n : ℕ) : ∀ c ∈ exponentDigits n, c.isDigit = true ∨ c ∈ ['.', 'e', '+', '-'] := by
    unfold exponentDigits
    split_ifs
    · exact List.forall_mem_cons.mpr ⟨.inl rfl, hnumber n⟩
    · exact hnumber n
  unfold reprText
  by_cases hfixed : -4 < point ∧ point ≤ 16
  · rw [if_pos hfixed]
    split_ifs
    · exact List.forall_mem_cons.mpr ⟨.inl rfl, List.forall_mem_cons.mpr ⟨.inr (by simp),
        List.forall_mem_append.mpr ⟨hzeros _, hds⟩⟩⟩
    · exact List.forall_mem_append.mpr ⟨List.forall_mem_append.mpr ⟨hds, hzeros _⟩,
        List.forall_mem_cons.mpr ⟨.inr (by simp), hzeros 1⟩⟩
    · exact List.forall_mem_append.mpr ⟨htake _, List.forall_mem_cons.mpr ⟨.inr (by simp), hdrop _⟩⟩
  · rw [if_neg hfixed]
    refine List.forall_mem_append.mpr ⟨List.forall_mem_append.mpr ⟨htake 1, ?_⟩,
      List.forall_mem_cons.mpr ⟨.inr (by simp), List.forall_mem_cons.mpr ⟨?_, hexponent _⟩⟩⟩
    · split_ifs
      · exact fun c hc => absurd hc List.not_mem_nil
      · exact List.forall_mem_cons.mpr ⟨.inr (by simp), hdrop 1⟩
    · split_ifs
      · exact .inr (by simp)
      · exact .inr (by simp)

theorem numberText_eq (x : Binary64) : numberText x = Binary64.numberText x := by
  unfold numberText Binary64.numberText
  by_cases hzero : x.units = 0
  · rw [if_pos hzero, if_pos hzero]
  · have hbare := bare_toDigits (Binary64.shortest_not_dvd x.representable (Nat.pos_of_ne_zero hzero))
    have hlower (point : ℤ) : (reprText (Nat.toDigits 10 (Binary64.shortest x.units).1) point).map
        Char.toLower = reprText (Nat.toDigits 10 (Binary64.shortest x.units).1) point := by
      rw [List.map_congr_left fun c hc => toLower_eq (mem_reprText hbare.lead.digits point c hc),
        List.map_id']
    rw [if_neg hzero, if_neg hzero, repr, hlower, digitsOf_reprText hbare]
    simp only [layout_toDigits]

end Numbers

end Kdna.Python

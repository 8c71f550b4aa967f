import Kdna.Data.Decimal

/-!
# The shortest digits end in no zero

Rounding keeps the order of quotients. A shortest significand with a zero at its end would
therefore have a neighbour of one digit less that rounds to the same magnitude.
-/

namespace Kdna.Binary64

/-- The nearest integer keeps the order of quotients. -/
theorem halfEven_mono {p q p' q' : ℕ} (hq : 0 < q) (hq' : 0 < q') (h : p * q' ≤ p' * q) :
    halfEven p q ≤ halfEven p' q' := by
  have hdiv := Nat.div_add_mod p q
  have hdiv' := Nat.div_add_mod p' q'
  have hge : p' / q' ≤ halfEven p' q' := by
    unfold halfEven
    split_ifs <;> omega
  have hquot : p / q ≤ p' / q' := by
    rw [Nat.le_div_iff_mul_le hq']
    refine Nat.le_of_mul_le_mul_right (c := q) ?_ hq
    calc p / q * q' * q = p / q * q * q' := by ring
      _ ≤ p * q' := Nat.mul_le_mul_right _ (Nat.div_mul_le_self p q)
      _ ≤ p' * q := h
  rcases Nat.lt_or_eq_of_le hquot with hlt | heq
  · exact (halfEven_le p q).trans (hlt.trans_le hge)
  · -- Equal quotients are ordered by their remainders.
    have hmod : p % q * q' ≤ p' % q' * q := by
      rw [← hdiv, ← hdiv', heq, Nat.add_mul, Nat.add_mul] at h
      have hsame : q * (p' / q') * q' = q' * (p' / q') * q := by ring
      omega
    have hhalf : q ≤ 2 * (p % q) → q' ≤ 2 * (p' % q') := by
      intro hle
      refine Nat.le_of_mul_le_mul_right (c := q) ?_ hq
      calc q' * q = q * q' := Nat.mul_comm _ _
        _ ≤ 2 * (p % q) * q' := Nat.mul_le_mul_right _ hle
        _ = 2 * (p % q * q') := by ring
        _ ≤ 2 * (p' % q' * q) := Nat.mul_le_mul_left _ hmod
        _ = 2 * (p' % q') * q := by ring
    have hover : q < 2 * (p % q) → q' < 2 * (p' % q') := by
      intro hlt
      refine Nat.lt_of_mul_lt_mul_right (a := q) ?_
      calc q' * q = q * q' := Nat.mul_comm _ _
        _ < 2 * (p % q) * q' := Nat.mul_lt_mul_of_pos_right hlt hq'
        _ = 2 * (p % q * q') := by ring
        _ ≤ 2 * (p' % q' * q) := Nat.mul_le_mul_left _ hmod
        _ = 2 * (p' % q') * q := by ring
    unfold halfEven
    rw [heq]
    split_ifs <;> omega

/-- Rounding to significant bits keeps the order of quotients. -/
theorem roundUnits_mono {p q p' q' : ℕ} (hq : 0 < q) (hq' : 0 < q') (h : p * q' ≤ p' * q) :
    roundUnits p q ≤ roundUnits p' q' := by
  have hquot : p / q ≤ p' / q' := by
    rw [Nat.le_div_iff_mul_le hq']
    refine Nat.le_of_mul_le_mul_right (c := q) ?_ hq
    calc p / q * q' * q = p / q * q * q' := by ring
      _ ≤ p * q' := Nat.mul_le_mul_right _ (Nat.div_mul_le_self p q)
      _ ≤ p' * q := h
  have hlog := Nat.log_mono_right (b := 2) hquot
  simp only [roundUnits]
  generalize he : Nat.log 2 (p / q) - 52 = e
  generalize he' : Nat.log 2 (p' / q') - 52 = e'
  rcases Nat.lt_or_ge e e' with hlt | hle
  · -- A power of two lies between the two results.
    have hsmall : p / (q * 2 ^ e) < 2 ^ 53 := by
      rw [← Nat.div_div_eq_div_mul, Nat.div_lt_iff_lt_mul (by positivity), ← Nat.pow_add]
      refine (Nat.lt_pow_succ_log_self (by omega : 1 < 2) (p / q)).trans_le ?_
      exact Nat.pow_le_pow_right (by omega) (by omega)
    have hlarge : 2 ^ 52 ≤ p' / (q' * 2 ^ e') := by
      have hne : p' / q' ≠ 0 := by
        intro hzero
        rw [hzero, Nat.log_zero_right] at he'
        omega
      rw [← Nat.div_div_eq_div_mul, Nat.le_div_iff_mul_le (by positivity), ← Nat.pow_add]
      refine (Nat.pow_le_pow_right (by omega) (by omega)).trans (Nat.pow_log_le_self 2 hne)
    have hge : p' / (q' * 2 ^ e') ≤ halfEven p' (q' * 2 ^ e') := by
      unfold halfEven
      split_ifs <;> omega
    have hle := halfEven_le p (q * 2 ^ e)
    calc halfEven p (q * 2 ^ e) * 2 ^ e ≤ 2 ^ 53 * 2 ^ e := Nat.mul_le_mul_right _ (by omega)
      _ = 2 ^ 52 * 2 ^ (e + 1) := by rw [Nat.pow_succ]; ring
      _ ≤ 2 ^ 52 * 2 ^ e' := Nat.mul_le_mul_left _ (Nat.pow_le_pow_right (by omega) hlt)
      _ ≤ halfEven p' (q' * 2 ^ e') * 2 ^ e' := Nat.mul_le_mul_right _ (hlarge.trans hge)
  · obtain rfl : e = e' := by omega
    refine Nat.mul_le_mul_right _ (halfEven_mono (by positivity) (by positivity) ?_)
    calc p * (q' * 2 ^ e) = p * q' * 2 ^ e := by ring
      _ ≤ p' * q * 2 ^ e := Nat.mul_le_mul_right _ h
      _ = p' * (q * 2 ^ e) := by ring

theorem roundDecimal_mono {s s' : ℕ} (h : s ≤ s') (exponent : ℤ) :
    roundDecimal s exponent ≤ roundDecimal s' exponent :=
  roundUnits_mono (by positivity) (by positivity)
    (Nat.mul_le_mul_right _ (Nat.mul_le_mul_right _ h))

/-- If some significand rounds to the magnitude, one of its neighbours is found. -/
theorem digitsOfLength_isSome_of_round {m k s : ℕ} (hm : Representable m)
    (hround : roundDecimal s (leadExponent m - (k - 1 : ℕ)) = m) : (digitsOfLength m k).isSome := by
  generalize hexponent : leadExponent m - (k - 1 : ℕ) = exponent at hround
  have hden := scaledDen_pos exponent
  have hten : 0 < 10 ^ (-exponent).toNat := by positivity
  have hself : roundUnits (scaledNum m exponent) (10 ^ (-exponent).toNat) = m :=
    roundUnits_mul hm hten
  have hquot := Nat.div_mul_le_self (scaledNum m exponent) (scaledDen exponent)
  have hnext := Nat.lt_div_mul_add (a := scaledNum m exponent) hden
  have hsome : ∃ t ∈ [halfEven (scaledNum m exponent) (scaledDen exponent),
      scaledNum m exponent / scaledDen exponent, scaledNum m exponent / scaledDen exponent + 1],
        roundDecimal t exponent = m := by
    rcases Nat.lt_or_ge (scaledNum m exponent / scaledDen exponent) s with hlt | hle
    · refine ⟨scaledNum m exponent / scaledDen exponent + 1, by simp, le_antisymm ?_ ?_⟩
      · exact (roundDecimal_mono hlt exponent).trans_eq hround
      · refine hself.symm.le.trans (roundUnits_mono hten hten (Nat.mul_le_mul_right _ ?_))
        rw [Nat.add_mul, Nat.one_mul]
        exact hnext.le
    · refine ⟨scaledNum m exponent / scaledDen exponent, by simp, le_antisymm ?_ ?_⟩
      · exact (roundUnits_mono hten hten (Nat.mul_le_mul_right _ hquot)).trans_eq hself
      · exact hround.symm.le.trans (roundDecimal_mono hle exponent)
  obtain ⟨t, ht, hfound⟩ := hsome
  rw [digitsOfLength, Option.isSome_map, hexponent, List.find?_isSome]
  exact ⟨t, ht, decide_eq_true hfound⟩

/-- The first success of a search over the numbers up to a bound. -/
theorem findSome?_range_spec {α : Type} {f : ℕ → Option α} {n : ℕ} {a : α}
    (h : (List.range n).findSome? f = some a) : ∃ i < n, f i = some a ∧ ∀ j < i, f j = none := by
  obtain ⟨before, i, behind, hsplit, hi, hnone⟩ := List.findSome?_eq_some_iff.mp h
  have hread (j : ℕ) (hj : j < n) : (before ++ i :: behind)[j]? = some j := by
    rw [← hsplit, List.getElem?_range hj]
  have hlength : before.length < n := by
    have hsum := congrArg List.length hsplit
    rw [List.length_range, List.length_append, List.length_cons] at hsum
    omega
  have hindex : i = before.length := by
    have hlast := hread before.length hlength
    rw [List.getElem?_append_right le_rfl, Nat.sub_self] at hlast
    exact Option.some.inj hlast
  refine ⟨i, hindex ▸ hlength, hi, fun j hj => hnone j ?_⟩
  have hfirst := hread j (by omega)
  rw [List.getElem?_append_left (by omega)] at hfirst
  exact List.mem_of_getElem? hfirst

/-- The shortest significand ends in no zero. -/
theorem shortest_not_dvd {m : ℕ} (hm : Representable m) (hpos : 0 < m) :
    ¬ 10 ∣ (shortest m).1 := by
  obtain ⟨⟨s, exponent⟩, hfound⟩ : ∃ d,
      (List.range 17).findSome? (fun i => digitsOfLength m (i + 1)) = some d := by
    rw [← Option.isSome_iff_exists, List.findSome?_isSome_iff]
    exact ⟨16, by simp, digitsOfLength_isSome hm hpos⟩
  obtain ⟨i, -, hdigits, hnone⟩ := findSome?_range_spec hfound
  obtain ⟨hround, hlo, hhi⟩ := digitsOfLength_spec hpos (Nat.succ_pos i) hdigits
  have hexponent : exponent = leadExponent m - i := by
    simp only [digitsOfLength, Nat.add_sub_cancel, Option.map_eq_some_iff, Prod.mk.injEq] at hdigits
    obtain ⟨-, -, -, rfl⟩ := hdigits
    rfl
  unfold shortest
  rw [hfound]
  split
  case h_1 => exact fun hdvd => absurd (Nat.le_of_dvd Nat.one_pos hdvd) (by omega)
  case h_2 hten heq =>
    obtain rfl := Option.some.inj heq
    rintro ⟨s', rfl⟩
    cases i with
    | zero =>
      have hone : 10 ^ (Nat.succ 0 - 1) = 1 := rfl
      have hten' : 10 ^ Nat.succ 0 = 10 := rfl
      rw [hone] at hlo
      rw [hten'] at hhi
      obtain rfl : s' = 1 := by omega
      exact hten exponent rfl
    | succ i =>
      have hshorter : roundDecimal s' (leadExponent m - (i + 1 - 1 : ℕ)) = m := by
        have hshift : leadExponent m - (i + 1 - 1 : ℕ) = exponent + (1 : ℕ) := by omega
        rw [hshift, ← roundDecimal_mul_pow, Nat.pow_one, Nat.mul_comm]
        exact hround
      have hsome := digitsOfLength_isSome_of_round hm hshorter
      rw [hnone i (Nat.lt_succ_self i)] at hsome
      exact Bool.false_ne_true hsome
  case h_3 heq => simp at heq

theorem leadExponent_natural {n : ℕ} (hpos : 0 < n) : leadExponent (n * one) = Nat.log 10 n := by
  have hle : one ≤ n * one := Nat.le_mul_of_pos_left _ hpos
  rw [leadExponent, if_pos hle, Nat.mul_div_cancel _ one_pos]

/-- A natural number is a significand of as many digits as it has. -/
theorem digitsOfLength_natural {n : ℕ} (hn : n ≤ 2 ^ 53) (hpos : 0 < n) :
    (digitsOfLength (n * one) (Nat.log 10 n + 1)).isSome := by
  have hm := representable_mul_one hn
  have hself : roundDecimal n (leadExponent (n * one) - (Nat.log 10 n + 1 - 1 : ℕ)) = n * one := by
    rw [leadExponent_natural hpos, Nat.add_sub_cancel, Int.sub_self, roundDecimal, scaledDen]
    simpa using roundUnits_mul hm Nat.one_pos
  exact digitsOfLength_isSome_of_round hm hself

/-- A significand with more digits than some other that rounds to the magnitude is not the
shortest. -/
theorem le_shortest_exponent {m j : ℕ} (hm : Representable m) (hpos : 0 < m)
    (hsome : (digitsOfLength m (j + 1)).isSome) : leadExponent m - j ≤ (shortest m).2 := by
  obtain ⟨⟨s, exponent⟩, hfound⟩ : ∃ d,
      (List.range 17).findSome? (fun i => digitsOfLength m (i + 1)) = some d := by
    rw [← Option.isSome_iff_exists, List.findSome?_isSome_iff]
    exact ⟨16, by simp, digitsOfLength_isSome hm hpos⟩
  obtain ⟨i, -, hdigits, hnone⟩ := findSome?_range_spec hfound
  have hexponent : exponent = leadExponent m - i := by
    simp only [digitsOfLength, Nat.add_sub_cancel, Option.map_eq_some_iff, Prod.mk.injEq] at hdigits
    obtain ⟨-, -, -, rfl⟩ := hdigits
    rfl
  have hi : i ≤ j := by
    by_contra hlt
    rw [hnone j (by omega)] at hsome
    exact Bool.false_ne_true hsome
  have hle : leadExponent m - j ≤ exponent := by omega
  unfold shortest
  rw [hfound]
  split
  case h_1 heq =>
    obtain ⟨-, rfl⟩ := Prod.mk.inj (Option.some.inj heq)
    exact hle.trans (Int.le_add_of_nonneg_right (by decide))
  case h_2 heq =>
    obtain rfl := Option.some.inj heq
    exact hle
  case h_3 heq => simp at heq

/-- The shortest significand of a natural number has no decimal places. -/
theorem shortest_exponent_nonneg {n : ℕ} (hn : n ≤ 2 ^ 53) (hpos : 0 < n) :
    0 ≤ (shortest (n * one)).2 := by
  have hle := le_shortest_exponent (representable_mul_one hn) (Nat.mul_pos hpos one_pos)
    (digitsOfLength_natural hn hpos)
  rwa [leadExponent_natural hpos, Int.sub_self] at hle

/-- The shortest decimal of a natural number is the number. -/
theorem shortest_natural {n : ℕ} (hn : n < 2 ^ 53) (hpos : 0 < n) :
    ∃ e : ℕ, (shortest (n * one)).2 = e ∧ (shortest (n * one)).1 * 10 ^ e = n := by
  have hm := representable_mul_one hn.le
  obtain ⟨e, he⟩ := Int.eq_ofNat_of_zero_le (shortest_exponent_nonneg hn.le hpos)
  have hround := (shortest_spec hm (Nat.mul_pos hpos one_pos)).round
  generalize shortest (n * one) = d at he hround
  refine ⟨e, he, ?_⟩
  have hwhole : roundUnits (d.1 * 10 ^ e * one) 1 = n * one := by
    rw [he, roundDecimal, scaledDen] at hround
    simpa [Nat.mul_comm, Nat.mul_assoc, Nat.mul_left_comm] using hround
  rcases Nat.lt_or_ge (2 ^ 53) (d.1 * 10 ^ e) with hlt | hle
  · have hmono : roundUnits (2 ^ 53 * one) 1 ≤ roundUnits (d.1 * 10 ^ e * one) 1 :=
      roundUnits_mono Nat.one_pos Nat.one_pos (by rw [Nat.mul_one, Nat.mul_one]; exact Nat.mul_le_mul_right _ hlt.le)
    have hedge : roundUnits (2 ^ 53 * one) 1 = 2 ^ 53 * one := by
      simpa using roundUnits_mul (representable_mul_one (le_refl (2 ^ 53))) Nat.one_pos
    rw [hwhole, hedge] at hmono
    exact absurd (Nat.le_of_mul_le_mul_right hmono one_pos) (by omega)
  · have hexact : roundUnits (d.1 * 10 ^ e * one) 1 = d.1 * 10 ^ e * one := by
      simpa using roundUnits_mul (representable_mul_one hle) Nat.one_pos
    exact Nat.eq_of_mul_eq_mul_right one_pos (hexact.symm.trans hwhole)

theorem toDigits_mul_pow {s : ℕ} (hs : 0 < s) (e : ℕ) :
    Nat.toDigits 10 (s * 10 ^ e) = Nat.toDigits 10 s ++ List.replicate e '0' := by
  induction e with
  | zero => simp
  | succ e ih =>
    have hpos : 0 < s * 10 ^ e := Nat.mul_pos hs (by positivity)
    have hstep : s * 10 ^ (e + 1) = 10 * (s * 10 ^ e) + 0 := by ring
    rw [hstep, ← Nat.toDigits_append_toDigits (by decide) hpos (by decide), ih, List.append_assoc,
      List.replicate_succ']
    rfl

theorem length_toDigits_le {n k : ℕ} (hn : n < 10 ^ k) (hk : 0 < k) :
    (Nat.toDigits 10 n).length ≤ k :=
  (Nat.length_toDigits_le_iff (by decide) hk).mpr hn

/-- A natural number below `2 ^ 53` prints as its digits. -/
theorem numberText_natural {n : ℕ} (hn : n < 2 ^ 53) :
    numberText (natural n hn.le) = Nat.toDigits 10 n := by
  rcases Nat.eq_zero_or_pos n with rfl | hpos
  · have hzero : (natural 0 hn.le).units = 0 := Nat.zero_mul _
    rw [numberText, if_pos hzero]
    rfl
  · obtain ⟨e, he, hvalue⟩ := shortest_natural hn hpos
    have hunits : (natural n hn.le).units ≠ 0 := (Nat.mul_pos hpos one_pos).ne'
    have hs : 0 < (shortest (n * one)).1 :=
      Nat.pos_of_ne_zero fun hzero => by rw [hzero, Nat.zero_mul] at hvalue; omega
    have hlength : (Nat.toDigits 10 n).length ≤ 21 := length_toDigits_le (by omega) (by decide)
    have hdigits := toDigits_mul_pow hs e
    rw [hvalue] at hdigits
    have hsum := congrArg List.length hdigits
    rw [List.length_append, List.length_replicate] at hsum
    rw [numberText, if_neg hunits]
    change ([] : List Char) ++ decimalText (shortest (n * one)).1 (shortest (n * one)).2 = _
    rw [List.nil_append, he, decimalText, if_pos ⟨by omega, by omega⟩, hdigits]
    congr 2
    omega

end Kdna.Binary64

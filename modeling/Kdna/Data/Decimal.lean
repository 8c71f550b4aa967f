import Kdna.Data.Binary64

/-!
# Decimal texts of binary64 numbers

`Number::toString` of the language: the shortest decimal significand that rounds
to the number, the nearest one where several have that length. Seventeen digits
always suffice, because the nearest such decimal is closer to the number than
the `2 ^ 54`-th part of it.
-/

namespace Kdna.Binary64

/-- Numerator of a magnitude divided by `10 ^ exponent`. -/
def scaledNum (m : ℕ) (exponent : ℤ) : ℕ := m * 10 ^ (-exponent).toNat

/-- Denominator of a magnitude divided by `10 ^ exponent`. -/
def scaledDen (exponent : ℤ) : ℕ := one * 10 ^ exponent.toNat

/-- The magnitude nearest to `significand * 10 ^ exponent`. -/
def roundDecimal (significand : ℕ) (exponent : ℤ) : ℕ :=
  roundUnits (significand * scaledDen exponent) (10 ^ (-exponent).toNat)

/-- The exponent of the first decimal digit of a positive magnitude. -/
def leadExponent (m : ℕ) : ℤ :=
  if one ≤ m then Nat.log 10 (m / one) else -(Nat.clog 10 ((one + m - 1) / m) : ℤ)

/-- A significand of `k` digits that rounds to the magnitude: the nearest one if
it does, else the one on its other side. -/
def digitsOfLength (m k : ℕ) : Option (ℕ × ℤ) :=
  let exponent := leadExponent m - (k - 1 : ℕ)
  let quotient := scaledNum m exponent / scaledDen exponent
  ([halfEven (scaledNum m exponent) (scaledDen exponent), quotient, quotient + 1].find?
    fun s => roundDecimal s exponent = m).map fun s => (s, exponent)

/-- The shortest significand and its exponent. A significand `10 ^ k` is the one
digit `1`; this happens for `k = 1` only. -/
def shortest (m : ℕ) : ℕ × ℤ :=
  match (List.range 17).findSome? fun i => digitsOfLength m (i + 1) with
  | some (10, exponent) => (1, exponent + 1)
  | some d => d
  | none => (0, 0)

/-- The text of a significand and its exponent. -/
def decimalText (significand : ℕ) (exponent : ℤ) : List Char :=
  let digits := Nat.toDigits 10 significand
  let k := digits.length
  let n := exponent + k
  if k ≤ n ∧ n ≤ 21 then digits ++ List.replicate (n.toNat - k) '0'
  else if 0 < n ∧ n ≤ 21 then digits.take n.toNat ++ '.' :: digits.drop n.toNat
  else if -6 < n ∧ n ≤ 0 then '0' :: '.' :: (List.replicate (-n).toNat '0' ++ digits)
  else
    digits.take 1 ++ (if k = 1 then [] else '.' :: digits.drop 1) ++
      'e' :: (if 0 < n then '+' else '-') :: Nat.toDigits 10 (n - 1).natAbs

/-- `Number::toString`, which `JSON.stringify` uses for numbers. -/
def numberText (x : Binary64) : List Char :=
  if x.units = 0 then ['0']
  else
    let d := shortest x.units
    (if x.negative then ['-'] else []) ++ decimalText d.1 d.2

theorem scaledDen_pos (exponent : ℤ) : 0 < scaledDen exponent :=
  Nat.mul_pos one_pos (by positivity)

/-- The first digit stands at the lead exponent. -/
theorem leadExponent_bounds {m : ℕ} (hm : 0 < m) :
    scaledDen (leadExponent m) ≤ scaledNum m (leadExponent m) ∧
      scaledNum m (leadExponent m) < 10 * scaledDen (leadExponent m) := by
  have hone := one_pos
  unfold leadExponent scaledDen scaledNum
  split
  case isTrue hle =>
    have hquot : m / one ≠ 0 := (Nat.div_pos hle hone).ne'
    have hlog := Nat.pow_log_le_self 10 hquot
    have hlt := Nat.lt_pow_succ_log_self (by omega : 1 < 10) (m / one)
    generalize Nat.log 10 (m / one) = n at hlog hlt
    rw [Nat.le_div_iff_mul_le hone, Nat.mul_comm] at hlog
    rw [Nat.div_lt_iff_lt_mul hone, Nat.pow_succ] at hlt
    simp only [Int.toNat_natCast, Int.toNat_neg_natCast, pow_zero, Nat.mul_one]
    refine ⟨hlog, hlt.trans_eq ?_⟩
    ring
  case isFalse hlt =>
    have hlt : m < one := Nat.lt_of_not_le hlt
    have hdiv := Nat.div_add_mod (one + m - 1) m
    have hmod := Nat.mod_lt (one + m - 1) hm
    have hquot := Nat.div_pos (by omega : m ≤ one + m - 1) hm
    generalize (one + m - 1) / m = c at hdiv hquot
    obtain ⟨d, rfl⟩ : ∃ d, c = d + 1 := ⟨c - 1, by omega⟩
    rw [Nat.mul_add, Nat.mul_one] at hdiv
    have hd : 1 < d + 1 := by
      rcases Nat.eq_zero_or_pos d with rfl | hd
      · omega
      · omega
    have hle := Nat.le_pow_clog (by omega : 1 < 10) (d + 1)
    have hpred := Nat.pow_pred_clog_lt_self (by omega : 1 < 10) hd
    obtain ⟨n, hn⟩ : ∃ n, Nat.clog 10 (d + 1) = n + 1 :=
      Nat.exists_eq_succ_of_ne_zero (Nat.clog_pos (by omega) hd).ne'
    rw [hn, Nat.pred_succ] at hpred
    rw [hn] at hle ⊢
    simp only [neg_neg, Int.toNat_natCast, Int.toNat_neg_natCast, pow_zero, Nat.mul_one]
    have h1 := Nat.mul_le_mul_left m hle
    have h2 := Nat.mul_le_mul_left m (by omega : 10 ^ n ≤ d)
    rw [Nat.mul_add, Nat.mul_one] at h1
    rw [Nat.pow_succ, ← Nat.mul_assoc] at h1 ⊢
    omega

/-- Moving the exponent down by `i` multiplies the quotient by `10 ^ i`. -/
theorem scaled_sub (m i : ℕ) (exponent : ℤ) :
    scaledNum m (exponent - i) * scaledDen exponent =
      10 ^ i * scaledNum m exponent * scaledDen (exponent - i) := by
  have hpow : 10 ^ (-(exponent - i)).toNat * 10 ^ exponent.toNat =
      10 ^ i * 10 ^ (-exponent).toNat * 10 ^ (exponent - i).toNat := by
    rw [← Nat.pow_add, ← Nat.pow_add, ← Nat.pow_add]
    congr 1
    omega
  unfold scaledNum scaledDen
  calc m * 10 ^ (-(exponent - i)).toNat * (one * 10 ^ exponent.toNat)
      = m * one * (10 ^ (-(exponent - i)).toNat * 10 ^ exponent.toNat) := by ring
    _ = m * one * (10 ^ i * 10 ^ (-exponent).toNat * 10 ^ (exponent - i).toNat) := by rw [hpow]
    _ = 10 ^ i * (m * 10 ^ (-exponent).toNat) * (one * 10 ^ (exponent - i).toNat) := by ring

/-- With `k` digits the quotient lies between `10 ^ (k - 1)` and `10 ^ k`. -/
theorem scaled_bounds {m : ℕ} (hm : 0 < m) (i : ℕ) :
    10 ^ i * scaledDen (leadExponent m - i) ≤ scaledNum m (leadExponent m - i) ∧
      scaledNum m (leadExponent m - i) < 10 ^ (i + 1) * scaledDen (leadExponent m - i) := by
  obtain ⟨hlo, hhi⟩ := leadExponent_bounds hm
  have hscale := scaled_sub m i (leadExponent m)
  have hden := scaledDen_pos (leadExponent m)
  have hden' := scaledDen_pos (leadExponent m - i)
  generalize scaledNum m (leadExponent m) = a at *
  generalize scaledDen (leadExponent m) = b at *
  generalize scaledNum m (leadExponent m - i) = c at *
  generalize scaledDen (leadExponent m - i) = d at *
  constructor
  · refine Nat.le_of_mul_le_mul_right ?_ hden
    calc 10 ^ i * d * b ≤ 10 ^ i * d * a := Nat.mul_le_mul_left _ hlo
      _ = c * b := by rw [hscale]; ring
  · refine Nat.lt_of_mul_lt_mul_right (a := b) ?_
    calc c * b = 10 ^ i * d * a := by rw [hscale]; ring
      _ < 10 ^ i * d * (10 * b) := Nat.mul_lt_mul_of_pos_left hhi (by positivity)
      _ = 10 ^ (i + 1) * d * b := by ring

/-- The nearest integer is at distance at most one half. -/
theorem halfEven_near (p : ℕ) {q : ℕ} (hq : 0 < q) :
    2 * p ≤ 2 * (halfEven p q * q) + q ∧ 2 * (halfEven p q * q) ≤ 2 * p + q := by
  have hdiv := Nat.div_add_mod p q
  have hmod := Nat.mod_lt p hq
  rw [Nat.mul_comm] at hdiv
  unfold halfEven
  split
  · omega
  · split
    · rw [Nat.add_mul, Nat.one_mul]
      omega
    · rcases Nat.mod_two_eq_zero_or_one (p / q) with heven | hodd
      · rw [heven, Nat.add_zero]
        omega
      · rw [hodd, Nat.add_mul, Nat.one_mul]
        omega

/-- A decimal within half a step of a quotient of seventeen digits rounds to the
magnitude. -/
theorem roundDecimal_halfEven {m : ℕ} {exponent : ℤ} (hm : Representable m)
    (hlo : 10 ^ 16 * scaledDen exponent ≤ scaledNum m exponent) :
    roundDecimal (halfEven (scaledNum m exponent) (scaledDen exponent)) exponent = m := by
  have hden := scaledDen_pos exponent
  have hnear := halfEven_near (scaledNum m exponent) hden
  have hnum : m * 10 ^ (-exponent).toNat = scaledNum m exponent := rfl
  unfold roundDecimal
  generalize halfEven (scaledNum m exponent) (scaledDen exponent) = s at *
  refine roundUnits_of_near hm (by positivity) ?_ ?_
  · rw [hnum]
    omega
  · rw [hnum]
    omega

/-- Seventeen digits suffice. -/
theorem digitsOfLength_isSome {m : ℕ} (hm : Representable m) (hpos : 0 < m) :
    (digitsOfLength m 17).isSome := by
  have hround := roundDecimal_halfEven hm (scaled_bounds hpos 16).1
  rw [digitsOfLength, Option.isSome_map, List.find?_isSome]
  exact ⟨_, List.mem_cons_self, decide_eq_true hround⟩

/-- What a found significand satisfies: it rounds to the magnitude and has at most
`k` digits, or is `10 ^ k`. -/
theorem digitsOfLength_spec {m k s : ℕ} {exponent : ℤ} (hpos : 0 < m) (hk : 0 < k)
    (h : digitsOfLength m k = some (s, exponent)) :
    roundDecimal s exponent = m ∧ 10 ^ (k - 1) ≤ s ∧ s ≤ 10 ^ k := by
  obtain ⟨i, rfl⟩ : ∃ i, k = i + 1 := ⟨k - 1, by omega⟩
  simp only [digitsOfLength, Nat.add_sub_cancel, Option.map_eq_some_iff, Prod.mk.injEq] at h
  obtain ⟨s', hfind, rfl, rfl⟩ := h
  have hround := List.find?_some hfind
  have hmem := List.mem_of_find?_eq_some hfind
  obtain ⟨hlo, hhi⟩ := scaled_bounds hpos i
  have hden := scaledDen_pos (leadExponent m - i)
  generalize scaledNum m (leadExponent m - i) = a at *
  generalize scaledDen (leadExponent m - i) = d at *
  have hquot : 10 ^ i ≤ a / d := (Nat.le_div_iff_mul_le hden).mpr hlo
  have hquot' : a / d < 10 ^ (i + 1) := (Nat.div_lt_iff_lt_mul hden).mpr hhi
  have hhalf := halfEven_le a d
  refine ⟨of_decide_eq_true hround, ?_⟩
  rw [Nat.add_sub_cancel]
  simp only [List.mem_cons, List.not_mem_nil, or_false] at hmem
  have hge : a / d ≤ halfEven a d := by
    unfold halfEven
    split
    · omega
    · split <;> omega
  rcases hmem with rfl | rfl | rfl <;> omega

/-- A power of ten moves from the significand to the exponent. -/
theorem roundDecimal_mul_pow (significand j : ℕ) (exponent : ℤ) :
    roundDecimal (significand * 10 ^ j) exponent = roundDecimal significand (exponent + j) := by
  refine roundUnits_congr (by positivity) (by positivity) ?_
  have hpow : 10 ^ j * 10 ^ exponent.toNat * 10 ^ (-(exponent + j)).toNat =
      10 ^ (exponent + j).toNat * 10 ^ (-exponent).toNat := by
    rw [← Nat.pow_add, ← Nat.pow_add, ← Nat.pow_add]
    congr 1
    omega
  unfold scaledDen
  calc significand * 10 ^ j * (one * 10 ^ exponent.toNat) * 10 ^ (-(exponent + j)).toNat
      = significand * one * (10 ^ j * 10 ^ exponent.toNat * 10 ^ (-(exponent + j)).toNat) := by
        ring
    _ = significand * one * (10 ^ (exponent + j).toNat * 10 ^ (-exponent).toNat) := by rw [hpow]
    _ = significand * (one * 10 ^ (exponent + j).toNat) * 10 ^ (-exponent).toNat := by ring

theorem two_pow_le_ten_pow (n : ℕ) : 2 ^ n ≤ 10 ^ n := Nat.pow_le_pow_left (by omega) n

/-- The first digit of a finite magnitude stands within 2098 places of the point. -/
theorem natAbs_leadExponent_le {m : ℕ} (hm : Representable m) (hpos : 0 < m) :
    (leadExponent m).natAbs ≤ 2098 := by
  unfold leadExponent
  split
  case isTrue =>
    have hlt : m / one < 10 ^ 2098 :=
      ((Nat.div_le_self m one).trans_lt hm.1).trans_le (overflow_le.trans (two_pow_le_ten_pow _))
    have hlog := Nat.log_lt_of_lt_pow' (by omega) hlt
    rw [Int.natAbs_natCast]
    omega
  case isFalse =>
    have hle : (one + m - 1) / m ≤ 10 ^ 1074 := by
      refine le_trans ?_ (one_le.trans (two_pow_le_ten_pow _))
      rw [Nat.div_le_iff_le_mul_add_pred hpos]
      have hone := Nat.le_mul_of_pos_left one hpos
      omega
    have hclog := Nat.clog_le_of_le_pow hle
    rw [Int.natAbs_neg, Int.natAbs_natCast]
    omega

/-- What the printed significand and exponent satisfy. -/
structure Shortest (m : ℕ) (d : ℕ × ℤ) : Prop where
  round : roundDecimal d.1 d.2 = m
  pos : 0 < d.1
  le : d.1 ≤ 10 ^ 17
  exponent_le : d.2.natAbs ≤ 2115

/-- The shortest significand rounds to the magnitude and has at most 18 digits. -/
theorem shortest_spec {m : ℕ} (hm : Representable m) (hpos : 0 < m) : Shortest m (shortest m) := by
  obtain ⟨⟨s, exponent⟩, hfound⟩ : ∃ d,
      (List.range 17).findSome? (fun i => digitsOfLength m (i + 1)) = some d := by
    rw [← Option.isSome_iff_exists, List.findSome?_isSome_iff]
    exact ⟨16, by simp, digitsOfLength_isSome hm hpos⟩
  obtain ⟨i, hi, hdigits⟩ := List.exists_of_findSome?_eq_some hfound
  have hi := List.mem_range.mp hi
  obtain ⟨hround, hlo, hhi⟩ := digitsOfLength_spec hpos (Nat.succ_pos i) hdigits
  have hle : 10 ^ (i + 1) ≤ 10 ^ 17 := Nat.pow_le_pow_right (by omega) (by omega)
  have hs : 0 < s := lt_of_lt_of_le (by positivity) hlo
  have hexp : exponent.natAbs ≤ 2114 := by
    have hlead := natAbs_leadExponent_le hm hpos
    have hexp : exponent = leadExponent m - i := by
      simp only [digitsOfLength, Nat.add_sub_cancel, Option.map_eq_some_iff, Prod.mk.injEq]
        at hdigits
      obtain ⟨-, -, -, rfl⟩ := hdigits
      rfl
    omega
  unfold shortest
  rw [hfound]
  split
  case h_1 heq =>
    obtain ⟨rfl, rfl⟩ := Prod.mk.inj (Option.some.inj heq)
    exact ⟨(roundDecimal_mul_pow 1 1 exponent).symm.trans hround, Nat.one_pos, by norm_num,
      by simp only; omega⟩
  case h_2 heq =>
    rw [← Option.some.inj heq]
    exact ⟨hround, hs, hhi.trans hle, by simp only; omega⟩
  case h_3 heq => simp at heq

/-- The text of a decimal with at most 18 digits is short. -/
theorem length_decimalText_le {s : ℕ} {exponent : ℤ} (hs : s ≤ 10 ^ 17)
    (hexponent : exponent.natAbs ≤ 2115) : (decimalText s exponent).length ≤ 25 := by
  have hk := (Nat.length_toDigits_le_iff (n := s) (k := 18) (b := 10) (by omega) (by omega)).mpr (by omega)
  unfold decimalText
  generalize Nat.toDigits 10 s = digits at *
  simp only
  split
  · rw [List.length_append, List.length_replicate]
    omega
  · split
    · rw [List.length_append, List.length_cons, List.length_take, List.length_drop]
      omega
    · split
      · simp only [List.length_cons, List.length_append, List.length_replicate]
        omega
      · have he := (Nat.length_toDigits_le_iff (n := (exponent + digits.length - 1).natAbs) (k := 4)
          (b := 10) (by omega) (by omega)).mpr (by omega)
        simp only [List.length_append, List.length_cons, List.length_take]
        split
        · simp only [List.length_nil]
          omega
        · simp only [List.length_cons, List.length_drop]
          omega

/-- The text of a number is short. -/
theorem length_numberText_le (x : Binary64) : (numberText x).length ≤ 26 := by
  unfold numberText
  split
  · simp
  · rename_i hne
    have hspec := shortest_spec x.representable (Nat.pos_of_ne_zero hne)
    have hlen := length_decimalText_le hspec.le hspec.exponent_le
    simp only [List.length_append]
    split
    · simp only [List.length_singleton]
      omega
    · simp only [List.length_nil]
      omega

/-- The decimal digits of a number are ASCII. -/
theorem ascii_toDigits (n : ℕ) : ∀ c ∈ Nat.toDigits 10 n, c.toNat < 128 := by
  intro c hc
  have hdigit := Nat.isDigit_of_mem_toDigits (by omega) (by omega) hc
  rw [Char.isDigit_iff_toNat] at hdigit
  have h9 : '9'.toNat = 57 := rfl
  omega

/-- The text of a decimal is ASCII. -/
theorem ascii_decimalText (s : ℕ) (exponent : ℤ) :
    ∀ c ∈ decimalText s exponent, c.toNat < 128 := by
  have hzeros : ∀ n, ∀ c ∈ List.replicate n '0', c.toNat < 128 := by
    intro n c hc
    rw [List.eq_of_mem_replicate hc]
    decide
  have hdigits := ascii_toDigits s
  unfold decimalText
  generalize Nat.toDigits 10 s = digits at *
  have htake : ∀ n, ∀ c ∈ digits.take n, c.toNat < 128 :=
    fun n c hc => hdigits c (List.mem_of_mem_take hc)
  have hdrop : ∀ n, ∀ c ∈ digits.drop n, c.toNat < 128 :=
    fun n c hc => hdigits c (List.mem_of_mem_drop hc)
  simp only
  split
  · exact List.forall_mem_append.mpr ⟨hdigits, hzeros _⟩
  · split
    · exact List.forall_mem_append.mpr ⟨htake _, List.forall_mem_cons.mpr ⟨by decide, hdrop _⟩⟩
    · split
      · exact List.forall_mem_cons.mpr ⟨by decide, List.forall_mem_cons.mpr ⟨by decide,
          List.forall_mem_append.mpr ⟨hzeros _, hdigits⟩⟩⟩
      · refine List.forall_mem_append.mpr ⟨List.forall_mem_append.mpr ⟨htake _, ?_⟩,
          List.forall_mem_cons.mpr ⟨by decide, List.forall_mem_cons.mpr ⟨?_, ascii_toDigits _⟩⟩⟩
        · split
          · simp
          · exact List.forall_mem_cons.mpr ⟨by decide, hdrop _⟩
        · split <;> decide

/-- The text of a number is ASCII. -/
theorem ascii_numberText (x : Binary64) : ∀ c ∈ numberText x, c.toNat < 128 := by
  unfold numberText
  split
  · exact List.forall_mem_singleton.mpr (by decide)
  · refine List.forall_mem_append.mpr ⟨?_, ascii_decimalText _ _⟩
    split
    · exact List.forall_mem_singleton.mpr (by decide)
    · exact List.forall_mem_nil _

end Kdna.Binary64

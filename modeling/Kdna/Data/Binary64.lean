import Mathlib.Data.Nat.Log
import Mathlib.Tactic.Ring
import Mathlib.Tactic.Linarith

/-!
# Finite binary64 numbers

The magnitudes of finite binary64 numbers are multiples of `2 ^ -1074`, so a
magnitude is a natural number of such units. The representable ones are below
`2 ^ 2098` and have at most 53 significant bits. Rounding is to the nearest
representable magnitude, ties to even.
-/

namespace Kdna

/-- The first magnitude past the finite ones, in units. -/
@[irreducible] def overflow : ℕ := 2 ^ 2098

theorem two_pow_le_overflow {n : ℕ} (h : n ≤ 2098) : 2 ^ n ≤ overflow := by
  unfold overflow
  exact pow_le_pow_right₀ one_le_two h

theorem overflow_le : overflow ≤ 2 ^ 2098 := by
  unfold overflow
  exact le_rfl

/-- The units of a finite binary64 magnitude. -/
def Representable (m : ℕ) : Prop := m < overflow ∧ 2 ^ (Nat.log 2 m - 52) ∣ m

instance (m : ℕ) : Decidable (Representable m) := by
  unfold Representable
  infer_instance

/-- A finite binary64 number; zero has two signs. -/
structure Binary64 where
  negative : Bool
  units : ℕ
  representable : Representable units
  deriving DecidableEq

namespace Binary64

/-- The quotient `p / q` rounded to the nearest integer, ties to even. -/
def halfEven (p q : ℕ) : ℕ :=
  if 2 * (p % q) < q then p / q
  else if q < 2 * (p % q) then p / q + 1
  else p / q + p / q % 2

/-- The quotient `p / q`, in units, rounded to 53 significant bits. -/
def roundUnits (p q : ℕ) : ℕ :=
  let e := Nat.log 2 (p / q) - 52
  halfEven p (q * 2 ^ e) * 2 ^ e

/-- A quotient at distance below one half of an integer rounds to it. -/
theorem halfEven_of_near {p q d : ℕ} (hlo : 2 * (d * q) < 2 * p + q)
    (hhi : 2 * p < 2 * (d * q) + q) : halfEven p q = d := by
  have hq : 0 < q := by omega
  have hdiv := Nat.div_add_mod p q
  have hmod := Nat.mod_lt p hq
  rcases Nat.lt_or_ge p (d * q) with hlt | hge
  · -- the quotient lies below `d`, in the upper half of the step before it
    obtain ⟨d, rfl⟩ : ∃ d', d = d' + 1 := ⟨d - 1, by
      rcases Nat.eq_zero_or_pos d with rfl | hd <;> omega⟩
    rw [Nat.add_mul, Nat.one_mul] at hlo hlt
    have hquot : p / q = d := by
      rw [Nat.div_eq_iff hq]
      omega
    rw [hquot, Nat.mul_comm q] at hdiv
    rw [halfEven, hquot, if_neg (by omega), if_pos (by omega)]
  · have hquot : p / q = d := by
      rw [Nat.div_eq_iff hq]
      omega
    rw [hquot, Nat.mul_comm q] at hdiv
    rw [halfEven, hquot, if_pos (by omega)]

/-- An integer rounds to itself. -/
theorem halfEven_mul (d : ℕ) {q : ℕ} (hq : 0 < q) : halfEven (d * q) q = d :=
  halfEven_of_near (by omega) (by omega)

/-- A quotient rounds to at most the next integer. -/
theorem halfEven_le (p q : ℕ) : halfEven p q ≤ p / q + 1 := by
  unfold halfEven
  split
  · omega
  · split <;> omega

/-- The significand and exponent of a representable magnitude. -/
theorem exists_significand {m : ℕ} (hm : Representable m) (hpos : m ≠ 0) :
    ∃ k e, e = Nat.log 2 m - 52 ∧ m = k * 2 ^ e ∧ k < 2 ^ 53 ∧ (0 < e → 2 ^ 52 ≤ k) := by
  obtain ⟨-, k, hk⟩ := hm
  generalize he : Nat.log 2 m - 52 = e at hk
  have hlt := Nat.lt_pow_succ_log_self (by omega : 1 < 2) m
  have hle := Nat.pow_log_le_self 2 hpos
  have hscale : (0 : ℕ) < 2 ^ e := by positivity
  refine ⟨k, e, rfl, by rw [hk, Nat.mul_comm], ?_, fun hepos => ?_⟩
  · by_contra hbig
    have hmul : 2 ^ 53 * 2 ^ e ≤ k * 2 ^ e := Nat.mul_le_mul_right _ (by omega)
    have hpow : 2 ^ (Nat.log 2 m).succ ≤ 2 ^ (53 + e) := Nat.pow_le_pow_right (by omega) (by omega)
    rw [Nat.pow_add] at hpow
    rw [Nat.mul_comm] at hk
    omega
  · by_contra hsmall
    have hmul : (k + 1) * 2 ^ e ≤ 2 ^ 52 * 2 ^ e := Nat.mul_le_mul_right _ (by omega)
    have hpow : 2 ^ (52 + e) ≤ 2 ^ Nat.log 2 m := Nat.pow_le_pow_right (by omega) (by omega)
    rw [Nat.pow_add] at hpow
    rw [Nat.add_mul, Nat.one_mul, Nat.mul_comm] at hmul
    omega

/-- A quotient nearer to a representable magnitude than the `2 ^ 54`-th part of
it rounds to that magnitude. -/
theorem roundUnits_of_near {p q m : ℕ} (hm : Representable m) (hq : 0 < q)
    (hlo : 2 ^ 54 * (m * q) < 2 ^ 54 * p + m * q)
    (hhi : 2 ^ 54 * p < 2 ^ 54 * (m * q) + m * q) : roundUnits p q = m := by
  have hpos : m ≠ 0 := by
    rintro rfl
    omega
  obtain ⟨k, e, -, rfl, hk, hnormal⟩ := exists_significand hm hpos
  have hmul : k * 2 ^ e * q = k * (q * 2 ^ e) := by ring
  rw [hmul] at hlo hhi
  have hkx : k * (q * 2 ^ e) + q * 2 ^ e ≤ 2 ^ 53 * (q * 2 ^ e) := by
    have hle : (k + 1) * (q * 2 ^ e) ≤ 2 ^ 53 * (q * 2 ^ e) := Nat.mul_le_mul_right _ (by omega)
    rwa [Nat.add_mul, Nat.one_mul] at hle
  have hupper : Nat.log 2 (p / q) - 52 ≤ e := by
    have hlt : p / q < 2 ^ (53 + e) := by
      rw [Nat.div_lt_iff_lt_mul hq, Nat.pow_add, Nat.mul_assoc, Nat.mul_comm (2 ^ e)]
      omega
    have hlog := Nat.log_lt_of_lt_pow' (by omega) hlt
    omega
  unfold roundUnits
  rcases Nat.lt_or_ge (Nat.log 2 (p / q) - 52) e with hless | hge
  · -- the quotient lies below a power of two, where the step is half as wide
    obtain ⟨f, rfl⟩ : ∃ f, e = f + 1 := ⟨e - 1, by omega⟩
    have hk52 := hnormal (by omega)
    have hdouble : q * 2 ^ (f + 1) = 2 * (q * 2 ^ f) := by ring
    rw [hdouble] at hlo hhi hkx
    have hlower : ∀ n, 2 ^ n * q ≤ p → n ≤ Nat.log 2 (p / q) := by
      intro n hn
      exact Nat.le_log_of_pow_le (by omega) ((Nat.le_div_iff_mul_le hq).mpr hn)
    have hk : k = 2 ^ 52 := by
      by_contra hne
      have hmore : (2 ^ 52 + 1) * (2 * (q * 2 ^ f)) ≤ k * (2 * (q * 2 ^ f)) :=
        Nat.mul_le_mul_right _ (by omega)
      have hbound := hlower (53 + f) (by
        rw [Nat.pow_add, Nat.mul_assoc, Nat.mul_comm (2 ^ f)]
        omega)
      omega
    subst hk
    have hbound := hlower (52 + f) (by
      rw [Nat.pow_add, Nat.mul_assoc, Nat.mul_comm (2 ^ f)]
      omega)
    have heq : Nat.log 2 (p / q) - 52 = f := by omega
    simp only [heq]
    rw [halfEven_of_near (d := 2 ^ 53) (by omega) (by omega)]
    ring
  · have heq : Nat.log 2 (p / q) - 52 = e := by omega
    simp only [heq]
    rw [halfEven_of_near (d := k) (by omega) (by omega)]

/-- A representable quotient rounds to itself. -/
theorem roundUnits_mul {m q : ℕ} (hm : Representable m) (hq : 0 < q) :
    roundUnits (m * q) q = m := by
  rcases Nat.eq_zero_or_pos m with rfl | hpos
  · simp [roundUnits, halfEven, hq]
  · have hmq : 0 < m * q := Nat.mul_pos hpos hq
    exact roundUnits_of_near hm hq (by omega) (by omega)

/-- Rounding does not depend on how the quotient is written. -/
theorem halfEven_mul_right (p q : ℕ) {c : ℕ} (hc : 0 < c) :
    halfEven (p * c) (q * c) = halfEven p q := by
  have hlt : ∀ a b, 2 * (a * c) < b * c ↔ 2 * a < b := by
    intro a b
    rw [← Nat.mul_assoc, Nat.mul_lt_mul_right hc]
  have hgt : ∀ a b, b * c < 2 * (a * c) ↔ b < 2 * a := by
    intro a b
    rw [← Nat.mul_assoc, Nat.mul_lt_mul_right hc]
  simp only [halfEven, Nat.mul_div_mul_right _ _ hc, Nat.mul_mod_mul_right, hlt, hgt]

@[inherit_doc halfEven_mul_right]
theorem roundUnits_mul_right (p q : ℕ) {c : ℕ} (hc : 0 < c) :
    roundUnits (p * c) (q * c) = roundUnits p q := by
  simp only [roundUnits, Nat.mul_div_mul_right _ _ hc]
  rw [Nat.mul_right_comm q c, halfEven_mul_right _ _ hc]

/-- Equal quotients round alike. -/
theorem roundUnits_congr {p q p' q' : ℕ} (hq : 0 < q) (hq' : 0 < q') (h : p * q' = p' * q) :
    roundUnits p q = roundUnits p' q' := by
  rw [← roundUnits_mul_right p q hq', h, Nat.mul_comm q, roundUnits_mul_right p' q' hq]

/-- A product of a 53-bit integer and a power of two has 53 significant bits. -/
theorem representable_mul_pow {k e : ℕ} (hk : k ≤ 2 ^ 53) (hlt : k * 2 ^ e < overflow) :
    Representable (k * 2 ^ e) := by
  refine ⟨hlt, ?_⟩
  rcases Nat.lt_or_ge k (2 ^ 53) with hk | hk'
  · have hlog : Nat.log 2 (k * 2 ^ e) < 53 + e := by
      refine Nat.log_lt_of_lt_pow' (by omega) ?_
      rw [Nat.pow_add]
      exact Nat.mul_lt_mul_of_pos_right hk (by positivity)
    exact (pow_dvd_pow 2 (by omega)).trans (Dvd.intro_left k rfl)
  · have hk : k = 2 ^ 53 := by omega
    rw [hk, ← Nat.pow_add, Nat.log_pow (by omega)]
    exact pow_dvd_pow 2 (by omega)

/-- Rounding yields at most 53 significant bits. -/
theorem representable_roundUnits {p q : ℕ} (hlt : roundUnits p q < overflow) :
    Representable (roundUnits p q) := by
  refine representable_mul_pow ?_ hlt
  generalize he : Nat.log 2 (p / q) - 52 = e
  have hquot : p / (q * 2 ^ e) < 2 ^ 53 := by
    rw [← Nat.div_div_eq_div_mul, Nat.div_lt_iff_lt_mul (by positivity), ← Nat.pow_add]
    have hlt := Nat.lt_pow_succ_log_self (by omega : 1 < 2) (p / q)
    exact hlt.trans_le (Nat.pow_le_pow_right (by omega) (by omega))
  have hle := halfEven_le p (q * 2 ^ e)
  omega

/-- The number nearest to a signed quotient of units; `none` when it overflows. -/
def round (negative : Bool) (p q : ℕ) : Option Binary64 :=
  if h : roundUnits p q < overflow then some ⟨negative, roundUnits p q, representable_roundUnits h⟩
  else none

/-- A quotient that is a representable magnitude is not changed. -/
theorem round_eq_some {negative : Bool} {p q : ℕ} {x : Binary64} (hround : roundUnits p q = x.units)
    (hsign : x.negative = negative) : round negative p q = some x := by
  have hlt := x.representable.1
  obtain ⟨sign, units, hunits⟩ := x
  simp only at hround hsign hlt
  subst hsign
  rw [round, dif_pos (by rw [hround]; exact hlt)]
  simp [hround]

/-- The units of one. -/
@[irreducible] def one : ℕ := 2 ^ 1074

theorem one_pos : 0 < one := by
  unfold one
  positivity

theorem one_le : one ≤ 2 ^ 1074 := by
  unfold one
  exact le_rfl

/-- `Number(n)` for an integer. -/
def ofInt (n : ℤ) : Option Binary64 := round (n < 0) (n.natAbs * one) 1

/-- The integer a number is, when it is one. -/
def toInt (x : Binary64) : Option ℤ :=
  if x.units % one = 0 then
    some (if x.negative then -((x.units / one : ℕ) : ℤ) else (x.units / one : ℕ))
  else none

/-- The number `n`, when it is exact: `BigInt(Number(n)) === n`. -/
def exactInteger (n : ℤ) : Option Binary64 :=
  (ofInt n).filter fun x => x.toInt = some n

/-- The integer of a number determines its magnitude and, but for zero, its sign. -/
theorem toInt_eq_some {x : Binary64} {n : ℤ} (h : x.toInt = some n) :
    x.units = n.natAbs * one ∧ (x.units ≠ 0 → x.negative = decide (n < 0)) := by
  unfold toInt at h
  split at h
  case isFalse => simp at h
  case isTrue hmod =>
    have hunits : x.units / one * one = x.units := Nat.div_mul_cancel (Nat.dvd_of_mod_eq_zero hmod)
    rw [Option.some.injEq] at h
    generalize x.units / one = k at h hunits
    cases hneg : x.negative with
    | true =>
      simp only [hneg, if_true] at h
      refine ⟨by rw [← hunits, show n.natAbs = k by omega], fun hne => ?_⟩
      have hk : k ≠ 0 := by
        rintro rfl
        exact hne (by rw [← hunits, Nat.zero_mul])
      rw [eq_comm, decide_eq_true_eq]
      omega
    | false =>
      simp only [hneg, Bool.false_eq_true, if_false] at h
      refine ⟨by rw [← hunits, show n.natAbs = k by omega], fun hne => ?_⟩
      rw [eq_comm, decide_eq_false_iff_not]
      omega

/-- An integer is exact as the numbers that have its value, except negative zero. -/
theorem exactInteger_eq_some_iff {n : ℤ} {x : Binary64} :
    exactInteger n = some x ↔ x.toInt = some n ∧ (x.units = 0 → x.negative = false) := by
  rw [exactInteger, Option.filter_eq_some_iff]
  constructor
  · rintro ⟨hround, htoInt⟩
    have htoInt : x.toInt = some n := of_decide_eq_true htoInt
    refine ⟨htoInt, fun hzero => ?_⟩
    have hunits := (toInt_eq_some htoInt).1
    have hn : n = 0 := by
      rw [hzero, eq_comm, Nat.mul_eq_zero] at hunits
      exact Int.natAbs_eq_zero.mp (hunits.resolve_right one_pos.ne')
    unfold ofInt round at hround
    split at hround
    · rw [Option.some.injEq] at hround
      simp [← hround, hn]
    · simp at hround
  · rintro ⟨htoInt, hzero⟩
    obtain ⟨hunits, hsign⟩ := toInt_eq_some htoInt
    refine ⟨?_, decide_eq_true htoInt⟩
    refine round_eq_some ?_ ?_
    · have hround := roundUnits_mul x.representable Nat.one_pos
      rw [Nat.mul_one] at hround
      rw [← hunits, hround]
    · by_cases hz : x.units = 0
      · have hn : ¬ n < 0 := by
          rw [hz, eq_comm, Nat.mul_eq_zero] at hunits
          rw [Int.natAbs_eq_zero.mp (hunits.resolve_right one_pos.ne')]
          exact lt_irrefl 0
        rw [hzero hz, decide_eq_false hn]
      · exact hsign hz

theorem representable_mul_one {n : ℕ} (hn : n ≤ 2 ^ 53) : Representable (n * one) := by
  unfold one
  refine representable_mul_pow hn ?_
  calc n * 2 ^ 1074 ≤ 2 ^ 53 * 2 ^ 1074 := Nat.mul_le_mul_right _ hn
    _ = 2 ^ (53 + 1074) := (Nat.pow_add _ _ _).symm
    _ < 2 ^ 1128 := pow_lt_pow_right₀ one_lt_two (by decide)
    _ ≤ overflow := two_pow_le_overflow (by omega)

theorem zero_le_limit : 0 ≤ 2 ^ 53 := Nat.zero_le _

theorem one_le_limit : 1 ≤ 2 ^ 53 := Nat.one_le_two_pow

/-- The number of an integer up to `2 ^ 53`. -/
def natural (n : ℕ) (hn : n ≤ 2 ^ 53) : Binary64 := ⟨false, n * one, representable_mul_one hn⟩

@[simp] theorem toInt_natural {n : ℕ} (hn : n ≤ 2 ^ 53) : (natural n hn).toInt = some (n : ℤ) := by
  simp [toInt, natural, one_pos]

/-- Integers up to `2 ^ 53` are exact. -/
theorem exactInteger_isSome {n : ℕ} (hn : n ≤ 2 ^ 53) : (exactInteger n).isSome := by
  rw [Option.isSome_iff_exists]
  exact ⟨natural n hn, exactInteger_eq_some_iff.mpr ⟨toInt_natural hn, fun _ => rfl⟩⟩

/-- A binary interchange format whose finite numbers are binary64 numbers: the
widths of its two fields, and its least positive magnitude as `2 ^ scale` units. -/
structure Format where
  bits : ℕ
  exponentBits : ℕ
  scale : ℕ
  bits_le : bits ≤ 52
  range_le : bits + 1 + (scale + (2 ^ exponentBits - 3)) ≤ 2098

/-- The half, single and double formats. -/
def half : Format := ⟨10, 5, 1050, by decide, by decide⟩

@[inherit_doc half] def single : Format := ⟨23, 8, 925, by decide, by decide⟩

@[inherit_doc half] def double : Format := ⟨52, 11, 0, by decide, by decide⟩

namespace Format

/-- The magnitude with the given fields. -/
def units (f : Format) (exponent fraction : ℕ) : ℕ :=
  if exponent = 0 then fraction * 2 ^ f.scale
  else (2 ^ f.bits + fraction) * 2 ^ (f.scale + (exponent - 1))

theorem representable_units (f : Format) {exponent fraction : ℕ}
    (hexponent : exponent < 2 ^ f.exponentBits - 1) (hfraction : fraction < 2 ^ f.bits) :
    Representable (f.units exponent fraction) := by
  have hbits : 2 ^ f.bits ≤ 2 ^ 52 := Nat.pow_le_pow_right (by omega) f.bits_le
  have hrange := f.range_le
  have hexp : 2 ≤ 2 ^ f.exponentBits := by omega
  have hfit : ∀ k e, k < 2 ^ (f.bits + 1) → e ≤ f.scale + (2 ^ f.exponentBits - 3) →
      Representable (k * 2 ^ e) := by
    intro k e hk he
    rw [Nat.pow_succ] at hk
    refine representable_mul_pow (by omega) ?_
    calc k * 2 ^ e < 2 ^ (f.bits + 1) * 2 ^ e :=
          Nat.mul_lt_mul_of_pos_right (by rw [Nat.pow_succ]; exact hk) (by positivity)
      _ = 2 ^ (f.bits + 1 + e) := by rw [← Nat.pow_add]
      _ ≤ overflow := two_pow_le_overflow (by omega)
  have hsucc := Nat.pow_succ 2 f.bits
  unfold units
  split
  · exact hfit fraction f.scale (by omega) (by omega)
  · exact hfit _ _ (by omega) (by omega)

/-- The number a word of the format stands for; `none` for infinities and NaNs. -/
def decode (f : Format) (word : ℕ) : Option Binary64 :=
  if h : word / 2 ^ f.bits % 2 ^ f.exponentBits < 2 ^ f.exponentBits - 1 then
    some ⟨word / 2 ^ (f.bits + f.exponentBits) % 2 = 1,
      f.units (word / 2 ^ f.bits % 2 ^ f.exponentBits) (word % 2 ^ f.bits),
      f.representable_units h (Nat.mod_lt _ (by positivity))⟩
  else none

end Format

end Binary64

end Kdna

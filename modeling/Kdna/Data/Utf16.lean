import Mathlib.Data.List.Basic

/-!
# UTF-16 code units

The texts of the language are sequences of 16-bit code units. A sequence that
pairs all its surrogates is the sequence of exactly one list of scalar values.
-/

namespace Kdna.Utf16

/-- The code units of a scalar value. -/
def units (c : Char) : List ℕ :=
  if c.toNat < 0x10000 then [c.toNat]
  else [0xD800 + (c.toNat - 0x10000) / 0x400, 0xDC00 + (c.toNat - 0x10000) % 0x400]

/-- The code units of a list of scalar values. -/
def encode (cs : List Char) : List ℕ := cs.flatMap units

/-- A leading surrogate. -/
def isHigh (n : ℕ) : Bool := 0xD800 ≤ n && n ≤ 0xDBFF

/-- A trailing surrogate. -/
def isLow (n : ℕ) : Bool := 0xDC00 ≤ n && n ≤ 0xDFFF

/-- The scalar value of a surrogate pair. -/
def pair (high low : ℕ) : Char := Char.ofNat (0x10000 + (high - 0xD800) * 0x400 + (low - 0xDC00))

/-- The scalar values of code units; `none` for an unpaired surrogate. -/
def decode : List ℕ → Option (List Char)
  | [] => some []
  | [n] => if isHigh n || isLow n || 0xFFFF < n then none else some [Char.ofNat n]
  | n :: m :: ns =>
    if isHigh n then
      if isLow m then (decode ns).map (pair n m :: ·) else none
    else if isLow n || 0xFFFF < n then none
    else (decode (m :: ns)).map (Char.ofNat n :: ·)

@[simp] theorem encode_nil : encode [] = [] := rfl

@[simp] theorem encode_cons (c : Char) (cs : List Char) :
    encode (c :: cs) = units c ++ encode cs := rfl

/-- The bounds of a scalar value. -/
theorem scalar_bounds (c : Char) :
    c.toNat < 0xD800 ∨ 0xDFFF < c.toNat ∧ c.toNat < 0x110000 := c.valid

private theorem toNat_ofNat {n : ℕ} (h : n < 0xD800 ∨ 0xDFFF < n ∧ n < 0x110000) :
    (Char.ofNat n).toNat = n := by
  unfold Char.ofNat
  rw [dif_pos h]
  rfl

/-- A surrogate pair has the code units it was made of. -/
theorem units_pair {n m : ℕ} (hn : isHigh n) (hm : isLow m) : units (pair n m) = [n, m] := by
  simp only [isHigh, isLow, Bool.and_eq_true, decide_eq_true_eq] at hn hm
  have hpair : (pair n m).toNat = 0x10000 + (n - 0xD800) * 0x400 + (m - 0xDC00) :=
    toNat_ofNat (by omega)
  have hquot : (0x10000 + (n - 0xD800) * 0x400 + (m - 0xDC00) - 0x10000) / 0x400 = n - 0xD800 := by
    omega
  have hrest : (0x10000 + (n - 0xD800) * 0x400 + (m - 0xDC00) - 0x10000) % 0x400 = m - 0xDC00 := by
    omega
  rw [units, hpair, if_neg (by omega), hquot, hrest, Nat.add_sub_cancel' hn.1,
    Nat.add_sub_cancel' hm.1]

/-- A code unit that is no surrogate is the only one of its scalar value. -/
theorem units_ofNat {n : ℕ} (hhigh : ¬ isHigh n) (hlow : ¬ isLow n) (hn : n ≤ 0xFFFF) :
    units (Char.ofNat n) = [n] := by
  simp only [isHigh, isLow, Bool.and_eq_true, decide_eq_true_eq] at hhigh hlow
  rw [units, toNat_ofNat (by omega), if_pos (by omega)]

/-- The code units of a scalar value are read back, whatever follows them. -/
theorem decode_units_append (c : Char) (ns : List ℕ) :
    decode (units c ++ ns) = (decode ns).map (c :: ·) := by
  have hc := scalar_bounds c
  have hofNat : Char.ofNat c.toNat = c := Char.ofNat_toNat c
  unfold units
  split
  case isTrue hlt =>
    have hhigh : isHigh c.toNat = false := by simp [isHigh]; omega
    have hlow : isLow c.toNat = false := by simp [isLow]; omega
    have hle : ¬ 0xFFFF < c.toNat := by omega
    cases ns with
    | nil => simp [decode, hhigh, hlow, hle, hofNat]
    | cons m ns => simp [decode, hhigh, hlow, hle, hofNat]
  case isFalse hge =>
    have hdiv := Nat.div_add_mod (c.toNat - 0x10000) 0x400
    have hmod := Nat.mod_lt (c.toNat - 0x10000) (by omega : 0 < 0x400)
    generalize (c.toNat - 0x10000) / 0x400 = q at *
    generalize (c.toNat - 0x10000) % 0x400 = s at *
    have hhigh : isHigh (0xD800 + q) = true := by simp [isHigh]; omega
    have hlow : isLow (0xDC00 + s) = true := by simp [isLow]; omega
    have hpair : pair (0xD800 + q) (0xDC00 + s) = c := by
      have hsum : 0x10000 + (0xD800 + q - 0xD800) * 0x400 + (0xDC00 + s - 0xDC00) = c.toNat := by
        omega
      rw [pair, hsum, hofNat]
    simp [decode, hhigh, hlow, hpair]

/-- Exactly the sequences of code units of scalar values are decoded. -/
theorem decode_eq_some_iff {ns : List ℕ} {cs : List Char} : decode ns = some cs ↔ encode cs = ns := by
  constructor
  · intro h
    induction ns using decode.induct generalizing cs with
    | case1 =>
      obtain rfl := Option.some.inj h
      rfl
    | case2 n hn =>
      rw [decode, if_pos hn] at h
      cases h
    | case3 n hn =>
      rw [decode, if_neg hn] at h
      simp only [Bool.or_eq_true, decide_eq_true_eq, not_or] at hn
      obtain rfl := Option.some.inj h
      rw [encode_cons, units_ofNat hn.1.1 hn.1.2 (Nat.le_of_not_lt hn.2)]
      rfl
    | case4 n m ns hn hm ih =>
      rw [decode, if_pos hn, if_pos hm, Option.map_eq_some_iff] at h
      obtain ⟨ds, hds, rfl⟩ := h
      rw [encode_cons, units_pair hn hm, ih hds]
      rfl
    | case5 n m ns hn hm =>
      rw [decode, if_pos hn, if_neg hm] at h
      cases h
    | case6 n m ns hn hm =>
      rw [decode, if_neg hn, if_pos hm] at h
      cases h
    | case7 n m ns hn hm ih =>
      rw [decode, if_neg hn, if_neg hm, Option.map_eq_some_iff] at h
      obtain ⟨ds, hds, rfl⟩ := h
      simp only [Bool.or_eq_true, decide_eq_true_eq, not_or] at hm
      rw [encode_cons, units_ofNat hn hm.1 (Nat.le_of_not_lt hm.2), ih hds]
      rfl
  · rintro rfl
    induction cs with
    | nil => rfl
    | cons c cs ih => rw [encode_cons, decode_units_append, ih, Option.map_some]

/-- Distinct texts have distinct code units. -/
theorem encode_injective : Function.Injective encode := by
  intro cs ds h
  exact Option.some.inj ((decode_eq_some_iff.mpr h).symm.trans (decode_eq_some_iff.mpr rfl))

end Kdna.Utf16

import Mathlib.Data.List.Basic
import Mathlib.Data.Nat.Bitwise

/-!
# Byte strings and fixed-width words

Binary formats are lists of octets addressed by offset. A word of any width is
its base-256 digit list; the two byte orders differ by a reversal. Offsets into
a concatenation are resolved by `slice_append_right` and `slice_append_left`.
-/

namespace Kdna

/-- A byte string. -/
abbrev Bytes := List UInt8

namespace Bytes

/-- The `count` octets starting at offset `start`, cut at the end of the input. -/
def slice (b : Bytes) (start count : ℕ) : Bytes := (b.drop start).take count

/-- The value of a little-endian word. -/
def leValue : Bytes → ℕ
  | [] => 0
  | d :: ds => d.toNat + 256 * leValue ds

/-- The little-endian word of the given width; higher digits are dropped. -/
def leWord : ℕ → ℕ → Bytes
  | 0, _ => []
  | width + 1, n => UInt8.ofNat n :: leWord width (n / 256)

/-- The value of a big-endian word. -/
def beValue (b : Bytes) : ℕ := leValue b.reverse

/-- The big-endian word of the given width; higher digits are dropped. -/
def beWord (width n : ℕ) : Bytes := (leWord width n).reverse

/-- A word has exactly its width in octets. -/
@[simp] theorem length_leWord (width n : ℕ) : (leWord width n).length = width := by
  induction width generalizing n with
  | zero => rfl
  | succ width ih => simp [leWord, ih]

/-- A big-endian word has exactly its width in octets. -/
@[simp] theorem length_beWord (width n : ℕ) : (beWord width n).length = width := by
  simp [beWord]

/-- Reading a word back gives its value reduced to the width. -/
theorem leValue_leWord (width n : ℕ) : leValue (leWord width n) = n % 256 ^ width := by
  induction width generalizing n with
  | zero => simp [leWord, leValue, Nat.mod_one]
  | succ width ih =>
    rw [leWord, leValue, ih, Nat.pow_succ', Nat.mod_mul]
    simp [UInt8.toNat_ofNat']

/-- A value that fits its width is read back unchanged. -/
theorem leValue_leWord_of_lt {width n : ℕ} (h : n < 256 ^ width) :
    leValue (leWord width n) = n := by
  rw [leValue_leWord, Nat.mod_eq_of_lt h]

/-- A big-endian value that fits its width is read back unchanged. -/
theorem beValue_beWord_of_lt {width n : ℕ} (h : n < 256 ^ width) :
    beValue (beWord width n) = n := by
  rw [beValue, beWord, List.reverse_reverse, leValue_leWord_of_lt h]

/-- A word read from `b` is smaller than `256` to its length. -/
theorem leValue_lt (b : Bytes) : leValue b < 256 ^ b.length := by
  induction b with
  | nil => simp [leValue]
  | cons d ds ih =>
    have hd := d.toNat_lt
    simp only [leValue, List.length_cons, Nat.pow_succ']
    omega

/-- A big-endian word is smaller than `256` to its length. -/
theorem beValue_lt (b : Bytes) : beValue b < 256 ^ b.length := by
  simpa [beValue] using leValue_lt b.reverse

/-- Writing a word that was read gives the same octets. -/
theorem leWord_leValue (b : Bytes) : leWord b.length (leValue b) = b := by
  induction b with
  | nil => rfl
  | cons d ds ih =>
    have hd := d.toNat_lt
    have hmod : (d.toNat + 256 * leValue ds) % 256 = d.toNat := by omega
    have hdiv : (d.toNat + 256 * leValue ds) / 256 = leValue ds := by omega
    rw [List.length_cons, leValue, leWord, hdiv, ih]
    congr 1
    apply UInt8.toNat_inj.mp
    rw [UInt8.toNat_ofNat', hmod]

/-- Writing a big-endian word that was read gives the same octets. -/
theorem beWord_beValue (b : Bytes) : beWord b.length (beValue b) = b := by
  have h := leWord_leValue b.reverse
  rw [List.length_reverse] at h
  rw [beWord, beValue, h, List.reverse_reverse]

/-- A slice that stays inside the input has the requested length. -/
theorem length_slice {b : Bytes} {start count : ℕ} (h : start + count ≤ b.length) :
    (slice b start count).length = count := by
  simp only [slice, List.length_take, List.length_drop]
  omega

/-- A slice never exceeds the requested length. -/
theorem length_slice_le (b : Bytes) (start count : ℕ) : (slice b start count).length ≤ count := by
  simp only [slice, List.length_take]
  omega

/-- The first octets of a concatenation. -/
@[simp] theorem slice_zero_append (b c : Bytes) : slice (b ++ c) 0 b.length = b := by
  simp [slice]

/-- An offset past a prefix addresses the rest. -/
theorem slice_append_right (b c : Bytes) (start count : ℕ) :
    slice (b ++ c) (b.length + start) count = slice c start count := by
  simp only [slice, List.drop_append]
  congr 1
  simp

/-- A slice inside a prefix does not see what follows it. -/
theorem slice_append_left {b : Bytes} (c : Bytes) {start count : ℕ}
    (h : start + count ≤ b.length) : slice (b ++ c) start count = slice b start count := by
  have hstart : start ≤ b.length := by omega
  have hcount : count ≤ (b.drop start).length := by
    simp only [List.length_drop]
    omega
  rw [slice, slice, List.drop_append_of_le_length hstart, List.take_append_of_le_length hcount]

/-- A piece of a concatenation is found at the length of what precedes it. -/
theorem slice_append_mid (a b c : Bytes) : slice (a ++ (b ++ c)) a.length b.length = b := by
  have h := slice_append_right a (b ++ c) 0 b.length
  simpa using h

/-- A slice of a slice, when it stays inside. -/
theorem slice_slice {b : Bytes} {start count at' n : ℕ} (h : at' + n ≤ count) :
    slice (slice b start count) at' n = slice b (start + at') n := by
  simp only [slice, List.drop_take, List.take_take, List.drop_drop]
  congr 1
  omega

end Bytes

end Kdna

import Kdna.Data.Bytes
import Kdna.Data.Utf8
import Mathlib.Computability.Language
import Mathlib.Data.List.Basic

/-!
# The portable base64 codec

`b64Encode` and `decode64Bytes` of `protection-envelope-codec.js` on the code units of a text. The
decoder collects bits and compares what it would encode with what it was given. It accepts exactly
the texts of the encoder, and with the padded alphabet exactly the language of the pattern of a
ciphertext.
-/

namespace Kdna.Base64

/-- The code units of a text of ASCII. -/
def codes (text : String) : List ℕ := text.toList.map Char.toNat

/-- `B64_ALPHABETS`, with `url` for the second. -/
def alphabet (url : Bool) : List ℕ :=
  if url then codes "ABCDEFGHIJKLMNOPQRSTUVWXYZabcdefghijklmnopqrstuvwxyz0123456789-_"
  else codes "ABCDEFGHIJKLMNOPQRSTUVWXYZabcdefghijklmnopqrstuvwxyz0123456789+/"

/-- `alphabet[v]` -/
def letter (url : Bool) (v : ℕ) : ℕ := (alphabet url).getD v 0

/-- `map[code]`, with `none` for -1 and beyond the map. -/
def value? (url : Bool) (code : ℕ) : Option ℕ :=
  if code < 128 then (alphabet url).idxOf? code else none

/-- The code unit of the padding. -/
def pad : ℕ := 61

/-- The padding of the first alphabet. -/
def padding (url : Bool) (count : ℕ) : List ℕ := if url then [] else List.replicate count pad

/-- `b64Encode(bytes, url)` -/
def b64Encode (url : Bool) : Bytes → List ℕ
  | [] => []
  | [b0] => letter url (b0.toNat >>> 2) :: letter url ((b0.toNat &&& 3) <<< 4 ||| 0) :: padding url 2
  | [b0, b1] => letter url (b0.toNat >>> 2) ::
      letter url ((b0.toNat &&& 3) <<< 4 ||| b1.toNat >>> 4) ::
        letter url ((b1.toNat &&& 15) <<< 2 ||| 0) :: padding url 1
  | b0 :: b1 :: b2 :: bytes => letter url (b0.toNat >>> 2) ::
      letter url ((b0.toNat &&& 3) <<< 4 ||| b1.toNat >>> 4) ::
        letter url ((b1.toNat &&& 15) <<< 2 ||| b2.toNat >>> 6) :: letter url (b2.toNat &&& 63) ::
          b64Encode url bytes

/-- The variables of the loop of `decode64Bytes`. -/
structure Scan where
  out : Bytes
  acc : ℕ
  bits : ℕ
  padded : Bool

/-- One code unit. -/
def Scan.step (url : Bool) (s : Scan) (code : ℕ) : Option Scan :=
  if code = pad then some { s with padded := true }
  else if s.padded then none
  else do
    let v ← value? url code
    let acc := (s.acc <<< 6 ||| v) &&& 0xFFFFFF
    let bits := s.bits + 6
    if 8 ≤ bits then
      return ⟨s.out ++ [UInt8.ofNat ((acc >>> (bits - 8)) &&& 0xFF)], acc, bits - 8, s.padded⟩
    else return ⟨s.out, acc, bits, s.padded⟩

/-- `decode64Bytes(value, length, url)` -/
def decode64Bytes (value : List ℕ) (length : Option ℕ) (url : Bool) : Option Bytes := do
  guard (value.length % 4 ≠ 1)
  let s ← value.foldlM (Scan.step url) ⟨[], 0, 0, false⟩
  guard (b64Encode url s.out = value)
  guard (∀ n ∈ length, s.out.length = n)
  return s.out

section Letters

variable {url : Bool} {v w : ℕ}

/-- The alphabet by its ranges. -/
theorem alphabet_eq (url : Bool) : alphabet url =
    List.range' 65 26 ++ List.range' 97 26 ++ List.range' 48 10 ++
      if url then [45, 95] else [43, 47] := by
  unfold alphabet codes
  simp only [toList_eq_quickToList]
  cases url <;> decide

theorem length_alphabet (url : Bool) : (alphabet url).length = 64 := by
  rw [alphabet_eq]
  cases url <;> rfl

theorem nodup_alphabet (url : Bool) : (alphabet url).Nodup := by
  rw [alphabet_eq]
  cases url <;> decide

theorem alphabet_bounds (url : Bool) : ∀ c ∈ alphabet url, c < 128 ∧ c ≠ pad := by
  rw [alphabet_eq]
  cases url <;> decide

theorem letter_eq_getElem (hv : v < (alphabet url).length) : letter url v = (alphabet url)[v] :=
  List.getD_eq_getElem _ _ hv

theorem letter_mem (hv : v < 64) : letter url v ∈ alphabet url := by
  rw [letter_eq_getElem (by rwa [length_alphabet])]
  exact List.getElem_mem _

theorem letter_ne_pad (hv : v < 64) : letter url v ≠ pad :=
  (alphabet_bounds url _ (letter_mem hv)).2

theorem value?_letter (hv : v < 64) : value? url (letter url v) = some v := by
  have hlength : v < (alphabet url).length := by rwa [length_alphabet]
  rw [value?, if_pos (alphabet_bounds url _ (letter_mem hv)).1, letter_eq_getElem hlength,
    List.idxOf?_eq_some_iff]
  refine ⟨hlength, rfl, fun j hj heq => ?_⟩
  exact hj.ne ((nodup_alphabet url).getElem_inj_iff.mp heq)

theorem exists_letter {c : ℕ} (hc : c ∈ alphabet url) : ∃ v < 64, letter url v = c := by
  obtain ⟨v, hv, rfl⟩ := List.getElem_of_mem hc
  exact ⟨v, by rwa [length_alphabet] at hv, letter_eq_getElem hv⟩

end Letters

section Bits

variable {url : Bool} {v : ℕ}

theorem or_eq_add {n : ℕ} (a : ℕ) (hv : v < 2 ^ n) : a <<< n ||| v = a * 2 ^ n + v := by
  rw [← Nat.shiftLeft_add_eq_or_of_lt hv, Nat.shiftLeft_eq]

/-- A letter enters the collected bits. -/
theorem step_letter (s : Scan) (hpadded : s.padded = false) (hv : v < 64) :
    s.step url (letter url v) = some (if 8 ≤ s.bits + 6 then
      ⟨s.out ++ [UInt8.ofNat ((s.acc * 64 + v) % 2 ^ 24 / 2 ^ (s.bits + 6 - 8) % 256)],
        (s.acc * 64 + v) % 2 ^ 24, s.bits + 6 - 8, false⟩
      else ⟨s.out, (s.acc * 64 + v) % 2 ^ 24, s.bits + 6, false⟩) := by
  have hmask (n : ℕ) : n &&& 0xFFFFFF = n % 2 ^ 24 := Nat.and_two_pow_sub_one_eq_mod n 24
  have hbyte (n : ℕ) : n &&& 0xFF = n % 256 := Nat.and_two_pow_sub_one_eq_mod n 8
  have hor : s.acc <<< 6 ||| v = s.acc * 64 + v := or_eq_add s.acc (n := 6) hv
  rw [Scan.step, if_neg (letter_ne_pad hv), hpadded, value?_letter hv]
  simp only [Bool.false_eq_true, if_false, Option.bind_eq_bind, Option.bind_some, hor, hmask, hbyte,
    Nat.shiftRight_eq_div_pow]
  split_ifs <;> rfl

end Bits

section Scans

variable (url : Bool) {v v0 v1 v2 v3 acc : ℕ} {b b0 b1 b2 : UInt8}

/-- The first letter of a group fills no octet. -/
theorem step_first (out : Bytes) (acc : ℕ) (hv : v < 64) : ∃ acc', acc' % 64 = v ∧
    Scan.step url ⟨out, acc, 0, false⟩ (letter url v) = some ⟨out, acc', 6, false⟩ :=
  ⟨(acc * 64 + v) % 2 ^ 24, by omega, step_letter _ rfl hv⟩

/-- A letter that fills an octet, with the bits that are left of the letters before. -/
theorem step_fills {bits : ℕ} (out : Bytes) (hv : v < 64) (hbits : 8 ≤ bits + 6) :
    Scan.step url ⟨out, acc, bits, false⟩ (letter url v) =
      some ⟨out ++ [UInt8.ofNat ((acc * 64 + v) % 2 ^ 24 / 2 ^ (bits + 6 - 8) % 256)],
        (acc * 64 + v) % 2 ^ 24, bits + 6 - 8, false⟩ := by
  rw [step_letter _ rfl hv, if_pos hbits]

theorem step_second (out : Bytes) (hacc : acc % 64 = v0) (hv : v < 64)
    (hb : v0 * 4 + v / 16 = b.toNat) : ∃ acc', acc' % 16 = v % 16 ∧
      Scan.step url ⟨out, acc, 6, false⟩ (letter url v) = some ⟨out ++ [b], acc', 4, false⟩ := by
  refine ⟨(acc * 64 + v) % 2 ^ 24, by omega, ?_⟩
  have hoctet : (acc * 64 + v) % 2 ^ 24 / 2 ^ (6 + 6 - 8) % 256 = b.toNat := by omega
  rw [step_fills url out hv (by decide), hoctet, UInt8.ofNat_toNat]

theorem step_third (out : Bytes) (hacc : acc % 16 = v1 % 16) (hv : v < 64)
    (hb : v1 % 16 * 16 + v / 4 = b.toNat) : ∃ acc', acc' % 4 = v % 4 ∧
      Scan.step url ⟨out, acc, 4, false⟩ (letter url v) = some ⟨out ++ [b], acc', 2, false⟩ := by
  refine ⟨(acc * 64 + v) % 2 ^ 24, by omega, ?_⟩
  have hoctet : (acc * 64 + v) % 2 ^ 24 / 2 ^ (4 + 6 - 8) % 256 = b.toNat := by omega
  rw [step_fills url out hv (by decide), hoctet, UInt8.ofNat_toNat]

theorem step_fourth (out : Bytes) (hacc : acc % 4 = v2 % 4) (hv : v < 64)
    (hb : v2 % 4 * 64 + v = b.toNat) : ∃ acc',
      Scan.step url ⟨out, acc, 2, false⟩ (letter url v) = some ⟨out ++ [b], acc', 0, false⟩ := by
  refine ⟨(acc * 64 + v) % 2 ^ 24, ?_⟩
  have hoctet : (acc * 64 + v) % 2 ^ 24 / 2 ^ (2 + 6 - 8) % 256 = b.toNat := by omega
  rw [step_fills url out hv (by decide), hoctet, UInt8.ofNat_toNat]

/-- Padding is taken at any time and fills nothing. -/
theorem scan_padding (s : Scan) (count : ℕ) : ∃ t : Scan, t.out = s.out ∧
    (padding url count).foldlM (Scan.step url) s = some t := by
  cases url with
  | true => exact ⟨s, rfl, rfl⟩
  | false =>
    induction count generalizing s with
    | zero => exact ⟨s, rfl, rfl⟩
    | succ count ih =>
      obtain ⟨t, hout, ht⟩ := ih { s with padded := true }
      exact ⟨t, hout, ht⟩

/-- Two letters fill an octet, three fill two and four fill three. -/
theorem scan_two (out : Bytes) (acc : ℕ) (h0 : v0 < 64) (h1 : v1 < 64)
    (hb0 : v0 * 4 + v1 / 16 = b0.toNat) (rest : List ℕ) : ∃ acc', acc' % 16 = v1 % 16 ∧
      (letter url v0 :: letter url v1 :: rest).foldlM (Scan.step url) ⟨out, acc, 0, false⟩ =
        rest.foldlM (Scan.step url) ⟨out ++ [b0], acc', 4, false⟩ := by
  obtain ⟨acc, hacc, hfirst⟩ := step_first url out acc h0
  obtain ⟨acc, hacc, hsecond⟩ := step_second url out hacc h1 hb0
  refine ⟨acc, hacc, ?_⟩
  rw [List.foldlM_cons, hfirst, Option.bind_eq_bind, Option.bind_some, List.foldlM_cons, hsecond]
  rfl

theorem scan_three (out : Bytes) (acc : ℕ) (h0 : v0 < 64) (h1 : v1 < 64) (h2 : v2 < 64)
    (hb0 : v0 * 4 + v1 / 16 = b0.toNat) (hb1 : v1 % 16 * 16 + v2 / 4 = b1.toNat) (rest : List ℕ) :
    ∃ acc', acc' % 4 = v2 % 4 ∧
      (letter url v0 :: letter url v1 :: letter url v2 :: rest).foldlM (Scan.step url)
        ⟨out, acc, 0, false⟩ =
          rest.foldlM (Scan.step url) ⟨out ++ [b0, b1], acc', 2, false⟩ := by
  obtain ⟨acc, hacc, htwo⟩ := scan_two url out acc h0 h1 hb0 (letter url v2 :: rest)
  obtain ⟨acc, hacc, hthird⟩ := step_third url (out ++ [b0]) hacc h2 hb1
  refine ⟨acc, hacc, ?_⟩
  rw [htwo, List.foldlM_cons, hthird, Option.bind_eq_bind, Option.bind_some, List.append_assoc]
  rfl

theorem scan_four (out : Bytes) (acc : ℕ) (h0 : v0 < 64) (h1 : v1 < 64) (h2 : v2 < 64)
    (h3 : v3 < 64) (hb0 : v0 * 4 + v1 / 16 = b0.toNat) (hb1 : v1 % 16 * 16 + v2 / 4 = b1.toNat)
    (hb2 : v2 % 4 * 64 + v3 = b2.toNat) (rest : List ℕ) : ∃ acc',
      (letter url v0 :: letter url v1 :: letter url v2 :: letter url v3 :: rest).foldlM
        (Scan.step url) ⟨out, acc, 0, false⟩ =
          rest.foldlM (Scan.step url) ⟨out ++ [b0, b1, b2], acc', 0, false⟩ := by
  obtain ⟨acc, hacc, hthree⟩ :=
    scan_three url out acc h0 h1 h2 hb0 hb1 (letter url v3 :: rest)
  obtain ⟨acc, hfourth⟩ := step_fourth url (out ++ [b0, b1]) hacc h3 hb2
  refine ⟨acc, ?_⟩
  rw [hthree, List.foldlM_cons, hfourth, Option.bind_eq_bind, Option.bind_some, List.append_assoc]
  rfl

end Scans

section Groups

variable {url : Bool} {v0 v1 v2 v3 : ℕ}

theorem b64Encode_one (url : Bool) (b0 : UInt8) : b64Encode url [b0] =
    letter url (b0.toNat / 4) :: letter url (b0.toNat % 4 * 16) :: padding url 2 := by
  have hlow : b0.toNat &&& 3 = b0.toNat % 4 := Nat.and_two_pow_sub_one_eq_mod _ 2
  rw [b64Encode, hlow, Nat.or_zero, Nat.shiftRight_eq_div_pow, Nat.shiftLeft_eq]

theorem b64Encode_two (url : Bool) (b0 b1 : UInt8) : b64Encode url [b0, b1] =
    letter url (b0.toNat / 4) :: letter url (b0.toNat % 4 * 16 + b1.toNat / 16) ::
      letter url (b1.toNat % 16 * 4) :: padding url 1 := by
  have hlow : b0.toNat &&& 3 = b0.toNat % 4 := Nat.and_two_pow_sub_one_eq_mod _ 2
  have hhalf : b1.toNat &&& 15 = b1.toNat % 16 := Nat.and_two_pow_sub_one_eq_mod _ 4
  have hbound : b1.toNat / 16 < 2 ^ 4 := by
    have hlt := b1.toNat_lt
    omega
  rw [b64Encode, hlow, hhalf, Nat.or_zero]
  simp only [Nat.shiftRight_eq_div_pow]
  rw [or_eq_add _ hbound, Nat.shiftLeft_eq]
  rfl

theorem b64Encode_three (url : Bool) (b0 b1 b2 : UInt8) (bytes : Bytes) :
    b64Encode url (b0 :: b1 :: b2 :: bytes) =
      letter url (b0.toNat / 4) :: letter url (b0.toNat % 4 * 16 + b1.toNat / 16) ::
        letter url (b1.toNat % 16 * 4 + b2.toNat / 64) :: letter url (b2.toNat % 64) ::
          b64Encode url bytes := by
  have hlow : b0.toNat &&& 3 = b0.toNat % 4 := Nat.and_two_pow_sub_one_eq_mod _ 2
  have hhalf : b1.toNat &&& 15 = b1.toNat % 16 := Nat.and_two_pow_sub_one_eq_mod _ 4
  have hlast : b2.toNat &&& 63 = b2.toNat % 64 := Nat.and_two_pow_sub_one_eq_mod _ 6
  have hbound1 : b1.toNat / 2 ^ 4 < 2 ^ 4 := by
    have hlt := b1.toNat_lt
    omega
  have hbound2 : b2.toNat / 2 ^ 6 < 2 ^ 2 := by
    have hlt := b2.toNat_lt
    omega
  rw [b64Encode, hlow, hhalf, hlast]
  simp only [Nat.shiftRight_eq_div_pow]
  rw [or_eq_add _ hbound1, or_eq_add _ hbound2]
  rfl

theorem sextets_lt (b0 b1 b2 : UInt8) : b0.toNat / 4 < 64 ∧ b0.toNat % 4 * 16 + b1.toNat / 16 < 64 ∧
    b1.toNat % 16 * 4 + b2.toNat / 64 < 64 ∧ b2.toNat % 64 < 64 := by
  have hlt0 := b0.toNat_lt
  have hlt1 := b1.toNat_lt
  have hlt2 := b2.toNat_lt
  omega

/-- The loop reads back what is encoded. -/
theorem scan_b64Encode (url : Bool) (bytes out : Bytes) (acc : ℕ) :
    ∃ t : Scan, t.out = out ++ bytes ∧
      (b64Encode url bytes).foldlM (Scan.step url) ⟨out, acc, 0, false⟩ = some t := by
  induction bytes using b64Encode.induct generalizing out acc with
  | case1 => exact ⟨⟨out, acc, 0, false⟩, (List.append_nil out).symm, rfl⟩
  | case2 b0 =>
    have h0 := (sextets_lt b0 b0 b0).1
    have h1 : b0.toNat % 4 * 16 < 64 := by omega
    have hb0 : b0.toNat / 4 * 4 + b0.toNat % 4 * 16 / 16 = b0.toNat := by omega
    obtain ⟨acc', -, hscan⟩ := scan_two url out acc h0 h1 hb0 (padding url 2)
    rw [b64Encode_one, hscan]
    exact scan_padding url ⟨out ++ [b0], acc', 4, false⟩ 2
  | case3 b0 b1 =>
    obtain ⟨h0, h1, -, -⟩ := sextets_lt b0 b1 b1
    have hlt1 := b1.toNat_lt
    have h2 : b1.toNat % 16 * 4 < 64 := by omega
    have hb0 : b0.toNat / 4 * 4 + (b0.toNat % 4 * 16 + b1.toNat / 16) / 16 = b0.toNat := by omega
    have hb1 : (b0.toNat % 4 * 16 + b1.toNat / 16) % 16 * 16 + b1.toNat % 16 * 4 / 4 = b1.toNat := by
      omega
    obtain ⟨acc', -, hscan⟩ := scan_three url out acc h0 h1 h2 hb0 hb1 (padding url 1)
    rw [b64Encode_two, hscan]
    exact scan_padding url ⟨out ++ [b0, b1], acc', 2, false⟩ 1
  | case4 b0 b1 b2 bytes ih =>
    obtain ⟨h0, h1, h2, h3⟩ := sextets_lt b0 b1 b2
    have hlt1 := b1.toNat_lt
    have hlt2 := b2.toNat_lt
    have hb0 : b0.toNat / 4 * 4 + (b0.toNat % 4 * 16 + b1.toNat / 16) / 16 = b0.toNat := by omega
    have hb1 : (b0.toNat % 4 * 16 + b1.toNat / 16) % 16 * 16 +
        (b1.toNat % 16 * 4 + b2.toNat / 64) / 4 = b1.toNat := by omega
    have hb2 : (b1.toNat % 16 * 4 + b2.toNat / 64) % 4 * 64 + b2.toNat % 64 = b2.toNat := by omega
    obtain ⟨acc', hscan⟩ :=
      scan_four url out acc h0 h1 h2 h3 hb0 hb1 hb2 (b64Encode url bytes)
    obtain ⟨t, hout, ht⟩ := ih (out ++ [b0, b1, b2]) acc'
    rw [b64Encode_three, hscan]
    exact ⟨t, by rw [hout, List.append_assoc]; rfl, ht⟩

/-- No text that is encoded is one unit beyond groups of four. -/
theorem length_b64Encode (url : Bool) (bytes : Bytes) : (b64Encode url bytes).length % 4 ≠ 1 := by
  induction bytes using b64Encode.induct with
  | case1 => exact Nat.zero_ne_one
  | case2 b0 =>
    rw [b64Encode_one]
    cases url <;> simp [padding]
  | case3 b0 b1 =>
    rw [b64Encode_two]
    cases url <;> simp [padding]
  | case4 b0 b1 b2 bytes ih =>
    rw [b64Encode_three]
    simp only [List.length_cons]
    omega

/-- The decoder accepts what is encoded, and nothing else. -/
theorem decode64Bytes_eq_some_iff {url : Bool} {value : List ℕ} {length : Option ℕ} {bytes : Bytes} :
    decode64Bytes value length url = some bytes ↔
      b64Encode url bytes = value ∧ ∀ n ∈ length, bytes.length = n := by
  simp only [decode64Bytes, Option.bind_eq_bind, Option.bind_eq_some_iff, Option.guard_eq_some',
    exists_const, Option.pure_def, Option.some.injEq]
  constructor
  · rintro ⟨-, s, -, hvalue, hlength, rfl⟩
    exact ⟨hvalue, hlength⟩
  · rintro ⟨rfl, hlength⟩
    obtain ⟨t, hout, ht⟩ := scan_b64Encode url bytes [] 0
    rw [List.nil_append] at hout
    exact ⟨length_b64Encode url bytes, t, ht, by rw [hout], hout ▸ hlength, hout⟩

theorem exists_octet {n : ℕ} (hn : n < 256) : ∃ b : UInt8, b.toNat = n :=
  ⟨UInt8.ofNat n, by rw [UInt8.toNat_ofNat']; omega⟩

/-- Three octets hold four letters, and two octets and one octet hold what ends in zero bits. -/
theorem exists_four (url : Bool) (h0 : v0 < 64) (h1 : v1 < 64) (h2 : v2 < 64) (h3 : v3 < 64) :
    ∃ b0 b1 b2, ∀ bytes, b64Encode url (b0 :: b1 :: b2 :: bytes) =
      letter url v0 :: letter url v1 :: letter url v2 :: letter url v3 :: b64Encode url bytes := by
  obtain ⟨b0, hb0⟩ := exists_octet (n := v0 * 4 + v1 / 16) (by omega)
  obtain ⟨b1, hb1⟩ := exists_octet (n := v1 % 16 * 16 + v2 / 4) (by omega)
  obtain ⟨b2, hb2⟩ := exists_octet (n := v2 % 4 * 64 + v3) (by omega)
  refine ⟨b0, b1, b2, fun bytes => ?_⟩
  have e0 : b0.toNat / 4 = v0 := by omega
  have e1 : b0.toNat % 4 * 16 + b1.toNat / 16 = v1 := by omega
  have e2 : b1.toNat % 16 * 4 + b2.toNat / 64 = v2 := by omega
  have e3 : b2.toNat % 64 = v3 := by omega
  rw [b64Encode_three, e0, e1, e2, e3]

theorem exists_three (url : Bool) (h0 : v0 < 64) (h1 : v1 < 64) (h2 : v2 < 16) : ∃ b0 b1,
    b64Encode url [b0, b1] =
      letter url v0 :: letter url v1 :: letter url (v2 * 4) :: padding url 1 := by
  obtain ⟨b0, hb0⟩ := exists_octet (n := v0 * 4 + v1 / 16) (by omega)
  obtain ⟨b1, hb1⟩ := exists_octet (n := v1 % 16 * 16 + v2) (by omega)
  have e0 : b0.toNat / 4 = v0 := by omega
  have e1 : b0.toNat % 4 * 16 + b1.toNat / 16 = v1 := by omega
  have e2 : b1.toNat % 16 = v2 := by omega
  exact ⟨b0, b1, by rw [b64Encode_two, e0, e1, e2]⟩

theorem exists_two (url : Bool) (h0 : v0 < 64) (h1 : v1 < 4) : ∃ b0,
    b64Encode url [b0] = letter url v0 :: letter url (v1 * 16) :: padding url 2 := by
  obtain ⟨b0, hb0⟩ := exists_octet (n := v0 * 4 + v1) (by omega)
  have e0 : b0.toNat / 4 = v0 := by omega
  have e1 : b0.toNat % 4 = v1 := by omega
  exact ⟨b0, by rw [b64Encode_one, e0, e1]⟩

end Groups

section Pattern

open Language

variable {l : List ℕ}

/-- A class of characters. -/
def oneOf (cs : List ℕ) : Language ℕ := {l | ∃ c ∈ cs, l = [c]}

/-- `[A-Za-z0-9+/]` -/
def base64Class : Language ℕ :=
  oneOf (List.range' 65 26 ++ List.range' 97 26 ++ List.range' 48 10 ++ [43, 47])

/-- `[AQgw]` -/
def fourClass : Language ℕ := oneOf (codes "AQgw")

/-- `[AEIMQUYcgkosw048]` -/
def sixteenClass : Language ℕ := oneOf (codes "AEIMQUYcgkosw048")

/-- `CIPHERTEXT_PATTERN`: groups of four letters, and one group with padding where the octets do
not fill it. -/
def ciphertextPattern : Language ℕ :=
  KStar.kstar (base64Class ^ 4) *
    (base64Class * fourClass * oneOf [pad] * oneOf [pad] +
      base64Class ^ 2 * sixteenClass * oneOf [pad] + 1)

/-- `envelopeRegExp(CIPHERTEXT_PATTERN).test(value)` -/
def ciphertextTest (value : List ℕ) : Bool := (decode64Bytes value none false).isSome

theorem mem_oneOf_map {n : ℕ} {f : ℕ → ℕ} :
    l ∈ oneOf ((List.range n).map f) ↔ ∃ v < n, l = [f v] := by
  change (∃ c ∈ (List.range n).map f, l = [c]) ↔ _
  simp [List.mem_map, List.mem_range]

theorem mem_base64Class : l ∈ base64Class ↔ ∃ v < 64, l = [letter false v] := by
  have hcodes : List.range' 65 26 ++ List.range' 97 26 ++ List.range' 48 10 ++ [43, 47] =
      (List.range 64).map (letter false) := by
    unfold letter
    rw [alphabet_eq]
    decide
  rw [base64Class, hcodes, mem_oneOf_map]

theorem mem_fourClass : l ∈ fourClass ↔ ∃ v < 4, l = [letter false (v * 16)] := by
  have hcodes : codes "AQgw" = (List.range 4).map fun v => letter false (v * 16) := by
    unfold letter
    rw [alphabet_eq, codes, toList_eq_quickToList]
    decide
  rw [fourClass, hcodes, mem_oneOf_map]

theorem mem_sixteenClass : l ∈ sixteenClass ↔ ∃ v < 16, l = [letter false (v * 4)] := by
  have hcodes : codes "AEIMQUYcgkosw048" = (List.range 16).map fun v => letter false (v * 4) := by
    unfold letter
    rw [alphabet_eq, codes, toList_eq_quickToList]
    decide
  rw [sixteenClass, hcodes, mem_oneOf_map]

theorem mem_pad : l ∈ oneOf [pad] ↔ l = [pad] := by
  change (∃ c ∈ [pad], l = [c]) ↔ _
  simp

/-- Four letters. -/
theorem mem_quad : l ∈ base64Class ^ 4 ↔ ∃ v0 < 64, ∃ v1 < 64, ∃ v2 < 64, ∃ v3 < 64,
    l = [letter false v0, letter false v1, letter false v2, letter false v3] := by
  simp only [pow_succ, pow_zero, one_mul, mem_mul, mem_base64Class]
  constructor
  · rintro ⟨_, ⟨_, ⟨_, ⟨v0, h0, rfl⟩, _, ⟨v1, h1, rfl⟩, rfl⟩, _, ⟨v2, h2, rfl⟩, rfl⟩, _,
      ⟨v3, h3, rfl⟩, rfl⟩
    exact ⟨v0, h0, v1, h1, v2, h2, v3, h3, rfl⟩
  · rintro ⟨v0, h0, v1, h1, v2, h2, v3, h3, rfl⟩
    exact ⟨_, ⟨_, ⟨_, ⟨v0, h0, rfl⟩, _, ⟨v1, h1, rfl⟩, rfl⟩, _, ⟨v2, h2, rfl⟩, rfl⟩, _,
      ⟨v3, h3, rfl⟩, rfl⟩

/-- The group that is padded. -/
theorem mem_tail : l ∈ base64Class * fourClass * oneOf [pad] * oneOf [pad] +
      base64Class ^ 2 * sixteenClass * oneOf [pad] + 1 ↔
    (∃ v0 < 64, ∃ v1 < 4, l = [letter false v0, letter false (v1 * 16), pad, pad]) ∨
      (∃ v0 < 64, ∃ v1 < 64, ∃ v2 < 16,
        l = [letter false v0, letter false v1, letter false (v2 * 4), pad]) ∨ l = [] := by
  simp only [pow_succ, pow_zero, one_mul, mem_add, mem_mul, mem_one, mem_base64Class, mem_fourClass,
    mem_sixteenClass, mem_pad, or_assoc]
  apply or_congr
  · constructor
    · rintro ⟨_, ⟨_, ⟨_, ⟨v0, h0, rfl⟩, _, ⟨v1, h1, rfl⟩, rfl⟩, _, rfl, rfl⟩, _, rfl, rfl⟩
      exact ⟨v0, h0, v1, h1, rfl⟩
    · rintro ⟨v0, h0, v1, h1, rfl⟩
      exact ⟨_, ⟨_, ⟨_, ⟨v0, h0, rfl⟩, _, ⟨v1, h1, rfl⟩, rfl⟩, _, rfl, rfl⟩, _, rfl, rfl⟩
  · apply or_congr_left
    constructor
    · rintro ⟨_, ⟨_, ⟨_, ⟨v0, h0, rfl⟩, _, ⟨v1, h1, rfl⟩, rfl⟩, _, ⟨v2, h2, rfl⟩, rfl⟩, _, rfl, rfl⟩
      exact ⟨v0, h0, v1, h1, v2, h2, rfl⟩
    · rintro ⟨v0, h0, v1, h1, v2, h2, rfl⟩
      exact ⟨_, ⟨_, ⟨_, ⟨v0, h0, rfl⟩, _, ⟨v1, h1, rfl⟩, rfl⟩, _, ⟨v2, h2, rfl⟩, rfl⟩, _, rfl, rfl⟩

/-- A text of the pattern is encoded by some octets. -/
theorem exists_b64Encode (h : l ∈ ciphertextPattern) : ∃ bytes, b64Encode false bytes = l := by
  obtain ⟨_, hstar, tail, htail, rfl⟩ := mem_mul.mp h
  obtain ⟨groups, rfl, hgroups⟩ := mem_kstar.mp hstar
  clear h hstar
  induction groups with
  | nil =>
    rcases mem_tail.mp htail with ⟨v0, h0, v1, h1, rfl⟩ | ⟨v0, h0, v1, h1, v2, h2, rfl⟩ | rfl
    · obtain ⟨b0, hb⟩ := exists_two false h0 h1
      exact ⟨[b0], hb⟩
    · obtain ⟨b0, b1, hb⟩ := exists_three false h0 h1 h2
      exact ⟨[b0, b1], hb⟩
    · exact ⟨[], rfl⟩
  | cons group groups ih =>
    obtain ⟨bytes, hbytes⟩ := ih fun y hy => hgroups y (.tail _ hy)
    obtain ⟨v0, h0, v1, h1, v2, h2, v3, h3, rfl⟩ := mem_quad.mp (hgroups group List.mem_cons_self)
    obtain ⟨b0, b1, b2, hfour⟩ := exists_four false h0 h1 h2 h3
    refine ⟨b0 :: b1 :: b2 :: bytes, ?_⟩
    rw [hfour, hbytes]
    rfl

/-- A group may stand before a text of the pattern. -/
theorem group_append {group : List ℕ} (hgroup : group ∈ base64Class ^ 4) (h : l ∈ ciphertextPattern) :
    group ++ l ∈ ciphertextPattern := by
  obtain ⟨_, hstar, tail, htail, rfl⟩ := mem_mul.mp h
  obtain ⟨groups, rfl, hgroups⟩ := mem_kstar.mp hstar
  refine mem_mul.mpr ⟨(group :: groups).flatten, ?_, tail, htail, List.append_assoc _ _ _⟩
  exact mem_kstar.mpr ⟨group :: groups, rfl, List.forall_mem_cons.mpr ⟨hgroup, hgroups⟩⟩

theorem tail_mem (h : l ∈ base64Class * fourClass * oneOf [pad] * oneOf [pad] +
    base64Class ^ 2 * sixteenClass * oneOf [pad] + 1) : l ∈ ciphertextPattern :=
  mem_mul.mpr ⟨[], nil_mem_kstar _, l, h, rfl⟩

/-- What is encoded is a text of the pattern. -/
theorem b64Encode_mem (bytes : Bytes) : b64Encode false bytes ∈ ciphertextPattern := by
  induction bytes using b64Encode.induct with
  | case1 =>
    apply tail_mem
    exact mem_tail.mpr (.inr (.inr rfl))
  | case2 b0 =>
    have h0 := (sextets_lt b0 b0 b0).1
    have h1 : b0.toNat % 4 < 4 := by omega
    rw [b64Encode_one]
    apply tail_mem
    exact mem_tail.mpr (.inl ⟨_, h0, _, h1, rfl⟩)
  | case3 b0 b1 =>
    obtain ⟨h0, h1, -, -⟩ := sextets_lt b0 b1 b1
    have h2 : b1.toNat % 16 < 16 := by omega
    rw [b64Encode_two]
    apply tail_mem
    exact mem_tail.mpr (.inr (.inl ⟨_, h0, _, h1, _, h2, rfl⟩))
  | case4 b0 b1 b2 bytes ih =>
    obtain ⟨h0, h1, h2, h3⟩ := sextets_lt b0 b1 b2
    rw [b64Encode_three]
    exact group_append (mem_quad.mpr ⟨_, h0, _, h1, _, h2, _, h3, rfl⟩) ih

/-- The test of a ciphertext accepts the texts of its pattern. -/
theorem ciphertextTest_iff : ciphertextTest l = true ↔ l ∈ ciphertextPattern := by
  rw [ciphertextTest, Option.isSome_iff_exists]
  constructor
  · rintro ⟨bytes, hbytes⟩
    obtain ⟨rfl, -⟩ := decode64Bytes_eq_some_iff.mp hbytes
    exact b64Encode_mem bytes
  · intro h
    obtain ⟨bytes, rfl⟩ := exists_b64Encode h
    exact ⟨bytes, decode64Bytes_eq_some_iff.mpr ⟨rfl, nofun⟩⟩

/-- The second alphabet is not padded. -/
theorem pad_notMem_url (bytes : Bytes) : pad ∉ b64Encode true bytes := by
  have hletter {v : ℕ} (hv : v < 64) : pad ≠ letter true v := (letter_ne_pad hv).symm
  induction bytes using b64Encode.induct with
  | case1 => exact List.not_mem_nil
  | case2 b0 =>
    have h0 := (sextets_lt b0 b0 b0).1
    have h1 : b0.toNat % 4 * 16 < 64 := by omega
    rw [b64Encode_one]
    simp [hletter h0, hletter h1, padding]
  | case3 b0 b1 =>
    obtain ⟨h0, h1, -, -⟩ := sextets_lt b0 b1 b1
    have h2 : b1.toNat % 16 * 4 < 64 := by omega
    rw [b64Encode_two]
    simp [hletter h0, hletter h1, hletter h2, padding]
  | case4 b0 b1 b2 bytes ih =>
    obtain ⟨h0, h1, h2, h3⟩ := sextets_lt b0 b1 b2
    rw [b64Encode_three]
    simp [hletter h0, hletter h1, hletter h2, hletter h3, ih]

/-- The decoder accepts a text just where it is the encoding of octets, which are what it returns,
and of the length that is asked for. For the first alphabet these are the texts of the pattern, and
for the second they have no padding. -/
theorem codec_canonical (value : List ℕ) (length : Option ℕ) (url : Bool) (bytes : Bytes) :
    (decode64Bytes value length url = some bytes ↔
      b64Encode url bytes = value ∧ ∀ n ∈ length, bytes.length = n) ∧
      decode64Bytes (b64Encode url bytes) none url = some bytes ∧
      (ciphertextTest value = true ↔ value ∈ ciphertextPattern) ∧
      (value ∈ ciphertextPattern ↔ ∃ b, b64Encode false b = value) ∧
      pad ∉ b64Encode true bytes := by
  refine ⟨decode64Bytes_eq_some_iff, decode64Bytes_eq_some_iff.mpr ⟨rfl, nofun⟩, ciphertextTest_iff,
    ⟨exists_b64Encode, ?_⟩, pad_notMem_url bytes⟩
  rintro ⟨b, rfl⟩
  exact b64Encode_mem b

end Pattern

end Kdna.Base64

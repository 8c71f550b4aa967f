import Kdna.Data.Bytes
import Mathlib.Tactic.Ring

/-!
# UTF-8

The decoder is the strict one of the encoding standard: an octet sequence is
accepted exactly when it is the encoding of a sequence of Unicode scalar values.
`decode_eq_some_iff` states this in both directions, so a decoded text
determines its octets. A stream decoder that also drops a leading byte order
mark loses this property exactly on texts that start with U+FEFF.
-/

namespace Kdna.Utf8

/-- The octets of a sequence of scalar values. -/
def encodeChars (cs : List Char) : Bytes := cs.flatMap String.utf8EncodeChar

/-- The octets of a text. -/
def encode (s : String) : Bytes := encodeChars s.toList

/-- A continuation octet. -/
def isTail (b : UInt8) : Bool := 0x80 ≤ b.toNat && b.toNat ≤ 0xBF

/-- The six payload bits of a continuation octet. -/
def tailBits (b : UInt8) : ℕ := b.toNat - 0x80

/-- The scalar value of a two-octet sequence. -/
def char2 (a b : UInt8) : Option Char :=
  if 0xC2 ≤ a.toNat ∧ a.toNat ≤ 0xDF ∧ isTail b then
    some (Char.ofNat ((a.toNat - 0xC0) * 64 + tailBits b))
  else none

/-- The scalar value of a three-octet sequence. The second octet after `E0` and
`ED` has a narrower range: overlong forms and surrogates are not encodings. -/
def char3 (a b c : UInt8) : Option Char :=
  if 0xE0 ≤ a.toNat ∧ a.toNat ≤ 0xEF ∧ isTail b ∧ isTail c ∧
      (a.toNat = 0xE0 → 0xA0 ≤ b.toNat) ∧ (a.toNat = 0xED → b.toNat ≤ 0x9F) then
    some (Char.ofNat ((a.toNat - 0xE0) * 4096 + tailBits b * 64 + tailBits c))
  else none

/-- The scalar value of a four-octet sequence. The second octet after `F0` and
`F4` has a narrower range: overlong forms and values past U+10FFFF are excluded. -/
def char4 (a b c d : UInt8) : Option Char :=
  if 0xF0 ≤ a.toNat ∧ a.toNat ≤ 0xF4 ∧ isTail b ∧ isTail c ∧ isTail d ∧
      (a.toNat = 0xF0 → 0x90 ≤ b.toNat) ∧ (a.toNat = 0xF4 → b.toNat ≤ 0x8F) then
    some (Char.ofNat ((a.toNat - 0xF0) * 262144 + tailBits b * 4096 + tailBits c * 64 +
      tailBits d))
  else none

/-- The first scalar value of an octet sequence, and the octets after it. -/
def decodeChar : Bytes → Option (Char × Bytes)
  | [] => none
  | a :: rest =>
    if a.toNat ≤ 0x7F then some (Char.ofNat a.toNat, rest)
    else if a.toNat ≤ 0xDF then
      match rest with
      | b :: rest => (char2 a b).map (·, rest)
      | _ => none
    else if a.toNat ≤ 0xEF then
      match rest with
      | b :: c :: rest => (char3 a b c).map (·, rest)
      | _ => none
    else
      match rest with
      | b :: c :: d :: rest => (char4 a b c d).map (·, rest)
      | _ => none

/-- Decode at most `fuel` scalar values; every octet sequence has at most its
length of them. -/
def decodeFuel : ℕ → Bytes → Option (List Char)
  | _, [] => some []
  | 0, _ :: _ => none
  | fuel + 1, b :: bs =>
    match decodeChar (b :: bs) with
    | some (c, rest) => (decodeFuel fuel rest).map (c :: ·)
    | none => none

/-- The strict decoder into scalar values. -/
def decodeChars (b : Bytes) : Option (List Char) := decodeFuel b.length b

/-- The strict decoder into texts. -/
def decode (b : Bytes) : Option String := (decodeChars b).map String.ofList

/-- The byte order mark, as an octet sequence. -/
def bom : Bytes := [0xEF, 0xBB, 0xBF]

/-- A text without its leading U+FEFF, when it has one. -/
def stripBom (s : String) : String :=
  match s.toList with
  | c :: cs => if c = '\uFEFF' then String.ofList cs else s
  | [] => s

@[simp] theorem encodeChars_nil : encodeChars [] = [] := rfl

@[simp] theorem encodeChars_cons (c : Char) (cs : List Char) :
    encodeChars (c :: cs) = String.utf8EncodeChar c ++ encodeChars cs := rfl

theorem encodeChars_append (cs ds : List Char) :
    encodeChars (cs ++ ds) = encodeChars cs ++ encodeChars ds := by
  simp [encodeChars]

private theorem octet_eq {a : UInt8} {n : ℕ} (h : n = a.toNat) : UInt8.ofNat n = a := by
  subst h
  simp

private theorem toNat_octet {n : ℕ} (h : n < 256) : (UInt8.ofNat n).toNat = n := by
  rw [UInt8.toNat_ofNat', Nat.mod_eq_of_lt h]

private theorem toNat_ofNat {n : ℕ} (h : n < 0xD800 ∨ 0xDFFF < n ∧ n < 0x110000) :
    (Char.ofNat n).val.toNat = n := by
  unfold Char.ofNat
  rw [dif_pos h]
  rfl

private theorem ofNat_eq {c : Char} {n : ℕ} (h : n = c.val.toNat) : Char.ofNat n = c := by
  subst h
  exact Char.ofNat_toNat c

/-- The code point of a scalar value avoids the surrogates and stays below U+110000. -/
theorem scalar_bounds (c : Char) :
    c.val.toNat < 0xD800 ∨ 0xDFFF < c.val.toNat ∧ c.val.toNat < 0x110000 := c.valid

private theorem isTail_iff {b : UInt8} : isTail b = true ↔ 0x80 ≤ b.toNat ∧ b.toNat ≤ 0xBF := by
  simp [isTail]

private theorem decodeChar_two {a b : UInt8} {x : Char} {rest : Bytes}
    (h : 127 < x.val.toNat ∧ x.val.toNat ≤ 2047) (ha : a.toNat = x.val.toNat / 64 + 192)
    (hb : b.toNat = x.val.toNat % 64 + 128) : decodeChar (a :: b :: rest) = some (x, rest) := by
  have hbt : isTail b = true := isTail_iff.mpr (by omega)
  have hx : char2 a b = some x := by
    unfold char2 tailBits
    rw [if_pos ⟨by omega, by omega, hbt⟩, ofNat_eq (c := x) (by omega)]
  rw [decodeChar, if_neg (by omega), if_pos (by omega)]
  simp only [hx, Option.map_some]

private theorem decodeChar_three {a b c : UInt8} {x : Char} {rest : Bytes}
    (h : 2047 < x.val.toNat ∧ x.val.toNat ≤ 65535) (ha : a.toNat = x.val.toNat / 4096 + 224)
    (hb : b.toNat = x.val.toNat / 64 % 64 + 128) (hc : c.toNat = x.val.toNat % 64 + 128) :
    decodeChar (a :: b :: c :: rest) = some (x, rest) := by
  have hv := scalar_bounds x
  have hbt : isTail b = true := isTail_iff.mpr (by omega)
  have hct : isTail c = true := isTail_iff.mpr (by omega)
  have hx : char3 a b c = some x := by
    unfold char3 tailBits
    rw [if_pos ⟨by omega, by omega, hbt, hct, by omega, by omega⟩, ofNat_eq (c := x) (by omega)]
  rw [decodeChar, if_neg (by omega), if_neg (by omega), if_pos (by omega)]
  simp only [hx, Option.map_some]

private theorem decodeChar_four {a b c d : UInt8} {x : Char} {rest : Bytes}
    (h : 65535 < x.val.toNat) (ha : a.toNat = x.val.toNat / 262144 + 240)
    (hb : b.toNat = x.val.toNat / 4096 % 64 + 128) (hc : c.toNat = x.val.toNat / 64 % 64 + 128)
    (hd : d.toNat = x.val.toNat % 64 + 128) :
    decodeChar (a :: b :: c :: d :: rest) = some (x, rest) := by
  have hv := scalar_bounds x
  have hbt : isTail b = true := isTail_iff.mpr (by omega)
  have hct : isTail c = true := isTail_iff.mpr (by omega)
  have hdt : isTail d = true := isTail_iff.mpr (by omega)
  have hx : char4 a b c d = some x := by
    unfold char4 tailBits
    rw [if_pos ⟨by omega, by omega, hbt, hct, hdt, by omega, by omega⟩, ofNat_eq (c := x) (by omega)]
  rw [decodeChar, if_neg (by omega), if_neg (by omega), if_neg (by omega)]
  simp only [hx, Option.map_some]

/-- Decoding the octets of one scalar value yields it and leaves the rest. -/
theorem decodeChar_encodeChar_append (c : Char) (rest : Bytes) :
    decodeChar (String.utf8EncodeChar c ++ rest) = some (c, rest) := by
  have hv := scalar_bounds c
  unfold String.utf8EncodeChar
  simp only
  split_ifs with h1 h2 h3
  · have ha : (UInt8.ofNat c.val.toNat).toNat = c.val.toNat := toNat_octet (by omega)
    simp only [List.cons_append, List.nil_append, decodeChar, ha, h1, if_true, ofNat_eq rfl]
  · apply decodeChar_two ⟨by omega, h2⟩
    · rw [toNat_octet (by omega)]; omega
    · exact toNat_octet (by omega)
  · apply decodeChar_three ⟨by omega, h3⟩
    · rw [toNat_octet (by omega)]; omega
    · exact toNat_octet (by omega)
    · exact toNat_octet (by omega)
  · apply decodeChar_four (by omega)
    · rw [toNat_octet (by omega)]; omega
    · exact toNat_octet (by omega)
    · exact toNat_octet (by omega)
    · exact toNat_octet (by omega)

private theorem encodeChar_char2 {a b : UInt8} {x : Char} (h : char2 a b = some x) :
    String.utf8EncodeChar x = [a, b] := by
  unfold char2 at h
  split_ifs at h with hc
  obtain ⟨h1, h2, hb⟩ := hc
  rw [isTail_iff] at hb
  have hx := Option.some.inj h
  have hn : x.val.toNat = (a.toNat - 0xC0) * 64 + tailBits b := by
    rw [← hx, toNat_ofNat (by unfold tailBits; omega)]
  unfold tailBits at hn
  unfold String.utf8EncodeChar
  simp only
  rw [if_neg (by omega), if_pos (by omega), octet_eq (a := a) (by omega),
    octet_eq (a := b) (by omega)]

private theorem encodeChar_char3 {a b c : UInt8} {x : Char} (h : char3 a b c = some x) :
    String.utf8EncodeChar x = [a, b, c] := by
  unfold char3 at h
  split_ifs at h with hcond
  obtain ⟨h1, h2, hb, hc, hlow, hhigh⟩ := hcond
  rw [isTail_iff] at hb hc
  have hx := Option.some.inj h
  have hn : x.val.toNat = (a.toNat - 0xE0) * 4096 + tailBits b * 64 + tailBits c := by
    rw [← hx, toNat_ofNat (by unfold tailBits; omega)]
  unfold tailBits at hn
  unfold String.utf8EncodeChar
  simp only
  rw [if_neg (by omega), if_neg (by omega), if_pos (by omega), octet_eq (a := a) (by omega),
    octet_eq (a := b) (by omega), octet_eq (a := c) (by omega)]

private theorem encodeChar_char4 {a b c d : UInt8} {x : Char} (h : char4 a b c d = some x) :
    String.utf8EncodeChar x = [a, b, c, d] := by
  unfold char4 at h
  split_ifs at h with hcond
  obtain ⟨h1, h2, hb, hc, hd, hlow, hhigh⟩ := hcond
  rw [isTail_iff] at hb hc hd
  have hx := Option.some.inj h
  have hn : x.val.toNat =
      (a.toNat - 0xF0) * 262144 + tailBits b * 4096 + tailBits c * 64 + tailBits d := by
    rw [← hx, toNat_ofNat (by unfold tailBits; omega)]
  unfold tailBits at hn
  unfold String.utf8EncodeChar
  simp only
  rw [if_neg (by omega), if_neg (by omega), if_neg (by omega), octet_eq (a := a) (by omega),
    octet_eq (a := b) (by omega), octet_eq (a := c) (by omega), octet_eq (a := d) (by omega)]

/-- A scalar value read from the input is encoded by the octets it was read from. -/
theorem encodeChar_of_decodeChar {b rest : Bytes} {x : Char}
    (h : decodeChar b = some (x, rest)) : b = String.utf8EncodeChar x ++ rest := by
  cases b with
  | nil => simp [decodeChar] at h
  | cons a bs =>
    simp only [decodeChar] at h
    split_ifs at h with h1 h2 h3
    · simp only [Option.some.injEq, Prod.mk.injEq] at h
      obtain ⟨hx, rfl⟩ := h
      have hn : x.val.toNat = a.toNat := by rw [← hx, toNat_ofNat (by omega)]
      unfold String.utf8EncodeChar
      simp only
      rw [if_pos (by omega), octet_eq (by omega)]
      rfl
    · match bs, h with
      | b :: bs, h =>
        obtain ⟨y, hy, heq⟩ := Option.map_eq_some_iff.mp h
        cases heq
        rw [encodeChar_char2 hy]
        rfl
    · match bs, h with
      | b :: c :: bs, h =>
        obtain ⟨y, hy, heq⟩ := Option.map_eq_some_iff.mp h
        cases heq
        rw [encodeChar_char3 hy]
        rfl
    · match bs, h with
      | b :: c :: d :: bs, h =>
        obtain ⟨y, hy, heq⟩ := Option.map_eq_some_iff.mp h
        cases heq
        rw [encodeChar_char4 hy]
        rfl

/-- Every scalar value takes at least one octet. -/
theorem length_encodeChar_pos (c : Char) : 0 < (String.utf8EncodeChar c).length := by
  rw [String.length_utf8EncodeChar]
  exact c.utf8Size_pos

private theorem decodeFuel_encodeChars (cs : List Char) {fuel : ℕ}
    (h : (encodeChars cs).length ≤ fuel) : decodeFuel fuel (encodeChars cs) = some cs := by
  induction cs generalizing fuel with
  | nil => cases fuel <;> rfl
  | cons c cs ih =>
    have hpos := length_encodeChar_pos c
    have hdec := decodeChar_encodeChar_append c (encodeChars cs)
    rw [encodeChars_cons, List.length_append] at h
    rw [encodeChars_cons]
    match hbytes : String.utf8EncodeChar c ++ encodeChars cs, fuel with
    | [], _ => simp only [List.append_eq_nil_iff] at hbytes; simp [hbytes.1] at hpos
    | _ :: _, 0 => omega
    | b :: bs, fuel + 1 =>
      rw [hbytes] at hdec
      simp only [decodeFuel, hdec]
      rw [ih (by omega)]
      rfl

private theorem encodeChars_of_decodeFuel {fuel : ℕ} {b : Bytes} {cs : List Char}
    (h : decodeFuel fuel b = some cs) : b = encodeChars cs := by
  induction fuel generalizing b cs with
  | zero =>
    cases b with
    | nil => simp only [decodeFuel, Option.some.injEq] at h; subst h; rfl
    | cons => simp [decodeFuel] at h
  | succ fuel ih =>
    cases b with
    | nil => simp only [decodeFuel, Option.some.injEq] at h; subst h; rfl
    | cons a bs =>
      simp only [decodeFuel] at h
      split at h
      · rename_i c rest hdec
        obtain ⟨ds, hds, rfl⟩ := Option.map_eq_some_iff.mp h
        rw [encodeChars_cons, ← ih hds]
        exact encodeChar_of_decodeChar hdec
      · simp at h

/-- The strict decoder accepts exactly the encodings, and returns what they encode. -/
theorem decodeChars_eq_some_iff {b : Bytes} {cs : List Char} :
    decodeChars b = some cs ↔ encodeChars cs = b := by
  constructor
  · intro h
    exact (encodeChars_of_decodeFuel h).symm
  · rintro rfl
    exact decodeFuel_encodeChars cs le_rfl

/-- The strict decoder into texts accepts exactly the encodings. -/
theorem decode_eq_some_iff {b : Bytes} {s : String} : decode b = some s ↔ encode s = b := by
  rw [decode, encode, Option.map_eq_some_iff]
  constructor
  · rintro ⟨cs, hcs, rfl⟩
    simpa using decodeChars_eq_some_iff.mp hcs
  · intro h
    exact ⟨s.toList, decodeChars_eq_some_iff.mpr h, String.ofList_toList⟩

/-- Decoding inverts encoding. -/
@[simp] theorem decode_encode (s : String) : decode (encode s) = some s :=
  decode_eq_some_iff.mpr rfl

/-- Texts with the same octets are equal. -/
theorem encode_injective : Function.Injective encode := by
  intro s t h
  have hs := decode_encode s
  rw [h, decode_encode] at hs
  exact (Option.some.inj hs).symm

/-- A text starts with U+FEFF exactly when its octets start with the byte order mark. -/
theorem bom_isPrefix_encode_iff (s : String) :
    bom <+: encode s ↔ ∃ cs, s.toList = '\uFEFF' :: cs := by
  have hbom : String.utf8EncodeChar '\uFEFF' = bom := by decide
  constructor
  · rintro ⟨rest, hrest⟩
    have hs : decode (bom ++ rest) = some s := decode_eq_some_iff.mpr hrest.symm
    obtain ⟨cs, hcs, hsof⟩ := Option.map_eq_some_iff.mp hs
    have henc := decodeChars_eq_some_iff.mp hcs
    cases cs with
    | nil => simp [bom] at henc
    | cons c cs =>
      have h1 := decodeChar_encodeChar_append c (encodeChars cs)
      rw [← encodeChars_cons, henc, ← hbom, decodeChar_encodeChar_append] at h1
      have hc := (Prod.mk.inj (Option.some.inj h1)).1
      exact ⟨cs, by rw [← hsof, ← hc]; simp⟩
  · rintro ⟨cs, hcs⟩
    refine ⟨encodeChars cs, ?_⟩
    rw [encode, hcs, encodeChars_cons, hbom]

/-- Dropping a leading U+FEFF changes a text exactly when there is one. -/
theorem stripBom_eq_self_iff (s : String) : stripBom s = s ↔ ¬ bom <+: encode s := by
  rw [bom_isPrefix_encode_iff]
  unfold stripBom
  cases hs : s.toList with
  | nil => simp
  | cons c cs =>
    by_cases hc : c = '\uFEFF'
    · have hne : String.ofList cs ≠ s := by
        intro h
        have hlen := congrArg (fun t : String => t.toList.length) h
        simp [hs] at hlen
      simp [hc, hne]
    · simp [hc]

end Kdna.Utf8

namespace Kdna

section Plain

/-- Each character of a text takes one to four octets. -/
theorem length_encode_bounds (t : String) :
    t.length ≤ (Utf8.encode t).length ∧ (Utf8.encode t).length ≤ 4 * t.length := by
  have hchars (cs : List Char) : cs.length ≤ (Utf8.encodeChars cs).length ∧
      (Utf8.encodeChars cs).length ≤ 4 * cs.length := by
    induction cs with
    | nil => exact ⟨le_rfl, le_rfl⟩
    | cons c cs ih =>
      have hpos := Utf8.length_encodeChar_pos c
      have hfour : (String.utf8EncodeChar c).length ≤ 4 := by
        rw [String.length_utf8EncodeChar]
        exact c.utf8Size_le_four
      rw [Utf8.encodeChars_cons, List.length_append, List.length_cons]
      omega
  exact hchars t.toList

theorem length_encode_eq (t : String) : (Utf8.encode t).length = t.utf8ByteSize := by
  obtain ⟨cs, rfl⟩ : ∃ cs, t = String.ofList cs := ⟨t.toList, t.ofList_toList.symm⟩
  rw [Utf8.encode, String.toList_ofList, Utf8.encodeChars]
  simp [String.utf8ByteSize, List.utf8Encode]

/-- An octet of a character of ASCII that can be printed, the quote and the backslash apart. -/
def isPlainOctet (b : UInt8) : Bool :=
  Nat.ble 32 b.toNat && Nat.blt b.toNat 128 && b.toNat != 34 && b.toNat != 92

theorem isPlainOctet_iff {b : UInt8} : isPlainOctet b = true ↔
    32 ≤ b.toNat ∧ b.toNat < 128 ∧ b.toNat ≠ 34 ∧ b.toNat ≠ 92 := by
  simp only [isPlainOctet, Bool.and_eq_true, Nat.ble_eq, Nat.blt_eq, and_assoc, bne_iff_ne]

/-- A character of plain octets has one. -/
theorem toNat_of_plain {c : Char} (h : ∀ b ∈ String.utf8EncodeChar c, isPlainOctet b = true) :
    32 ≤ c.toNat ∧ c.toNat < 128 ∧ c.toNat ≠ 34 ∧ c.toNat ≠ 92 := by
  have hval : c.val.toNat = c.toNat := rfl
  simp only [isPlainOctet_iff] at h
  unfold String.utf8EncodeChar at h
  dsimp only at h
  split_ifs at h with h1 h2 h3
  · have hb := h _ List.mem_cons_self
    rw [UInt8.toNat_ofNat', hval] at hb
    omega
  all_goals
    have hb := (h _ List.mem_cons_self).2.1
    rw [UInt8.toNat_ofNat'] at hb
    omega

/-- Whether the octets of a text are plain. -/
def isPlainText (t : String) : Bool := t.toByteArray.data.toList.all isPlainOctet

theorem toByteArray_eq (t : String) : t.toByteArray.data.toList = Utf8.encode t := by
  obtain ⟨cs, rfl⟩ : ∃ cs, t = String.ofList cs := ⟨t.toList, t.ofList_toList.symm⟩
  rw [Utf8.encode, String.toList_ofList, Utf8.encodeChars]
  simp [List.utf8Encode]

/-- The characters of a text, by its octets where that is enough. -/
def quickToList (t : String) : List Char :=
  if isPlainText t then t.toByteArray.data.toList.map fun b => Char.ofNat b.toNat else t.toList

theorem toList_eq_quickToList (t : String) : t.toList = quickToList t := by
  unfold quickToList
  split
  · next hplain =>
    rw [isPlainText, toByteArray_eq, Utf8.encode, Utf8.encodeChars, List.all_eq_true] at hplain
    have hchars : ∀ c ∈ t.toList, (String.utf8EncodeChar c).map (fun b => Char.ofNat b.toNat) = [c] := by
      intro c hc
      have hc := toNat_of_plain fun b hb => hplain b (List.mem_flatMap.mpr ⟨c, hc, hb⟩)
      have hlow : c.val.toNat ≤ 0x7f := Nat.le_of_lt_succ hc.2.1
      rw [String.utf8EncodeChar, if_pos hlow, List.map_singleton, UInt8.toNat_ofNat',
        Nat.mod_eq_of_lt (by omega)]
      exact congrArg ([·]) (Char.ofNat_toNat c)
    rw [toByteArray_eq, Utf8.encode, Utf8.encodeChars, List.map_flatMap, List.flatMap_congr hchars]
    exact (List.flatMap_singleton' _).symm
  · rfl

end Plain

end Kdna

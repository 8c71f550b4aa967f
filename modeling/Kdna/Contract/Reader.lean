import Kdna.Contract.ParseExact

/-!
# Texts, octets and limits

The reader takes a text or the octets of one. It measures a text by its octets, so the two are held
to one limit, and it refuses a byte order mark in front of either.
-/

namespace Kdna.Contract

/-- The scalars of an input. -/
def InputText : Input → List Char → Prop
  | .text units _, cs => units = Utf16.encode cs
  | .octets bytes, cs => bytes = Utf8.encodeChars cs
  | .other, _ => False

/-- The input is one JSON text within the limits, without byte order mark and without duplicate
keys, that is `v` in memory. The text pairs its surrogates since it has scalars, and those of the
document do since its texts have; its numbers are finite. -/
def Denotes (maxBytes maxDepth : ℕ) (input : Input) (v : Json) : Prop :=
  ∃ cs d, InputText input cs ∧ (Utf8.encodeChars cs).length ≤ maxBytes ∧
    cs.head? ≠ some '\uFEFF' ∧ Spaced (JsonText d) cs ∧ d.depth ≤ maxDepth ∧ d.DistinctKeys ∧
    v = d.enumerated

section Units

theorem short_encode (cs : List Char) : Short (Utf16.encode cs) := by
  intro u hu
  obtain ⟨c, -, hc⟩ := List.mem_flatMap.mp hu
  obtain ⟨hlt, hunits, -⟩ | ⟨high, low, hunits, hhigh, hlow, -⟩ := units_cases c
  · rw [hunits] at hc
    rwa [List.mem_singleton.mp hc]
  · simp only [Utf16.isHigh, Utf16.isLow, Bool.and_eq_true, decide_eq_true_eq] at hhigh hlow
    rw [hunits, List.mem_cons, List.mem_singleton] at hc
    omega

/-- The octets of a scalar are counted from its code units. -/
theorem byteLength_units (c : Char) (us : List ℕ) :
    byteLength (Utf16.units c ++ us) = (String.utf8EncodeChar c).length + byteLength us := by
  have hsize : (String.utf8EncodeChar c).length =
      if c.toNat < 0x80 then 1 else if c.toNat < 0x800 then 2 else if c.toNat < 0x10000 then 3
      else 4 := by
    rw [String.length_utf8EncodeChar, Char.utf8Size]
    simp only [UInt32.le_iff_toNat_le, UInt32.toNat_ofNatLT, ← Char.toNat.eq_def]
    split_ifs <;> omega
  rw [hsize]
  obtain ⟨hlt, hunits, hhigh, -⟩ | ⟨high, low, hunits, hhigh, hlow, -⟩ := units_cases c
  · rw [hunits, List.singleton_append]
    cases us with
    | nil =>
      rw [byteLength, byteLength]
      split_ifs <;> rfl
    | cons v us =>
      rw [byteLength, hhigh, Bool.false_and, if_neg Bool.false_ne_true]
      split_ifs <;> rfl
  · have hge : 0x10000 ≤ c.toNat := by
      by_contra hlt
      rw [units_of_lt (by omega)] at hunits
      exact absurd (List.cons.inj hunits).2.symm (List.cons_ne_nil _ _)
    rw [hunits, List.cons_append, List.singleton_append, byteLength, hhigh, hlow, Bool.and_self,
      if_pos rfl, if_neg (by omega), if_neg (by omega), if_neg (by omega)]

/-- The octets of a text are counted from its code units. -/
theorem byteLength_encode (cs : List Char) :
    byteLength (Utf16.encode cs) = (Utf8.encodeChars cs).length := by
  induction cs with
  | nil => rfl
  | cons c cs ih =>
    rw [Utf16.encode_cons, byteLength_units, ih, Utf8.encodeChars_cons, List.length_append]

/-- A text starts with a scalar of the basic plane when its code units do. -/
theorem head_encode {m : Char} (hm : m.toNat < 0x10000) (cs : List Char) :
    (Utf16.encode cs).head? = some m.toNat ↔ cs.head? = some m := by
  cases cs with
  | nil => simp
  | cons c cs =>
    have hscalar := Utf16.scalar_bounds m
    rw [Utf16.encode_cons, List.head?_cons, Option.some.injEq]
    obtain ⟨-, hunits, -⟩ | ⟨high, low, hunits, hhigh, -⟩ := units_cases c
    · rw [hunits, List.singleton_append, List.head?_cons, Option.some.injEq]
      exact Char.toNat_inj
    · simp only [Utf16.isHigh, Bool.and_eq_true, decide_eq_true_eq] at hhigh
      rw [hunits, List.cons_append, List.head?_cons, Option.some.injEq]
      refine iff_of_false (by omega) ?_
      rintro rfl
      rw [units_of_lt hm] at hunits
      exact absurd (List.cons.inj hunits).2 (List.cons_ne_nil _ _).symm

/-- A text starts with a byte order mark when its code units do. -/
theorem head_encode_bom (cs : List Char) :
    (Utf16.encode cs).head? = some 0xFEFF ↔ cs.head? = some '\uFEFF' :=
  head_encode (m := '\uFEFF') (by decide) cs

end Units

/-- An input has the code units of its scalars, when these are within the limit and no byte order
mark is in front. -/
theorem unitsOf_eq_ok_iff {maxBytes : ℕ} {input : Input} {cs : List Char}
    (hlen : (Utf8.encodeChars cs).length ≤ maxBytes) (hbom : cs.head? ≠ some '\uFEFF') :
    unitsOf maxBytes input = .ok (Utf16.encode cs) ↔ InputText input cs := by
  cases input with
  | text units short =>
    rw [unitsOf, Except.ok.injEq]
    rfl
  | octets bytes =>
    have hmark : ¬ Utf8.bom <+: Utf8.encode (String.ofList cs) := by
      rw [Utf8.bom_isPrefix_encode_iff, String.toList_ofList]
      rintro ⟨rest, rfl⟩
      exact hbom rfl
    have henc : Utf8.encode (String.ofList cs) = Utf8.encodeChars cs := by
      rw [Utf8.encode, String.toList_ofList]
    constructor
    · intro h
      obtain ⟨-, h⟩ := require_bind_eq_ok_iff.mp h
      obtain ⟨hunmarked, h⟩ := require_bind_eq_ok_iff.mp h
      obtain ⟨text, htext, h⟩ := bind_eq_ok_iff.mp h
      rw [orFail_eq_ok_iff] at htext
      have hchars : text.toList = cs := Utf16.encode_injective (Except.ok.inj h)
      rw [InputText, ← hchars]
      exact ((encode_decodeText_iff htext).mpr hunmarked).symm
    · rintro rfl
      rw [unitsOf, require_bind_of_pos hlen, ← henc, require_bind_of_pos hmark,
        decodeText_encode hmark, orFail, ok_bind, String.toList_ofList]
      rfl
  | other => exact iff_of_false (fun h => by cases h) id

/-- The code units of an input have sixteen bits. -/
theorem short_unitsOf {maxBytes : ℕ} {input : Input} {us : List ℕ}
    (h : unitsOf maxBytes input = .ok us) : Short us := by
  cases input with
  | text units short =>
    obtain rfl := Except.ok.inj h
    exact short
  | octets bytes =>
    obtain ⟨-, h⟩ := require_bind_eq_ok_iff.mp h
    obtain ⟨-, h⟩ := require_bind_eq_ok_iff.mp h
    obtain ⟨text, -, h⟩ := bind_eq_ok_iff.mp h
    obtain rfl := Except.ok.inj h
    exact short_encode _
  | other => cases h

/-- The reader accepts an input exactly when it is one JSON text within the limits of its options,
without byte order mark and duplicate keys, and returns what the text denotes. -/
theorem reads_iff {input : Input} {options v : Json} :
    parseRuntimeContractJson input options = .ok v ↔
      ∃ maxBytes maxDepth, limits options = .ok (maxBytes, maxDepth) ∧
        Denotes maxBytes maxDepth input v := by
  constructor
  · intro h
    obtain ⟨⟨maxBytes, maxDepth⟩, hlimits, h⟩ := bind_eq_ok_iff.mp h
    obtain ⟨us, hus, h⟩ := bind_eq_ok_iff.mp h
    obtain ⟨hbom, h⟩ := require_bind_eq_ok_iff.mp h
    obtain ⟨hlen, h⟩ := require_bind_eq_ok_iff.mp h
    obtain ⟨cs, d, rfl, htext, hdepth, hkeys, rfl⟩ := (parse_eq_ok_iff (short_unitsOf hus)).mp h
    rw [Ne, head_encode_bom] at hbom
    rw [byteLength_encode] at hlen
    exact ⟨maxBytes, maxDepth, hlimits, cs, d, (unitsOf_eq_ok_iff hlen hbom).mp hus, hlen, hbom,
      htext, hdepth, hkeys, rfl⟩
  · rintro ⟨maxBytes, maxDepth, hlimits, cs, d, hinput, hlen, hbom, htext, hdepth, hkeys, rfl⟩
    have hparse := (parse_eq_ok_iff (short_encode cs)).mpr ⟨cs, d, rfl, htext, hdepth, hkeys, rfl⟩
    rw [parseRuntimeContractJson, hlimits, ok_bind]
    simp only
    rw [(unitsOf_eq_ok_iff hlen hbom).mpr hinput, ok_bind,
      require_bind_of_pos (by rwa [Ne, head_encode_bom]),
      require_bind_of_pos (by rwa [byteLength_encode]), hparse]

end Kdna.Contract

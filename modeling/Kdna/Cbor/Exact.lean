import Kdna.Cbor.Walk

/-!
# Which values the payload decoder returns

The codec keeps a leading U+FEFF that the walk drops, and the two JSON texts then
differ in length. So the decoder returns exactly the encoded value when no text
and no key of it starts with U+FEFF, and rejects every other value.
-/

namespace Kdna.Cbor

/-- `b` is a definite-length encoding of a value within the bounds, with distinct
keys, that is `v` in memory. -/
def EncodingOf (v : Json) (b : Bytes) : Prop :=
  ∃ d, Encodes d b ∧ d.Within (maxDepth + 1) ∧ d.DistinctKeys ∧ d.enumerated = v

/-- The number that a number of the codec is exactly. -/
def CodecNumber.exact : CodecNumber → Option Binary64
  | .inl x => some x
  | .inr n => Binary64.exactInteger n

/-- The codec returned `v`, with some of its integers as big integers. -/
def Represents (c : CodecValue) (v : Json) : Prop :=
  c.mapNum CodecNumber.exact = v.mapNum some

/-- The codec decodes every encoding of a value as that value. -/
def Faithful (codec : Codec) : Prop :=
  ∀ v b, EncodingOf v b → ∃ c, codec b = .ok c ∧ Represents c v

/-- An encoding is of one value only. -/
theorem EncodingOf.unique {v w : Json} {b : Bytes} (hv : EncodingOf v b) (hw : EncodingOf w b) :
    v = w := by
  have hread : ∀ {u : Json}, EncodingOf u b →
      readValue Utf8.decode (maxDepth + 1) (b ++ []) = .ok (u, []) := by
    rintro _ ⟨d, hd, hwithin, hkeys, rfl⟩
    have h := readValue_complete renders_decode hwithin (by rwa [Value.retext_id]) hd []
    rwa [Value.retext_id] at h
  exact (Prod.mk.inj (Except.ok.inj ((hread hv).symm.trans (hread hw)))).1

section Settle

variable {levels : ℕ}

theorem settleItems_eq {settle : CodecValue → Except Failure Json} {cs : List CodecValue}
    {vs : List Json} (hsettle : ∀ c v, v ∈ vs → Represents c v → settle c = .ok v)
    (h : cs.map (Value.mapNum CodecNumber.exact) = vs.map (Value.mapNum some)) :
    settleItems settle cs = .ok vs := by
  induction vs generalizing cs with
  | nil =>
    obtain rfl := List.map_eq_nil_iff.mp h
    rfl
  | cons v vs ih =>
    obtain ⟨c, cs, rfl, hc, hcs⟩ := List.map_eq_cons_iff.mp h
    rw [settleItems, hsettle c v List.mem_cons_self hc, ok_bind,
      ih (fun c w hw => hsettle c w (.tail _ hw)) hcs]
    rfl

theorem settleProps_eq {settle : CodecValue → Except Failure Json}
    {cs : List (String × CodecValue)} {ps : List (String × Json)}
    (hsettle : ∀ c p, p ∈ ps → Represents c p.2 → settle c = .ok p.2)
    (h : cs.map (fun q => (q.1, q.2.mapNum CodecNumber.exact)) =
      ps.map fun p => (p.1, p.2.mapNum some)) :
    settleProps settle cs = .ok ps := by
  induction ps generalizing cs with
  | nil =>
    obtain rfl := List.map_eq_nil_iff.mp h
    rfl
  | cons p ps ih =>
    obtain ⟨⟨k, c⟩, cs, rfl, hc, hcs⟩ := List.map_eq_cons_iff.mp h
    obtain ⟨rfl, hc⟩ := Prod.mk.inj hc
    rw [settleProps, hsettle c p List.mem_cons_self hc, ok_bind,
      ih (fun c q hq => hsettle c q (.tail _ hq)) hcs]
    rfl

/-- A value within the bounds is settled from each of its representations. -/
theorem settle_eq {levels : ℕ} {c : CodecValue} {v : Json} (hv : v.Within levels)
    (hc : Represents c v) : settle levels c = .ok v := by
  induction levels generalizing c v with
  | zero => exact absurd hv id
  | succ levels ih =>
    unfold Represents at hc
    cases v with
    | null =>
      cases c <;> simp at hc
      rfl
    | bool b =>
      cases c <;> simp at hc
      rw [hc]
      rfl
    | str t =>
      cases c <;> simp at hc
      rw [hc]
      rfl
    | num x =>
      cases c <;> simp at hc
      case num y =>
        cases y with
        | inl y =>
          rw [Option.some.inj hc]
          rfl
        | inr n =>
          rw [settle, show Binary64.exactInteger n = some x from hc]
          rfl
    | arr items =>
      cases c <;> simp at hc
      case arr cs =>
        rw [settle, settleItems_eq (fun c v hmem => ih (hv.2 v hmem)) hc]
        rfl
    | obj props =>
      cases c <;> simp at hc
      case obj cs =>
        rw [settle, settleProps_eq (fun c p hmem => ih (hv.2 p hmem).2) hc]
        rfl

end Settle

/-- An accepted encoding is short enough for the charge of the strict copy. -/
theorem copyJson_encoded {d : Json} {b : Bytes} (hd : Encodes d b)
    (hwithin : d.Within (maxDepth + 1)) (hlen : b.length ≤ maxPayloadBytes) :
    copyJson d.enumerated = .ok d.enumerated := by
  have hweight := hd.weight_lt
  have hgraph : 32 * maxPayloadBytes = maxGraphBytes := by decide
  exact copyJson_eq hwithin.strict (by omega)

/-- The two texts that are compared agree exactly when nothing was dropped. -/
theorem stringify_stripBom_iff (d : Json) :
    stringify (d.retext Utf8.stripBom).enumerated = stringify d.enumerated ↔
      d.AllTexts Unmarked := by
  constructor
  · intro h
    have hlen := congrArg List.length h
    rw [length_stringify_enumerated, length_stringify_enumerated] at hlen
    have hmarks := length_stringify_stripBom d
    exact (Value.marks_eq_zero_iff d).mp (by omega)
  · intro h
    rw [Value.retext_stripBom h]

/-- Marks do not depend on the order of members. -/
theorem allTexts_enumerated (d : Json) :
    d.enumerated.AllTexts Unmarked ↔ d.AllTexts Unmarked := by
  rw [← Value.marks_eq_zero_iff, ← Value.marks_eq_zero_iff, Value.marks_enumerated]

/-- The decoder returns the encoded value, and nothing when one of its texts or
keys starts with U+FEFF. -/
theorem decodePayload_eq_ok_iff {codec : Codec} (hcodec : Faithful codec) {v : Json} {b : Bytes} :
    decodePayload codec b = .ok v ↔
      b.length ≤ maxPayloadBytes ∧ EncodingOf v b ∧ v.AllTexts Unmarked := by
  constructor
  · intro h
    obtain ⟨hlen, h⟩ := require_bind_eq_ok_iff.mp h
    obtain ⟨⟨inspected, rest⟩, hread, h⟩ := bind_eq_ok_iff.mp h
    obtain ⟨hrest, h⟩ := require_bind_eq_ok_iff.mp h
    obtain ⟨raw, hraw, h⟩ := bind_eq_ok_iff.mp h
    obtain ⟨settled, hsettled, h⟩ := bind_eq_ok_iff.mp h
    obtain ⟨decoded, hdecoded, h⟩ := bind_eq_ok_iff.mp h
    obtain ⟨htext, h⟩ := require_bind_eq_ok_iff.mp h
    obtain rfl := Except.ok.inj h
    obtain ⟨d, c, rfl, hd, hwithin, hkeys, rfl⟩ := readValue_sound renders_decodeText _ _ _ hread
    subst hrest
    rw [List.append_nil] at hlen hraw ⊢
    have hencoding : EncodingOf d.enumerated c := ⟨d, hd, hwithin, hkeys.of_retext, rfl⟩
    -- the codec, the settling and the copy each keep the encoded value
    obtain ⟨c', hc', hrep⟩ := hcodec _ _ hencoding
    obtain rfl := Except.ok.inj (hraw.symm.trans hc')
    rw [settle_eq (Value.within_enumerated hwithin) hrep] at hsettled
    obtain rfl := Except.ok.inj hsettled
    rw [copyJson_encoded hd hwithin hlen] at hdecoded
    obtain rfl := Except.ok.inj hdecoded
    exact ⟨hlen, hencoding, (allTexts_enumerated d).mpr ((stringify_stripBom_iff d).mp htext)⟩
  · rintro ⟨hlen, hencoding, htexts⟩
    obtain ⟨c, hc, hrep⟩ := hcodec _ _ hencoding
    obtain ⟨d, hd, hwithin, hkeys, rfl⟩ := hencoding
    rw [allTexts_enumerated] at htexts
    have hread := readValue_complete renders_decodeText hwithin
      (by rwa [Value.retext_stripBom htexts]) hd []
    rw [List.append_nil, Value.retext_stripBom htexts] at hread
    rw [decodePayload, require_bind_of_pos hlen, hread, ok_bind]
    simp only
    rw [require_bind_of_pos trivial, hc, ok_bind, settle_eq (Value.within_enumerated hwithin) hrep,
      ok_bind, copyJson_encoded hd hwithin hlen, ok_bind, require_bind_of_pos rfl]
    rfl

/-- A codec that reads as the walk does and keeps every text as it is. -/
def plainCodec : Codec := fun b => do
  let (v, rest) ← readValue Utf8.decode (maxDepth + 1) b
  require (rest = []) Failure.external
  return v.mapNum .inl

/-- There is a faithful codec. -/
theorem faithful_plainCodec : Faithful plainCodec := by
  rintro _ b ⟨d, hd, hwithin, hkeys, rfl⟩
  have hread := readValue_complete renders_decode hwithin (by rwa [Value.retext_id]) hd []
  rw [List.append_nil, Value.retext_id] at hread
  refine ⟨d.enumerated.mapNum .inl, ?_, ?_⟩
  · rw [plainCodec, hread]
    rfl
  · rw [Represents, Value.mapNum_mapNum]
    rfl

/-- Every encoding of a value of which no text and no key starts with U+FEFF is
decoded as that value; what is decoded is the value of the octets and the only one. -/
theorem decodePayload_exact {codec : Codec} (hcodec : Faithful codec) :
    (∀ v b, EncodingOf v b → b.length ≤ maxPayloadBytes →
      (decodePayload codec b = .ok v ↔ v.AllTexts Unmarked)) ∧
    ∀ v b, decodePayload codec b = .ok v → ∀ w, EncodingOf w b ↔ w = v := by
  constructor
  · intro v b hv hlen
    rw [decodePayload_eq_ok_iff hcodec]
    exact ⟨fun h => h.2.2, fun h => ⟨hlen, hv, h⟩⟩
  · intro v b h w
    obtain ⟨-, hv, -⟩ := (decodePayload_eq_ok_iff hcodec).mp h
    constructor
    · exact fun hw => hw.unique hv
    · rintro rfl
      exact hv

/-- An object with two members, with some lengths wider than they need to be. -/
def sampleObject : Bytes :=
  [0xB8, 0x02, 0x64, 0x6B, 0x69, 0x6E, 0x64, 0x78, 0x01, 0x6B,
   0x64, 0x6E, 0x6F, 0x74, 0x65, 0x82, 0xF5, 0x61, 0x6E]

/-- The value of the object. -/
def sampleValue : Json := .obj [("kind", .str "k"), ("note", .arr [.bool true, .str "n"])]

theorem encodingOf_sampleObject : EncodingOf sampleValue sampleObject := by
  refine ⟨sampleValue, (encodes_obj _ _).mpr ?_, ?_, ?_, rfl⟩
  · refine ⟨[0xB8, 0x02], _, ⟨.one, by decide, rfl⟩,
      ⟨[0x64, 0x6B, 0x69, 0x6E, 0x64, 0x78, 0x01, 0x6B],
        [0x64, 0x6E, 0x6F, 0x74, 0x65, 0x82, 0xF5, 0x61, 0x6E], ?_,
        ⟨_, [], ?_, rfl, (List.append_nil _).symm⟩, rfl⟩, rfl⟩
    · exact ⟨_, _, ⟨[0x64], ⟨.direct, by decide, rfl⟩, rfl⟩,
        ⟨[0x78, 0x01], ⟨.one, by decide, rfl⟩, rfl⟩, rfl⟩
    · refine ⟨[0x64, 0x6E, 0x6F, 0x74, 0x65], [0x82, 0xF5, 0x61, 0x6E],
        ⟨[0x64], ⟨.direct, by decide, rfl⟩, rfl⟩, (encodes_arr _ _).mpr ?_, rfl⟩
      exact ⟨[0x82], _, ⟨.direct, by decide, rfl⟩, ⟨[0xF5], _, rfl,
        ⟨[0x61, 0x6E], [], ⟨[0x61], ⟨.direct, by decide, rfl⟩, rfl⟩, rfl, rfl⟩, rfl⟩, rfl⟩
  · have hk : (Utf8.encode "k").length ≤ maxStringBytes := by decide
    have hn : (Utf8.encode "n").length ≤ maxStringBytes := by decide
    exact ⟨by decide, List.forall_mem_cons.mpr ⟨⟨by decide, hk⟩,
      List.forall_mem_singleton.mpr ⟨by decide, by decide,
        List.forall_mem_cons.mpr ⟨trivial, List.forall_mem_singleton.mpr hn⟩⟩⟩⟩
  · refine (Value.distinctKeys_obj _).mpr ⟨by decide, List.forall_mem_cons.mpr ⟨trivial,
      List.forall_mem_singleton.mpr ((Value.distinctKeys_arr _).mpr ?_)⟩⟩
    exact List.forall_mem_cons.mpr ⟨trivial, List.forall_mem_singleton.mpr trivial⟩

theorem sampleValue_unmarked : sampleValue.AllTexts Unmarked := by
  have hk : Unmarked "k" := by decide
  have hn : Unmarked "n" := by decide
  refine (Value.allTexts_obj _ _).mpr (List.forall_mem_cons.mpr ⟨⟨by decide, hk⟩,
    List.forall_mem_singleton.mpr ⟨by decide, (Value.allTexts_arr _ _).mpr ?_⟩⟩)
  exact List.forall_mem_cons.mpr ⟨trivial, List.forall_mem_singleton.mpr hn⟩

theorem decodePayload_exact_sampleObject :
    decodePayload plainCodec sampleObject = .ok sampleValue :=
  ((decodePayload_exact faithful_plainCodec).1 sampleValue sampleObject encodingOf_sampleObject
    (by decide)).mpr sampleValue_unmarked

/-- The text of two characters of which the first is U+FEFF. -/
def markedText : Bytes := [0x64, 0xEF, 0xBB, 0xBF, 0x61]

/-- A well-formed encoding of a text that starts with U+FEFF is not decoded as it. -/
theorem decodePayload_markedText :
    EncodingOf (.str "\uFEFFa") markedText ∧
      decodePayload plainCodec markedText ≠ .ok (.str "\uFEFFa") := by
  constructor
  · refine ⟨.str "\uFEFFa", ⟨[0x64], ⟨.direct, by decide, rfl⟩, rfl⟩, ?_, trivial, rfl⟩
    show (Utf8.encode "\uFEFFa").length ≤ maxStringBytes
    decide
  · intro h
    obtain ⟨-, -, htexts⟩ := (decodePayload_eq_ok_iff faithful_plainCodec).mp h
    exact absurd htexts (show ¬ Unmarked "\uFEFFa" by decide)

end Kdna.Cbor

import Kdna.Contract.Reader
import Kdna.Json.Canonical

/-!
# What the canonicaliser writes is read back

`canonicalizeJcs` of `runtime-capsule.js` on plain data, and the reader behind it. The value that is
read is the written one with its members in the order of the text and without negative zeros.
-/

namespace Kdna

namespace Value

variable {ν τ : Type}

@[simp] theorem depth_arr (items : List (Value ν τ)) :
    depth (.arr items) = (items.map depth).foldr max 0 + 1 := by
  rw [depth, fold_arr]

@[simp] theorem depth_obj (props : List (String × Value ν τ)) :
    depth (.obj props) = (props.map fun p => depth p.2).foldr max 0 + 1 := by
  rw [depth, fold_obj]
  dsimp only
  rw [List.map_map]
  rfl

/-- A greatest depth does not depend on the order. -/
theorem foldr_max_perm {ms ns : List ℕ} (h : ms.Perm ns) : ms.foldr max 0 = ns.foldr max 0 := by
  apply le_antisymm
  · exact foldr_max_le.mpr fun m hm => foldr_max_le.mp le_rfl m (h.mem_iff.mp hm)
  · exact foldr_max_le.mpr fun n hn => foldr_max_le.mp le_rfl n (h.mem_iff.mpr hn)

theorem depth_mapNum {ν' : Type} (f : ν → ν') (v : Value ν τ) : (v.mapNum f).depth = v.depth := by
  induction v using Value.induction with
  | null => rfl
  | bool b => rfl
  | num x => rfl
  | str t => rfl
  | arr items ih =>
    rw [mapNum_arr, depth_arr, depth_arr, List.map_map]
    exact congrArg (fun ds => ds.foldr max 0 + 1) (List.map_congr_left ih)
  | obj props ih =>
    rw [mapNum_obj, depth_obj, depth_obj, List.map_map]
    exact congrArg (fun ds => ds.foldr max 0 + 1) (List.map_congr_left ih)

theorem depth_sorted (v : Value ν τ) : v.sorted.depth = v.depth := by
  induction v using Value.induction with
  | null => rfl
  | bool b => rfl
  | num x => rfl
  | str t => rfl
  | arr items ih =>
    rw [sorted_arr, depth_arr, depth_arr, List.map_map]
    exact congrArg (fun ds => ds.foldr max 0 + 1) (List.map_congr_left ih)
  | obj props ih =>
    rw [sorted_obj, depth_obj, depth_obj, foldr_max_perm ((sortKeys_perm _).map _), List.map_map]
    exact congrArg (fun ds => ds.foldr max 0 + 1) (List.map_congr_left ih)

theorem depth_enumerated (v : Value ν τ) : v.enumerated.depth = v.depth := by
  induction v using Value.induction with
  | null => rfl
  | bool b => rfl
  | num x => rfl
  | str t => rfl
  | arr items ih =>
    rw [enumerated_arr, depth_arr, depth_arr, List.map_map]
    exact congrArg (fun ds => ds.foldr max 0 + 1) (List.map_congr_left ih)
  | obj props ih =>
    rw [enumerated_obj, ofProps, depth_obj, depth_obj, foldr_max_perm ((ownOrder_perm _).map _),
      List.map_map]
    exact congrArg (fun ds => ds.foldr max 0 + 1) (List.map_congr_left ih)

end Value

namespace Contract

/-- `serialize(current, label)` of `canonicalizeJcs`, on plain data. -/
def canonicalizeJcs : Json → List Char :=
  Value.fold
    { null := "null".toList
      bool := fun b => if b then "true".toList else "false".toList
      num := Binary64.numberText
      str := quote
      arr := fun texts => '[' :: (commaJoin texts ++ [']'])
      obj := fun props => '{' ::
        (commaJoin ((sortKeys props).map fun p => quote p.1 ++ ':' :: p.2) ++ ['}']) }

theorem canonicalizeJcs_eq (v : Json) : canonicalizeJcs v = stringify v.sorted := canonicalText_eq v

/-- A value as its canonical text gives it back. -/
def readBack (v : Json) : Json := (v.sorted.mapNum Binary64.unsignedZero).enumerated

theorem depth_readBack (v : Json) : (readBack v).depth = v.depth := by
  rw [readBack, Value.depth_enumerated, Value.depth_mapNum, Value.depth_sorted]

/-- A number without its sign of zero has the same text. -/
theorem numberText_unsignedZero (x : Binary64) :
    Binary64.numberText x.unsignedZero = Binary64.numberText x := by
  unfold Binary64.unsignedZero
  split
  · next hzero =>
    rw [Binary64.numberText, Binary64.numberText, if_pos hzero]
    exact (if_pos hzero).symm
  · rfl

theorem stringify_mapNum (v : Json) : stringify (v.mapNum Binary64.unsignedZero) = stringify v := by
  induction v using Json.induction with
  | null => rfl
  | bool b => rfl
  | num x => exact numberText_unsignedZero x
  | str t => rfl
  | arr items ih =>
    rw [Value.mapNum_arr, stringify_arr, stringify_arr, List.map_map]
    exact congrArg (fun texts => '[' :: (commaJoin texts ++ [']'])) (List.map_congr_left ih)
  | obj props ih =>
    rw [Value.mapNum_obj, stringify_obj, stringify_obj, List.map_map]
    refine congrArg (fun texts => '{' :: (commaJoin texts ++ ['}'])) (List.map_congr_left fun p hp => ?_)
    exact congrArg (fun text => quote p.1 ++ ':' :: text) (ih p hp)

/-- The canonical text does not change when it is read and written again. -/
theorem canonicalizeJcs_readBack {v : Json} (hv : v.DistinctKeys) :
    canonicalizeJcs (readBack v) = canonicalizeJcs v := by
  have hkeys := Value.distinctKeys_mapNum Binary64.unsignedZero (Value.distinctKeys_sorted hv)
  rw [canonicalizeJcs_eq, canonicalizeJcs_eq, readBack, Value.sorted_enumerated hkeys,
    Value.sorted_mapNum, Value.sorted_sorted, stringify_mapNum]

/-- Two documents of one text are one value in memory. -/
theorem enumerated_eq_of_texts {d e : Json} {cs : List Char} (hd : d.DistinctKeys) (he : e.DistinctKeys)
    (h : Spaced (JsonText d) cs) (h' : Spaced (JsonText e) cs) : d.enumerated = e.enumerated := by
  have hparse : parse (max d.depth e.depth) (Utf16.encode cs) = .ok d.enumerated :=
    (parse_eq_ok_iff (short_encode cs)).mpr ⟨cs, d, rfl, h, le_max_left _ _, hd, rfl⟩
  rw [(parse_eq_ok_iff (short_encode cs)).mpr ⟨cs, e, rfl, h', le_max_right _ _, he, rfl⟩] at hparse
  exact (Except.ok.inj hparse).symm

theorem inputText_inj {input : Input} {cs cs' : List Char} (h : InputText input cs)
    (h' : InputText input cs') : cs = cs' := by
  cases input with
  | text units short => exact Utf16.encode_injective (h.symm.trans h')
  | octets bytes =>
    have hsame : Utf8.encode (String.ofList cs) = Utf8.encode (String.ofList cs') := by
      rw [Utf8.encode, Utf8.encode, String.toList_ofList, String.toList_ofList]
      exact h.symm.trans h'
    exact String.ofList_injective (Utf8.encode_injective hsame)
  | other => exact h.elim

/-- The reader takes what the canonicaliser wrote, as a text or as octets, exactly within the limits
of its options, and returns a value that is written as before. -/
theorem canonicalizeJcs_read_back {v : Json} (hv : v.DistinctKeys) {input : Input}
    (hinput : InputText input (canonicalizeJcs v)) {options : Json} {maxBytes maxDepth : ℕ}
    (hlimits : limits options = .ok (maxBytes, maxDepth)) :
    canonicalizeJcs (readBack v) = canonicalizeJcs v ∧
      ∀ w, parseRuntimeContractJson input options = .ok w ↔
        (Utf8.encodeChars (canonicalizeJcs v)).length ≤ maxBytes ∧ v.depth ≤ maxDepth ∧
          w = readBack v := by
  refine ⟨canonicalizeJcs_readBack hv, fun w => ?_⟩
  have htext : JsonText (v.sorted.mapNum Binary64.unsignedZero) (canonicalizeJcs v) := by
    rw [canonicalizeJcs_eq]
    exact jsonText_stringify _
  have hspaced : Spaced (JsonText (v.sorted.mapNum Binary64.unsignedZero)) (canonicalizeJcs v) :=
    ⟨[], _, [], List.forall_mem_nil _, htext, List.forall_mem_nil _, (List.append_nil _).symm⟩
  have hkeys := Value.distinctKeys_mapNum Binary64.unsignedZero (Value.distinctKeys_sorted hv)
  rw [reads_iff]
  constructor
  · rintro ⟨bytes, levels, hsame, cs, d, hcs, hlen, -, hd, hdepth, hdistinct, rfl⟩
    obtain ⟨rfl, rfl⟩ := Prod.mk.inj (Except.ok.inj (hlimits.symm.trans hsame))
    obtain rfl := inputText_inj hinput hcs
    have heq := enumerated_eq_of_texts hdistinct hkeys hd hspaced
    refine ⟨hlen, ?_, heq⟩
    rw [← depth_readBack, readBack, ← heq, Value.depth_enumerated]
    exact hdepth
  · rintro ⟨hlen, hdepth, rfl⟩
    refine ⟨maxBytes, maxDepth, hlimits, _, _, hinput, hlen, ?_, hspaced, ?_, hkeys, rfl⟩
    · obtain ⟨e, t, htail, hstart⟩ := htext.head
      rw [htail, List.head?_cons]
      rintro hmark
      rw [Option.some.inj hmark] at hstart
      exact absurd hstart (by decide)
    · rwa [Value.depth_mapNum, Value.depth_sorted]

/-- An object whose members are not in the order of their keys. -/
def unsorted : Json := .obj [("b", .arr []), ("a", .bool true)]

theorem canonicalizeJcs_read_back_unsorted :
    parseRuntimeContractJson (.octets (Utf8.encodeChars (canonicalizeJcs unsorted))) (.obj []) =
      .ok (readBack unsorted) := by
  have hkeys : unsorted.DistinctKeys := by
    simp only [unsorted, Value.distinctKeys_obj, Value.distinctKeys_arr, List.forall_mem_cons]
    exact ⟨by decide, List.forall_mem_nil _, trivial, List.forall_mem_nil _⟩
  have hinput : InputText (.octets (Utf8.encodeChars (canonicalizeJcs unsorted)))
      (canonicalizeJcs unsorted) := rfl
  have hlimits : limits (.obj []) = .ok (jsonMaxBytes, jsonMaxDepth) := rfl
  refine ((canonicalizeJcs_read_back hkeys hinput hlimits).2 _).mpr ⟨?_, ?_, rfl⟩
  · decide
  · decide

end Contract

end Kdna

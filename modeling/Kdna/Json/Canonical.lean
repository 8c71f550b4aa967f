import Kdna.Json.ParseExact
import Kdna.Json.Printed
import Mathlib.Data.List.Lex

/-!
# Canonical JSON

`canonicalJson` of `strict-input.js` sorts the keys of every object by their UTF-16
code units and is otherwise the text of `JSON.stringify`. Parsing its octets gives
back the value up to the order of members and the sign of zero.
-/

namespace Kdna

/-- `Object.keys(v).sort()`: the order of code units. -/
def sortKeys {α : Type} (props : List (String × α)) : List (String × α) :=
  props.insertionSort fun p q => Utf16.encode p.1.toList ≤ Utf16.encode q.1.toList

section SortKeys

variable {α β : Type}

theorem sortKeys_perm (props : List (String × α)) : (sortKeys props).Perm props :=
  List.perm_insertionSort _ _

theorem sortKeys_pairwise (props : List (String × α)) :
    (sortKeys props).Pairwise fun p q => Utf16.encode p.1.toList ≤ Utf16.encode q.1.toList :=
  List.pairwise_insertionSort _ _

/-- The order depends on the keys only. -/
theorem sortKeys_map (f : String × α → β) (props : List (String × α)) :
    sortKeys (props.map fun p => (p.1, f p)) = (sortKeys props).map fun p => (p.1, f p) := by
  rw [sortKeys, sortKeys,
    List.map_insertionSort _ fun p q => Utf16.encode p.1.toList ≤ Utf16.encode q.1.toList]
  exact fun _ _ _ _ => Iff.rfl

/-- Members with distinct keys have one sorted order. -/
theorem sortKeys_congr {ps qs : List (String × α)} (h : ps.Perm qs)
    (hnodup : (ps.map Prod.fst).Nodup) : sortKeys ps = sortKeys qs := by
  refine List.Perm.eq_of_pairwise ?_ (sortKeys_pairwise ps) (sortKeys_pairwise qs)
    ((sortKeys_perm ps).trans (h.trans (sortKeys_perm qs).symm))
  intro p q hp hq hpq hqp
  have hkey : p.1 = q.1 :=
    String.toList_injective (Utf16.encode_injective (le_antisymm hpq hqp))
  have hp := (sortKeys_perm ps).mem_iff.mp hp
  have hq := h.mem_iff.mpr ((sortKeys_perm qs).mem_iff.mp hq)
  exact List.inj_on_of_nodup_map hnodup hp hq hkey

theorem sortKeys_sortKeys (props : List (String × α)) : sortKeys (sortKeys props) = sortKeys props :=
  (sortKeys_pairwise props).insertionSort_eq

end SortKeys

namespace Value

variable {ν ν' τ : Type}

/-- The value with the members of every object sorted by key. -/
def sorted : Value ν τ → Value ν τ :=
  fold { null := .null, bool := .bool, num := .num, str := .str, arr := .arr
         obj := fun props => .obj (sortKeys props) }

@[simp] theorem sorted_arr (items : List (Value ν τ)) :
    sorted (.arr items) = .arr (items.map sorted) := by
  simp [sorted]

@[simp] theorem sorted_obj (props : List (String × Value ν τ)) :
    sorted (.obj props) = .obj (sortKeys (props.map fun p => (p.1, sorted p.2))) := by
  simp [sorted]

/-- Two values are equal up to the order of members. -/
def DeepEqual (v w : Value ν τ) : Prop := v.sorted = w.sorted

theorem sorted_sorted (v : Value ν τ) : v.sorted.sorted = v.sorted := by
  induction v with
  | null => rfl
  | bool b => rfl
  | num x => rfl
  | str t => rfl
  | arr items ih =>
    simp only [sorted_arr, List.map_map]
    exact congrArg arr (List.map_congr_left ih)
  | obj props ih =>
    simp only [sorted_obj, ← sortKeys_map, sortKeys_sortKeys, List.map_map]
    congr 2
    exact List.map_congr_left fun p hp => by simp [ih p hp]

theorem sorted_mapNum (f : ν → ν') (v : Value ν τ) : (v.mapNum f).sorted = v.sorted.mapNum f := by
  induction v with
  | null => rfl
  | bool b => rfl
  | num x => rfl
  | str t => rfl
  | arr items ih =>
    simp only [mapNum_arr, sorted_arr, List.map_map]
    exact congrArg arr (List.map_congr_left ih)
  | obj props ih =>
    simp only [mapNum_obj, sorted_obj, ← sortKeys_map, List.map_map]
    congr 2
    exact List.map_congr_left fun p hp => by simp [ih p hp]

/-- The order of enumeration is forgotten by sorting. -/
theorem sorted_enumerated {v : Value ν τ} (h : v.DistinctKeys) : v.enumerated.sorted = v.sorted := by
  induction v with
  | null => rfl
  | bool b => rfl
  | num x => rfl
  | str t => rfl
  | arr items ih =>
    rw [distinctKeys_arr] at h
    simp only [enumerated_arr, sorted_arr, List.map_map]
    exact congrArg arr (List.map_congr_left fun w hw => ih w hw (h w hw))
  | obj props ih =>
    rw [distinctKeys_obj] at h
    simp only [enumerated_obj, ofProps, sorted_obj, ← ownOrder_map, List.map_map]
    congr 1
    have hmap : props.map ((fun p : String × Value ν τ => (p.1, p.2.sorted)) ∘
        fun p => (p.1, p.2.enumerated)) = props.map fun p => (p.1, p.2.sorted) :=
      List.map_congr_left fun p hp => by simp [ih p hp (h.2 p hp)]
    rw [hmap]
    refine sortKeys_congr (ownOrder_perm _) ?_
    rw [((ownOrder_perm _).map Prod.fst).nodup_iff, List.map_map]
    exact h.1

theorem distinctKeys_sorted {v : Value ν τ} (h : v.DistinctKeys) : v.sorted.DistinctKeys := by
  induction v with
  | null => trivial
  | bool b => trivial
  | num x => trivial
  | str t => trivial
  | arr items ih =>
    rw [distinctKeys_arr] at h
    rw [sorted_arr, distinctKeys_arr, List.forall_mem_map]
    exact fun w hw => ih w hw (h w hw)
  | obj props ih =>
    rw [distinctKeys_obj] at h
    have hperm := sortKeys_perm (props.map fun p => (p.1, p.2.sorted))
    rw [sorted_obj, distinctKeys_obj, (hperm.map Prod.fst).nodup_iff, List.map_map]
    refine ⟨h.1, fun q hq => ?_⟩
    obtain ⟨p, hp, rfl⟩ := List.mem_map.mp (hperm.mem_iff.mp hq)
    exact ih p hp (h.2 p hp)

theorem distinctKeys_mapNum (f : ν → ν') {v : Value ν τ} (h : v.DistinctKeys) :
    (v.mapNum f).DistinctKeys := by
  induction v with
  | null => trivial
  | bool b => trivial
  | num x => trivial
  | str t => trivial
  | arr items ih =>
    rw [distinctKeys_arr] at h
    rw [mapNum_arr, distinctKeys_arr, List.forall_mem_map]
    exact fun w hw => ih w hw (h w hw)
  | obj props ih =>
    rw [distinctKeys_obj] at h
    rw [mapNum_obj, distinctKeys_obj, List.map_map, List.forall_mem_map]
    exact ⟨h.1, fun p hp => ih p hp (h.2 p hp)⟩

theorem strict_sorted {levels : ℕ} {v : Json} (h : v.Strict levels) : v.sorted.Strict levels := by
  induction levels generalizing v with
  | zero => exact h
  | succ levels ih =>
    cases v with
    | null => trivial
    | bool b => trivial
    | num x => trivial
    | str t => exact h
    | arr items =>
      rw [sorted_arr]
      exact ⟨by rw [List.length_map]; exact h.1,
        List.forall_mem_map.mpr fun w hw => ih (h.2 w hw)⟩
    | obj props =>
      rw [sorted_obj]
      intro q hq
      obtain ⟨p, hp, rfl⟩ := List.mem_map.mp ((sortKeys_perm _).mem_iff.mp hq)
      exact ⟨(h p hp).1, ih (h p hp).2⟩

theorem strict_mapNum (f : Binary64 → Binary64) {levels : ℕ} {v : Json} (h : v.Strict levels) :
    Strict levels (v.mapNum f) := by
  induction levels generalizing v with
  | zero => exact h
  | succ levels ih =>
    cases v with
    | null => trivial
    | bool b => trivial
    | num x => trivial
    | str t => exact h
    | arr items =>
      rw [mapNum_arr]
      exact ⟨by rw [List.length_map]; exact h.1,
        List.forall_mem_map.mpr fun w hw => ih (h.2 w hw)⟩
    | obj props =>
      rw [mapNum_obj]
      exact List.forall_mem_map.mpr fun p hp => ⟨(h p hp).1, ih (h p hp).2⟩

end Value

/-- `encode(v)` of `canonicalJson`. -/
def canonicalText : Json → List Char :=
  Value.fold
    { null := stringify .null
      bool := fun b => stringify (.bool b)
      num := fun x => stringify (.num x)
      str := fun t => stringify (.str t)
      arr := fun texts => '[' :: (commaJoin texts ++ [']'])
      obj := fun props => '{' ::
        (commaJoin ((sortKeys props).map fun p => quote p.1 ++ ':' :: p.2) ++ ['}']) }

/-- `assertStrictJson(input)`: on a tree, the tests and charges of `copyJson`. -/
def assertStrictJson (input : Json) : Except Failure Unit := do
  let _ ← copyLevels (maxDepth + 1) input 0
  return ()

/-- `canonicalJson(input)` -/
def canonicalJson (input : Json) : Except Failure String := do
  assertStrictJson input
  return String.ofList (canonicalText input)

@[simp] theorem canonicalText_arr (items : List Json) :
    canonicalText (.arr items) = '[' :: (commaJoin (items.map canonicalText) ++ [']']) := by
  simp [canonicalText]

@[simp] theorem canonicalText_obj (props : List (String × Json)) :
    canonicalText (.obj props) = '{' :: (commaJoin ((sortKeys props).map fun p =>
      quote p.1 ++ ':' :: canonicalText p.2) ++ ['}']) := by
  simp only [canonicalText, Value.fold_obj, sortKeys_map, List.map_map]
  rfl

/-- The canonical text is the text of the sorted value. -/
theorem canonicalText_eq (v : Json) : canonicalText v = stringify v.sorted := by
  induction v using Json.induction with
  | null => rfl
  | bool b => rfl
  | num x => rfl
  | str t => rfl
  | arr items ih =>
    rw [Value.sorted_arr, stringify_arr, List.map_map, canonicalText_arr]
    congr 3
    exact List.map_congr_left ih
  | obj props ih =>
    rw [Value.sorted_obj, stringify_obj, canonicalText_obj, sortKeys_map, List.map_map]
    congr 3
    refine List.map_congr_left fun p hp => ?_
    exact congrArg (fun t => quote p.1 ++ ':' :: t) (ih p ((sortKeys_perm _).mem_iff.mp hp))

/-- The octets of texts joined by commas. -/
theorem length_encodeChars_commaJoin (texts : List (List Char)) :
    (Utf8.encodeChars (commaJoin texts)).length =
      (texts.map fun t => (Utf8.encodeChars t).length).sum + (texts.length - 1) := by
  have hcomma : (String.utf8EncodeChar ',').length = 1 := by decide
  induction texts with
  | nil => rfl
  | cons t ts ih =>
    cases ts with
    | nil => simp
    | cons u us =>
      rw [commaJoin_cons_cons, Utf8.encodeChars_append, Utf8.encodeChars_cons, List.length_append,
        List.length_append, ih, hcomma]
      simp only [List.map_cons, List.sum_cons, List.length_cons]
      omega

/-- The octets of a text between two brackets. -/
theorem length_encodeChars_bracketed {o c : Char} (ho : (String.utf8EncodeChar o).length = 1)
    (hc : (String.utf8EncodeChar c).length = 1) (body : List Char) :
    (Utf8.encodeChars (o :: (body ++ [c]))).length = (Utf8.encodeChars body).length + 2 := by
  simp only [Utf8.encodeChars_cons, Utf8.encodeChars_append, Utf8.encodeChars_nil,
    List.length_append, List.length_nil, ho, hc]
  omega

/-- Copying a value charges less than two octets for each octet of its canonical
text. -/
theorem weight_lt_canonicalText (v : Json) :
    v.weight + 1 ≤ 2 * (Utf8.encodeChars (canonicalText v)).length := by
  have hsum {α : Type} (l : List α) (f g : α → ℕ) (h : ∀ a ∈ l, f a ≤ 2 * g a) :
      (l.map f).sum ≤ 2 * (l.map g).sum := by
    induction l with
    | nil => simp
    | cons a l ih =>
      have ha := h a List.mem_cons_self
      have hl := ih fun b hb => h b (.tail _ hb)
      simp only [List.map_cons, List.sum_cons]
      omega
  have hscalar : ∀ w : Json, canonicalText w = stringify w → w.weight = scalarBytes w →
      w.weight + 1 ≤ 2 * (Utf8.encodeChars (canonicalText w)).length := by
    intro w htext hweight
    have hbytes : 0 < (Utf8.encodeChars (stringify w)).length := by
      obtain ⟨c, cs, hcs, -⟩ := (jsonText_stringify w).head
      have hc := Utf8.length_encodeChar_pos c
      rw [hcs, Utf8.encodeChars_cons, List.length_append]
      omega
    rw [hweight, htext, scalarBytes]
    omega
  induction v using Json.induction with
  | null => exact hscalar _ rfl rfl
  | bool b => exact hscalar _ rfl rfl
  | num x => exact hscalar _ rfl rfl
  | str t => exact hscalar _ rfl rfl
  | arr items ih =>
    have hitems := hsum items (fun v => 1 + v.weight)
      (fun v => (Utf8.encodeChars (canonicalText v)).length)
      fun v hv => by rw [Nat.add_comm]; exact ih v hv
    rw [canonicalText_arr, length_encodeChars_bracketed (by decide) (by decide),
      length_encodeChars_commaJoin, List.map_map, Value.weight_arr]
    simp only [Function.comp_def]
    omega
  | obj props ih =>
    have hprops := hsum props (fun p => scalarBytes (.str p.1) + 2 + p.2.weight)
      (fun p => (Utf8.encodeChars (quote p.1 ++ ':' :: canonicalText p.2)).length) fun p hp => by
        have hcolon : (String.utf8EncodeChar ':').length = 1 := by decide
        have hvalue := ih p hp
        simp only [scalarBytes, stringify_str, Utf8.encodeChars_append, Utf8.encodeChars_cons,
          List.length_append, hcolon]
        omega
    rw [canonicalText_obj, length_encodeChars_bracketed (by decide) (by decide),
      length_encodeChars_commaJoin, List.map_map, Value.weight_obj, List.length_map,
      ((sortKeys_perm props).map _).sum_nat]
    simp only [Function.comp_def]
    omega

/-- A strict value with a text within the payload bound has canonical JSON. -/
theorem canonicalJson_eq {v : Json} (hmemory : v.enumerated = v) (hstrict : v.Strict (maxDepth + 1))
    (hlen : (Utf8.encodeChars (canonicalText v)).length ≤ maxPayloadBytes) :
    canonicalJson v = .ok (String.ofList (canonicalText v)) := by
  have hweight := weight_lt_canonicalText v
  have hgraph : 2 * maxPayloadBytes ≤ maxGraphBytes := by decide
  obtain ⟨after, hcopy, -⟩ := copyLevels_eq hstrict 0 (by rw [hmemory]; omega)
  rw [hmemory] at hcopy
  rw [canonicalJson, assertStrictJson, hcopy]
  rfl

/-- The octets of canonical JSON are those of a JSON text of the value, up to the
order of members and the sign of zero. -/
theorem jsonBytes_canonicalText {v : Json} (hstrict : v.Strict (maxDepth + 1))
    (hkeys : v.DistinctKeys)
    (hlen : (Utf8.encodeChars (canonicalText v)).length ≤ maxPayloadBytes) :
    JsonBytes (v.sorted.mapNum Binary64.unsignedZero).enumerated
      (Utf8.encode (String.ofList (canonicalText v))) := by
  have htext := jsonText_stringify v.sorted
  rw [← canonicalText_eq] at htext
  refine ⟨_, _, rfl, by rwa [Utf8.encode, String.toList_ofList], ?_,
    Value.strict_mapNum _ (Value.strict_sorted hstrict),
    Value.distinctKeys_mapNum _ (Value.distinctKeys_sorted hkeys), rfl⟩
  rw [String.toList_ofList]
  exact ⟨[], _, [], List.forall_mem_nil _, htext, List.forall_mem_nil _, (List.append_nil _).symm⟩

/-- `parseJson` accepts exactly the encodings of JSON texts of documents within the
bounds, behind at most one byte order mark, and returns the document; the octets of
canonical JSON are parsed as the value. -/
theorem parseJson_exact :
    (∀ b v, parseJson b = .ok v ↔ JsonBytes v b ∨ ∃ c, b = Utf8.bom ++ c ∧ JsonBytes v c) ∧
    ∀ v : Json, v.enumerated = v → v.Strict (maxDepth + 1) → v.DistinctKeys →
      (Utf8.encodeChars (canonicalText v)).length ≤ maxPayloadBytes →
      ∃ text w, canonicalJson v = .ok text ∧ parseJson (Utf8.encode text) = .ok w ∧
        w.DeepEqual (v.mapNum Binary64.unsignedZero) := by
  refine ⟨fun b v => parseJson_eq_ok_iff, fun v hmemory hstrict hkeys hlen => ?_⟩
  refine ⟨_, _, canonicalJson_eq hmemory hstrict hlen,
    parseJson_eq_ok_iff.mpr (.inl (jsonBytes_canonicalText hstrict hkeys hlen)), ?_⟩
  rw [Value.DeepEqual, Value.sorted_enumerated (Value.distinctKeys_mapNum _
    (Value.distinctKeys_sorted hkeys)), Value.sorted_mapNum, Value.sorted_mapNum,
    Value.sorted_sorted]

theorem parseJson_exact_sample :
    ∃ text w, canonicalJson (.obj [("a", .arr [.bool true, .null])]) = .ok text ∧
      parseJson (Utf8.encode text) = .ok w ∧
      w.DeepEqual (Value.mapNum Binary64.unsignedZero (.obj [("a", .arr [.bool true, .null])])) := by
  refine parseJson_exact.2 (.obj [("a", .arr [.bool true, .null])]) rfl ?_ ?_ (by decide)
  · exact List.forall_mem_singleton.mpr ⟨by decide, by decide,
      List.forall_mem_cons.mpr ⟨trivial, List.forall_mem_singleton.mpr trivial⟩⟩
  · exact (Value.distinctKeys_obj _).mpr ⟨by decide, List.forall_mem_singleton.mpr
      ((Value.distinctKeys_arr _).mpr
        (List.forall_mem_cons.mpr ⟨trivial, List.forall_mem_singleton.mpr trivial⟩))⟩

/-- The octets of `null` behind a byte order mark. -/
def markedNull : Bytes := [0xEF, 0xBB, 0xBF, 0x6E, 0x75, 0x6C, 0x6C]

/-- The parser accepts octets that are the encoding of no JSON text. -/
theorem parseJson_markedNull : parseJson markedNull = .ok .null ∧ ∀ v, ¬ JsonBytes v markedNull :=
  ⟨rfl, fun _ h => h.unmarked ⟨[0x6E, 0x75, 0x6C, 0x6C], rfl⟩⟩

end Kdna

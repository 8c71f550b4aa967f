import Kdna.Json.CanonicalInjective
import Kdna.Json.Members
import Kdna.Shapes.Values

/-!
# Compatible contracts

Two shapes have one canonical text only when they are equal, so values move along compatible
contracts, and so do projections. Contracts are compared through canonical JSON, which stands in
for a contract as long as it is part of a payload that passed the strict check.
-/

namespace Kdna.Shapes

section Text

/-- Members that are written in the order of their keys stay where they are. -/
theorem sortKeys_of_sorted {props : List (String × Json)} (keys : List String)
    (hkeys : props.map Prod.fst = keys)
    (h : keys.Pairwise fun a b => Utf16.encode a.toList ≤ Utf16.encode b.toList) :
    sortKeys props = props := by
  subst hkeys
  exact (List.pairwise_map.mp h).insertionSort_eq

theorem unsignedZero_number (n : UInt) : Binary64.unsignedZero n.number = n.number := by
  rw [Binary64.unsignedZero]
  split_ifs
  · rfl
  · rfl

/-- A field of a record shape as it is written. -/
def fieldJson (f : ShapeField Shape) : Json :=
  .obj [("name", .str f.name), ("required", .bool f.required), ("shape", f.shape.json)]

theorem fieldsJson_eq (fields : List (ShapeField Shape)) :
    fieldsJson fields = fields.map fieldJson := by
  induction fields with
  | nil => rfl
  | cons f fields ih => rw [fieldsJson, ih, List.map_cons, fieldJson]

theorem maximumJson_sorted (maximum : Option UInt) :
    ((maximumJson maximum).mapNum Binary64.unsignedZero).sorted = maximumJson maximum := by
  cases maximum with
  | none => rfl
  | some n => exact congrArg Value.num (unsignedZero_number n)

theorem distinctKeys_json (s : Shape) : s.json.DistinctKeys := by
  induction s with
  | scalar t =>
    rw [Shape.json, Value.distinctKeys_obj]
    refine ⟨by simp, ?_⟩
    simp only [List.forall_mem_cons, List.not_mem_nil, false_implies, implies_true, and_true]
    exact ⟨trivial, trivial⟩
  | list item minimum maximum ih =>
    rw [Shape.json, Value.distinctKeys_obj]
    refine ⟨by simp, ?_⟩
    simp only [List.forall_mem_cons, List.not_mem_nil, false_implies, implies_true, and_true]
    refine ⟨ih, trivial, ?_, trivial⟩
    cases maximum with
    | none => trivial
    | some n => trivial
  | record fields ih =>
    rw [Shape.json, Value.distinctKeys_obj]
    refine ⟨by simp, ?_⟩
    simp only [List.forall_mem_cons, List.not_mem_nil, false_implies, implies_true, and_true,
      fieldsJson_eq, Value.distinctKeys_arr, List.forall_mem_map, fieldJson,
      Value.distinctKeys_obj]
    refine ⟨fun f hf => ⟨by simp, trivial, trivial, ih f hf⟩, trivial⟩

/-- A shape is written in the order of its keys. -/
theorem json_sorted (s : Shape) : (s.json.mapNum Binary64.unsignedZero).sorted = s.json := by
  induction s with
  | scalar t =>
    rw [Shape.json]
    simp only [Value.mapNum_obj, Value.sorted_obj, List.map_cons, List.map_nil]
    exact congrArg Value.obj
      (sortKeys_of_sorted ["kind", "scalar_type"] rfl (by decide))
  | list item minimum maximum ih =>
    rw [Shape.json]
    simp only [Value.mapNum_obj, Value.sorted_obj, List.map_cons, List.map_nil, ih,
      maximumJson_sorted, Value.mapNum_num, unsignedZero_number]
    exact congrArg Value.obj (sortKeys_of_sorted
      ["item_shape", "kind", "maximum", "minimum"] rfl (by decide))
  | record fields ih =>
    have hfield : ∀ f ∈ fields,
        ((fieldJson f).mapNum Binary64.unsignedZero).sorted = fieldJson f := by
      intro f hf
      rw [fieldJson]
      simp only [Value.mapNum_obj, Value.sorted_obj, List.map_cons, List.map_nil, ih f hf]
      exact congrArg Value.obj
        (sortKeys_of_sorted ["name", "required", "shape"] rfl (by decide))
    have hfields : fields.map (Value.sorted ∘ Value.mapNum Binary64.unsignedZero ∘ fieldJson) =
        fields.map fieldJson := List.map_congr_left hfield
    rw [Shape.json, fieldsJson_eq]
    simp only [Value.mapNum_obj, Value.mapNum_arr, Value.sorted_obj, Value.sorted_arr,
      List.map_cons, List.map_nil, List.map_map, hfields]
    exact congrArg Value.obj
      (sortKeys_of_sorted ["fields", "kind"] rfl (by decide))

theorem number_injective {m n : UInt} (h : m.number = n.number) : m = n := by
  have hunits : m.1 * Binary64.one = n.1 * Binary64.one := congrArg Binary64.units h
  exact Subtype.ext (Nat.eq_of_mul_eq_mul_right Binary64.one_pos hunits)

theorem maximumJson_injective {m n : Option UInt} (h : maximumJson m = maximumJson n) : m = n := by
  cases m with
  | none =>
    cases n with
    | none => rfl
    | some n => exact nomatch h
  | some m =>
    cases n with
    | none => exact nomatch h
    | some n => exact congrArg some (number_injective (Value.num.inj h))

theorem name_injective {t u : ScalarKind} (h : t.name = u.name) : t = u := by
  revert h
  cases t <;> cases u <;> decide

/-- A shape is read off what is written. -/
theorem json_injective {s t : Shape} (h : s.json = t.json) : s = t := by
  induction s generalizing t with
  | scalar k =>
    cases t with
    | scalar l =>
      simp only [Shape.json, Value.obj.injEq, List.cons.injEq, Prod.mk.injEq, Value.str.injEq,
        true_and, and_true] at h
      rw [name_injective h]
    | list _ _ _ => simp [Shape.json] at h
    | record _ => simp [Shape.json] at h
  | list item minimum maximum ih =>
    cases t with
    | scalar _ => simp [Shape.json] at h
    | list item' minimum' maximum' =>
      simp only [Shape.json, Value.obj.injEq, List.cons.injEq, Prod.mk.injEq, Value.num.injEq,
        true_and, and_true] at h
      rw [ih h.1, maximumJson_injective h.2.1, number_injective h.2.2]
    | record _ => simp [Shape.json] at h
  | record fields ih =>
    cases t with
    | scalar _ => simp [Shape.json] at h
    | list _ _ _ => simp [Shape.json] at h
    | record fields' =>
      simp only [Shape.json, Value.obj.injEq, List.cons.injEq, Prod.mk.injEq, Value.arr.injEq,
        true_and, and_true, fieldsJson_eq] at h
      refine congrArg Shape.record ?_
      induction fields generalizing fields' with
      | nil => exact (List.map_eq_nil_iff.mp h.symm).symm
      | cons f fields ihf =>
        cases fields' with
        | nil => exact nomatch h
        | cons f' fields' =>
          obtain ⟨hf, hfields⟩ := List.cons.inj h
          obtain ⟨hhead, htail⟩ := List.forall_mem_cons.mp ih
          simp only [fieldJson, Value.obj.injEq, List.cons.injEq, Prod.mk.injEq, Value.str.injEq,
            Value.bool.injEq, true_and, and_true] at hf
          obtain ⟨hname, hrequired, hshape⟩ := hf
          have hsame : f = f' := by
            cases f
            cases f'
            obtain rfl := hname
            obtain rfl := hrequired
            obtain rfl := hhead hshape
            rfl
          rw [hsame, ihf htail fields' hfields]

end Text

section Equal

variable {field : String} {a b c : Json} {s t : Shape}

theorem canonical_eq_ok_iff {text : String} : canonical a = .ok text ↔ canonicalJson a = .ok text := by
  rw [canonical]
  cases canonicalJson a <;> simp [Except.mapError]

theorem equal_eq_ok_iff : equal a b = .ok true ↔
    ∃ text, canonicalJson a = .ok text ∧ canonicalJson b = .ok text := by
  simp only [equal, bind_eq_ok_iff, canonical_eq_ok_iff, pure_eq_ok, Except.ok.injEq, beq_iff_eq]
  constructor
  · rintro ⟨x, hx, y, hy, rfl⟩
    exact ⟨x, hx, hy⟩
  · rintro ⟨x, hx, hy⟩
    exact ⟨x, hx, x, hy, rfl⟩

/-- What passed the strict check has a canonical text. -/
theorem canonicalJson_of_strict (h : assertStrictJson a = .ok ()) :
    canonicalJson a = .ok (String.ofList (canonicalText a)) := by
  obtain ⟨hstrict, hbytes⟩ := assertStrictJson_eq_ok_iff.mp h
  exact canonicalJson_eq_ok_iff.mpr ⟨hstrict, hbytes, rfl⟩

/-- What passed the strict check equals itself. -/
theorem equal_self (h : assertStrictJson a = .ok ()) : equal a a = .ok true :=
  equal_eq_ok_iff.mpr ⟨_, canonicalJson_of_strict h, canonicalJson_of_strict h⟩

/-- Nothing stops a comparison of what passed the strict check. -/
theorem exists_equal (ha : assertStrictJson a = .ok ()) (hb : assertStrictJson b = .ok ()) :
    ∃ same, equal a b = .ok same := by
  simp only [equal, canonical_eq_ok_iff.mpr (canonicalJson_of_strict ha),
    canonical_eq_ok_iff.mpr (canonicalJson_of_strict hb), ok_bind]
  exact ⟨_, rfl⟩

/-- Values with one text compare alike. -/
theorem equal_congr (h : equal a b = .ok true) : equal a c = equal b c := by
  obtain ⟨text, ha, hb⟩ := equal_eq_ok_iff.mp h
  simp only [equal, canonical_eq_ok_iff.mpr ha, canonical_eq_ok_iff.mpr hb]

theorem equal_trans (h : equal a b = .ok true) (h' : equal b c = .ok true) :
    equal a c = .ok true := (equal_congr h).trans h'

theorem strict_of_equal (h : equal a b = .ok true) : assertStrictJson a = .ok () := by
  obtain ⟨text, ha, -⟩ := equal_eq_ok_iff.mp h
  obtain ⟨hstrict, hbytes, -⟩ := canonicalJson_eq_ok_iff.mp ha
  exact assertStrictJson_eq_ok_iff.mpr ⟨hstrict, hbytes⟩

/-- Shapes with one text are one shape. -/
theorem eq_of_equal (h : equal s.json t.json = .ok true) : s = t := by
  obtain ⟨text, hs, ht⟩ := equal_eq_ok_iff.mp h
  obtain ⟨hsstrict, -, hstext⟩ := canonicalJson_eq_ok_iff.mp hs
  obtain ⟨htstrict, -, httext⟩ := canonicalJson_eq_ok_iff.mp ht
  have htexts : canonicalText s.json = canonicalText t.json :=
    String.ofList_injective (hstext.symm.trans httext)
  have hequal := canonicalText_injective hsstrict htstrict (distinctKeys_json s)
    (distinctKeys_json t) htexts
  rw [Value.DeepEqual, json_sorted, json_sorted] at hequal
  exact json_injective hequal

end Equal

section Search

variable {ε α : Type} {p q : α → Except ε Bool} {l : List α}

theorem anyM_eq_ok_false_iff : l.anyM p = .ok false ↔ ∀ a ∈ l, p a = .ok false := by
  induction l with
  | nil => simp [pure_eq_ok]
  | cons a l ih =>
    rw [List.anyM, bind_eq_ok_iff, List.forall_mem_cons]
    constructor
    · rintro ⟨found, ha, hrest⟩
      cases found with
      | true => exact nomatch hrest
      | false => exact ⟨ha, ih.mp hrest⟩
    · rintro ⟨ha, hrest⟩
      exact ⟨false, ha, ih.mpr hrest⟩

theorem exists_of_anyM (h : l.anyM p = .ok true) : ∃ a ∈ l, p a = .ok true := by
  induction l with
  | nil => exact nomatch h
  | cons a l ih =>
    rw [List.anyM, bind_eq_ok_iff] at h
    obtain ⟨found, ha, hrest⟩ := h
    cases found with
    | true => exact ⟨a, List.mem_cons_self, ha⟩
    | false =>
      obtain ⟨b, hb, hfound⟩ := ih hrest
      exact ⟨b, .tail _ hb, hfound⟩

/-- A search that nothing stops finds what is there. -/
theorem anyM_of_exists (hok : ∀ a ∈ l, ∃ found, p a = .ok found) (h : ∃ a ∈ l, p a = .ok true) :
    l.anyM p = .ok true := by
  induction l with
  | nil =>
    obtain ⟨a, ha, -⟩ := h
    exact absurd ha List.not_mem_nil
  | cons a l ih =>
    obtain ⟨⟨found, ha⟩, hrest⟩ := List.forall_mem_cons.mp hok
    rw [List.anyM, ha, ok_bind]
    cases found with
    | true => rfl
    | false =>
      apply ih hrest
      obtain ⟨b, hb, hfound⟩ := h
      rcases List.mem_cons.mp hb with rfl | hb
      · exact nomatch ha.symm.trans hfound
      · exact ⟨b, hb, hfound⟩

end Search

section Compatible

variable {field : String} {a b c : ResultContract} {types others : List Json}

/-- Each type is one of the others. -/
def Covers (types others : List Json) : Prop :=
  ∀ t ∈ types, others.anyM (fun u => equal t u) = .ok true

theorem missing_eq_ok_false_iff :
    (types.anyM fun t => do return !(← others.anyM fun u => equal t u)) = .ok false ↔
      Covers types others := by
  rw [anyM_eq_ok_false_iff]
  refine forall₂_congr fun t _ => ?_
  simp only [bind_eq_ok_iff, pure_eq_ok, Except.ok.injEq, Bool.not_eq_false']
  constructor
  · rintro ⟨found, hfound, rfl⟩
    exact hfound
  · exact fun h => ⟨true, h, rfl⟩

theorem compatible_result_iff :
    compatible field (some (.result a)) (some (.result b)) = .ok () ↔
      equal a.shape.json b.shape.json = .ok true ∧ b.minimum.1 ≤ a.minimum.1 ∧
        (∀ m ∈ b.maximum, ∃ n ∈ a.maximum, n.1 ≤ m.1) ∧
        ∀ types ∈ a.allowedResultTypes, ∀ others ∈ b.allowedResultTypes, Covers types others := by
  simp only [compatible, bind_eq_ok_iff, require_eq_ok_iff]
  constructor
  · rintro ⟨same, hsame, -, ⟨rfl, hmin, hmax⟩, htypes⟩
    refine ⟨hsame, hmin, hmax, fun types ht others ho => ?_⟩
    rw [Option.mem_def] at ht ho
    simp only [ht, ho, bind_eq_ok_iff, require_eq_ok_iff] at htypes
    obtain ⟨missing, hmissing, rfl⟩ := htypes
    exact missing_eq_ok_false_iff.mp hmissing
  · rintro ⟨hsame, hmin, hmax, htypes⟩
    refine ⟨true, hsame, (), ⟨rfl, hmin, hmax⟩, ?_⟩
    cases ht : a.allowedResultTypes with
    | none => rfl
    | some types =>
      cases ho : b.allowedResultTypes with
      | none => rfl
      | some others =>
        simp only [bind_eq_ok_iff, require_eq_ok_iff]
        exact ⟨false, missing_eq_ok_false_iff.mpr (htypes types ht others ho), rfl⟩

theorem Covers.trans {more : List Json} (h : Covers types others) (h' : Covers others more) :
    Covers types more := by
  intro t ht
  obtain ⟨u, hu, hequal⟩ := exists_of_anyM (h t ht)
  rw [funext fun w => equal_congr (c := w) hequal]
  exact h' u hu

theorem Covers.refl (h : ∀ t ∈ types, assertStrictJson t = .ok ()) : Covers types types := by
  intro t ht
  apply anyM_of_exists
  · exact fun u hu => exists_equal (h t ht) (h u hu)
  · exact ⟨t, ht, equal_self (h t ht)⟩

/-- A contract of a payload that passed the strict check and the check of contracts. -/
def Accepted (field : String) (c : Contract) : Prop :=
  validateContract field c = .ok () ∧ assertStrictJson c.json = .ok ()

/-- The text of an object begins with its first key. -/
theorem canonicalText_head {k : String} {v : Json} {props : List (String × Json)}
    (keys : List String) (hkeys : ((k, v) :: props).map Prod.fst = keys)
    (h : keys.Pairwise fun a b => Utf16.encode a.toList ≤ Utf16.encode b.toList) :
    ∃ rest, canonicalText (.obj ((k, v) :: props)) = '{' :: (quote k ++ rest) := by
  rw [canonicalText_obj, sortKeys_of_sorted keys hkeys h, List.map_cons]
  cases props.map fun p : String × Json => quote p.1 ++ ':' :: canonicalText p.2 with
  | nil =>
    rw [commaJoin_singleton, List.append_assoc]
    exact ⟨_, rfl⟩
  | cons text texts =>
    rw [commaJoin_cons_cons, List.append_assoc, List.append_assoc]
    exact ⟨_, rfl⟩

theorem equal_symm {a b : Json} (h : equal a b = .ok true) : equal b a = .ok true := by
  obtain ⟨text, ha, hb⟩ := equal_eq_ok_iff.mp h
  exact equal_eq_ok_iff.mpr ⟨text, hb, ha⟩

/-- No emission list is written like a result contract with result types. -/
theorem equal_emissionList_ne {id : String} {policyRef : Json} (ht : a.allowedResultTypes = some types) :
    equal (Contract.emissionList id policyRef).json (Contract.result a).json ≠ .ok true := by
  intro h
  obtain ⟨text, hemission, hresult⟩ := equal_eq_ok_iff.mp h
  obtain ⟨-, -, hetext⟩ := canonicalJson_eq_ok_iff.mp hemission
  obtain ⟨-, -, hrtext⟩ := canonicalJson_eq_ok_iff.mp hresult
  have htexts := String.ofList_injective (hetext.symm.trans hrtext)
  have hid : ∃ rest, canonicalText (Contract.emissionList id policyRef).json =
      '{' :: (quote "id" ++ rest) :=
    canonicalText_head ["id", "kind", "policy_ref"] rfl (by decide)
  have hhead : ∃ rest, canonicalText (Contract.result a).json =
      '{' :: (quote "allowed_result_types" ++ rest) := by
    cases hform : a.form with
    | none =>
      cases hid : a.id with
      | none =>
        simp only [Contract.json, ht, hform, hid, Option.toList, List.map_cons, List.map_nil,
          List.cons_append, List.nil_append]
        exact canonicalText_head ["allowed_result_types", "maximum", "minimum", "shape"] rfl
          (by decide)
      | some i =>
        simp only [Contract.json, ht, hform, hid, Option.toList, List.map_cons, List.map_nil,
          List.cons_append, List.nil_append]
        exact canonicalText_head ["allowed_result_types", "id", "maximum", "minimum", "shape"] rfl
          (by decide)
    | some form =>
      cases hid : a.id with
      | none =>
        simp only [Contract.json, ht, hform, hid, Option.toList, List.map_cons, List.map_nil,
          List.cons_append, List.nil_append]
        exact canonicalText_head ["allowed_result_types", "form", "maximum", "minimum", "shape"] rfl
          (by decide)
      | some i =>
        simp only [Contract.json, ht, hform, hid, Option.toList, List.map_cons, List.map_nil,
          List.cons_append, List.nil_append]
        exact canonicalText_head ["allowed_result_types", "form", "id", "maximum", "minimum",
          "shape"] rfl (by decide)
  obtain ⟨rest, hrest⟩ := hid
  obtain ⟨rest', hrest'⟩ := hhead
  have hquotes : quote "id" ++ rest = quote "allowed_result_types" ++ rest' :=
    (List.cons.inj ((hrest.symm.trans htexts).trans hrest')).2
  have hid : quote "id" = ['"', 'i', 'd', '"'] := by decide
  have htypes : quote "allowed_result_types" = '"' :: 'a' ::
      ((quote "allowed_result_types").drop 2) := by decide
  rw [hid, htypes] at hquotes
  simp at hquotes

theorem compatible_emissionList_iff {id : String} {policyRef : Json} {b : Contract} :
    compatible field (some (.emissionList id policyRef)) (some b) = .ok () ↔
      equal (Contract.emissionList id policyRef).json b.json = .ok true := by
  cases b <;> simp [compatible, bind_eq_ok_iff]

theorem compatible_result_emissionList_iff {id : String} {policyRef : Json} :
    compatible field (some (.result a)) (some (.emissionList id policyRef)) = .ok () ↔
      equal (Contract.result a).json (Contract.emissionList id policyRef).json = .ok true := by
  simp [compatible, bind_eq_ok_iff]

theorem Accepted.exists_types (h : Accepted field (.result a)) :
    ∃ types, a.allowedResultTypes = some types := by
  obtain ⟨hvalid, -⟩ := h
  simp only [validateContract, bind_eq_ok_iff, orFail_eq_ok_iff] at hvalid
  obtain ⟨-, -, -, -, types, htypes, -⟩ := hvalid
  exact ⟨types, htypes⟩

/-- The shape at a path of a shape that passed the strict check passes it. -/
theorem strict_shapeAt {s t : Shape} {path : List String} (hs : assertStrictJson s.json = .ok ())
    (h : shapeAt field s path = .ok t) : assertStrictJson t.json = .ok () := by
  induction path generalizing s with
  | nil =>
    rw [shapeAt] at h
    rwa [← Except.ok.inj h]
  | cons name path ih =>
    cases s with
    | scalar _ => exact nomatch h
    | list _ _ _ => exact nomatch h
    | record fields =>
      rw [shapeAt] at h
      cases hfind : fields.find? fun f => f.name = name with
      | none =>
        rw [hfind] at h
        exact nomatch h
      | some f =>
        rw [hfind] at h
        rw [Shape.json, fieldsJson_eq] at hs
        have hfields := @Value.strict_prop _ _ hs "fields" rfl
        have hfield := Value.strict_item hfields
          (List.mem_map_of_mem (List.mem_of_find?_eq_some hfind))
        exact ih (@Value.strict_prop _ _ hfield "shape" rfl) h

end Compatible

section Preorder

variable {field : String} {a b c : Contract} {v : SemanticValue}

theorem prop_shape {r : ResultContract} :
    (Contract.result r).json.prop "shape" = some r.shape.json := by
  cases hform : r.form <;> cases hid : r.id <;> cases ht : r.allowedResultTypes <;>
    simp [Contract.json, hform, hid, ht]

theorem prop_types {r : ResultContract} {types : List Json} (h : r.allowedResultTypes = some types) :
    (Contract.result r).json.prop "allowed_result_types" = some (.arr types) := by
  simp [Contract.json, h]

theorem compatible_refl (h : Accepted field a) : compatible field (some a) (some a) = .ok () := by
  cases a with
  | emissionList id policyRef => exact compatible_emissionList_iff.mpr (equal_self h.2)
  | result r =>
    have hshape := Value.strict_prop h.2 prop_shape
    refine compatible_result_iff.mpr ⟨equal_self hshape, le_rfl, fun m hm => ⟨m, hm, le_rfl⟩, ?_⟩
    intro types ht others ho
    obtain rfl := Option.some.inj (ht.symm.trans ho)
    exact Covers.refl fun t hmem => Value.strict_item (Value.strict_prop h.2 (prop_types ht)) hmem

theorem compatible_trans (ha : Accepted field a) (hb : Accepted field b) (hc : Accepted field c)
    (h : compatible field (some a) (some b) = .ok ())
    (h' : compatible field (some b) (some c) = .ok ()) :
    compatible field (some a) (some c) = .ok () := by
  cases b with
  | emissionList id policyRef =>
    cases a with
    | result r =>
      obtain ⟨types, ht⟩ := ha.exists_types
      exact absurd (equal_symm (compatible_result_emissionList_iff.mp h)) (equal_emissionList_ne ht)
    | emissionList id' policyRef' =>
      exact compatible_emissionList_iff.mpr (equal_trans (compatible_emissionList_iff.mp h)
        (compatible_emissionList_iff.mp h'))
  | result r =>
    obtain ⟨types, ht⟩ := hb.exists_types
    cases a with
    | emissionList id policyRef =>
      exact absurd (compatible_emissionList_iff.mp h) (equal_emissionList_ne ht)
    | result q =>
      cases c with
      | emissionList id policyRef =>
        exact absurd (equal_symm (compatible_result_emissionList_iff.mp h'))
          (equal_emissionList_ne ht)
      | result s =>
        obtain ⟨hshape, hmin, hmax, htypes⟩ := compatible_result_iff.mp h
        obtain ⟨hshape', hmin', hmax', htypes'⟩ := compatible_result_iff.mp h'
        refine compatible_result_iff.mpr ⟨equal_trans hshape hshape', hmin'.trans hmin, ?_, ?_⟩
        · intro m hm
          obtain ⟨n, hn, hnm⟩ := hmax' m hm
          obtain ⟨k, hk, hkn⟩ := hmax n hn
          exact ⟨k, hk, hkn.trans hnm⟩
        · intro first hfirst last hlast
          exact (htypes first hfirst types ht).trans (htypes' types ht last hlast)

/-- A value moves along compatible contracts. -/
theorem valueFor_of_compatible (ha : Accepted field a)
    (h : compatible field (some a) (some b) = .ok ()) (hv : valueFor field a v = .ok ()) :
    valueFor field b v = .ok () := by
  cases a with
  | emissionList id policyRef => exact nomatch hv
  | result r =>
    cases b with
    | emissionList id policyRef =>
      obtain ⟨types, ht⟩ := ha.exists_types
      exact absurd (equal_symm (compatible_result_emissionList_iff.mp h)) (equal_emissionList_ne ht)
    | result s =>
      obtain ⟨hshape, hmin, hmax, -⟩ := compatible_result_iff.mp h
      simp only [valueFor, bind_eq_ok_iff, require_eq_ok_iff] at hv ⊢
      obtain ⟨⟨⟩, hresult, hlow, hhigh⟩ := hv
      refine ⟨(), eq_of_equal hshape ▸ hresult, hmin.trans hlow, fun m hm => ?_⟩
      obtain ⟨n, hn, hnm⟩ := hmax m hm
      exact (hhigh n hn).trans hnm

theorem projected_nil (a : Option Contract) : projected field a [] = .ok a := by
  cases a with
  | none => rfl
  | some a => cases a <;> rfl

/-- What a projection at a path below the whole is. -/
theorem projected_result {r : ResultContract} {name : String} {path : List String}
    {p : Option Contract} (h : projected field (some (.result r)) (name :: path) = .ok p) :
    ∃ shape, shapeAt field r.shape (name :: path) = .ok shape ∧
      ∃ minimum maximum, p = some (.result ⟨none, none, shape, minimum, maximum, none⟩) ∧
        (minimum, maximum) = (match shape with
          | .list _ minimum maximum => (minimum, maximum)
          | _ => (UInt.one, some UInt.one)) := by
  simp only [projected, bind_eq_ok_iff, pure_eq_ok, Except.ok.injEq] at h
  obtain ⟨shape, hshape, hp⟩ := h
  exact ⟨shape, hshape, _, _, hp.symm, rfl⟩

/-- Compatibility carries over to projections. -/
theorem compatible_projected {a b a' b' : Option Contract} {path : List String}
    (h : compatible field a b = .ok ()) (ha : projected field a path = .ok a')
    (hb : projected field b path = .ok b') : compatible field a' b' = .ok () := by
  cases path with
  | nil =>
    obtain rfl := Except.ok.inj ((projected_nil a).symm.trans ha)
    obtain rfl := Except.ok.inj ((projected_nil b).symm.trans hb)
    exact h
  | cons name path =>
    cases a with
    | none =>
      obtain rfl := Except.ok.inj ha
      rfl
    | some a =>
      cases a with
      | emissionList id policyRef => exact nomatch ha
      | result r =>
        obtain ⟨shape, hshape, minimum, maximum, rfl, hbounds⟩ := projected_result ha
        cases b with
        | none =>
          obtain rfl := Except.ok.inj hb
          rfl
        | some b =>
          cases b with
          | emissionList id policyRef => exact nomatch hb
          | result s =>
            obtain ⟨shape', hshape', minimum', maximum', rfl, hbounds'⟩ := projected_result hb
            obtain ⟨hequal, -⟩ := compatible_result_iff.mp h
            have hstrict := strict_shapeAt (strict_of_equal hequal) hshape
            rw [← eq_of_equal hequal, hshape] at hshape'
            obtain rfl := Except.ok.inj hshape'
            obtain ⟨rfl, rfl⟩ := Prod.mk.inj (hbounds.trans hbounds'.symm)
            exact compatible_result_iff.mpr ⟨equal_self hstrict, le_rfl,
              fun m hm => ⟨m, hm, le_rfl⟩, fun _ h => nomatch h⟩

end Preorder

/-- Compatibility is a sound preorder on accepted contracts, and it carries over to projections. -/
theorem compatible_sound_preorder (field : String) :
    (∀ a, Accepted field a → compatible field (some a) (some a) = .ok ()) ∧
    (∀ a b c, Accepted field a → Accepted field b → Accepted field c →
      compatible field (some a) (some b) = .ok () → compatible field (some b) (some c) = .ok () →
      compatible field (some a) (some c) = .ok ()) ∧
    (∀ a b v, Accepted field a → Accepted field b → compatible field (some a) (some b) = .ok () →
      valueFor field a v = .ok () → valueFor field b v = .ok ()) ∧
    ∀ a b path a' b', compatible field a b = .ok () → projected field a path = .ok a' →
      projected field b path = .ok b' → compatible field a' b' = .ok () :=
  ⟨fun _ => compatible_refl, fun _ _ _ => compatible_trans,
    fun _ _ _ ha _ => valueFor_of_compatible ha, fun _ _ _ _ _ => compatible_projected⟩

/-- A contract for a text, with the given bounds and a result type. -/
def textContract (minimum : UInt) (maximum : Option UInt) : Contract :=
  .result ⟨some "c", some (.obj [("term", .str "form")]), .scalar .text, minimum, maximum,
    some [.obj [("term", .str "type")]]⟩

theorem compatible_sound_preorder_sample :
    Accepted "/payload" (textContract UInt.one (some UInt.one)) ∧
      Accepted "/payload" (textContract UInt.one none) ∧
      valueFor "/payload" (textContract UInt.one none) (.text "t") = .ok () := by
  have hexact : Accepted "/payload" (textContract UInt.one (some UInt.one)) := by
    constructor <;> decide +kernel
  have hopen : Accepted "/payload" (textContract UInt.one none) := by
    constructor <;> decide +kernel
  exact ⟨hexact, hopen, (compatible_sound_preorder "/payload").2.2.1 _ _ _ hexact hopen
    (by decide) (by decide)⟩

end Kdna.Shapes

import Kdna.Data.Binary64
import Kdna.StrictInput
import Mathlib.Data.List.Sort

/-!
# Values of the JSON domain

A value is generic in its number and its text leaves, so that the same shape
serves a decoded payload, what a codec returns before its integers are settled,
and what a partial scan retains. An object lists its own properties in the order
the language enumerates them: array indices ascending, then the other keys in
the order in which they were defined.
-/

namespace Kdna

/-- The value of a string of decimal digits. -/
def decimalValue (digits : List Char) : ℕ := Nat.ofDigitChars 10 digits 0

/-- A property key that is an array index: the canonical text of an integer below
`2 ^ 32 - 1`. -/
def isArrayIndex (key : String) : Bool :=
  isCanonicalNumber key.toList && decide (decimalValue key.toList < 2 ^ 32 - 1)

/-- The properties in the order in which the language enumerates an object that
defined them one after the other. -/
def ownOrder {α : Type} (props : List (String × α)) : List (String × α) :=
  (props.filter fun p => isArrayIndex p.1).insertionSort
      (fun p q => decimalValue p.1.toList ≤ decimalValue q.1.toList) ++
    props.filter fun p => !isArrayIndex p.1

section OwnOrder

variable {α β : Type}

theorem ownOrder_perm (props : List (String × α)) : (ownOrder props).Perm props := by
  refine ((List.perm_insertionSort _ _).append_right _).trans ?_
  exact List.filter_append_perm _ props

/-- The order depends on the keys only. -/
theorem ownOrder_map (f : String × α → β) (props : List (String × α)) :
    ownOrder (props.map fun p => (p.1, f p)) = (ownOrder props).map fun p => (p.1, f p) := by
  rw [ownOrder, ownOrder, List.map_append, List.filter_map, List.filter_map,
    List.map_insertionSort _ (fun p q => decimalValue p.1.toList ≤ decimalValue q.1.toList)]
  · rfl
  · exact fun _ _ _ _ => Iff.rfl

/-- An enumerated object enumerates in the same order again. -/
theorem ownOrder_ownOrder (props : List (String × α)) :
    ownOrder (ownOrder props) = ownOrder props := by
  have hsorted := List.pairwise_insertionSort
    (fun p q : String × α => decimalValue p.1.toList ≤ decimalValue q.1.toList)
    (props.filter fun p => isArrayIndex p.1)
  have hindex : ∀ p ∈ (props.filter fun p => isArrayIndex p.1).insertionSort
      (fun p q => decimalValue p.1.toList ≤ decimalValue q.1.toList),
      isArrayIndex p.1 = true := by
    intro p hp
    exact (List.mem_filter.mp ((List.mem_insertionSort _).mp hp)).2
  have hother : ∀ p ∈ props.filter fun p => !isArrayIndex p.1, isArrayIndex p.1 = false := by
    intro p hp
    simpa using (List.mem_filter.mp hp).2
  unfold ownOrder
  generalize (props.filter fun p => isArrayIndex p.1).insertionSort
    (fun p q => decimalValue p.1.toList ≤ decimalValue q.1.toList) = indices at *
  generalize props.filter (fun p => !isArrayIndex p.1) = others at *
  have h1 : (indices ++ others).filter (fun p => isArrayIndex p.1) = indices := by
    rw [List.filter_append, List.filter_eq_self.mpr hindex,
      List.filter_eq_nil_iff.mpr fun p hp => by simp [hother p hp], List.append_nil]
  have h2 : (indices ++ others).filter (fun p => !isArrayIndex p.1) = others := by
    rw [List.filter_append, List.filter_eq_nil_iff.mpr fun p hp => by simp [hindex p hp],
      List.filter_eq_self.mpr fun p hp => by simp [hother p hp], List.nil_append]
  rw [h1, h2, hsorted.insertionSort_eq]

end OwnOrder

/-- A JSON-domain value with numbers in `ν` and texts in `τ`. -/
inductive Value (ν τ : Type)
  | null
  | bool (b : Bool)
  | num (x : ν)
  | str (t : τ)
  | arr (items : List (Value ν τ))
  | obj (props : List (String × Value ν τ))

/-- A fully decoded value. -/
abbrev Json := Value Binary64 String

namespace Value

variable {ν ν' τ α : Type}

/-- What a traversal does at each kind of node, given its results below. -/
structure Algebra (ν τ α : Type) where
  null : α
  bool : Bool → α
  num : ν → α
  str : τ → α
  arr : List α → α
  obj : List (String × α) → α

mutual

/-- A traversal of a value. -/
def fold (a : Algebra ν τ α) : Value ν τ → α
  | .null => a.null
  | .bool b => a.bool b
  | .num x => a.num x
  | .str t => a.str t
  | .arr items => a.arr (foldItems a items)
  | .obj props => a.obj (foldProps a props)

/-- A traversal of the items of an array. -/
def foldItems (a : Algebra ν τ α) : List (Value ν τ) → List α
  | [] => []
  | v :: vs => fold a v :: foldItems a vs

/-- A traversal of the properties of an object. -/
def foldProps (a : Algebra ν τ α) : List (String × Value ν τ) → List (String × α)
  | [] => []
  | (k, v) :: ps => (k, fold a v) :: foldProps a ps

end

theorem foldItems_eq (a : Algebra ν τ α) (items : List (Value ν τ)) :
    foldItems a items = items.map (fold a) := by
  induction items with
  | nil => rfl
  | cons v vs ih => rw [foldItems, ih, List.map_cons]

theorem foldProps_eq (a : Algebra ν τ α) (props : List (String × Value ν τ)) :
    foldProps a props = props.map fun p => (p.1, fold a p.2) := by
  induction props with
  | nil => rfl
  | cons p ps ih => rw [foldProps, ih, List.map_cons]

@[simp] theorem fold_null (a : Algebra ν τ α) : fold a .null = a.null := rfl

@[simp] theorem fold_bool (a : Algebra ν τ α) (b : Bool) : fold a (.bool b) = a.bool b := rfl

@[simp] theorem fold_num (a : Algebra ν τ α) (x : ν) : fold a (.num x) = a.num x := rfl

@[simp] theorem fold_str (a : Algebra ν τ α) (t : τ) : fold a (.str t) = a.str t := rfl

@[simp] theorem fold_arr (a : Algebra ν τ α) (items : List (Value ν τ)) :
    fold a (.arr items) = a.arr (items.map (fold a)) := by
  rw [fold, foldItems_eq]

@[simp] theorem fold_obj (a : Algebra ν τ α) (props : List (String × Value ν τ)) :
    fold a (.obj props) = a.obj (props.map fun p => (p.1, fold a p.2)) := by
  rw [fold, foldProps_eq]

/-- Induction on a value, with hypotheses for all items and all properties. -/
@[elab_as_elim, induction_eliminator]
theorem induction {motive : Value ν τ → Prop} (null : motive .null)
    (bool : ∀ b, motive (.bool b)) (num : ∀ x, motive (.num x)) (str : ∀ t, motive (.str t))
    (arr : ∀ items, (∀ v ∈ items, motive v) → motive (.arr items))
    (obj : ∀ props, (∀ p ∈ props, motive p.2) → motive (.obj props)) (v : Value ν τ) :
    motive v := by
  refine Value.rec (motive_1 := motive) (motive_2 := fun items => ∀ v ∈ items, motive v)
    (motive_3 := fun props => ∀ p ∈ props, motive p.2) (motive_4 := fun p => motive p.2)
    null bool num str arr obj (by simp) ?_ (by simp) ?_ ?_ v
  · exact fun v vs hv hvs => List.forall_mem_cons.mpr ⟨hv, hvs⟩
  · exact fun p ps hp hps => List.forall_mem_cons.mpr ⟨hp, hps⟩
  · exact fun _ _ hv => hv

/-- The object that defines the given properties one after the other. -/
def ofProps (props : List (String × Value ν τ)) : Value ν τ := .obj (ownOrder props)

/-- The value in memory of a document that lists its members in any order. -/
def enumerated : Value ν τ → Value ν τ :=
  fold { null := .null, bool := .bool, num := .num, str := .str, arr := .arr, obj := ofProps }

/-- The value with its number leaves replaced. -/
def mapNum (f : ν → ν') : Value ν τ → Value ν' τ :=
  fold { null := .null, bool := .bool, num := fun x => .num (f x), str := .str, arr := .arr
         obj := .obj }

/-- The value with its texts and its keys replaced. -/
def retext (f : String → String) : Value ν String → Value ν String :=
  fold { null := .null, bool := .bool, num := .num, str := fun t => .str (f t), arr := .arr
         obj := fun props => .obj (props.map fun p => (f p.1, p.2)) }

/-- No object of the value has two members with one key. -/
def DistinctKeys : Value ν τ → Prop :=
  fold { null := True, bool := fun _ => True, num := fun _ => True, str := fun _ => True
         arr := fun items => ∀ q ∈ items, q
         obj := fun props => (props.map Prod.fst).Nodup ∧ ∀ q ∈ props, q.2 }

@[simp] theorem distinctKeys_arr (items : List (Value ν τ)) :
    DistinctKeys (.arr items) ↔ ∀ v ∈ items, DistinctKeys v := by
  rw [DistinctKeys, fold_arr]
  exact List.forall_mem_map

@[simp] theorem distinctKeys_obj (props : List (String × Value ν τ)) :
    DistinctKeys (.obj props) ↔
      (props.map Prod.fst).Nodup ∧ ∀ p ∈ props, DistinctKeys p.2 := by
  rw [DistinctKeys, fold_obj]
  refine and_congr ?_ List.forall_mem_map
  rw [List.map_map]
  rfl

@[simp] theorem enumerated_null : enumerated (.null : Value ν τ) = .null := rfl

@[simp] theorem enumerated_bool (b : Bool) : enumerated (.bool b : Value ν τ) = .bool b := rfl

@[simp] theorem enumerated_num (x : ν) : enumerated (.num x : Value ν τ) = .num x := rfl

@[simp] theorem enumerated_str (t : τ) : enumerated (.str t : Value ν τ) = .str t := rfl

@[simp] theorem enumerated_arr (items : List (Value ν τ)) :
    enumerated (.arr items) = .arr (items.map enumerated) := by
  simp [enumerated]

@[simp] theorem enumerated_obj (props : List (String × Value ν τ)) :
    enumerated (.obj props) = ofProps (props.map fun p => (p.1, enumerated p.2)) := by
  simp [enumerated]

@[simp] theorem mapNum_null (f : ν → ν') : mapNum f (.null : Value ν τ) = .null := rfl

@[simp] theorem mapNum_bool (f : ν → ν') (b : Bool) :
    mapNum f (.bool b : Value ν τ) = .bool b := rfl

@[simp] theorem mapNum_num (f : ν → ν') (x : ν) :
    mapNum f (.num x : Value ν τ) = .num (f x) := rfl

@[simp] theorem mapNum_str (f : ν → ν') (t : τ) : mapNum f (.str t : Value ν τ) = .str t := rfl

@[simp] theorem mapNum_arr (f : ν → ν') (items : List (Value ν τ)) :
    mapNum f (.arr items) = .arr (items.map (mapNum f)) := by
  simp [mapNum]

@[simp] theorem mapNum_obj (f : ν → ν') (props : List (String × Value ν τ)) :
    mapNum f (.obj props) = .obj (props.map fun p => (p.1, mapNum f p.2)) := by
  simp [mapNum]

@[simp] theorem retext_null (f : String → String) :
    retext f (.null : Value ν String) = .null := rfl

@[simp] theorem retext_bool (f : String → String) (b : Bool) :
    retext f (.bool b : Value ν String) = .bool b := rfl

@[simp] theorem retext_num (f : String → String) (x : ν) :
    retext f (.num x : Value ν String) = .num x := rfl

@[simp] theorem retext_str (f : String → String) (t : String) :
    retext f (.str t : Value ν String) = .str (f t) := rfl

@[simp] theorem retext_arr (f : String → String) (items : List (Value ν String)) :
    retext f (.arr items) = .arr (items.map (retext f)) := by
  simp [retext]

@[simp] theorem retext_obj (f : String → String) (props : List (String × Value ν String)) :
    retext f (.obj props) = .obj (props.map fun p => (f p.1, retext f p.2)) := by
  simp [retext, Function.comp_def]

/-- A value in memory enumerates as it is. -/
theorem enumerated_enumerated (v : Value ν τ) : enumerated (enumerated v) = enumerated v := by
  induction v with
  | null => rfl
  | bool b => rfl
  | num x => rfl
  | str t => rfl
  | arr items ih =>
    simp only [enumerated_arr, List.map_map]
    congr 1
    exact List.map_congr_left ih
  | obj props ih =>
    simp only [enumerated_obj, ofProps, ← ownOrder_map, ownOrder_ownOrder, List.map_map]
    congr 2
    exact List.map_congr_left fun p hp => by simp [ih p hp]

/-- Numbers replaced twice are replaced once by the composition. -/
theorem mapNum_mapNum {ν'' : Type} (f : ν → ν') (g : ν' → ν'') (v : Value ν τ) :
    (v.mapNum f).mapNum g = v.mapNum (g ∘ f) := by
  induction v with
  | null => rfl
  | bool b => rfl
  | num x => rfl
  | str t => rfl
  | arr items ih =>
    simp only [mapNum_arr, List.map_map]
    exact congrArg arr (List.map_congr_left ih)
  | obj props ih =>
    simp only [mapNum_obj, List.map_map]
    exact congrArg obj (List.map_congr_left fun p hp => by simp [ih p hp])

/-- Texts replaced by themselves leave the value as it is. -/
theorem retext_id (v : Value ν String) : v.retext id = v := by
  induction v with
  | null => rfl
  | bool b => rfl
  | num x => rfl
  | str t => rfl
  | arr items ih =>
    rw [retext_arr, List.map_congr_left ih, List.map_id']
  | obj props ih =>
    rw [retext_obj]
    simp only [id]
    rw [List.map_congr_left fun p hp => congrArg (Prod.mk p.1) (ih p hp), List.map_id']

/-- Keys with distinct replacements are distinct. -/
theorem DistinctKeys.of_retext {f : String → String} {v : Value ν String}
    (h : (v.retext f).DistinctKeys) : v.DistinctKeys := by
  induction v with
  | null => trivial
  | bool b => trivial
  | num x => trivial
  | str t => trivial
  | arr items ih =>
    rw [retext_arr, distinctKeys_arr, List.forall_mem_map] at h
    exact (distinctKeys_arr _).mpr fun v hv => ih v hv (h v hv)
  | obj props ih =>
    rw [retext_obj, distinctKeys_obj, List.map_map, List.forall_mem_map] at h
    refine (distinctKeys_obj _).mpr ⟨List.Nodup.of_map f ?_, fun p hp => ih p hp (h.2 p hp)⟩
    rw [List.map_map]
    exact h.1

end Value

@[inherit_doc Value.induction]
theorem Json.induction {motive : Json → Prop} (null : motive .null) (bool : ∀ b, motive (.bool b))
    (num : ∀ x, motive (.num x)) (str : ∀ t, motive (.str t))
    (arr : ∀ items : List Json, (∀ v ∈ items, motive v) → motive (.arr items))
    (obj : ∀ props : List (String × Json), (∀ p ∈ props, motive p.2) → motive (.obj props))
    (v : Json) : motive v :=
  Value.induction null bool num str arr obj v

end Kdna

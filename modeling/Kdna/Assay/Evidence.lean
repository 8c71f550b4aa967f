import Kdna.Json.Access

/-!
# Evidence

`canonicalValidationErrors` of `evidence-canonical.js`. Evidence is a finite tree of data in which a
leaf can be what JSON does not have; without errors it is a value of JSON.
-/

namespace Kdna.Assay

/-- What JSON does not have. -/
inductive Foreign
  | undefined
  /-- A function, a symbol or a big integer. -/
  | unsupported (kind : String)
  /-- `NaN` or an infinite number. -/
  | notFinite
  /-- An object that is neither an array nor plain. -/
  | other

/-- Evidence; a leaf that JSON does not have stands with the numbers. -/
abbrev Evidence := Value (Binary64 ⊕ Foreign) String

namespace Evidence

/-- `undefined` -/
def undefined : Evidence := .num (.inr .undefined)

/-- The value of a parameter or of a member whose default is `d`. -/
def withDefault (d : Evidence) : Evidence → Evidence
  | .num (.inr .undefined) => d
  | v => v

/-- The error of a leaf that JSON does not have. -/
def foreignError (path : String) : Foreign → String
  | .undefined => path ++ " contains unsupported undefined evidence"
  | .unsupported kind => path ++ " contains unsupported " ++ kind ++ " evidence"
  | .notFinite => path ++ " must contain only finite numbers"
  | .other => path ++ " must contain only arrays and plain objects"

/-- `canonicalValidationErrors(value, rootPath)` -/
def canonicalValidationErrors : Evidence → String → List String :=
  Value.fold
    { null := fun _ => []
      bool := fun _ _ => []
      num := fun x path => x.elim (fun _ => []) fun f => [foreignError path f]
      str := fun _ _ => []
      arr := fun items path =>
        items.zipIdx.flatMap fun item => item.1 (path ++ "[" ++ toString item.2 ++ "]")
      obj := fun props path => props.flatMap fun p => p.2 (path ++ "." ++ p.1) }

/-- A value of JSON as evidence. -/
def ofJson : Json → Evidence := Value.mapNum .inl

/-- The value of evidence without errors; elsewhere `null` stands for what JSON does not have. -/
def toJson : Evidence → Json :=
  Value.fold
    { null := .null, bool := .bool, num := Sum.elim .num fun _ => .null, str := .str, arr := .arr
      obj := .obj }

/-- A plain object of canonical evidence, or the errors of what is none. -/
def plain (v : Evidence) (label : String) : Except (List String) Json :=
  match v with
  | .obj _ =>
    if canonicalValidationErrors v label = [] then .ok v.toJson
    else .error (canonicalValidationErrors v label)
  | _ => .error [label ++ " must be a plain object"]

@[simp] theorem ofJson_arr (items : List Json) : ofJson (.arr items) = .arr (items.map ofJson) := by
  rw [ofJson, Value.mapNum, Value.fold_arr]

@[simp] theorem ofJson_obj (props : List (String × Json)) :
    ofJson (.obj props) = .obj (props.map fun p => (p.1, ofJson p.2)) := by
  rw [ofJson, Value.mapNum, Value.fold_obj]

@[simp] theorem toJson_arr (items : List Evidence) : toJson (.arr items) = .arr (items.map toJson) := by
  rw [toJson, Value.fold_arr]

@[simp] theorem toJson_obj (props : List (String × Evidence)) :
    toJson (.obj props) = .obj (props.map fun p => (p.1, toJson p.2)) := by
  rw [toJson, Value.fold_obj]

theorem canonicalValidationErrors_arr (items : List Evidence) (path : String) :
    canonicalValidationErrors (.arr items) path = items.zipIdx.flatMap fun item =>
      canonicalValidationErrors item.1 (path ++ "[" ++ toString item.2 ++ "]") := by
  rw [canonicalValidationErrors, Value.fold_arr]
  dsimp only
  rw [List.zipIdx_map, List.flatMap_map]
  rfl

theorem canonicalValidationErrors_obj (props : List (String × Evidence)) (path : String) :
    canonicalValidationErrors (.obj props) path = props.flatMap fun p =>
      canonicalValidationErrors p.2 (path ++ "." ++ p.1) := by
  rw [canonicalValidationErrors, Value.fold_obj]
  dsimp only
  rw [List.flatMap_map]

/-- Evidence without errors is a value of JSON. -/
theorem eq_ofJson_of_canonical {v : Evidence} {path : String}
    (h : canonicalValidationErrors v path = []) : v = ofJson v.toJson := by
  induction v using Value.induction generalizing path with
  | null => rfl
  | bool b => rfl
  | num x =>
    cases x with
    | inl x => rfl
    | inr f => cases h
  | str t => rfl
  | arr items ih =>
    rw [canonicalValidationErrors_arr, List.flatMap_eq_nil_iff] at h
    rw [toJson_arr, ofJson_arr, List.map_map]
    congr 1
    refine (List.map_id _).symm.trans (List.map_congr_left fun v hv => ?_)
    obtain ⟨i, hi, rfl⟩ := List.mem_iff_getElem.mp hv
    exact ih _ hv (h (items[i], i) (List.mk_mem_zipIdx_iff_getElem?.mpr (List.getElem?_eq_getElem hi)))
  | obj props ih =>
    rw [canonicalValidationErrors_obj, List.flatMap_eq_nil_iff] at h
    rw [toJson_obj, ofJson_obj, List.map_map]
    congr 1
    exact (List.map_id _).symm.trans (List.map_congr_left fun p hp =>
      Prod.ext rfl (ih p hp (h p hp)))

@[simp] theorem toJson_ofJson (v : Json) : toJson (ofJson v) = v := by
  induction v using Value.induction with
  | null => rfl
  | bool b => rfl
  | num x => rfl
  | str t => rfl
  | arr items ih =>
    rw [ofJson_arr, toJson_arr, List.map_map]
    congr 1
    exact (List.map_congr_left ih).trans (List.map_id _)
  | obj props ih =>
    rw [ofJson_obj, toJson_obj, List.map_map]
    congr 1
    refine (List.map_congr_left (g := id) fun p hp => ?_).trans (List.map_id _)
    exact Prod.ext rfl (ih p hp)

/-- A plain object of canonical evidence is an object of JSON. -/
theorem eq_ofJson_of_plain {v : Evidence} {label : String} {w : Json} (h : plain v label = .ok w) :
    v = ofJson w := by
  unfold plain at h
  split at h
  · split at h
    · next hnone =>
      obtain rfl := Except.ok.inj h
      exact eq_ofJson_of_canonical hnone
    · cases h
  · cases h

theorem plain_ne_nil {v : Evidence} {label : String} {errors : List String}
    (h : plain v label = .error errors) : errors ≠ [] := by
  unfold plain at h
  split at h
  · split at h
    · cases h
    · next hsome =>
      obtain rfl := Except.error.inj h
      exact hsome
  · obtain rfl := Except.error.inj h
    exact List.cons_ne_nil _ _

end Evidence

end Kdna.Assay

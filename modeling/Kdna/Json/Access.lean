import Kdna.Data.Fallible
import Kdna.Json.Value

/-!
# Reading members

How the source reads a value it has validated: `value.name`, `Object.hasOwn`, a truth
test, a comparison with a text. A value is a finite tree, and every object a program
meets lists each key once, so the first property with a name is the only one.

A member the validated shape requires is there. Where a reading finds none, the
source meets a `TypeError` or writes `undefined` into a value that its next check
refuses; the model stops at once.
-/

namespace Kdna

namespace Value

/-- `value[name]`, with `none` for `undefined`. -/
def prop (v : Json) (name : String) : Option Json :=
  match v with
  | .obj props => (props.find? fun p => p.1 = name).map Prod.snd
  | _ => none

/-- The text of a string. -/
def text? : Json → Option String
  | .str t => some t
  | _ => none

/-- The items of an array. -/
def items? : Json → Option (List Json)
  | .arr items => some items
  | _ => none

/-- `value === text` -/
def isText (v : Json) (t : String) : Bool := v.text? == some t

/-- `value[name] === text` -/
def propIs (v : Json) (name t : String) : Bool := ((v.prop name).bind text?) == some t

/-- Whether a truth test lets the value through. -/
def truthy : Json → Bool
  | .null => false
  | .bool b => b
  | .num x => x.units ≠ 0
  | .str t => t ≠ ""
  | .arr _ => true
  | .obj _ => true

/-- `value[name]` where `??` replaces `undefined` and `null`. -/
def present (v : Json) (name : String) : Option Json :=
  (v.prop name).filter fun w => match w with
    | .null => false
    | _ => true

/-- `value[name]` where a truth test guards its use. -/
def given (v : Json) (name : String) : Option Json := (v.prop name).filter truthy

/-- `value[name] = w` on an object. -/
def setProp (v : Json) (name : String) (w : Json) : Json :=
  match v with
  | .obj props =>
    if (v.prop name).isSome then .obj (props.map fun p => if p.1 = name then (name, w) else p)
    else .obj (props ++ [(name, w)])
  | _ => v

/-- A text, or `null` for none. -/
def ofText? : Option String → Json
  | some t => .str t
  | none => .null

end Value

/-- The property `name` that the shape of `v` requires. -/
def member (v : Json) (name : String) : Except Failure Json := orFail .coreInvalid (v.prop name)

/-- The text of the property `name`. -/
def memberText (v : Json) (name : String) : Except Failure String :=
  orFail .coreInvalid ((v.prop name).bind Value.text?)

/-- The items of the property `name`. -/
def memberItems (v : Json) (name : String) : Except Failure (List Json) :=
  orFail .coreInvalid ((v.prop name).bind Value.items?)

namespace Value

theorem prop_obj (props : List (String × Json)) (name : String) :
    prop (.obj props) name = (props.find? fun p => p.1 = name).map Prod.snd := rfl

@[simp] theorem prop_obj_nil (name : String) : prop (.obj []) name = none := rfl

@[simp] theorem prop_obj_cons (k name : String) (v : Json) (ps : List (String × Json)) :
    prop (.obj ((k, v) :: ps)) name = if k = name then some v else prop (.obj ps) name := by
  simp only [prop_obj, List.find?_cons]
  by_cases h : k = name <;> simp [h]

/-- The properties of an object followed by further ones. -/
theorem prop_obj_append (ps qs : List (String × Json)) (name : String) :
    prop (.obj (ps ++ qs)) name = (prop (.obj ps) name).or (prop (.obj qs) name) := by
  induction ps with
  | nil => rfl
  | cons p ps ih =>
    obtain ⟨k, v⟩ := p
    rw [List.cons_append, prop_obj_cons, prop_obj_cons, ih]
    by_cases h : k = name <;> simp [h]

/-- A property that is read is one of the object's. -/
theorem mem_of_prop {props : List (String × Json)} {name : String} {v : Json}
    (h : prop (.obj props) name = some v) : (name, v) ∈ props := by
  rw [prop_obj, Option.map_eq_some_iff] at h
  obtain ⟨⟨k, w⟩, hfind, rfl⟩ := h
  have hkey : k = name := by simpa using List.find?_some hfind
  rw [← hkey]
  exact List.mem_of_find?_eq_some hfind

/-- Each property of an object with distinct keys is read back. -/
theorem prop_eq_some_iff {props : List (String × Json)} (hnodup : (props.map Prod.fst).Nodup)
    {name : String} {v : Json} : prop (.obj props) name = some v ↔ (name, v) ∈ props := by
  refine ⟨mem_of_prop, fun h => ?_⟩
  induction props with
  | nil => exact absurd h List.not_mem_nil
  | cons p ps ih =>
    obtain ⟨k, w⟩ := p
    rw [List.map_cons, List.nodup_cons] at hnodup
    rw [prop_obj_cons]
    rcases List.mem_cons.mp h with heq | htail
    · obtain ⟨rfl, rfl⟩ := Prod.mk.inj heq
      exact if_pos rfl
    · have hne : k ≠ name := fun hk =>
      hnodup.1 (List.mem_map.mpr ⟨(name, v), htail, hk.symm⟩)
      rw [if_neg hne]
      exact ih hnodup.2 htail

/-- Objects with distinct keys that read alike have the same properties. -/
theorem perm_of_prop_eq {ps qs : List (String × Json)} (hps : (ps.map Prod.fst).Nodup)
    (hqs : (qs.map Prod.fst).Nodup) (h : ∀ name, prop (.obj ps) name = prop (.obj qs) name) :
    ps.Perm qs := by
  refine (List.perm_ext_iff_of_nodup (List.Nodup.of_map _ hps) (List.Nodup.of_map _ hqs)).mpr ?_
  rintro ⟨name, v⟩
  rw [← prop_eq_some_iff hps, ← prop_eq_some_iff hqs, h]

theorem prop_obj_replaced (props : List (String × Json)) (name : String) (w : Json) (n : String) :
    prop (.obj (props.map fun p => if p.1 = name then (name, w) else p)) n =
      (prop (.obj props) n).map fun v => if n = name then w else v := by
  induction props with
  | nil => rfl
  | cons p ps ih =>
    obtain ⟨k, v⟩ := p
    rw [List.map_cons, prop_obj_cons]
    by_cases hk : k = name
    · subst hk
      rw [if_pos rfl, prop_obj_cons, ih]
      by_cases hn : k = n
      · simp [hn]
      · simp [hn]
    · rw [if_neg hk, prop_obj_cons, ih]
      by_cases hn : k = n
      · subst hn
        simp [hk]
      · simp [hn]

/-- Reading after writing. -/
theorem prop_setProp (props : List (String × Json)) (name : String) (w : Json) (n : String) :
    (setProp (.obj props) name w).prop n = if n = name then some w else prop (.obj props) n := by
  by_cases hsome : (prop (.obj props) name).isSome
  · have hset : setProp (.obj props) name w =
        .obj (props.map fun p => if p.1 = name then (name, w) else p) := if_pos hsome
    rw [hset, prop_obj_replaced]
    by_cases hn : n = name
    · subst hn
      obtain ⟨v, hv⟩ := Option.isSome_iff_exists.mp hsome
      simp [hv]
    · simp [hn]
  · have hset : setProp (.obj props) name w = .obj (props ++ [(name, w)]) := if_neg hsome
    rw [hset, prop_obj_append]
    have hnone : prop (.obj props) name = none := by simpa using hsome
    by_cases hn : n = name
    · simp [hn, hnone]
    · simp [hn, Ne.symm hn]

theorem propIs_eq_true_iff {v : Json} {name t : String} :
    v.propIs name t = true ↔ v.prop name = some (.str t) := by
  rw [propIs, beq_iff_eq, Option.bind_eq_some_iff]
  constructor
  · rintro ⟨w, hw, ht⟩
    cases w <;> simp_all [text?]
  · exact fun h => ⟨_, h, rfl⟩

end Value

theorem member_eq_ok_iff {v w : Json} {name : String} :
    member v name = .ok w ↔ v.prop name = some w :=
  orFail_eq_ok_iff

theorem memberText_eq_ok_iff {v : Json} {name t : String} :
    memberText v name = .ok t ↔ v.prop name = some (.str t) := by
  rw [memberText, orFail_eq_ok_iff, Option.bind_eq_some_iff]
  constructor
  · rintro ⟨w, hw, ht⟩
    cases w <;> simp_all [Value.text?]
  · exact fun h => ⟨_, h, rfl⟩

theorem memberItems_eq_ok_iff {v : Json} {name : String} {items : List Json} :
    memberItems v name = .ok items ↔ v.prop name = some (.arr items) := by
  rw [memberItems, orFail_eq_ok_iff, Option.bind_eq_some_iff]
  constructor
  · rintro ⟨w, hw, ht⟩
    cases w <;> simp_all [Value.items?]
  · exact fun h => ⟨_, h, rfl⟩

end Kdna

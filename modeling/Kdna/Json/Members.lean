import Kdna.Json.Access
import Kdna.Json.Charge
import Mathlib.Algebra.Order.BigOperators.Group.List

/-!
# Values in memory

A program holds a value with each key once and in the order of enumeration; so do all
of its parts. Objects that read alike are equal up to the order of members.
-/

namespace Kdna.Value

/-- A value as a program holds it. -/
structure InMemory (v : Json) : Prop where
  enumerated : v.enumerated = v
  distinct : v.DistinctKeys

/-- The items of an array in memory. -/
theorem InMemory.item {items : List Json} (h : InMemory (.arr items)) {v : Json}
    (hv : v ∈ items) : InMemory v := by
  refine ⟨?_, (distinctKeys_arr _).mp h.distinct v hv⟩
  have hmap := h.enumerated
  rw [enumerated_arr, Value.arr.injEq] at hmap
  obtain ⟨w, -, hw⟩ := List.mem_map.mp (hmap.symm ▸ hv)
  rw [← hw, enumerated_enumerated]

/-- The properties of an object in memory. -/
theorem InMemory.mem {props : List (String × Json)} (h : InMemory (.obj props))
    {p : String × Json} (hp : p ∈ props) : InMemory p.2 := by
  refine ⟨?_, ((distinctKeys_obj _).mp h.distinct).2 p hp⟩
  have hmap := h.enumerated
  rw [enumerated_obj, ofProps, Value.obj.injEq] at hmap
  obtain ⟨q, -, hq⟩ := List.mem_map.mp ((ownOrder_perm _).mem_iff.mp (hmap.symm ▸ hp))
  rw [← hq, enumerated_enumerated]

theorem InMemory.prop {v w : Json} (h : InMemory v) {name : String} (hw : v.prop name = some w) :
    InMemory w := by
  cases v with
  | obj props => exact h.mem (mem_of_prop hw)
  | _ => exact absurd hw (by simp [Value.prop])

/-- What the strict copy of a value in memory is. -/
theorem InMemory.copyJson {v w : Json} (h : InMemory v) (hw : Kdna.copyJson v = .ok w) : w = v := by
  rw [(copyJson_eq_ok_iff.mp hw).2.2, h.enumerated]

/-- A check for a value in memory whose keys are all names, none an array index. -/
def named : Json → Bool :=
  fold { null := true, bool := fun _ => true, num := fun _ => true, str := fun _ => true
         arr := fun items => items.all id
         obj := fun props => props.all (fun p => !isArrayIndex p.1 && p.2) &&
          decide (props.map Prod.fst).Nodup }

/-- A value that passes the check is as a program holds it. -/
theorem inMemory_of_named {v : Json} (h : named v = true) : InMemory v := by
  induction v using Value.induction with
  | null => exact ⟨rfl, trivial⟩
  | bool b => exact ⟨rfl, trivial⟩
  | num x => exact ⟨rfl, trivial⟩
  | str t => exact ⟨rfl, trivial⟩
  | arr items ih =>
    have hitems : ∀ w ∈ items, InMemory w := by
      intro w hw
      simp only [named, fold_arr, List.all_map, List.all_eq_true] at h
      exact ih w hw (h w hw)
    refine ⟨?_, (distinctKeys_arr _).mpr fun w hw => (hitems w hw).distinct⟩
    rw [enumerated_arr, List.map_congr_left fun w hw => (hitems w hw).enumerated, List.map_id']
  | obj props ih =>
    simp only [named, fold_obj, Bool.and_eq_true, List.all_map, List.all_eq_true,
      decide_eq_true_eq, List.map_map] at h
    have hprops : ∀ p ∈ props, InMemory p.2 := fun p hp => by
      have hp' := h.1 p hp
      simp only [Function.comp_apply, Bool.and_eq_true] at hp'
      exact ih p hp hp'.2
    have hnames : ∀ p ∈ props, isArrayIndex p.1 = false := fun p hp => by
      have hp' := h.1 p hp
      simp only [Function.comp_apply, Bool.and_eq_true, Bool.not_eq_true'] at hp'
      exact hp'.1
    refine ⟨?_, (distinctKeys_obj _).mpr ⟨h.2, fun p hp => (hprops p hp).distinct⟩⟩
    rw [enumerated_obj, List.map_congr_left fun p hp =>
      congrArg (Prod.mk p.1) (hprops p hp).enumerated, List.map_id', ofProps, ownOrder,
      List.filter_eq_nil_iff.mpr fun p hp => by simp [hnames p hp],
      List.filter_eq_self.mpr fun p hp => by simp [hnames p hp]]
    rfl

theorem Strict.mono {levels levels' : ℕ} (hle : levels ≤ levels') {v : Json}
    (h : v.Strict levels) : v.Strict levels' := by
  induction levels generalizing levels' v with
  | zero => exact absurd h id
  | succ levels ih =>
    obtain ⟨levels', rfl⟩ : ∃ l, levels' = l + 1 := ⟨levels' - 1, by omega⟩
    cases v with
    | null => trivial
    | bool b => trivial
    | num x => trivial
    | str t => exact h
    | arr items => exact ⟨h.1, fun w hw => ih (by omega) (h.2 w hw)⟩
    | obj props => exact fun p hp => ⟨(h p hp).1, ih (by omega) (h p hp).2⟩

/-- An item of a strict array is strict. -/
theorem strict_item {items : List Json} (h : assertStrictJson (.arr items) = .ok ()) {v : Json}
    (hv : v ∈ items) : assertStrictJson v = .ok () := by
  rw [assertStrictJson_eq_ok_iff] at h ⊢
  have hle := List.single_le_sum (l := items.map scalarBytes) (fun _ _ => Nat.zero_le _) _
    (List.mem_map_of_mem hv)
  have hbytes := h.2
  rw [scalarBytes_arr] at hbytes
  exact ⟨(h.1.2 v hv).mono (Nat.le_succ _), by omega⟩

/-- A property of a strict object is strict. -/
theorem strict_prop {v w : Json} (h : assertStrictJson v = .ok ()) {name : String}
    (hw : v.prop name = some w) : assertStrictJson w = .ok () := by
  cases v with
  | obj props =>
    have hmem := mem_of_prop hw
    rw [assertStrictJson_eq_ok_iff] at h ⊢
    have hbytes := h.2
    rw [scalarBytes_obj] at hbytes
    have hle : scalarBytes (.str name) + 1 + scalarBytes w ≤
        (props.map fun p : String × Json => scalarBytes (.str p.1) + 1 + scalarBytes p.2).sum :=
      List.single_le_sum (fun _ _ => Nat.zero_le _) _ (List.mem_map.mpr ⟨_, hmem, rfl⟩)
    exact ⟨(h.1 _ hmem).2.mono (Nat.le_succ _), by omega⟩
  | _ => exact absurd hw (by simp [Value.prop])

/-- Reading from an object with its properties in the order of enumeration. -/
theorem prop_enumerated {props : List (String × Json)} (h : (props.map Prod.fst).Nodup)
    (name : String) :
    (enumerated (.obj props)).prop name = ((obj props).prop name).map enumerated := by
  have hkeys : ((props.map fun p => (p.1, p.2.enumerated)).map Prod.fst).Nodup := by
    rw [List.map_map]
    exact h
  have hperm := ownOrder_perm (props.map fun p => (p.1, p.2.enumerated))
  rw [enumerated_obj, ofProps]
  refine Option.ext fun v => ?_
  rw [prop_eq_some_iff ((hperm.map Prod.fst).nodup_iff.mpr hkeys), hperm.mem_iff,
    Option.map_eq_some_iff]
  simp only [prop_eq_some_iff h, List.mem_map, Prod.mk.injEq, Prod.exists]
  constructor
  · rintro ⟨k, w, hw, rfl, rfl⟩
    exact ⟨w, hw, rfl⟩
  · rintro ⟨w, hw, rfl⟩
    exact ⟨name, w, hw, rfl, rfl⟩

/-- Objects that read alike up to the order of members are equal up to it. -/
theorem deepEqual_obj {ps qs : List (String × Json)} (hps : (ps.map Prod.fst).Nodup)
    (hqs : (qs.map Prod.fst).Nodup)
    (h : ∀ name, ((obj ps).prop name).map sorted = ((obj qs).prop name).map sorted) :
    DeepEqual (.obj ps) (.obj qs) := by
  have hread : ∀ (l : List (String × Json)) (name : String),
      (obj (l.map fun p => (p.1, p.2.sorted))).prop name = ((obj l).prop name).map sorted := by
    intro l name
    induction l with
    | nil => rfl
    | cons p l ih =>
      rw [List.map_cons, prop_obj_cons, ih, prop_obj_cons]
      by_cases hk : p.1 = name
      · simp [hk]
      · simp [hk]
  have hkeys : ∀ l : List (String × Json), (l.map Prod.fst).Nodup →
      ((l.map fun p => (p.1, p.2.sorted)).map Prod.fst).Nodup := by
    intro l hl
    rw [List.map_map]
    exact hl
  rw [DeepEqual, sorted_obj, sorted_obj]
  refine congrArg obj (sortKeys_congr (perm_of_prop_eq (hkeys ps hps) (hkeys qs hqs) ?_)
    (hkeys ps hps))
  intro name
  rw [hread, hread, h]

theorem DeepEqual.refl (v : Json) : DeepEqual v v := rfl

/-- An object that lists each key once. -/
def IsObject (v : Json) : Prop := ∃ props, v = .obj props ∧ (props.map Prod.fst).Nodup

/-- Objects that read alike up to the order of members are equal up to it. -/
theorem IsObject.deepEqual {v w : Json} (hv : IsObject v) (hw : IsObject w)
    (h : ∀ name, (v.prop name).map sorted = (w.prop name).map sorted) : DeepEqual v w := by
  obtain ⟨ps, rfl, hps⟩ := hv
  obtain ⟨qs, rfl, hqs⟩ := hw
  exact deepEqual_obj hps hqs h

theorem IsObject.enumerated {v : Json} (h : IsObject v) : IsObject v.enumerated := by
  obtain ⟨props, rfl, hnodup⟩ := h
  refine ⟨_, enumerated_obj _, ?_⟩
  rw [((ownOrder_perm _).map Prod.fst).nodup_iff, List.map_map]
  exact hnodup

theorem IsObject.setProp {v : Json} (h : IsObject v) (name : String) (w : Json) :
    IsObject (v.setProp name w) := by
  obtain ⟨props, rfl, hnodup⟩ := h
  by_cases hsome : ((obj props).prop name).isSome
  · refine ⟨_, if_pos hsome, ?_⟩
    have hkeys : (props.map fun p => if p.1 = name then (name, w) else p).map Prod.fst =
        props.map Prod.fst := by
      rw [List.map_map]
      refine List.map_congr_left fun p _ => ?_
      by_cases hp : p.1 = name
      · simp [hp]
      · simp [hp]
    rwa [hkeys]
  · refine ⟨_, if_neg hsome, ?_⟩
    have hnot : name ∉ props.map Prod.fst := by
      intro hmem
      obtain ⟨⟨_, v⟩, hv, rfl⟩ := List.mem_map.mp hmem
      rw [(prop_eq_some_iff hnodup).mpr hv] at hsome
      exact hsome rfl
    rw [List.map_append, List.nodup_append_comm]
    exact List.nodup_cons.mpr ⟨hnot, hnodup⟩

theorem InMemory.isObject {props : List (String × Json)} (h : InMemory (.obj props)) :
    IsObject (.obj props) :=
  ⟨props, rfl, ((distinctKeys_obj _).mp h.distinct).1⟩

/-- Reading from an object after writing to it. -/
theorem IsObject.prop_setProp {v : Json} (h : IsObject v) (name : String) (w : Json) (n : String) :
    (v.setProp name w).prop n = if n = name then some w else v.prop n := by
  obtain ⟨props, rfl, -⟩ := h
  exact Value.prop_setProp props name w n

/-- Reading from an object with its properties in the order of enumeration. -/
theorem IsObject.prop_enumerated {v : Json} (h : IsObject v) (name : String) :
    v.enumerated.prop name = (v.prop name).map Value.enumerated := by
  obtain ⟨props, rfl, hnodup⟩ := h
  exact Value.prop_enumerated hnodup name

/-- The object with the one member `name`. -/
theorem enumerated_single (name : String) (v : Json) :
    enumerated (.obj [(name, v)]) = .obj [(name, v.enumerated)] := by
  rw [enumerated_obj, ofProps]
  exact congrArg obj (List.perm_singleton.mp (ownOrder_perm _))

/-- The listed members that a reading finds. -/
def listed (names : List String) (g : String → Option Json) : List (String × Json) :=
  names.filterMap fun name => (g name).map (Prod.mk name)

theorem listed_append (ms ns : List String) (g : String → Option Json) :
    listed (ms ++ ns) g = listed ms g ++ listed ns g :=
  List.filterMap_append

theorem listed_congr {names : List String} {g g' : String → Option Json}
    (h : ∀ name ∈ names, g name = g' name) : listed names g = listed names g' :=
  List.filterMap_congr fun name hname => by rw [h name hname]

/-- Reading a listed member. -/
theorem prop_listed (names : List String) (g : String → Option Json) (name : String) :
    (obj (listed names g)).prop name = if name ∈ names then g name else none := by
  induction names with
  | nil => rfl
  | cons n names ih =>
    rw [listed, List.filterMap_cons]
    cases hg : g n with
    | none =>
      refine Eq.trans ih ?_
      by_cases hn : name = n
      · subst hn
        simp [hg]
      · simp [hn]
    | some v =>
      refine Eq.trans (prop_obj_cons n name v (listed names g)) ?_
      by_cases hn : n = name
      · subst hn
        simp [hg]
      · rw [if_neg hn, ih]
        simp [Ne.symm hn]

theorem map_fst_listed (names : List String) (g : String → Option Json) :
    ((listed names g).map Prod.fst).Sublist names := by
  induction names with
  | nil => exact List.Sublist.slnil
  | cons n names ih =>
    rw [listed, List.filterMap_cons]
    cases g n with
    | none => exact ih.cons n
    | some v => exact ih.cons_cons n

/-- Distinct names list distinct keys. -/
theorem nodup_listed {names : List String} (h : names.Nodup) (g : String → Option Json) :
    ((listed names g).map Prod.fst).Nodup :=
  h.sublist (map_fst_listed names g)

end Kdna.Value

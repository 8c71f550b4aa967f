import Kdna.Json.Text
import Mathlib.Algebra.BigOperators.Group.List.Basic

/-!
# Leading byte order marks

A decoder that drops a leading U+FEFF from every text makes the JSON text of the
value shorter by one character for each text or key that had one. The length of
the JSON text therefore tells whether anything was dropped.
-/

namespace Kdna

/-- The text does not start with U+FEFF. -/
def Unmarked (s : String) : Prop := ¬ Utf8.bom <+: Utf8.encode s

instance (s : String) : Decidable (Unmarked s) := by
  unfold Unmarked
  infer_instance

/-- One for a text that starts with U+FEFF. -/
def markOf (s : String) : ℕ := if Unmarked s then 0 else 1

namespace Value

/-- Every text and every key of the value satisfies `p`. -/
def AllTexts (p : String → Prop) : Json → Prop :=
  fold { null := True, bool := fun _ => True, num := fun _ => True, str := p
         arr := fun items => ∀ q ∈ items, q
         obj := fun props => ∀ q ∈ props, p q.1 ∧ q.2 }

/-- The number of texts and keys that start with U+FEFF. -/
def marks : Json → ℕ :=
  fold { null := 0, bool := fun _ => 0, num := fun _ => 0, str := markOf, arr := List.sum
         obj := fun props => (props.map fun p => markOf p.1 + p.2).sum }

@[simp] theorem allTexts_str (p : String → Prop) (t : String) : AllTexts p (.str t) ↔ p t :=
  Iff.rfl

@[simp] theorem allTexts_arr (p : String → Prop) (items : List Json) :
    AllTexts p (.arr items) ↔ ∀ v ∈ items, AllTexts p v := by
  rw [AllTexts, fold_arr]
  exact List.forall_mem_map

@[simp] theorem allTexts_obj (p : String → Prop) (props : List (String × Json)) :
    AllTexts p (.obj props) ↔ ∀ q ∈ props, p q.1 ∧ AllTexts p q.2 := by
  rw [AllTexts, fold_obj]
  exact List.forall_mem_map

@[simp] theorem marks_arr (items : List Json) : marks (.arr items) = (items.map marks).sum := by
  simp [marks]

@[simp] theorem marks_obj (props : List (String × Json)) :
    marks (.obj props) = (props.map fun p => markOf p.1 + marks p.2).sum := by
  simp [marks, Function.comp_def]

/-- What holds of all texts holds of those of a value. -/
theorem allTexts_of_forall {p : String → Prop} (hp : ∀ t, p t) (v : Json) : v.AllTexts p := by
  induction v using Json.induction with
  | null => trivial
  | bool b => trivial
  | num x => trivial
  | str t => exact hp t
  | arr items ih => exact (allTexts_arr _ _).mpr ih
  | obj props ih => exact (allTexts_obj _ _).mpr fun q hq => ⟨hp q.1, ih q hq⟩

/-- What holds of every text may be replaced by what follows from it. -/
theorem AllTexts.imp {p q : String → Prop} (hpq : ∀ t, p t → q t) {v : Json} (h : v.AllTexts p) :
    v.AllTexts q := by
  induction v using Json.induction with
  | null => trivial
  | bool b => trivial
  | num x => trivial
  | str t => exact hpq t h
  | arr items ih =>
    rw [allTexts_arr] at h ⊢
    exact fun v hv => ih v hv (h v hv)
  | obj props ih =>
    rw [allTexts_obj] at h ⊢
    exact fun r hr => ⟨hpq r.1 (h r hr).1, ih r hr (h r hr).2⟩

/-- A value has no marks exactly when none of its texts and keys has one. -/
theorem marks_eq_zero_iff (v : Json) : v.marks = 0 ↔ v.AllTexts Unmarked := by
  induction v using Json.induction with
  | null => simp [marks, AllTexts]
  | bool b => simp [marks, AllTexts]
  | num x => simp [marks, AllTexts]
  | str t =>
    rw [allTexts_str]
    simp [marks, markOf]
  | arr items ih =>
    rw [marks_arr, allTexts_arr, List.sum_eq_zero_iff_forall_eq_nat, List.forall_mem_map]
    exact forall₂_congr ih
  | obj props ih =>
    rw [marks_obj, allTexts_obj, List.sum_eq_zero_iff_forall_eq_nat, List.forall_mem_map]
    refine forall₂_congr fun p hp => ?_
    rw [Nat.add_eq_zero_iff, ih p hp]
    simp [markOf]

/-- The marks of a value are the same in every order of its members. -/
theorem marks_enumerated (v : Json) : v.enumerated.marks = v.marks := by
  induction v using Json.induction with
  | null => rfl
  | bool b => rfl
  | num x => rfl
  | str t => rfl
  | arr items ih =>
    rw [enumerated_arr, marks_arr, marks_arr, List.map_map]
    exact congrArg List.sum (List.map_congr_left ih)
  | obj props ih =>
    have hperm := ownOrder_perm (props.map fun p => (p.1, p.2.enumerated))
    rw [enumerated_obj, ofProps, marks_obj, marks_obj, (hperm.map _).sum_nat, List.map_map]
    exact congrArg List.sum (List.map_congr_left fun p hp => by simp [ih p hp])

/-- A value without marks is not changed by dropping marks. -/
theorem retext_stripBom {v : Json} (h : v.AllTexts Unmarked) : v.retext Utf8.stripBom = v := by
  induction v using Json.induction with
  | null => rfl
  | bool b => rfl
  | num x => rfl
  | str t =>
    rw [retext_str, (Utf8.stripBom_eq_self_iff t).mpr h]
  | arr items ih =>
    rw [allTexts_arr] at h
    rw [retext_arr, List.map_congr_left fun w hw => ih w hw (h w hw), List.map_id']
  | obj props ih =>
    rw [allTexts_obj] at h
    have hprop : ∀ p ∈ props, (Utf8.stripBom p.1, p.2.retext Utf8.stripBom) = p := by
      intro p hp
      rw [(Utf8.stripBom_eq_self_iff p.1).mpr (h p hp).1, ih p hp (h p hp).2]
    rw [retext_obj, List.map_congr_left hprop, List.map_id']

end Value

/-- Dropping the mark of a text shortens its quoted text by one. -/
theorem length_quote_stripBom (s : String) :
    (quote (Utf8.stripBom s)).length + markOf s = (quote s).length := by
  unfold markOf
  split
  case isTrue h => rw [(Utf8.stripBom_eq_self_iff s).mpr h, Nat.add_zero]
  case isFalse h =>
    obtain ⟨cs, hcs⟩ := (Utf8.bom_isPrefix_encode_iff s).mp (not_not.mp h)
    have hstrip : Utf8.stripBom s = String.ofList cs := by simp [Utf8.stripBom, hcs]
    have hbom : quoteChar '\uFEFF' = ['\uFEFF'] := by decide
    simp [quote, hstrip, hcs, hbom]

/-- Dropping the marks of all texts and keys shortens the JSON text by as many. -/
theorem length_stringify_stripBom (v : Json) :
    (stringify (v.retext Utf8.stripBom)).length + v.marks = (stringify v).length := by
  have hsum {α : Type} (l : List α) (f g h : α → ℕ) (hl : ∀ a ∈ l, f a + g a = h a) :
      (l.map f).sum + (l.map g).sum = (l.map h).sum := by
    rw [← List.sum_map_add]
    exact congrArg List.sum (List.map_congr_left hl)
  have hframe {a m b k : ℕ} (h : a + m = b) : a + k + 2 + m = b + k + 2 := by omega
  induction v using Json.induction with
  | null => rfl
  | bool b => rfl
  | num x => rfl
  | str t => exact length_quote_stripBom t
  | arr items ih =>
    rw [Value.retext_arr, length_stringify_arr, length_stringify_arr, Value.marks_arr,
      List.map_map, List.length_map]
    exact hframe (hsum items _ _ _ ih)
  | obj props ih =>
    rw [Value.retext_obj, length_stringify_obj, length_stringify_obj, Value.marks_obj,
      List.map_map, List.length_map]
    refine hframe (hsum props _ _ _ fun p hp => ?_)
    have hkey := length_quote_stripBom p.1
    have hvalue := ih p hp
    simp only [Function.comp_apply]
    omega

end Kdna

import Kdna.Shapes.Values
import Mathlib.Algebra.Order.BigOperators.Group.List
import Mathlib.Data.List.Dedup

/-!
# Complete bindings

Values bound to paths of record fields are put together into one value: a record where a path goes
on, the bound value where it ends. The test of the bindings follows required fields only, so it
does not see an optional record that is bound in part, and it takes a required record whose fields
are all optional for bound.
-/

namespace Kdna.Shapes

/-- A value has a shape. -/
inductive Conforms : Shape → SemanticValue → Prop
  | scalar {t : ScalarKind} {v : SemanticValue} (h : v.scalarKind = some t) :
    Conforms (.scalar t) v
  | list {item : Shape} {minimum : UInt} {maximum : Option UInt} {items : List SemanticValue}
    (hmin : minimum.1 ≤ items.length) (hmax : ∀ m ∈ maximum, items.length ≤ m.1)
    (hitems : ∀ v ∈ items, Conforms item v) : Conforms (.list item minimum maximum) (.list items)
  | record {fields : List (ShapeField Shape)} {values : List (ValueField SemanticValue)}
    (hnodup : (values.map ValueField.name).Nodup)
    (hrequired : ∀ f ∈ fields, f.required → f.name ∈ values.map ValueField.name)
    (hknown : ∀ v ∈ values, v.name ∈ fields.map ShapeField.name)
    (hvalues : ∀ v ∈ values, ∀ f ∈ fields, f.name = v.name → Conforms f.shape v.value) :
    Conforms (.record fields) (.record values)

/-- A value bound to a path. -/
abbrev Binding := List String × SemanticValue

/-- What is bound below a field. -/
def below (name : String) (bs : List Binding) : List Binding :=
  bs.filterMap fun b => match b.1 with
    | n :: path => if n = name then some (path, b.2) else none
    | [] => none

/-- A value is put together from the bindings, with its fields in some order. -/
inductive Assembled : List Binding → SemanticValue → Prop
  | whole {v : SemanticValue} : Assembled [([], v)] v
  | record {bs : List Binding} {values : List (ValueField SemanticValue)}
    (hpaths : ∀ b ∈ bs, b.1 ≠ []) (hnodup : (values.map ValueField.name).Nodup)
    (hnames : ∀ name, name ∈ values.map ValueField.name ↔ ∃ b ∈ bs, b.1.head? = some name)
    (hvalues : ∀ v ∈ values, Assembled (below v.name bs) v.value) : Assembled bs (.record values)

/-- The assembly makes a record at a place: nothing is bound at it or above, and it is the root or
something is bound below. -/
def Opened (paths : List (List String)) (place : List String) : Prop :=
  (∀ p ∈ paths, ¬p <+: place) ∧ (place = [] ∨ ∃ p ∈ paths, place <+: p)

/-- Each record that the assembly makes has something at or below each of its required fields. -/
def Covered (field : String) (shape : Shape) (paths : List (List String)) : Prop :=
  ∀ place fields, Opened paths place → shapeAt field shape place = .ok (.record fields) →
    ∀ f ∈ fields, f.required → ∃ p ∈ paths, place ++ [f.name] <+: p

variable {field : String} {s t : Shape} {v : SemanticValue} {depth : ℕ}
  {fields : List (ShapeField Shape)} {paths : List (List String)} {bs : List Binding}
  {name : String}

section Shapes

theorem uniqueAfter_eq_ok_iff {seen names : List String} :
    uniqueAfter field seen names = .ok () ↔ names.Nodup ∧ ∀ n ∈ names, n ∉ seen := by
  induction names generalizing seen with
  | nil => simp [uniqueAfter]
  | cons name names ih =>
    rw [uniqueAfter, List.nodup_cons, List.forall_mem_cons]
    split_ifs with hseen
    · simp [hseen]
    · rw [ih]
      simp only [List.mem_append, List.mem_singleton, not_or]
      constructor
      · rintro ⟨hnodup, hfresh⟩
        exact ⟨⟨fun hmem => (hfresh name hmem).2 rfl, hnodup⟩, hseen,
          fun n hn => (hfresh n hn).1⟩
      · rintro ⟨⟨hname, hnodup⟩, -, hfresh⟩
        exact ⟨hnodup, fun n hn => ⟨hfresh n hn, fun heq => hname (heq ▸ hn)⟩⟩

theorem unique_eq_ok_iff {names : List String} {u : Unit} :
    unique field names = .ok u ↔ names.Nodup := by
  obtain rfl : u = () := rfl
  simp [unique, uniqueAfter_eq_ok_iff]

theorem validateFields_eq_ok_iff :
    validateFields field fields depth = .ok () ↔
      ∀ f ∈ fields, validateShape field f.shape depth = .ok () := by
  induction fields with
  | nil => simp [validateFields]
  | cons f fields ih =>
    rw [validateFields, bind_eq_ok_iff, List.forall_mem_cons, ← ih]
    exact ⟨fun ⟨_, h⟩ => h, fun h => ⟨(), h⟩⟩

theorem validateShape_list_iff {item : Shape} {minimum : UInt} {maximum : Option UInt} :
    validateShape field (.list item minimum maximum) depth = .ok () ↔
      depth ≤ 64 ∧ (∀ m ∈ maximum, minimum.1 ≤ m.1) ∧
        validateShape field item (depth + 1) = .ok () := by
  simp [validateShape, bounds, require_bind_eq_ok_iff]

theorem validateShape_record_iff :
    validateShape field (.record fields) depth = .ok () ↔
      depth ≤ 64 ∧ (fields.map ShapeField.name).Nodup ∧
        ∀ f ∈ fields, validateShape field f.shape (depth + 1) = .ok () := by
  rw [validateShape, require_bind_eq_ok_iff, bind_eq_ok_iff]
  simp only [unique_eq_ok_iff, validateFields_eq_ok_iff, exists_and_left, exists_const]

theorem validateShape_mono {depth' : ℕ} (hle : depth' ≤ depth)
    (h : validateShape field s depth = .ok ()) : validateShape field s depth' = .ok () := by
  induction s generalizing depth depth' with
  | scalar k =>
    simp only [validateShape, require_eq_ok_iff] at h ⊢
    omega
  | list item minimum maximum ih =>
    rw [validateShape_list_iff] at h ⊢
    exact ⟨by omega, h.2.1, ih (by omega) h.2.2⟩
  | record fields ih =>
    rw [validateShape_record_iff] at h ⊢
    exact ⟨by omega, h.2.1, fun f hf => ih f hf (by omega) (h.2.2 f hf)⟩

theorem validateShape_depth (h : validateShape field s depth = .ok ()) : depth ≤ 64 := by
  cases s with
  | scalar k => simpa only [validateShape, require_eq_ok_iff] using h
  | list item minimum maximum => exact (validateShape_list_iff.mp h).1
  | record fields => exact (validateShape_record_iff.mp h).1

/-- Fields without repeated names are found by their names. -/
theorem find_field (hnodup : (fields.map ShapeField.name).Nodup) {f : ShapeField Shape}
    (hf : f ∈ fields) : (fields.find? fun g => g.name = f.name) = some f := by
  induction fields with
  | nil => exact absurd hf List.not_mem_nil
  | cons g fields ih =>
    rw [List.map_cons, List.nodup_cons] at hnodup
    rcases List.mem_cons.mp hf with rfl | hf
    · simp only [List.find?_cons, decide_true]
    · have hne : g.name ≠ f.name := fun heq => hnodup.1 (heq ▸ List.mem_map_of_mem hf)
      simp only [List.find?_cons, hne, decide_false]
      exact ih hnodup.2 hf

theorem resultItems_eq_ok_iff {item : Shape} {values : List SemanticValue} :
    resultItems field item values depth = .ok () ↔
      ∀ v ∈ values, resultShape field item v depth = .ok () := by
  induction values with
  | nil => simp [resultItems]
  | cons v values ih =>
    rw [resultItems, bind_eq_ok_iff, List.forall_mem_cons, ← ih]
    exact ⟨fun ⟨_, h⟩ => h, fun h => ⟨(), h⟩⟩

theorem resultFields_eq_ok_iff {values : List (ValueField SemanticValue)} :
    resultFields field fields values depth = .ok () ↔ ∀ v ∈ values,
      ∃ f, (fields.find? fun f => f.name = v.name) = some f ∧
        resultShape field f.shape v.value depth = .ok () := by
  induction values with
  | nil => simp [resultFields]
  | cons v values ih =>
    rw [resultFields, List.forall_mem_cons, ← ih]
    cases hfind : fields.find? fun f => f.name = v.name with
    | none => simp [fail]
    | some f =>
      simp only [bind_eq_ok_iff, Option.some.injEq, exists_eq_left']
      exact ⟨fun ⟨_, h⟩ => h, fun h => ⟨(), h⟩⟩

/-- A valid shape accepts the values that have it. -/
theorem resultShape_eq_ok_iff (hs : validateShape field s depth = .ok ()) :
    resultShape field s v depth = .ok () ↔ Conforms s v := by
  have hdepth := validateShape_depth hs
  induction s generalizing v depth with
  | scalar k =>
    rw [resultShape, require_bind_eq_ok_iff, require_eq_ok_iff]
    constructor
    · rintro ⟨-, h⟩
      exact .scalar h
    · intro h
      cases h with
      | scalar h => exact ⟨hdepth, h⟩
  | list item minimum maximum ih =>
    obtain ⟨-, -, hitem⟩ := validateShape_list_iff.mp hs
    have hitems := fun w => ih (v := w) hitem (validateShape_depth hitem)
    cases v with
    | list items =>
      rw [resultShape, require_bind_eq_ok_iff, require_bind_eq_ok_iff, resultItems_eq_ok_iff]
      simp only [hitems]
      constructor
      · rintro ⟨-, ⟨hmin, hmax⟩, h⟩
        exact .list hmin hmax h
      · intro h
        cases h with
        | list hmin hmax h => exact ⟨hdepth, ⟨hmin, hmax⟩, h⟩
    | _ =>
      constructor
      · intro h
        cases h
      · intro h
        cases h
  | record fields ih =>
    obtain ⟨-, hnodup, hfields⟩ := validateShape_record_iff.mp hs
    have hvalue := fun f hf w => ih f hf (v := w) (hfields f hf) (validateShape_depth (hfields f hf))
    cases v with
    | record values =>
      rw [resultShape, require_bind_eq_ok_iff]
      simp only [checkRecord, bind_eq_ok_iff, unique_eq_ok_iff, require_eq_ok_iff,
        resultFields_eq_ok_iff, exists_and_left, exists_const]
      constructor
      · rintro ⟨-, ⟨-, hvalues, hrequired⟩, hall⟩
        refine .record hvalues hrequired (fun w hw => ?_) fun w hw f hf heq => ?_
        · obtain ⟨f, hfind, -⟩ := hall w hw
          have hname : f.name = w.name := by simpa using List.find?_some hfind
          exact hname ▸ List.mem_map_of_mem (List.mem_of_find?_eq_some hfind)
        · obtain ⟨g, hfind, hg⟩ := hall w hw
          rw [← heq, find_field hnodup hf] at hfind
          obtain rfl := Option.some.inj hfind
          exact (hvalue f hf w.value).mp hg
      · intro h
        cases h with
        | record hvalues hrequired hknown hall =>
          refine ⟨hdepth, ⟨hnodup, hvalues, hrequired⟩, fun w hw => ?_⟩
          obtain ⟨f, hf, hname⟩ := List.mem_map.mp (hknown w hw)
          rw [← hname]
          exact ⟨f, find_field hnodup hf, (hvalue f hf w.value).mpr (hall w hw f hf hname)⟩
    | _ =>
      constructor
      · intro h
        cases h
      · intro h
        cases h

/-- Every valid shape has a value. -/
theorem exists_conforms (hs : validateShape field s depth = .ok ()) : ∃ v, Conforms s v := by
  induction s generalizing depth with
  | scalar k =>
    cases k with
    | text => exact ⟨.text "", .scalar rfl⟩
    | number => exact ⟨.number (UInt.number UInt.one), .scalar rfl⟩
    | boolean => exact ⟨.boolean true, .scalar rfl⟩
    | null => exact ⟨.null, .scalar rfl⟩
  | list item minimum maximum ih =>
    obtain ⟨-, hbounds, hitem⟩ := validateShape_list_iff.mp hs
    obtain ⟨v, hv⟩ := ih hitem
    refine ⟨.list (List.replicate minimum.1 v), .list ?_ ?_ fun w hw => ?_⟩
    · rw [List.length_replicate]
    · rwa [List.length_replicate]
    · rwa [List.eq_of_mem_replicate hw]
  | record fields ih =>
    obtain ⟨-, hnodup, hfields⟩ := validateShape_record_iff.mp hs
    have hall : ∀ f : ShapeField Shape, ∃ v, f ∈ fields → Conforms f.shape v := by
      intro f
      by_cases hf : f ∈ fields
      · obtain ⟨v, hv⟩ := ih f hf (hfields f hf)
        exact ⟨v, fun _ => hv⟩
      · exact ⟨.null, fun h => absurd h hf⟩
    choose g hg using hall
    have hnames : (fields.map fun f => (⟨f.name, g f⟩ : ValueField SemanticValue)).map
        ValueField.name = fields.map ShapeField.name := by
      rw [List.map_map]
      rfl
    refine ⟨.record (fields.map fun f => ⟨f.name, g f⟩), .record (hnames ▸ hnodup)
      (fun f hf _ => hnames ▸ List.mem_map_of_mem hf) (fun w hw => ?_) fun w hw f hf heq => ?_⟩
    · obtain ⟨f, hf, rfl⟩ := List.mem_map.mp hw
      exact List.mem_map_of_mem hf
    · obtain ⟨f', hf', rfl⟩ := List.mem_map.mp hw
      have hfind : (fields.find? fun h => h.name = f'.name) = some f := by
        rw [← show f.name = f'.name from heq]
        exact find_field hnodup hf
      obtain rfl := Option.some.inj (hfind.symm.trans (find_field hnodup hf'))
      exact hg f hf

end Shapes

section Paths

theorem shapeAt_nil (s : Shape) : shapeAt field s [] = .ok s := by
  cases s <;> rfl

theorem shapeAt_cons_eq_ok_iff {path : List String} :
    shapeAt field s (name :: path) = .ok t ↔ ∃ fields, s = .record fields ∧
      ∃ f, (fields.find? fun f => f.name = name) = some f ∧ shapeAt field f.shape path = .ok t := by
  cases s with
  | record fields =>
    rw [shapeAt]
    cases hfind : fields.find? fun f => f.name = name with
    | none => simp [fail, hfind]
    | some f => simp [hfind]
  | _ => exact iff_of_false (fun h => nomatch h) fun ⟨_, h, _⟩ => nomatch h

theorem mem_below {path : List String} : (path, v) ∈ below name bs ↔ (name :: path, v) ∈ bs := by
  rw [below, List.mem_filterMap]
  constructor
  · rintro ⟨⟨whole, w⟩, hmem, hb⟩
    cases whole with
    | nil => exact nomatch hb
    | cons n rest =>
      dsimp only at hb
      split_ifs at hb with hn
      obtain ⟨rfl, rfl⟩ := Prod.mk.inj (Option.some.inj hb)
      exact hn ▸ hmem
  · exact fun hmem => ⟨_, hmem, if_pos rfl⟩

theorem mem_paths_below {path : List String} :
    path ∈ (below name bs).map Prod.fst ↔ name :: path ∈ bs.map Prod.fst := by
  simp only [List.mem_map, Prod.exists, exists_and_right, exists_eq_right, mem_below]

theorem exists_head {b : Binding} (hb : b ∈ bs) (hhead : b.1.head? = some name) :
    ∃ path, (path, b.2) ∈ below name bs := by
  obtain ⟨path, v⟩ := b
  cases path with
  | nil => exact nomatch hhead
  | cons n path =>
    obtain rfl := Option.some.inj hhead
    exact ⟨path, mem_below.mpr hb⟩

theorem Opened.cons {place : List String} (hpaths : ∀ b ∈ bs, b.1 ≠ []) (hne : below name bs ≠ [])
    (h : Opened ((below name bs).map Prod.fst) place) :
    Opened (bs.map Prod.fst) (name :: place) := by
  constructor
  · intro p hp hprefix
    cases p with
    | nil =>
      obtain ⟨b, hb, hnil⟩ := List.mem_map.mp hp
      exact hpaths b hb hnil
    | cons n p =>
      obtain ⟨rfl, hrest⟩ := List.cons_prefix_cons.mp hprefix
      exact h.1 p (mem_paths_below.mpr hp) hrest
  · right
    rcases h.2 with rfl | ⟨p, hp, hprefix⟩
    · obtain ⟨b, hb⟩ := List.exists_mem_of_ne_nil _ hne
      exact ⟨name :: b.1, mem_paths_below.mp (List.mem_map_of_mem hb),
        List.cons_prefix_cons.mpr ⟨rfl, List.nil_prefix⟩⟩
    · exact ⟨name :: p, mem_paths_below.mp hp, List.cons_prefix_cons.mpr ⟨rfl, hprefix⟩⟩

end Paths

section Assembly

/-- What is assembled from covering bindings has the shape. -/
theorem conforms_of_assembled (hs : validateShape field s depth = .ok ())
    (hbound : ∀ b ∈ bs, ∃ t, shapeAt field s b.1 = .ok t ∧ Conforms t b.2)
    (hrecord : bs = [] → ∃ fields, s = .record fields)
    (hcovered : Covered field s (bs.map Prod.fst)) (h : Assembled bs v) : Conforms s v := by
  induction h generalizing s depth with
  | whole =>
    obtain ⟨t, ht, hv⟩ := hbound _ List.mem_cons_self
    rw [shapeAt_nil] at ht
    rwa [Except.ok.inj ht]
  | @record bs values hpaths hnodup hnames hvalues ih =>
    obtain ⟨fields, rfl⟩ : ∃ fields, s = .record fields := by
      cases bs with
      | nil => exact hrecord rfl
      | cons b bs =>
        obtain ⟨t, ht, -⟩ := hbound b List.mem_cons_self
        obtain ⟨name, path, hpath⟩ := List.exists_cons_of_ne_nil (hpaths b List.mem_cons_self)
        rw [hpath, shapeAt_cons_eq_ok_iff] at ht
        obtain ⟨fields, rfl, -⟩ := ht
        exact ⟨fields, rfl⟩
    obtain ⟨-, hdistinct, hfields⟩ := validateShape_record_iff.mp hs
    have hroot : Opened (bs.map Prod.fst) [] := by
      refine ⟨fun p hp hprefix => ?_, .inl rfl⟩
      obtain ⟨b, hb, rfl⟩ := List.mem_map.mp hp
      exact hpaths b hb (List.prefix_nil.mp hprefix)
    refine .record hnodup ?_ ?_ ?_
    · intro f hf hreq
      obtain ⟨p, hp, hprefix⟩ := hcovered [] fields hroot (shapeAt_nil _) f hf hreq
      obtain ⟨b, hb, rfl⟩ := List.mem_map.mp hp
      obtain ⟨rest, hrest⟩ := hprefix
      exact (hnames f.name).mpr ⟨b, hb, by rw [← hrest]; rfl⟩
    · intro w hw
      obtain ⟨b, hb, hhead⟩ := (hnames w.name).mp (List.mem_map_of_mem hw)
      obtain ⟨path, hpath⟩ := exists_head hb hhead
      obtain ⟨t, ht, -⟩ := hbound _ (mem_below.mp hpath)
      obtain ⟨fields', hsame, f, hfind, -⟩ := shapeAt_cons_eq_ok_iff.mp ht
      obtain rfl := Shape.record.inj hsame
      have hname : f.name = w.name := by simpa using List.find?_some hfind
      exact hname ▸ List.mem_map_of_mem (List.mem_of_find?_eq_some hfind)
    · intro w hw f hf hname
      obtain ⟨b, hb, hhead⟩ := (hnames w.name).mp (List.mem_map_of_mem hw)
      obtain ⟨path, hpath⟩ := exists_head hb hhead
      have hne : below w.name bs ≠ [] := List.ne_nil_of_mem hpath
      have hfind := find_field hdistinct hf
      rw [hname] at hfind
      refine ih w hw (hfields f hf) ?_ (fun hnil => absurd hnil hne) ?_
      · rintro ⟨p, u⟩ hmem
        obtain ⟨t, ht, hu⟩ := hbound _ (mem_below.mp hmem)
        obtain ⟨fields', hsame, g, hg, hpart⟩ := shapeAt_cons_eq_ok_iff.mp ht
        obtain rfl := Shape.record.inj hsame
        obtain rfl := Option.some.inj (hfind.symm.trans hg)
        exact ⟨t, hpart, hu⟩
      · intro place inner hopened hplace g hg hreq
        obtain ⟨p, hp, hprefix⟩ := hcovered (w.name :: place) inner (hopened.cons hpaths hne)
          (shapeAt_cons_eq_ok_iff.mpr ⟨fields, rfl, f, hfind, hplace⟩) g hg hreq
        obtain ⟨rest, rfl⟩ := hprefix
        exact ⟨place ++ [g.name] ++ rest, mem_paths_below.mpr hp, ⟨rest, rfl⟩⟩

/-- A record that is assembled has something bound at or below each of its required fields when
the whole has its shape. -/
theorem bound_of_conforms {place : List String} (h : Assembled bs v) (hv : Conforms s v)
    (hopened : Opened (bs.map Prod.fst) place)
    (hplace : shapeAt field s place = .ok (.record fields)) :
    ∀ f ∈ fields, f.required → ∃ p ∈ bs.map Prod.fst, place ++ [f.name] <+: p := by
  induction place generalizing s bs v with
  | nil =>
    rw [shapeAt_nil] at hplace
    obtain rfl := Except.ok.inj hplace
    cases h with
    | whole => exact absurd List.nil_prefix (hopened.1 [] List.mem_cons_self)
    | record hpaths hnodup hnames hvalues =>
      cases hv with
      | record _ hrequired _ _ =>
        intro f hf hreq
        obtain ⟨b, hb, hhead⟩ := (hnames f.name).mp (hrequired f hf hreq)
        obtain ⟨path, hpath⟩ := exists_head hb hhead
        exact ⟨f.name :: path, List.mem_map_of_mem (mem_below.mp hpath),
          List.cons_prefix_cons.mpr ⟨rfl, List.nil_prefix⟩⟩
  | cons n place ih =>
    obtain ⟨outer, rfl, g, hfind, hpart⟩ := shapeAt_cons_eq_ok_iff.mp hplace
    cases h with
    | whole => exact absurd List.nil_prefix (hopened.1 [] List.mem_cons_self)
    | record hpaths hnodup hnames hvalues =>
      cases hv with
      | record _ _ _ hconforms =>
        obtain ⟨p, hp, hprefix⟩ := hopened.2.resolve_left (List.cons_ne_nil n place)
        obtain ⟨rest, rfl⟩ := hprefix
        obtain ⟨b, hb, hpath⟩ := List.mem_map.mp hp
        obtain ⟨w, hw, rfl⟩ := List.mem_map.mp ((hnames n).mpr ⟨b, hb, by rw [hpath]; rfl⟩)
        have hname : g.name = w.name := by simpa using List.find?_some hfind
        have hinner : Opened ((below w.name bs).map Prod.fst) place := by
          constructor
          · intro q hq hqplace
            exact hopened.1 _ (mem_paths_below.mp hq) (List.cons_prefix_cons.mpr ⟨rfl, hqplace⟩)
          · exact .inr ⟨place ++ rest, mem_paths_below.mpr hp, List.prefix_append _ _⟩
        intro f hf hreq
        obtain ⟨q, hq, hqprefix⟩ := ih (hvalues w hw)
          (hconforms w hw g (List.mem_of_find?_eq_some hfind) hname) hinner hpart f hf hreq
        exact ⟨w.name :: q, mem_paths_below.mp hq, List.cons_prefix_cons.mpr ⟨rfl, hqprefix⟩⟩

/-- A value bound to the empty path is bound alone. -/
theorem eq_whole (hfree : (bs.map Prod.fst).Pairwise fun p q => ¬p <+: q ∧ ¬q <+: p)
    (h : ([], v) ∈ bs) : bs = [([], v)] := by
  cases bs with
  | nil => exact absurd h List.not_mem_nil
  | cons b bs =>
    obtain ⟨hhead, -⟩ := List.pairwise_cons.mp hfree
    rcases List.mem_cons.mp h with rfl | htail
    · cases bs with
      | nil => rfl
      | cons c bs =>
        exact absurd List.nil_prefix (hhead c.1 (List.mem_map_of_mem List.mem_cons_self)).1
    · exact absurd List.nil_prefix (hhead [] (List.mem_map_of_mem htail)).2

/-- Paths that do not begin one another do not do so below a field. -/
theorem below_free (hfree : (bs.map Prod.fst).Pairwise fun p q => ¬p <+: q ∧ ¬q <+: p) :
    ((below name bs).map Prod.fst).Pairwise fun p q => ¬p <+: q ∧ ¬q <+: p := by
  rw [List.pairwise_map] at hfree ⊢
  rw [below, List.pairwise_filterMap]
  refine hfree.imp fun {b c} hbc p hp q hq => ?_
  obtain ⟨path, u⟩ := b
  obtain ⟨path', u'⟩ := c
  cases path with
  | nil => exact nomatch hp
  | cons n path =>
    cases path' with
    | nil => exact nomatch hq
    | cons n' path' =>
      dsimp only at hp hq
      split_ifs at hp hq with hn hn'
      · obtain rfl := Option.some.inj hp
        obtain rfl := Option.some.inj hq
        have hsame : n = n' := hn.trans hn'.symm
        exact ⟨fun h => hbc.1 (List.cons_prefix_cons.mpr ⟨hsame, h⟩),
          fun h => hbc.2 (List.cons_prefix_cons.mpr ⟨hsame.symm, h⟩)⟩

/-- Values bound to paths of which none begins another can be put together. -/
theorem exists_assembled (n : ℕ) (hn : ∀ b ∈ bs, b.1.length ≤ n)
    (hfree : (bs.map Prod.fst).Pairwise fun p q => ¬p <+: q ∧ ¬q <+: p) :
    ∃ v, Assembled bs v := by
  induction n generalizing bs with
  | zero =>
    cases bs with
    | nil =>
      refine ⟨.record [], .record (fun _ h => absurd h List.not_mem_nil) List.nodup_nil
        (fun name => ?_) fun _ h => absurd h List.not_mem_nil⟩
      simp
    | cons b bs =>
      obtain ⟨path, v⟩ := b
      obtain rfl := List.length_eq_zero_iff.mp (Nat.le_zero.mp (hn _ List.mem_cons_self))
      rw [eq_whole hfree List.mem_cons_self]
      exact ⟨v, .whole⟩
  | succ n ih =>
    by_cases hnil : ∃ v, ([], v) ∈ bs
    · obtain ⟨v, hv⟩ := hnil
      rw [eq_whole hfree hv]
      exact ⟨v, .whole⟩
    · have hpaths : ∀ b ∈ bs, b.1 ≠ [] := by
        rintro ⟨path, v⟩ hb rfl
        exact hnil ⟨v, hb⟩
      have hparts : ∀ name, ∃ v, Assembled (below name bs) v := by
        intro name
        refine ih (fun b hb => ?_) (below_free hfree)
        have hlength := hn _ (mem_below.mp (show (b.1, b.2) ∈ below name bs from hb))
        rw [List.length_cons] at hlength
        omega
      choose g hg using hparts
      have hnames : ((bs.filterMap fun b => b.1.head?).dedup.map fun name =>
          (⟨name, g name⟩ : ValueField SemanticValue)).map ValueField.name =
          (bs.filterMap fun b => b.1.head?).dedup := by
        rw [List.map_map]
        exact List.map_id _
      refine ⟨.record ((bs.filterMap fun b => b.1.head?).dedup.map fun name => ⟨name, g name⟩),
        .record hpaths ?_ (fun name => ?_) fun w hw => ?_⟩
      · rw [hnames]
        exact List.nodup_dedup _
      · rw [hnames, List.mem_dedup, List.mem_filterMap]
      · obtain ⟨name, -, rfl⟩ := List.mem_map.mp hw
        exact hg name

end Assembly

/-- The shape at a path of a valid shape is valid. -/
theorem validateShape_shapeAt {path : List String} (hs : validateShape field s depth = .ok ())
    (h : shapeAt field s path = .ok t) :
    validateShape field t (depth + path.length) = .ok () := by
  induction path generalizing s depth with
  | nil =>
    rw [shapeAt_nil] at h
    rwa [← Except.ok.inj h]
  | cons name path ih =>
    obtain ⟨fields, rfl, f, hfind, hpart⟩ := shapeAt_cons_eq_ok_iff.mp h
    have hf := (validateShape_record_iff.mp hs).2.2 f (List.mem_of_find?_eq_some hfind)
    rw [List.length_cons, ← Nat.add_assoc, Nat.add_right_comm]
    exact ih hf hpart

/-- Every value put together from values that fit the shapes at the paths fits the whole. -/
def SoundFor (field : String) (shape : Shape) (paths : List (List String)) : Prop :=
  ∀ bs : List Binding, bs.map Prod.fst = paths →
    (∀ b ∈ bs, ∀ t, shapeAt field shape b.1 = .ok t → resultShape field t b.2 0 = .ok ()) →
    ∀ v, Assembled bs v → resultShape field shape v 0 = .ok ()

theorem completeBindings_spec {shape : Shape} (h : completeBindings field paths shape = .ok ()) :
    (paths.Pairwise fun p q => ¬p <+: q ∧ ¬q <+: p) ∧
      (paths = [] → ∃ fields, shape = .record fields) := by
  rw [completeBindings, require_bind_eq_ok_iff] at h
  refine ⟨h.1, ?_⟩
  rintro rfl
  cases shape with
  | record fields => exact ⟨fields, rfl⟩
  | _ => exact nomatch h.2

/-- Accepted bindings of a valid shape are sound exactly when each record that the assembly makes
has something bound at or below each of its required fields. -/
theorem completeBindings_sound_iff (field : String) (shape : Shape) (paths : List (List String))
    (hshape : validateShape field shape 0 = .ok ())
    (hpaths : ∀ p ∈ paths, ∃ t, shapeAt field shape p = .ok t)
    (h : completeBindings field paths shape = .ok ()) :
    SoundFor field shape paths ↔ Covered field shape paths := by
  obtain ⟨hfree, hroot⟩ := completeBindings_spec h
  have hpart : ∀ {path t}, shapeAt field shape path = .ok t → validateShape field t 0 = .ok () :=
    fun ht => validateShape_mono (Nat.zero_le _) (validateShape_shapeAt hshape ht)
  constructor
  · intro hsound place fields hopened hplace f hf hreq
    have hvalue : ∀ p, ∃ v, ∀ t, shapeAt field shape p = .ok t → Conforms t v := by
      intro p
      cases ht : shapeAt field shape p with
      | error e => exact ⟨.null, fun t h => nomatch h⟩
      | ok t =>
        obtain ⟨v, hv⟩ := exists_conforms (hpart ht)
        exact ⟨v, fun t' h => Except.ok.inj h ▸ hv⟩
    choose g hg using hvalue
    have hbs : (paths.map fun p => (p, g p)).map Prod.fst = paths := by
      rw [List.map_map]
      exact List.map_id _
    obtain ⟨v, hv⟩ : ∃ v, Assembled (paths.map fun p => (p, g p)) v := by
      refine exists_assembled (paths.map List.length).sum (fun b hb => ?_) (hbs.symm ▸ hfree)
      obtain ⟨p, hp, rfl⟩ := List.mem_map.mp hb
      exact List.single_le_sum (fun _ _ => Nat.zero_le _) _ (List.mem_map_of_mem hp)
    have hfits := hsound _ hbs (fun b hb t ht => by
      obtain ⟨p, hp, rfl⟩ := List.mem_map.mp hb
      exact (resultShape_eq_ok_iff (hpart ht)).mpr (hg p t ht)) v hv
    have hbound := bound_of_conforms hv ((resultShape_eq_ok_iff hshape).mp hfits)
      (hbs.symm ▸ hopened) hplace f hf hreq
    rwa [hbs] at hbound
  · rintro hcovered bs rfl hvalues v hv
    apply (resultShape_eq_ok_iff hshape).mpr
    refine conforms_of_assembled hshape (fun b hb => ?_) (fun hnil => ?_) hcovered hv
    · obtain ⟨t, ht⟩ := hpaths b.1 (List.mem_map_of_mem hb)
      exact ⟨t, ht, (resultShape_eq_ok_iff (hpart ht)).mp (hvalues b hb t ht)⟩
    · exact hroot (by rw [hnil, List.map_nil])

/-- A record with a required and an optional text. -/
def pairShape : Shape := .record [⟨"a", true, .scalar .text⟩, ⟨"b", false, .scalar .text⟩]

theorem completeBindings_sound_iff_sample : SoundFor "/payload" pairShape [["a"]] := by
  have hpaths : ∀ p ∈ [["a"]], ∃ t, shapeAt "/payload" pairShape p = .ok t :=
    List.forall_mem_singleton.mpr ⟨.scalar .text, rfl⟩
  refine (completeBindings_sound_iff "/payload" pairShape [["a"]] (by decide) hpaths
    (by decide)).mpr fun place fields hopened hplace f hf hreq => ?_
  have hroot : place = [] := by
    cases place with
    | nil => rfl
    | cons n place =>
      obtain ⟨p, hp, hprefix⟩ := hopened.2.resolve_left (List.cons_ne_nil n place)
      obtain rfl := List.mem_singleton.mp hp
      obtain ⟨rfl, -⟩ := List.cons_prefix_cons.mp hprefix
      exact absurd (List.cons_prefix_cons.mpr ⟨rfl, List.nil_prefix⟩)
        (hopened.1 ["a"] (List.mem_singleton_self _))
  subst hroot
  obtain rfl := Shape.record.inj (Except.ok.inj hplace)
  rcases List.mem_pair.mp hf with rfl | rfl
  · exact ⟨["a"], List.mem_singleton_self _, List.prefix_rfl⟩
  · exact absurd hreq Bool.false_ne_true

/-- A record with an optional record of two required texts. -/
def partShape : Shape :=
  .record [⟨"part", false, .record [⟨"a", true, .scalar .text⟩, ⟨"b", true, .scalar .text⟩]⟩]

/-- An optional record that is bound in part lacks a required field. -/
theorem part_bound_unsound :
    validateShape "/payload" partShape 0 = .ok () ∧
      shapeAt "/payload" partShape ["part", "a"] = .ok (.scalar .text) ∧
      completeBindings "/payload" [["part", "a"]] partShape = .ok () ∧
      resultShape "/payload" (.scalar .text) (.text "t") 0 = .ok () ∧
      Assembled [(["part", "a"], .text "t")] (.record [⟨"part", .record [⟨"a", .text "t"⟩]⟩]) ∧
      resultShape "/payload" partShape (.record [⟨"part", .record [⟨"a", .text "t"⟩]⟩]) 0 =
        .error (.invalid "/payload" none) := by
  refine ⟨by decide, by rfl, by decide, by decide, ?_, by decide⟩
  have hinner : Assembled [(["a"], .text "t")] (.record [⟨"a", .text "t"⟩]) := by
    refine .record (by simp) (by simp) (by simp [eq_comm]) ?_
    exact List.forall_mem_singleton.mpr .whole
  refine .record (by simp) (by simp) (by simp [eq_comm]) ?_
  exact List.forall_mem_singleton.mpr hinner

end Kdna.Shapes

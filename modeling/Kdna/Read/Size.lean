import Kdna.Json.Quick

/-!
# The size of an answer

`clone`, `jcs` and `size` of `util.js`. The copy charges the octets of the canonical text as
it goes, so that it succeeds exactly for a value within the bounds whose whole text fits
`MAX_BYTES`.
-/

namespace Kdna

/-- The octets of the canonical text of a value. -/
def octets (v : Json) : ℕ := (Utf8.encodeChars (canonicalText v)).length

@[simp] theorem octets_null : octets .null = scalarBytes .null := rfl

@[simp] theorem octets_bool (b : Bool) : octets (.bool b) = scalarBytes (.bool b) := rfl

@[simp] theorem octets_num (x : Binary64) : octets (.num x) = scalarBytes (.num x) := rfl

@[simp] theorem octets_str (t : String) : octets (.str t) = scalarBytes (.str t) := rfl

theorem octets_arr (items : List Json) :
    octets (.arr items) = 2 + (items.map octets).sum + (items.length - 1) := by
  rw [octets, canonicalText_arr, length_encodeChars_bracketed (by decide) (by decide),
    length_encodeChars_commaJoin, List.map_map, List.length_map]
  change (items.map octets).sum + (items.length - 1) + 2 = _
  omega

theorem octets_obj (props : List (String × Json)) :
    octets (.obj props) =
      2 + (props.map fun p => scalarBytes (.str p.1) + 1 + octets p.2).sum + (props.length - 1) := by
  have hcolon : (String.utf8EncodeChar ':').length = 1 := by decide
  have hmember (p : String × Json) :
      (Utf8.encodeChars (quote p.1 ++ ':' :: canonicalText p.2)).length =
        scalarBytes (.str p.1) + 1 + octets p.2 := by
    simp only [scalarBytes, octets, stringify_str, Utf8.encodeChars_append, Utf8.encodeChars_cons,
      List.length_append, hcolon]
    omega
  rw [octets, canonicalText_obj, length_encodeChars_bracketed (by decide) (by decide),
    length_encodeChars_commaJoin, List.map_map, List.length_map, Function.comp_def]
  simp only [hmember]
  rw [((sortKeys_perm props).map _).sum_nat, (sortKeys_perm props).length_eq]
  omega

/-- The order of the members does not matter to the size. -/
theorem octets_eq_weigh (v : Json) : octets v = v.weigh := by
  induction v using Value.induction with
  | null => rfl
  | bool b => cases b <;> rfl
  | num x => rfl
  | str t => exact (Value.weigh_str t).symm
  | arr items ih =>
    have hitems : items.map octets = items.map Value.weigh := List.map_congr_left ih
    rw [octets_arr, hitems]
    simp [Value.weigh]
  | obj props ih =>
    have hprops : props.map (fun p : String × Json => scalarBytes (.str p.1) + 1 + octets p.2) =
        props.map fun p => Value.weigh (.str p.1) + 1 + p.2.weigh :=
      List.map_congr_left fun p hp => by rw [ih p hp, Value.weigh_str]
    rw [octets_obj, hprops]
    simp [Value.weigh, Function.comp_def]

namespace Read

/-- `MAX_BYTES` -/
def maxBytes : ℕ := 8 * 1024 * 1024

/-- `charge(cost)` of `clone`; `none` is its `INVALID_JSON`. -/
def charge (bytes cost : ℕ) : Option ℕ := do
  guard (bytes + cost ≤ maxBytes)
  return bytes + cost

/-- The items of an array, each charged with the comma before it. -/
def cloneItems (clone : Json → ℕ → Option (Json × ℕ)) : ℕ → List Json → ℕ → Option (List Json × ℕ)
  | _, [], bytes => some ([], bytes)
  | index, v :: vs, bytes => do
    let bytes ← charge bytes (if index = 0 then 0 else 1)
    let (w, bytes) ← clone v bytes
    let (ws, bytes) ← cloneItems clone (index + 1) vs bytes
    return (w :: ws, bytes)

/-- The properties of an object, each charged with its comma, key and colon. -/
def cloneProps (clone : Json → ℕ → Option (Json × ℕ)) :
    ℕ → List (String × Json) → ℕ → Option (List (String × Json) × ℕ)
  | _, [], bytes => some ([], bytes)
  | index, (k, v) :: ps, bytes => do
    let bytes ← charge bytes ((if index = 0 then 0 else 1) + (scalarBytes (.str k) + 1))
    let (w, bytes) ← clone v bytes
    let (qs, bytes) ← cloneProps clone (index + 1) ps bytes
    return ((k, w) :: qs, bytes)

/-- `copy(x, depth)` of `clone`, at a depth that leaves room for `levels` more. -/
def cloneLevels : ℕ → Json → ℕ → Option (Json × ℕ)
  | 0, _, _ => none
  | levels + 1, v, bytes =>
    match v with
    | .str t => do
      guard ((Utf8.encode t).length ≤ maxStringBytes)
      let bytes ← charge bytes (scalarBytes (.str t))
      return (.str t, bytes)
    | .arr items => do
      guard (items.length ≤ 10000)
      let bytes ← charge bytes 2
      let (copied, bytes) ← cloneItems (cloneLevels levels) 0 items bytes
      return (.arr copied, bytes)
    | .obj props => do
      let bytes ← charge bytes 2
      let (copied, bytes) ← cloneProps (cloneLevels levels) 0 props bytes
      return (.obj copied, bytes)
    | v => do
      let bytes ← charge bytes (scalarBytes v)
      return (v, bytes)

/-- `clone(input)` -/
def clone (input : Json) : Option Json := do
  let (v, _) ← cloneLevels (maxDepth + 1) input 0
  return v

/-- `jcs(input)` -/
def jcs (input : Json) : Option (List Char) := do return canonicalText (← clone input)

/-- `size(x)` -/
def size (x : Json) : Option ℕ := do return (Utf8.encodeChars (← jcs x)).length

/-- The bounds of `clone` at a depth that leaves room for `levels` more. -/
def Bounded : ℕ → Json → Prop
  | 0, _ => False
  | levels + 1, v =>
    match v with
    | .str t => (Utf8.encode t).length ≤ maxStringBytes
    | .arr items => items.length ≤ 10000 ∧ ∀ w ∈ items, Bounded levels w
    | .obj props => ∀ p ∈ props, Bounded levels p.2
    | _ => True

/-- A strict value is bounded. -/
theorem bounded_of_strict {levels : ℕ} {v : Json} (h : v.Strict levels) : Bounded levels v := by
  induction levels generalizing v with
  | zero => exact h
  | succ levels ih =>
    cases v with
    | null => trivial
    | bool b => trivial
    | num x => trivial
    | str t => exact h
    | arr items => exact ⟨h.1, fun w hw => ih (h.2 w hw)⟩
    | obj props => exact fun p hp => ih (h p hp).2

theorem charge_eq_some_iff {bytes cost after : ℕ} :
    charge bytes cost = some after ↔ after = bytes + cost ∧ after ≤ maxBytes := by
  simp only [charge, Option.bind_eq_bind, Option.bind_eq_some_iff, Option.guard_eq_some',
    Option.pure_def, Option.some.injEq, exists_const]
  constructor
  · rintro ⟨hle, rfl⟩
    exact ⟨rfl, hle⟩
  · rintro ⟨rfl, hle⟩
    exact ⟨hle, rfl⟩

/-- What cloning one value does: it gives the value back and charges its text. -/
def Clones (clone : Json → ℕ → Option (Json × ℕ)) (ok : Json → Prop) (v : Json) : Prop :=
  ∀ bytes w after, clone v bytes = some (w, after) ↔
    w = v ∧ after = bytes + octets v ∧ after ≤ maxBytes ∧ ok v

theorem cloneItems_eq_some_iff {clone : Json → ℕ → Option (Json × ℕ)} {ok : Json → Prop}
    {items : List Json} (hclone : ∀ v ∈ items, Clones clone ok v) {index bytes : ℕ}
    (hbytes : bytes ≤ maxBytes) {ws : List Json} {after : ℕ} :
    cloneItems clone index items bytes = some (ws, after) ↔
      ws = items ∧ after = bytes + (items.map octets).sum +
        (if index = 0 then items.length - 1 else items.length) ∧
        after ≤ maxBytes ∧ ∀ v ∈ items, ok v := by
  induction items generalizing index bytes ws after with
  | nil =>
    simp only [cloneItems, Option.some.injEq, Prod.mk.injEq, List.map_nil, List.sum_nil,
      List.length_nil, Nat.add_zero, ite_self, List.not_mem_nil, false_imp_iff, implies_true,
      and_true]
    constructor
    · rintro ⟨rfl, rfl⟩
      exact ⟨rfl, rfl, hbytes⟩
    · rintro ⟨rfl, rfl, -⟩
      exact ⟨rfl, rfl⟩
  | cons v vs ih =>
    have hv := hclone v List.mem_cons_self
    have hvs := fun w hw => hclone w (.tail _ hw)
    have hsucc : index + 1 ≠ 0 := Nat.succ_ne_zero index
    simp only [cloneItems, Option.bind_eq_bind, Option.bind_eq_some_iff, charge_eq_some_iff,
      Option.pure_def, Option.some.injEq, Prod.mk.injEq, Prod.exists, List.map_cons, List.sum_cons,
      List.length_cons, List.forall_mem_cons]
    constructor
    · rintro ⟨charged, ⟨rfl, -⟩, w, mid, hw, us, last, hus, rfl, rfl⟩
      obtain ⟨rfl, rfl, hle, hok⟩ := (hv _ _ _).mp hw
      obtain ⟨rfl, rfl, hlast, hall⟩ := (ih hvs hle).mp hus
      refine ⟨rfl, ?_, hlast, hok, hall⟩
      rw [if_neg hsucc]
      split_ifs <;> omega
    · rintro ⟨rfl, hafter, hle, hok, hall⟩
      refine ⟨bytes + (if index = 0 then 0 else 1), ⟨rfl, ?_⟩, v, _,
        (hv _ _ _).mpr ⟨rfl, rfl, ?_, hok⟩, vs, after, (ih hvs ?_).mpr ⟨rfl, ?_, hle, hall⟩, rfl, rfl⟩
      · split_ifs at hafter ⊢ <;> omega
      · split_ifs at hafter ⊢ <;> omega
      · split_ifs at hafter ⊢ <;> omega
      · rw [if_neg hsucc]
        split_ifs at hafter ⊢ <;> omega

theorem cloneProps_eq_some_iff {clone : Json → ℕ → Option (Json × ℕ)} {ok : Json → Prop}
    {props : List (String × Json)} (hclone : ∀ p ∈ props, Clones clone ok p.2) {index bytes : ℕ}
    (hbytes : bytes ≤ maxBytes) {qs : List (String × Json)} {after : ℕ} :
    cloneProps clone index props bytes = some (qs, after) ↔
      qs = props ∧
        after = bytes + (props.map fun p => scalarBytes (.str p.1) + 1 + octets p.2).sum +
          (if index = 0 then props.length - 1 else props.length) ∧
        after ≤ maxBytes ∧ ∀ p ∈ props, ok p.2 := by
  induction props generalizing index bytes qs after with
  | nil =>
    simp only [cloneProps, Option.some.injEq, Prod.mk.injEq, List.map_nil, List.sum_nil,
      List.length_nil, Nat.add_zero, ite_self, List.not_mem_nil, false_imp_iff, implies_true,
      and_true]
    constructor
    · rintro ⟨rfl, rfl⟩
      exact ⟨rfl, rfl, hbytes⟩
    · rintro ⟨rfl, rfl, -⟩
      exact ⟨rfl, rfl⟩
  | cons p ps ih =>
    obtain ⟨k, v⟩ := p
    have hv : Clones clone ok v := hclone (k, v) List.mem_cons_self
    have hps := fun p hp => hclone p (.tail _ hp)
    have hsucc : index + 1 ≠ 0 := Nat.succ_ne_zero index
    simp only [cloneProps, Option.bind_eq_bind, Option.bind_eq_some_iff, charge_eq_some_iff,
      Option.pure_def, Option.some.injEq, Prod.mk.injEq, Prod.exists, List.map_cons, List.sum_cons,
      List.length_cons, List.forall_mem_cons]
    constructor
    · rintro ⟨charged, ⟨rfl, -⟩, w, mid, hw, rs, last, hrs, rfl, rfl⟩
      obtain ⟨rfl, rfl, hle, hok⟩ := (hv _ _ _).mp hw
      obtain ⟨rfl, rfl, hlast, hall⟩ := (ih hps hle).mp hrs
      refine ⟨rfl, ?_, hlast, hok, hall⟩
      rw [if_neg hsucc]
      split_ifs <;> omega
    · rintro ⟨rfl, hafter, hle, hok, hall⟩
      refine ⟨_, ⟨rfl, ?_⟩, v, _, (hv _ _ _).mpr ⟨rfl, rfl, ?_, hok⟩, ps, after,
        (ih hps ?_).mpr ⟨rfl, ?_, hle, hall⟩, rfl, rfl⟩
      · split_ifs at hafter ⊢ <;> omega
      · split_ifs at hafter ⊢ <;> omega
      · split_ifs at hafter ⊢ <;> omega
      · rw [if_neg hsucc]
        split_ifs at hafter ⊢ <;> omega

/-- Cloning succeeds exactly within the bounds, and charges the octets of the text. -/
theorem cloneLevels_spec (levels : ℕ) (v : Json) :
    Clones (cloneLevels levels) (Bounded levels) v := by
  induction levels generalizing v with
  | zero => exact fun bytes w after => ⟨fun h => (nomatch h), fun h => h.2.2.2.elim⟩
  | succ levels ih =>
    intro bytes w after
    cases v with
    | str t =>
      simp only [cloneLevels, Option.bind_eq_bind, Option.bind_eq_some_iff, Option.guard_eq_some',
        charge_eq_some_iff, Option.pure_def, Option.some.injEq, Prod.mk.injEq, exists_const,
        octets_str, Bounded]
      constructor
      · rintro ⟨hok, after, ⟨rfl, hle⟩, rfl, rfl⟩
        exact ⟨rfl, rfl, hle, hok⟩
      · rintro ⟨rfl, rfl, hle, hok⟩
        exact ⟨hok, _, ⟨rfl, hle⟩, rfl, rfl⟩
    | arr items =>
      simp only [cloneLevels, Option.bind_eq_bind, Option.bind_eq_some_iff, Option.guard_eq_some',
        charge_eq_some_iff, Option.pure_def, Option.some.injEq, Prod.mk.injEq, Prod.exists,
        exists_const, octets_arr, Bounded]
      constructor
      · rintro ⟨hcount, charged, ⟨rfl, hle⟩, ws, last, hitems, rfl, rfl⟩
        obtain ⟨rfl, rfl, hlast, hall⟩ :=
          (cloneItems_eq_some_iff (fun v _ => ih v) hle).mp hitems
        exact ⟨rfl, by rw [if_pos rfl]; omega, hlast, hcount, hall⟩
      · rintro ⟨rfl, rfl, hle, hcount, hall⟩
        refine ⟨hcount, _, ⟨rfl, by omega⟩, items, _,
          (cloneItems_eq_some_iff (fun v _ => ih v) (by omega)).mpr ⟨rfl, ?_, hle, hall⟩, rfl, rfl⟩
        rw [if_pos rfl]
        omega
    | obj props =>
      simp only [cloneLevels, Option.bind_eq_bind, Option.bind_eq_some_iff, charge_eq_some_iff,
        Option.pure_def, Option.some.injEq, Prod.mk.injEq, Prod.exists, octets_obj, Bounded]
      constructor
      · rintro ⟨charged, ⟨rfl, hle⟩, qs, last, hprops, rfl, rfl⟩
        obtain ⟨rfl, rfl, hlast, hall⟩ :=
          (cloneProps_eq_some_iff (fun p _ => ih p.2) hle).mp hprops
        exact ⟨rfl, by rw [if_pos rfl]; omega, hlast, hall⟩
      · rintro ⟨rfl, rfl, hle, hall⟩
        refine ⟨_, ⟨rfl, by omega⟩, props, _,
          (cloneProps_eq_some_iff (fun p _ => ih p.2) (by omega)).mpr ⟨rfl, ?_, hle, hall⟩, rfl, rfl⟩
        rw [if_pos rfl]
        omega
    | _ =>
      simp only [cloneLevels, Option.bind_eq_bind, Option.bind_eq_some_iff, charge_eq_some_iff,
        Option.pure_def, Option.some.injEq, Prod.mk.injEq, octets_null, octets_bool, octets_num,
        Bounded, and_true]
      constructor
      · rintro ⟨after, ⟨rfl, hle⟩, rfl, rfl⟩
        exact ⟨rfl, rfl, hle⟩
      · rintro ⟨rfl, rfl, hle⟩
        exact ⟨_, ⟨rfl, hle⟩, rfl, rfl⟩

/-- A value has a size exactly within the bounds: the octets of its canonical text. -/
theorem size_eq_some_iff {x : Json} {n : ℕ} :
    size x = some n ↔ n = octets x ∧ n ≤ maxBytes ∧ Bounded (maxDepth + 1) x := by
  simp only [size, jcs, clone, Option.bind_eq_bind, Option.bind_eq_some_iff, Option.pure_def,
    Option.some.injEq, Prod.exists, cloneLevels_spec (maxDepth + 1) x 0 _ _]
  constructor
  · rintro ⟨text, ⟨copied, ⟨w, after, ⟨rfl, rfl, hle, hok⟩, rfl⟩, rfl⟩, rfl⟩
    exact ⟨rfl, by rwa [Nat.zero_add] at hle, hok⟩
  · rintro ⟨rfl, hle, hok⟩
    exact ⟨_, ⟨x, ⟨x, _, ⟨rfl, rfl, by rwa [Nat.zero_add], hok⟩, rfl⟩, rfl⟩, rfl⟩

end Read

end Kdna

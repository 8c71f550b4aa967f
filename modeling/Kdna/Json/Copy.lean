import Kdna.Data.Fallible
import Kdna.Json.Text

/-!
# The strict copy of a value

`copyJson` of `strict-input.js`. A Lean value is a finite tree with data
properties, dense arrays and finite numbers, so the tests for cycles, prototypes,
symbols, accessors, holes and non-finite numbers have nothing to refuse. What is
left are the bounds on depth, array length and string length, and the charge of
JSON text bytes against `MAX_GRAPH_BYTES`.
-/

namespace Kdna

/-- `charge(cost)` -/
def charge (bytes cost : ℕ) : Except Failure ℕ := do
  require (bytes + cost ≤ maxGraphBytes) Failure.inputInvalid
  return bytes + cost

/-- `scalarBytes(value)` -/
def scalarBytes (v : Json) : ℕ := (Utf8.encodeChars (stringify v)).length

/-- The items of an array, each charged with the comma before it. -/
def copyItems (copy : Json → ℕ → Except Failure (Json × ℕ)) :
    ℕ → List Json → ℕ → Except Failure (List Json × ℕ)
  | _, [], bytes => .ok ([], bytes)
  | index, v :: vs, bytes => do
    let bytes ← charge bytes (if index = 0 then 0 else 1)
    let (w, bytes) ← copy v bytes
    let (ws, bytes) ← copyItems copy (index + 1) vs bytes
    return (w :: ws, bytes)

/-- The properties of an object, each charged with its comma, key and colon. -/
def copyProps (copy : Json → ℕ → Except Failure (Json × ℕ)) :
    ℕ → List (String × Json) → ℕ → Except Failure (List (String × Json) × ℕ)
  | _, [], bytes => .ok ([], bytes)
  | index, (k, v) :: ps, bytes => do
    require (scalarString k maxStringBytes true) Failure.inputInvalid
    let bytes ← charge bytes ((if index = 0 then 0 else 1) + (scalarBytes (.str k) + 1))
    let (w, bytes) ← copy v bytes
    let (qs, bytes) ← copyProps copy (index + 1) ps bytes
    return ((k, w) :: qs, bytes)

/-- `copy(value, depth)`, at a depth that leaves room for `levels` more. -/
def copyLevels : ℕ → Json → ℕ → Except Failure (Json × ℕ)
  | 0, _, _ => .error .inputInvalid
  | levels + 1, v, bytes =>
    match v with
    | .str t => do
      require (scalarString t maxStringBytes true) Failure.inputInvalid
      let bytes ← charge bytes (scalarBytes (.str t))
      return (.str t, bytes)
    | .arr items => do
      require (items.length ≤ 10000) Failure.inputInvalid
      let bytes ← charge bytes 2
      let (copied, bytes) ← copyItems (copyLevels levels) 0 items bytes
      return (.arr copied, bytes)
    | .obj props => do
      let bytes ← charge bytes 2
      let (copied, bytes) ← copyProps (copyLevels levels) 0 props bytes
      return (Value.ofProps copied, bytes)
    | v => do
      let bytes ← charge bytes (scalarBytes v)
      return (v, bytes)

/-- `copyJson(input)` -/
def copyJson (input : Json) : Except Failure Json := do
  let (v, _) ← copyLevels (maxDepth + 1) input 0
  return v

/-- The bounds of a strict value at a depth that leaves room for `levels` more. -/
def Value.Strict : ℕ → Json → Prop
  | 0, _ => False
  | levels + 1, v =>
    match v with
    | .str t => (Utf8.encode t).length ≤ maxStringBytes
    | .arr items => items.length ≤ 10000 ∧ ∀ w ∈ items, Strict levels w
    | .obj props => ∀ p ∈ props, (Utf8.encode p.1).length ≤ maxStringBytes ∧ Strict levels p.2
    | _ => True

/-- The bounds of a payload, which also limit the members of an object. -/
def Value.Within : ℕ → Json → Prop
  | 0, _ => False
  | levels + 1, v =>
    match v with
    | .str t => (Utf8.encode t).length ≤ maxStringBytes
    | .arr items => items.length ≤ 10000 ∧ ∀ w ∈ items, Within levels w
    | .obj props => props.length ≤ 10000 ∧
        ∀ p ∈ props, (Utf8.encode p.1).length ≤ maxStringBytes ∧ Within levels p.2
    | _ => True

/-- A value within the bounds of a payload is strict. -/
theorem Value.Within.strict {levels : ℕ} {v : Json} (h : v.Within levels) : v.Strict levels := by
  induction levels generalizing v with
  | zero => exact h
  | succ levels ih =>
    cases v with
    | null => trivial
    | bool b => trivial
    | num x => trivial
    | str t => exact h
    | arr items => exact ⟨h.1, fun w hw => ih (h.2 w hw)⟩
    | obj props => exact fun p hp => ⟨(h.2 p hp).1, ih (h.2 p hp).2⟩

/-- An upper bound of what copying a value charges. -/
def Value.weight : Json → ℕ :=
  fold { null := scalarBytes .null, bool := fun b => scalarBytes (.bool b)
         num := fun x => scalarBytes (.num x), str := fun t => scalarBytes (.str t)
         arr := fun items => 2 + (items.map (1 + ·)).sum
         obj := fun props => 2 + (props.map fun p => scalarBytes (.str p.1) + 2 + p.2).sum }

@[simp] theorem Value.weight_null : Value.weight .null = scalarBytes .null := rfl

@[simp] theorem Value.weight_bool (b : Bool) : Value.weight (.bool b) = scalarBytes (.bool b) := rfl

@[simp] theorem Value.weight_num (x : Binary64) :
    Value.weight (.num x) = scalarBytes (.num x) := rfl

@[simp] theorem Value.weight_str (t : String) : Value.weight (.str t) = scalarBytes (.str t) := rfl

@[simp] theorem Value.weight_arr (items : List Json) :
    Value.weight (.arr items) = 2 + (items.map fun v => 1 + v.weight).sum := by
  simp [Value.weight, Function.comp_def]

@[simp] theorem Value.weight_obj (props : List (String × Json)) :
    Value.weight (.obj props) =
      2 + (props.map fun p => scalarBytes (.str p.1) + 2 + p.2.weight).sum := by
  simp [Value.weight, Function.comp_def]

theorem charge_eq {bytes cost : ℕ} (h : bytes + cost ≤ maxGraphBytes) :
    charge bytes cost = .ok (bytes + cost) := by
  rw [charge, require_bind_of_pos h]
  rfl

/-- Copying succeeds with the value itself and charges at most its weight. -/
def Copies (copy : Json → ℕ → Except Failure (Json × ℕ)) (v : Json) : Prop :=
  ∀ bytes, bytes + v.weight ≤ maxGraphBytes →
    ∃ after, copy v bytes = .ok (v, after) ∧ after ≤ bytes + v.weight

theorem copyItems_eq {copy : Json → ℕ → Except Failure (Json × ℕ)} {items : List Json}
    (hcopy : ∀ v ∈ items, Copies copy v) (index bytes : ℕ)
    (hbytes : bytes + (items.map fun v => 1 + v.weight).sum ≤ maxGraphBytes) :
    ∃ after, copyItems copy index items bytes = .ok (items, after) ∧
      after ≤ bytes + (items.map fun v => 1 + v.weight).sum := by
  induction items generalizing index bytes with
  | nil => exact ⟨bytes, rfl, le_rfl⟩
  | cons v vs ih =>
    simp only [List.map_cons, List.sum_cons] at hbytes ⊢
    have hcomma : bytes + (if index = 0 then 0 else 1) ≤ bytes + 1 := by split <;> omega
    obtain ⟨b₁, h₁, hb₁⟩ := hcopy v List.mem_cons_self (bytes + if index = 0 then 0 else 1)
      (by omega)
    obtain ⟨b₂, h₂, hb₂⟩ := ih (fun w hw => hcopy w (.tail _ hw)) (index + 1) b₁ (by omega)
    refine ⟨b₂, ?_, by omega⟩
    rw [copyItems, charge_eq (by omega), ok_bind, h₁, ok_bind]
    simp only [h₂, ok_bind]
    rfl

theorem copyProps_eq {copy : Json → ℕ → Except Failure (Json × ℕ)}
    {props : List (String × Json)} (hcopy : ∀ p ∈ props, Copies copy p.2)
    (hkeys : ∀ p ∈ props, (Utf8.encode p.1).length ≤ maxStringBytes) (index bytes : ℕ)
    (hbytes : bytes + (props.map fun p => scalarBytes (.str p.1) + 2 + p.2.weight).sum ≤
      maxGraphBytes) :
    ∃ after, copyProps copy index props bytes = .ok (props, after) ∧
      after ≤ bytes + (props.map fun p => scalarBytes (.str p.1) + 2 + p.2.weight).sum := by
  induction props generalizing index bytes with
  | nil => exact ⟨bytes, rfl, le_rfl⟩
  | cons p ps ih =>
    obtain ⟨k, v⟩ := p
    simp only [List.map_cons, List.sum_cons] at hbytes ⊢
    have hkey : scalarString k maxStringBytes true = true := by
      simpa [scalarString] using hkeys _ List.mem_cons_self
    have hcomma : (if index = 0 then 0 else 1) ≤ 1 := by split <;> omega
    generalize hcost : (if index = 0 then 0 else 1) + (scalarBytes (.str k) + 1) = cost
    obtain ⟨b₁, h₁, hb₁⟩ := hcopy (k, v) List.mem_cons_self (bytes + cost) (by simp only; omega)
    obtain ⟨b₂, h₂, hb₂⟩ := ih (fun q hq => hcopy q (.tail _ hq))
      (fun q hq => hkeys q (.tail _ hq)) (index + 1) b₁ (by simp only at hb₁; omega)
    refine ⟨b₂, ?_, by simp only at hb₁; omega⟩
    rw [copyProps, require_bind_of_pos hkey, hcost, charge_eq (by omega), ok_bind, h₁, ok_bind]
    simp only [h₂, ok_bind]
    rfl

/-- A value in memory within the bounds is copied as it is. -/
theorem copyLevels_eq {levels : ℕ} {v : Json} (hv : v.Strict levels) :
    Copies (copyLevels levels) v.enumerated := by
  induction levels generalizing v with
  | zero => exact absurd hv id
  | succ levels ih =>
    intro bytes hbytes
    cases v with
    | null =>
      rw [Value.enumerated_null, Value.weight_null] at *
      exact ⟨_, by simp only [copyLevels, charge_eq hbytes]; rfl, le_rfl⟩
    | bool b =>
      rw [Value.enumerated_bool, Value.weight_bool] at *
      exact ⟨_, by simp only [copyLevels, charge_eq hbytes]; rfl, le_rfl⟩
    | num x =>
      rw [Value.enumerated_num, Value.weight_num] at *
      exact ⟨_, by simp only [copyLevels, charge_eq hbytes]; rfl, le_rfl⟩
    | str t =>
      have hstr : scalarString t maxStringBytes true = true := by
        simp only [scalarString, Bool.true_or, Bool.true_and, decide_eq_true_eq]
        exact hv
      rw [Value.enumerated_str, Value.weight_str] at *
      refine ⟨_, ?_, le_rfl⟩
      rw [copyLevels, require_bind_of_pos hstr, charge_eq hbytes]
      rfl
    | arr items =>
      obtain ⟨hlen, hitems⟩ := hv
      rw [Value.enumerated_arr, Value.weight_arr, ← Nat.add_assoc] at hbytes ⊢
      obtain ⟨after, hafter, hle⟩ := copyItems_eq
        (List.forall_mem_map.mpr fun w hw => ih (hitems w hw)) 0 (bytes + 2) hbytes
      refine ⟨after, ?_, hle⟩
      rw [copyLevels, require_bind_of_pos (by rwa [List.length_map]), charge_eq (by omega),
        ok_bind, hafter]
      rfl
    | obj props =>
      rw [Value.enumerated_obj, Value.ofProps, Value.weight_obj, ← Nat.add_assoc] at hbytes ⊢
      have hperm := ownOrder_perm (props.map fun p => (p.1, p.2.enumerated))
      have hmem : ∀ q ∈ ownOrder (props.map fun p => (p.1, p.2.enumerated)),
          Copies (copyLevels levels) q.2 ∧ (Utf8.encode q.1).length ≤ maxStringBytes := by
        intro q hq
        obtain ⟨p, hp, rfl⟩ := List.mem_map.mp (hperm.mem_iff.mp hq)
        exact ⟨ih (hv p hp).2, (hv p hp).1⟩
      obtain ⟨after, hafter, hle⟩ := copyProps_eq (fun q hq => (hmem q hq).1)
        (fun q hq => (hmem q hq).2) 0 (bytes + 2) hbytes
      refine ⟨after, ?_, hle⟩
      rw [copyLevels, charge_eq (by omega), ok_bind, hafter]
      simp only [ok_bind, Value.ofProps, ownOrder_ownOrder]
      rfl

/-- The weight does not depend on the order of members. -/
theorem Value.weight_enumerated (v : Json) : v.enumerated.weight = v.weight := by
  induction v using Json.induction with
  | null => rfl
  | bool b => rfl
  | num x => rfl
  | str t => rfl
  | arr items ih =>
    rw [enumerated_arr, weight_arr, weight_arr, List.map_map]
    congr 2
    exact List.map_congr_left fun w hw => by simp [ih w hw]
  | obj props ih =>
    have hperm := ownOrder_perm (props.map fun p => (p.1, p.2.enumerated))
    rw [enumerated_obj, ofProps, weight_obj, weight_obj, (hperm.map _).sum_nat, List.map_map]
    congr 2
    exact List.map_congr_left fun p hp => by simp [ih p hp]

/-- The bounds do not depend on the order of members. -/
theorem Value.within_enumerated {levels : ℕ} {v : Json} (hv : v.Within levels) :
    v.enumerated.Within levels := by
  induction levels generalizing v with
  | zero => exact hv
  | succ levels ih =>
    cases v with
    | null => trivial
    | bool b => trivial
    | num x => trivial
    | str t => exact hv
    | arr items =>
      rw [enumerated_arr]
      exact ⟨by rw [List.length_map]; exact hv.1,
        List.forall_mem_map.mpr fun w hw => ih (hv.2 w hw)⟩
    | obj props =>
      have hperm := ownOrder_perm (props.map fun p => (p.1, p.2.enumerated))
      rw [enumerated_obj, ofProps]
      refine ⟨by rw [hperm.length_eq, List.length_map]; exact hv.1, fun q hq => ?_⟩
      obtain ⟨p, hp, rfl⟩ := List.mem_map.mp (hperm.mem_iff.mp hq)
      exact ⟨(hv.2 p hp).1, ih (hv.2 p hp).2⟩

/-- `copyJson` returns a value in memory that is within its bounds. -/
theorem copyJson_eq {v : Json} (hv : v.Strict (maxDepth + 1)) (hweight : v.weight ≤ maxGraphBytes) :
    copyJson v.enumerated = .ok v.enumerated := by
  obtain ⟨after, hafter, -⟩ := copyLevels_eq hv 0 (by rwa [Nat.zero_add, Value.weight_enumerated])
  rw [copyJson, hafter]
  rfl

end Kdna

import Kdna.Json.Charge
import Kdna.Python.Canonical

/-!
# Both languages accept and write alike

What `jcs` of Python accepts is bounded by a number of values, what `canonicalJson` accepts by a
number of octets. The text of a value that both accept is the same.
-/

namespace Kdna

/-- The number of values in a tree. -/
def Value.count : Json → ℕ :=
  fold
    { null := 1
      bool := fun _ => 1
      num := fun _ => 1
      str := fun _ => 1
      arr := fun items => 1 + items.sum
      obj := fun props => 1 + (props.map (·.2)).sum }

@[simp] theorem Value.count_arr (items : List Json) :
    Value.count (.arr items) = 1 + (items.map Value.count).sum := by
  simp [Value.count]

@[simp] theorem Value.count_obj (props : List (String × Json)) :
    Value.count (.obj props) = 1 + (props.map fun p => p.2.count).sum := by
  simp [Value.count, Function.comp_def]

namespace Python

/-- Copying `v` succeeds exactly under the condition `p` and within the number of values, and yields
the value itself. -/
def CopiesExactly (copy : Json → ℕ → Except Failure (Json × ℕ)) (p : Json → Prop) (v : Json) :
    Prop :=
  ∀ count w after, copy v count = .ok (w, after) ↔
    p v ∧ w = v ∧ after = count + v.count ∧ after ≤ maxCount

section Parts

variable {copy : Json → ℕ → Except Failure (Json × ℕ)} {p : Json → Prop}

theorem copyItems_eq_ok_iff {items : List Json} (hcopy : ∀ v ∈ items, CopiesExactly copy p v)
    {count : ℕ} (hcount : count ≤ maxCount) (ws : List Json) (after : ℕ) :
    copyItems copy items count = .ok (ws, after) ↔ (∀ v ∈ items, p v) ∧ ws = items ∧
      after = count + (items.map Value.count).sum ∧ after ≤ maxCount := by
  induction items generalizing count ws after with
  | nil =>
    rw [copyItems, Except.ok.injEq, Prod.mk.injEq]
    constructor
    · rintro ⟨rfl, rfl⟩
      exact ⟨List.forall_mem_nil _, rfl, rfl, hcount⟩
    · rintro ⟨-, rfl, rfl, -⟩
      exact ⟨rfl, rfl⟩
  | cons v vs ih =>
    have htail {count} := @ih (fun w hw => hcopy w (.tail _ hw)) count
    simp only [copyItems, bind_eq_ok_iff, hcopy v List.mem_cons_self _ _ _, Prod.exists, pure_eq_ok,
      Except.ok.injEq, Prod.mk.injEq, List.forall_mem_cons, List.map_cons, List.sum_cons]
    constructor
    · rintro ⟨w, n, ⟨hv, rfl, rfl, hn⟩, us, n', hus, rfl, rfl⟩
      obtain ⟨hvs, rfl, rfl, hn'⟩ := (htail hn us n').mp hus
      exact ⟨⟨hv, hvs⟩, rfl, Nat.add_assoc _ _ _, hn'⟩
    · rintro ⟨⟨hv, hvs⟩, rfl, rfl, hle⟩
      have hfirst : count + v.count ≤ maxCount := by omega
      refine ⟨v, _, ⟨hv, rfl, rfl, hfirst⟩, vs, _, (htail hfirst _ _).mpr ⟨hvs, rfl, rfl, ?_⟩, rfl, ?_⟩
      · omega
      · omega

theorem copyProps_eq_ok_iff {props : List (String × Json)}
    (hcopy : ∀ q ∈ props, CopiesExactly copy p q.2) {count : ℕ} (hcount : count ≤ maxCount)
    (ws : List (String × Json)) (after : ℕ) :
    copyProps copy props count = .ok (ws, after) ↔ (∀ q ∈ props, p q.2) ∧ ws = props ∧
      after = count + (props.map fun q => q.2.count).sum ∧ after ≤ maxCount := by
  induction props generalizing count ws after with
  | nil =>
    rw [copyProps, Except.ok.injEq, Prod.mk.injEq]
    constructor
    · rintro ⟨rfl, rfl⟩
      exact ⟨List.forall_mem_nil _, rfl, rfl, hcount⟩
    · rintro ⟨-, rfl, rfl, -⟩
      exact ⟨rfl, rfl⟩
  | cons q qs ih =>
    obtain ⟨k, v⟩ := q
    have htail {count} := @ih (fun w hw => hcopy w (.tail _ hw)) count
    have hv := hcopy (k, v) List.mem_cons_self
    dsimp only at hv
    simp only [copyProps, bind_eq_ok_iff, hv _ _ _, Prod.exists, pure_eq_ok, Except.ok.injEq,
      Prod.mk.injEq, List.forall_mem_cons, List.map_cons, List.sum_cons]
    constructor
    · rintro ⟨w, n, ⟨hv, rfl, rfl, hn⟩, us, n', hus, rfl, rfl⟩
      obtain ⟨hvs, rfl, rfl, hn'⟩ := (htail hn us n').mp hus
      exact ⟨⟨hv, hvs⟩, rfl, Nat.add_assoc _ _ _, hn'⟩
    · rintro ⟨⟨hv, hvs⟩, rfl, rfl, hle⟩
      have hfirst : count + v.count ≤ maxCount := by omega
      refine ⟨v, _, ⟨hv, rfl, rfl, hfirst⟩, qs, _, (htail hfirst _ _).mpr ⟨hvs, rfl, rfl, ?_⟩, rfl, ?_⟩
      · omega
      · omega

end Parts

theorem scalar_iff (t : String) :
    scalar t maxStringBytes true = true ↔ (Utf8.encode t).length ≤ maxStringBytes := by
  rw [scalar, Bool.true_or, Bool.and_true, decide_eq_true_eq]

/-- The copy succeeds exactly on the values within the bounds that have not too many parts. -/
theorem copiesExactly_copyLevels (levels : ℕ) (v : Json) :
    CopiesExactly (copyLevels levels) (Value.Strict levels) v := by
  induction levels generalizing v with
  | zero =>
    intro count w after
    simp [copyLevels, Value.Strict]
  | succ levels ih =>
    intro count w after
    have hscalar : ∀ u : Json, u.Strict (levels + 1) → u.count = 1 →
        ((do
          require (count + 1 ≤ maxCount) Failure.inputInvalid
          return (u, count + 1) : Except Failure (Json × ℕ)) = .ok (w, after) ↔
        u.Strict (levels + 1) ∧ w = u ∧ after = count + u.count ∧ after ≤ maxCount) := by
      intro u hstrict hone
      rw [require_bind_eq_ok_iff, pure_eq_ok, Except.ok.injEq, Prod.mk.injEq, hone]
      constructor
      · rintro ⟨hle, rfl, rfl⟩
        exact ⟨hstrict, rfl, rfl, hle⟩
      · rintro ⟨-, rfl, rfl, hle⟩
        exact ⟨hle, rfl, rfl⟩
    cases v with
    | null => exact hscalar _ trivial rfl
    | bool b => exact hscalar _ trivial rfl
    | num x => exact hscalar _ trivial rfl
    | str t =>
      rw [copyLevels, require_bind_eq_ok_iff]
      simp only [require_bind_eq_ok_iff, scalar_iff, pure_eq_ok, Except.ok.injEq, Prod.mk.injEq]
      constructor
      · rintro ⟨hle, hstrict, rfl, rfl⟩
        exact ⟨hstrict, rfl, rfl, hle⟩
      · rintro ⟨hstrict, rfl, rfl, hle⟩
        exact ⟨hle, hstrict, rfl, rfl⟩
    | arr items =>
      rw [copyLevels, require_bind_eq_ok_iff]
      dsimp only
      rw [require_bind_eq_ok_iff]
      simp only [bind_eq_ok_iff, Prod.exists, pure_eq_ok, Except.ok.injEq,
        Prod.mk.injEq, Value.count_arr]
      constructor
      · rintro ⟨hle, hlength, us, n, hus, rfl, rfl⟩
        obtain ⟨hall, rfl, rfl, hn⟩ :=
          (copyItems_eq_ok_iff (fun u (_ : u ∈ items) => ih u) hle us n).mp hus
        exact ⟨⟨hlength, hall⟩, rfl, Nat.add_assoc _ _ _, hn⟩
      · rintro ⟨⟨hlength, hall⟩, rfl, rfl, hle⟩
        have hone : count + 1 ≤ maxCount := by omega
        refine ⟨hone, hlength, items, _, ?_, rfl, rfl⟩
        rw [← Nat.add_assoc] at hle ⊢
        exact (copyItems_eq_ok_iff (fun u (_ : u ∈ items) => ih u) hone _ _).mpr ⟨hall, rfl, rfl, hle⟩
    | obj props =>
      rw [copyLevels, require_bind_eq_ok_iff]
      dsimp only
      rw [require_bind_eq_ok_iff]
      simp only [bind_eq_ok_iff, Prod.exists, pure_eq_ok, Except.ok.injEq,
        Prod.mk.injEq, Value.count_obj, scalar_iff]
      constructor
      · rintro ⟨hle, hkeys, us, n, hus, rfl, rfl⟩
        obtain ⟨hall, rfl, rfl, hn⟩ :=
          (copyProps_eq_ok_iff (fun q (_ : q ∈ props) => ih q.2) hle us n).mp hus
        exact ⟨fun q hq => ⟨hkeys q hq, hall q hq⟩, rfl, Nat.add_assoc _ _ _, hn⟩
      · rintro ⟨hall, rfl, rfl, hle⟩
        have hone : count + 1 ≤ maxCount := by omega
        refine ⟨hone, fun q hq => (hall q hq).1, props, _, ?_, rfl, rfl⟩
        rw [← Nat.add_assoc] at hle ⊢
        exact (copyProps_eq_ok_iff (fun q (_ : q ∈ props) => ih q.2) hone _ _).mpr
          ⟨fun q hq => (hall q hq).2, rfl, rfl, hle⟩

/-- Both writers lay a value out alike. -/
theorem encode_eq (v : Json) : encode v = canonicalText v := by
  unfold encode canonicalText
  congr 2
  · exact funext numberText_eq
  · exact funext dumps_eq
  · funext props
    rw [sortKeys_eq]
    simp only [dumps_eq]

/-- What `jcs` is defined for. -/
theorem jcs_eq_ok_iff {v : Json} {text : String} :
    jcs v = .ok text ↔ v.Strict (maxDepth + 1) ∧ v.count ≤ maxCount ∧
      text = String.ofList (canonicalText v) := by
  simp only [jcs, copyJson, bind_eq_ok_iff, Prod.exists, copiesExactly_copyLevels _ _ _ _ _,
    pure_eq_ok, Except.ok.injEq, encode_eq, Nat.zero_add]
  constructor
  · rintro ⟨w, ⟨u, n, ⟨hstrict, rfl, rfl, hle⟩, rfl⟩, rfl⟩
    exact ⟨hstrict, hle, rfl⟩
  · rintro ⟨hstrict, hle, rfl⟩
    exact ⟨v, ⟨v, _, ⟨hstrict, rfl, rfl, hle⟩, rfl⟩, rfl⟩

/-- The two writers differ in nothing but their budgets: values that are counted, and octets of the
text that are counted. -/
theorem writers_agree (v : Json) :
    (∀ text text', jcs v = .ok text → canonicalJson v = .ok text' → text = text') ∧
      ((∃ text, jcs v = .ok text) ↔ v.Strict (maxDepth + 1) ∧ v.count ≤ maxCount) ∧
      ((∃ text, canonicalJson v = .ok text) ↔
        v.Strict (maxDepth + 1) ∧ (Utf8.encodeChars (stringify v)).length ≤ maxGraphBytes) := by
  refine ⟨fun text text' h h' => ?_, ?_, ?_⟩
  · rw [(jcs_eq_ok_iff.mp h).2.2, (canonicalJson_eq_ok_iff.mp h').2.2]
  · constructor
    · rintro ⟨text, h⟩
      obtain ⟨hstrict, hle, -⟩ := jcs_eq_ok_iff.mp h
      exact ⟨hstrict, hle⟩
    · rintro ⟨hstrict, hle⟩
      exact ⟨_, jcs_eq_ok_iff.mpr ⟨hstrict, hle, rfl⟩⟩
  · constructor
    · rintro ⟨text, h⟩
      obtain ⟨hstrict, hle, -⟩ := canonicalJson_eq_ok_iff.mp h
      exact ⟨hstrict, hle⟩
    · rintro ⟨hstrict, hle⟩
      exact ⟨_, canonicalJson_eq_ok_iff.mpr ⟨hstrict, hle, rfl⟩⟩

end Python

end Kdna

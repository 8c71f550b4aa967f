import Kdna.Json.Canonical

/-!
# What the strict check accepts

The strict check of a tree charges exactly the octets of its compact JSON text. It
accepts a value exactly when the value is within the structural bounds and its text
within the byte budget, so every part of an accepted value is accepted.
-/

namespace Kdna

theorem scalarBytes_arr (items : List Json) :
    scalarBytes (.arr items) = 2 + (items.map scalarBytes).sum + (items.length - 1) := by
  rw [scalarBytes, stringify_arr, length_encodeChars_bracketed (by decide) (by decide),
    length_encodeChars_commaJoin, List.map_map, List.length_map]
  change (items.map scalarBytes).sum + _ + 2 = _
  omega

theorem scalarBytes_obj (props : List (String × Json)) :
    scalarBytes (.obj props) =
      2 + (props.map fun p => scalarBytes (.str p.1) + 1 + scalarBytes p.2).sum +
        (props.length - 1) := by
  have hcolon : (String.utf8EncodeChar ':').length = 1 := by decide
  have hprop : ∀ p : String × Json,
      (Utf8.encodeChars (quote p.1 ++ ':' :: stringify p.2)).length =
        scalarBytes (.str p.1) + 1 + scalarBytes p.2 := by
    intro p
    simp only [scalarBytes, stringify_str, Utf8.encodeChars_append, Utf8.encodeChars_cons,
      List.length_append, hcolon]
    omega
  rw [scalarBytes, stringify_obj, length_encodeChars_bracketed (by decide) (by decide),
    length_encodeChars_commaJoin, List.map_map, List.length_map]
  simp only [Function.comp_def, hprop]
  omega

theorem charge_eq_ok_iff {bytes cost after : ℕ} :
    charge bytes cost = .ok after ↔ after = bytes + cost ∧ after ≤ maxGraphBytes := by
  rw [charge, require_bind_eq_ok_iff]
  constructor
  · rintro ⟨hle, heq⟩
    obtain rfl := Except.ok.inj heq
    exact ⟨rfl, hle⟩
  · rintro ⟨rfl, hle⟩
    exact ⟨hle, rfl⟩

/-- Copying `v` succeeds exactly under the condition `p`, within the byte budget, and
yields the value in memory and the charge of its text. -/
def CopiesExactly (copy : Json → ℕ → Except Failure (Json × ℕ)) (p : Json → Prop) (v : Json) :
    Prop :=
  ∀ bytes w after, copy v bytes = .ok (w, after) ↔
    p v ∧ w = v.enumerated ∧ after = bytes + scalarBytes v ∧ after ≤ maxGraphBytes

section Parts

variable {copy : Json → ℕ → Except Failure (Json × ℕ)} {p : Json → Prop}

theorem copyItems_eq_ok_iff {items : List Json} (hcopy : ∀ v ∈ items, CopiesExactly copy p v)
    (index bytes : ℕ) (hbytes : bytes ≤ maxGraphBytes) (ws : List Json) (after : ℕ) :
    copyItems copy index items bytes = .ok (ws, after) ↔
      (∀ v ∈ items, p v) ∧ ws = items.map Value.enumerated ∧
        after = bytes + (items.map scalarBytes).sum +
          (if index = 0 then items.length - 1 else items.length) ∧ after ≤ maxGraphBytes := by
  induction items generalizing index bytes ws after with
  | nil =>
    simp only [copyItems, Except.ok.injEq, Prod.mk.injEq, List.not_mem_nil, false_implies,
      implies_true, true_and, List.map_nil, List.sum_nil, List.length_nil]
    constructor
    · rintro ⟨rfl, rfl⟩
      exact ⟨rfl, by split <;> rfl, hbytes⟩
    · rintro ⟨rfl, rfl, -⟩
      exact ⟨rfl, by split <;> rfl⟩
  | cons v vs ih =>
    have htail := ih fun w hw => hcopy w (.tail _ hw)
    simp only [copyItems, bind_eq_ok_iff, charge_eq_ok_iff, hcopy v List.mem_cons_self _ _ _,
      Prod.exists, pure_eq_ok, Except.ok.injEq, Prod.mk.injEq, List.forall_mem_cons,
      List.map_cons, List.sum_cons, List.length_cons]
    constructor
    · rintro ⟨b₁, ⟨rfl, -⟩, w, b₂, ⟨hv, rfl, rfl, hb₂⟩, us, b₃, hus, rfl, rfl⟩
      obtain ⟨hvs, rfl, rfl, hb₃⟩ := (htail (index + 1) _ hb₂ us b₃).mp hus
      refine ⟨⟨hv, hvs⟩, rfl, ?_, hb₃⟩
      split <;> simp <;> omega
    · rintro ⟨⟨hv, hvs⟩, rfl, rfl, hle⟩
      have hlast : bytes + (if index = 0 then 0 else 1) + scalarBytes v ≤ maxGraphBytes := by
        revert hle
        split <;> omega
      refine ⟨_, ⟨rfl, by omega⟩, _, _, ⟨hv, rfl, rfl, hlast⟩, _, _,
        (htail (index + 1) _ hlast _ _).mpr ⟨hvs, rfl, rfl, ?_⟩, rfl, ?_⟩
      · revert hle
        split <;> simp <;> omega
      · split <;> simp <;> omega

theorem copyProps_eq_ok_iff {props : List (String × Json)}
    (hcopy : ∀ q ∈ props, CopiesExactly copy p q.2) (index bytes : ℕ)
    (hbytes : bytes ≤ maxGraphBytes) (ws : List (String × Json)) (after : ℕ) :
    copyProps copy index props bytes = .ok (ws, after) ↔
      (∀ q ∈ props, (Utf8.encode q.1).length ≤ maxStringBytes ∧ p q.2) ∧
        ws = (props.map fun q => (q.1, q.2.enumerated)) ∧
        after = bytes + (props.map fun q => scalarBytes (.str q.1) + 1 + scalarBytes q.2).sum +
          (if index = 0 then props.length - 1 else props.length) ∧ after ≤ maxGraphBytes := by
  induction props generalizing index bytes ws after with
  | nil =>
    simp only [copyProps, Except.ok.injEq, Prod.mk.injEq, List.not_mem_nil, false_implies,
      implies_true, true_and, List.map_nil, List.sum_nil, List.length_nil]
    constructor
    · rintro ⟨rfl, rfl⟩
      exact ⟨rfl, by split <;> rfl, hbytes⟩
    · rintro ⟨rfl, rfl, -⟩
      exact ⟨rfl, by split <;> rfl⟩
  | cons q qs ih =>
    obtain ⟨k, v⟩ := q
    have hkey : scalarString k maxStringBytes true = true ↔
        (Utf8.encode k).length ≤ maxStringBytes := by simp [scalarString]
    have htail := ih fun w hw => hcopy w (.tail _ hw)
    rw [copyProps, require_bind_eq_ok_iff, hkey]
    simp only [bind_eq_ok_iff, charge_eq_ok_iff, hcopy (k, v) List.mem_cons_self _ _ _,
      Prod.exists, pure_eq_ok, Except.ok.injEq, Prod.mk.injEq, List.forall_mem_cons,
      List.map_cons, List.sum_cons, List.length_cons]
    constructor
    · rintro ⟨hk, b₁, ⟨rfl, -⟩, w, b₂, ⟨hv, rfl, rfl, hb₂⟩, us, b₃, hus, rfl, rfl⟩
      obtain ⟨hvs, rfl, rfl, hb₃⟩ := (htail (index + 1) _ hb₂ us b₃).mp hus
      refine ⟨⟨⟨hk, hv⟩, hvs⟩, rfl, ?_, hb₃⟩
      split <;> simp <;> omega
    · rintro ⟨⟨⟨hk, hv⟩, hvs⟩, rfl, rfl, hle⟩
      have hlast : bytes + ((if index = 0 then 0 else 1) + (scalarBytes (.str k) + 1)) +
          scalarBytes v ≤ maxGraphBytes := by
        revert hle
        split <;> omega
      refine ⟨hk, _, ⟨rfl, by omega⟩, _, _, ⟨hv, rfl, rfl, hlast⟩, _, _,
        (htail (index + 1) _ hlast _ _).mpr ⟨hvs, rfl, rfl, ?_⟩, rfl, ?_⟩
      · revert hle
        split <;> simp <;> omega
      · split <;> simp <;> omega

end Parts

/-- The copy succeeds exactly on the values within the bounds whose text is within the
budget. -/
theorem copiesExactly_copyLevels (levels : ℕ) (v : Json) :
    CopiesExactly (copyLevels levels) (Value.Strict levels) v := by
  induction levels generalizing v with
  | zero =>
    intro bytes w after
    simp [copyLevels, Value.Strict]
  | succ levels ih =>
    intro bytes w after
    have hscalar : ∀ u : Json, copyLevels (levels + 1) u bytes = (do
        let bytes ← charge bytes (scalarBytes u)
        return (u, bytes)) → u.Strict (levels + 1) → u.enumerated = u →
        (copyLevels (levels + 1) u bytes = .ok (w, after) ↔ u.Strict (levels + 1) ∧
          w = u.enumerated ∧ after = bytes + scalarBytes u ∧ after ≤ maxGraphBytes) := by
      intro u hu hstrict hmemory
      simp only [hu, bind_eq_ok_iff, charge_eq_ok_iff, pure_eq_ok, Except.ok.injEq, Prod.mk.injEq,
        hmemory, hstrict, true_and]
      constructor
      · rintro ⟨b, ⟨rfl, hb⟩, rfl, rfl⟩
        exact ⟨rfl, rfl, hb⟩
      · rintro ⟨rfl, rfl, hb⟩
        exact ⟨_, ⟨rfl, hb⟩, rfl, rfl⟩
    cases v with
    | null => exact hscalar _ rfl trivial rfl
    | bool b => exact hscalar _ rfl trivial rfl
    | num x => exact hscalar _ rfl trivial rfl
    | str t =>
      have ht : scalarString t maxStringBytes true = true ↔
          Value.Strict (levels + 1) (.str t) := by
        simp only [scalarString, Bool.true_or, Bool.true_and, decide_eq_true_eq]
        exact Iff.rfl
      rw [copyLevels, require_bind_eq_ok_iff, ht]
      simp only [bind_eq_ok_iff, charge_eq_ok_iff, pure_eq_ok, Except.ok.injEq, Prod.mk.injEq,
        Value.enumerated_str]
      constructor
      · rintro ⟨hstrict, b, ⟨rfl, hb⟩, rfl, rfl⟩
        exact ⟨hstrict, rfl, rfl, hb⟩
      · rintro ⟨hstrict, rfl, rfl, hb⟩
        exact ⟨hstrict, _, ⟨rfl, hb⟩, rfl, rfl⟩
    | arr items =>
      have hitems := copyItems_eq_ok_iff (fun u (_ : u ∈ items) => ih u) 0
      rw [copyLevels, require_bind_eq_ok_iff]
      simp only [bind_eq_ok_iff, charge_eq_ok_iff, Prod.exists, pure_eq_ok, Except.ok.injEq,
        Prod.mk.injEq, Value.enumerated_arr, scalarBytes_arr]
      constructor
      · rintro ⟨hlen, b, ⟨rfl, hb⟩, us, b', hus, rfl, rfl⟩
        obtain ⟨hstrict, rfl, rfl, hb'⟩ := (hitems _ hb us b').mp hus
        exact ⟨⟨hlen, hstrict⟩, rfl, by rw [if_pos rfl]; omega, hb'⟩
      · rintro ⟨⟨hlen, hstrict⟩, rfl, rfl, hle⟩
        refine ⟨hlen, _, ⟨rfl, by omega⟩, _, _,
          (hitems _ (by omega) _ _).mpr ⟨hstrict, rfl, rfl, ?_⟩, rfl, ?_⟩
        · rw [if_pos rfl]; omega
        · rw [if_pos rfl]; omega
    | obj props =>
      have hprops := copyProps_eq_ok_iff (fun q (_ : q ∈ props) => ih q.2) 0
      simp only [copyLevels, bind_eq_ok_iff, charge_eq_ok_iff, Prod.exists, pure_eq_ok,
        Except.ok.injEq, Prod.mk.injEq, Value.enumerated_obj, scalarBytes_obj]
      constructor
      · rintro ⟨b, ⟨rfl, hb⟩, us, b', hus, rfl, rfl⟩
        obtain ⟨hstrict, rfl, rfl, hb'⟩ := (hprops _ hb us b').mp hus
        exact ⟨hstrict, rfl, by rw [if_pos rfl]; omega, hb'⟩
      · rintro ⟨hstrict, rfl, rfl, hle⟩
        refine ⟨_, ⟨rfl, by omega⟩, _, _,
          (hprops _ (by omega) _ _).mpr ⟨hstrict, rfl, rfl, ?_⟩, rfl, ?_⟩
        · rw [if_pos rfl]; omega
        · rw [if_pos rfl]; omega

/-- What the strict check accepts. -/
theorem assertStrictJson_eq_ok_iff {v : Json} :
    assertStrictJson v = .ok () ↔ v.Strict (maxDepth + 1) ∧ scalarBytes v ≤ maxGraphBytes := by
  simp only [assertStrictJson, bind_eq_ok_iff, Prod.exists, copiesExactly_copyLevels _ _ _ _ _]
  constructor
  · rintro ⟨w, after, ⟨hstrict, rfl, rfl, hle⟩, -⟩
    exact ⟨hstrict, by rwa [Nat.zero_add] at hle⟩
  · rintro ⟨hstrict, hle⟩
    exact ⟨_, _, ⟨hstrict, rfl, rfl, by rwa [Nat.zero_add]⟩, rfl⟩

/-- What the strict copy returns. -/
theorem copyJson_eq_ok_iff {v w : Json} :
    copyJson v = .ok w ↔
      v.Strict (maxDepth + 1) ∧ scalarBytes v ≤ maxGraphBytes ∧ w = v.enumerated := by
  simp only [copyJson, bind_eq_ok_iff, Prod.exists, copiesExactly_copyLevels _ _ _ _ _, pure_eq_ok,
    Except.ok.injEq]
  constructor
  · rintro ⟨u, after, ⟨hstrict, rfl, rfl, hle⟩, rfl⟩
    exact ⟨hstrict, by rwa [Nat.zero_add] at hle, rfl⟩
  · rintro ⟨hstrict, hle, rfl⟩
    exact ⟨_, _, ⟨hstrict, rfl, rfl, by rwa [Nat.zero_add]⟩, rfl⟩

/-- What canonical JSON is defined for. -/
theorem canonicalJson_eq_ok_iff {v : Json} {text : String} :
    canonicalJson v = .ok text ↔ v.Strict (maxDepth + 1) ∧ scalarBytes v ≤ maxGraphBytes ∧
      text = String.ofList (canonicalText v) := by
  rw [canonicalJson, bind_eq_ok_iff]
  constructor
  · rintro ⟨u, hu, htext⟩
    obtain ⟨hstrict, hle⟩ := assertStrictJson_eq_ok_iff.mp hu
    exact ⟨hstrict, hle, (Except.ok.inj htext).symm⟩
  · rintro ⟨hstrict, hle, rfl⟩
    exact ⟨(), assertStrictJson_eq_ok_iff.mpr ⟨hstrict, hle⟩, rfl⟩

end Kdna

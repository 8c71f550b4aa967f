import Kdna.Ir.Nodes
import Kdna.Ir.Reconstruct
import Kdna.Json.CanonicalInjective
import Mathlib.Data.List.ReduceOption

/-!
# Collecting the values of nodes

Collecting from the nodes of a registry returns the values of the records that the
asset owns directly, kind by kind. The strict check that each comparison makes passes,
because it passes on the whole IR.
-/

namespace Kdna.Ir

theorem Ref.distinctKeys_json (r : Ref) : r.json.DistinctKeys := by
  have hkeys : ["kind", "id"].Nodup := by decide
  rw [Ref.json, Value.distinctKeys_obj]
  refine ⟨hkeys, fun p hp => ?_⟩
  rcases List.mem_cons.mp hp with rfl | hp
  · trivial
  · rw [List.mem_singleton.mp hp]
    trivial

/-- Targets that are equal up to the order of members are one target. -/
theorem Ref.eq_of_deepEqual {r s : Ref} (h : Value.DeepEqual
    (r.json.mapNum Binary64.unsignedZero) (s.json.mapNum Binary64.unsignedZero)) : r = s := by
  have hsorted : ∀ t : Ref, (t.json.mapNum Binary64.unsignedZero).sorted =
      .obj (sortKeys [("kind", .str t.kind.text), ("id", .str t.id)]) := by
    intro t
    simp only [Ref.json, Value.mapNum_obj, List.map_cons, List.map_nil, Value.mapNum_str,
      Value.sorted_obj]
    rfl
  rw [Value.DeepEqual, hsorted, hsorted, Value.obj.injEq] at h
  have hmem : ∀ p : String × Json, p ∈ [("kind", .str r.kind.text), ("id", .str r.id)] →
      p ∈ [("kind", .str s.kind.text), ("id", .str s.id)] := by
    intro p hp
    rw [← (sortKeys_perm _).mem_iff, ← h]
    exact (sortKeys_perm _).mem_iff.mpr hp
  have hkind := hmem ("kind", .str r.kind.text) (by simp)
  have hid := hmem ("id", .str r.id) (by simp)
  refine Ref.json_injective ?_
  simp only [List.mem_cons, Prod.mk.injEq, Value.str.injEq, true_and, List.not_mem_nil, or_false,
    String.reduceEq, false_and, or_self, false_or] at hkind hid
  rw [Ref.json, Ref.json, hkind, hid]

/-- Targets with one canonical text are one target. -/
theorem Ref.eq_of_canonicalText {levels : ℕ} {r s : Ref} (hr : r.json.Strict levels)
    (hs : s.json.Strict levels) (h : canonicalText r.json = canonicalText s.json) : r = s :=
  Ref.eq_of_deepEqual
    (canonicalText_injective hr hs r.distinctKeys_json s.distinctKeys_json h)

/-- Comparing two targets that pass the strict check. -/
theorem same_refJson {r s : Ref} (hr : assertStrictJson r.json = .ok ())
    (hs : assertStrictJson s.json = .ok ()) : same r.json s.json = .ok (decide (r = s)) := by
  rw [assertStrictJson_eq_ok_iff] at hr hs
  have htext : ∀ {t : Ref}, t.json.Strict (maxDepth + 1) ∧ scalarBytes t.json ≤ maxGraphBytes →
      canonicalJson t.json = .ok (String.ofList (canonicalText t.json)) := fun ht =>
    canonicalJson_eq_ok_iff.mpr ⟨ht.1, ht.2, rfl⟩
  rw [same, htext hr, ok_bind, htext hs, ok_bind, pure_eq_ok, Except.ok.injEq, Bool.eq_iff_iff,
    beq_iff_eq, decide_eq_true_iff]
  constructor
  · exact fun h => Ref.eq_of_canonicalText hr.1 hs.1 (String.ofList_injective h)
  · intro h
    rw [h]

private theorem reduceOption_map_ite {α β : Type} (p : α → Prop) [DecidablePred p] (f : α → β)
    (l : List α) :
    (l.map fun a => if p a then some (f a) else none).reduceOption = (l.filter p).map f := by
  induction l with
  | nil => rfl
  | cons a l ih =>
    rw [List.map_cons]
    by_cases ha : p a
    · rw [if_pos ha, List.reduceOption_cons_of_some, ih]
      simp [ha]
    · rw [if_neg ha, List.reduceOption_cons_of_none, ih]
      simp [ha]

section Collect

variable {asset : Ref} {kind : Kind} {records : List Record} {nodes : List Node}

/-- The nodes of a kind are the nodes of the records of the kind. -/
theorem shows_filter (h : List.Forall₂ Shows records nodes) (kind : Kind) :
    List.Forall₂ Shows (records.filter fun r => r.target.kind = kind)
      (nodes.filter fun n => kindIs n.json kind) := by
  induction h with
  | nil => exact .nil
  | @cons r n rs ns hn _ ih =>
    have hkind := hn.kindIs kind
    by_cases hk : r.target.kind = kind
    · rw [List.filter_cons_of_pos (by simpa using hk),
        List.filter_cons_of_pos (by simpa [kindIs, hk] using hkind)]
      exact ih.cons hn
    · rw [List.filter_cons_of_neg (by simpa using hk),
        List.filter_cons_of_neg (by simpa [kindIs, hk] using hkind)]
      exact ih

/-- What a node gives to a collection. -/
theorem collected_of_shows {r : Record} {n : Node} (h : Shows r n)
    (hstrict : assertStrictJson n.json = .ok ()) (hasset : assertStrictJson asset.json = .ok ()) :
    collected asset.json kind n.json =
      .ok (if r.OwnedBy asset kind then some r.value.enumerated else none) := by
  obtain ⟨v, hv, hprop⟩ := h.value_prop
  obtain rfl := (copyJson_eq_ok_iff.mp hv).2.2
  have hkind : kindIs n.json kind = decide (r.target.kind = kind) := h.kindIs kind
  have hownerless : ownerless n.json = decide (r.judgment = none) := by
    rw [ownerless, h.judgment_prop]
    cases r.judgment <;> rfl
  by_cases hk : r.target.kind = kind ∧ r.judgment = none
  · have howner := same_refJson (Value.strict_prop hstrict h.owner_prop) hasset
    rw [collected, hkind, hownerless, if_pos (by simpa using hk), member, h.owner_prop]
    simp only [orFail, ok_bind, howner, member, hprop]
    by_cases ho : r.owner = asset
    · rw [if_pos (decide_eq_true ho), if_pos ⟨hk.1, hk.2, ho⟩]
      rfl
    · rw [if_neg (by simpa using ho), if_neg fun hown => ho hown.2.2]
      rfl
  · have hnot : ¬ (kindIs n.json kind && ownerless n.json) = true := by
      rw [hkind, hownerless]
      simpa using hk
    rw [collected, if_neg hnot, if_neg fun hown => hk ⟨hown.1, hown.2.1⟩]
    rfl

/-- A collection is the list of the values of the records that the asset owns. -/
theorem collectNodes_of_shows (h : List.Forall₂ Shows records nodes)
    (hstrict : ∀ n ∈ nodes, assertStrictJson n.json = .ok ())
    (hasset : assertStrictJson asset.json = .ok ()) :
    collectNodes (nodes.map Node.json) asset.json kind =
      .ok ((ownValues asset kind records).map Value.enumerated) := by
  have hmap : (nodes.map Node.json).mapM (collected asset.json kind) =
      .ok (records.map fun r => if r.OwnedBy asset kind then some r.value.enumerated else none) := by
    rw [mapM_eq_ok_iff, List.forall₂_map_left_iff, List.forall₂_map_right_iff]
    refine List.Forall₂.flip ?_
    induction h with
    | nil => exact .nil
    | cons hn _ ih =>
      rw [List.forall_mem_cons] at hstrict
      exact .cons (collected_of_shows hn hstrict.1 hasset) (ih hstrict.2)
  rw [collectNodes, hmap, ok_bind, pure_eq_ok]
  rw [reduceOption_map_ite, ownValues, List.map_map]
  rfl

end Collect

end Kdna.Ir

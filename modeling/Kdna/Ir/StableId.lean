import Kdna.Data.Delimited
import Kdna.Ir.Collect

/-!
# Stable identifiers

The id of a node or a reference is a role and forty digits of the digest of a canonical
identity. As long as no two identities share these digits, different nodes and
references have different ids.
-/

namespace Kdna.Ir

open Value

/-- The digits of a canonical text in an id. -/
def digits (core : Core) (text : String) : String :=
  String.ofList (((core.digest (Utf8.encode text)).toList.drop 7).take 40)

/-- No two of the identities share their digits. -/
def CollisionFree (core : Core) (asset : Json) (identities : List Json) : Prop :=
  ∀ i ∈ identities, ∀ j ∈ identities, ∀ s t, canonicalJson (.arr [asset, i]) = .ok s →
    canonicalJson (.arr [asset, j]) = .ok t → digits core s = digits core t → s = t

section Digits

variable {core : Core} {asset : Json}

theorem stableId_spec {name id : String} {identity : Json}
    (h : stableId core asset name identity = .ok id) :
    ∃ text, canonicalJson (.arr [asset, identity]) = .ok text ∧
      id = name ++ ":" ++ digits core text := by
  simp only [stableId, utf8, bind_eq_ok_iff, require_eq_ok_iff, pure_eq_ok, Except.ok.injEq] at h
  obtain ⟨text, htext, bytes, ⟨-, -, rfl⟩, rfl⟩ := h
  exact ⟨text, htext, rfl⟩

/-- The digits of the canonical text of an identity, read off its characters. -/
def identityDigits (core : Core) (asset identity : Json) : List Char :=
  ((core.digest (Utf8.encodeChars (canonicalText (.arr [asset, identity])))).toList.drop 7).take 40

theorem identityDigits_eq {identity : Json} {text : String}
    (h : canonicalJson (.arr [asset, identity]) = .ok text) :
    identityDigits core asset identity = (digits core text).toList := by
  obtain ⟨-, -, rfl⟩ := canonicalJson_eq_ok_iff.mp h
  rw [identityDigits, digits, String.toList_ofList, Utf8.encode, String.toList_ofList]

/-- Where the digits of a list of identities are pairwise different, none collide. -/
theorem collisionFree_of_nodup {identities : List Json}
    (h : (identities.map (identityDigits core asset)).Nodup) :
    CollisionFree core asset identities := by
  intro i hi j hj s t hs ht hdigits
  have heq : i = j := by
    refine List.inj_on_of_nodup_map h hi hj ?_
    rw [identityDigits_eq hs, identityDigits_eq ht, hdigits]
  rw [heq, ht] at hs
  exact (Except.ok.inj hs).symm

/-- Identities below one asset with one canonical text have one text themselves. -/
theorem canonicalText_eq_of_pair {i j : Json}
    (h : canonicalText (.arr [asset, i]) = canonicalText (.arr [asset, j])) :
    canonicalText i = canonicalText j := by
  simp only [canonicalText_arr, List.map_cons, List.map_nil, commaJoin_cons_cons,
    commaJoin_singleton, List.cons.injEq, true_and] at h
  have htexts := List.append_cancel_right h
  exact (List.cons.inj (List.append_cancel_left htexts)).2

/-- The canonical text of an identity, where its id exists. -/
theorem identity_of_digits {identities : List Json} (hfree : CollisionFree core asset identities)
    {i j : Json} (hi : i ∈ identities) (hj : j ∈ identities) {s t : String}
    (hs : canonicalJson (.arr [asset, i]) = .ok s) (ht : canonicalJson (.arr [asset, j]) = .ok t)
    (h : digits core s = digits core t) :
    i.Strict maxDepth ∧ j.Strict maxDepth ∧ canonicalText i = canonicalText j := by
  have heq := hfree i hi j hj s t hs ht h
  obtain ⟨hstrict, -, rfl⟩ := canonicalJson_eq_ok_iff.mp hs
  obtain ⟨hstrict', -, rfl⟩ := canonicalJson_eq_ok_iff.mp ht
  refine ⟨hstrict.2 i (by simp), hstrict'.2 j (by simp), ?_⟩
  exact canonicalText_eq_of_pair (String.ofList_injective heq)

end Digits

/-- A reference to be: a meaning of a link. -/
structure Arrow where
  source : Ref
  target : Ref
  meaning : Option String × Bool
  deriving DecidableEq

/-- The identity of a reference. -/
def Arrow.identity (a : Arrow) : Json :=
  .arr ([a.source.json, a.target.json, .bool a.meaning.2] ++ a.meaning.1.toList.map Value.str)

theorem Arrow.distinctKeys_identity (a : Arrow) : a.identity.DistinctKeys := by
  rw [identity, distinctKeys_arr]
  intro v hv
  simp only [List.cons_append, List.nil_append, List.mem_cons, List.mem_map] at hv
  rcases hv with rfl | rfl | rfl | ⟨name, -, rfl⟩
  · exact a.source.distinctKeys_json
  · exact a.target.distinctKeys_json
  · trivial
  · trivial

/-- References whose identities have one canonical text are one reference. -/
theorem Arrow.eq_of_canonicalText {levels : ℕ} {a b : Arrow} (ha : a.identity.Strict levels)
    (hb : b.identity.Strict levels) (h : canonicalText a.identity = canonicalText b.identity) :
    a = b := by
  have hdeep := canonicalText_injective ha hb a.distinctKeys_identity b.distinctKeys_identity h
  simp only [DeepEqual, identity, mapNum_arr, sorted_arr, List.cons_append, List.nil_append,
    List.map_cons, Value.arr.injEq, List.cons.injEq] at hdeep
  obtain ⟨hsource, htarget, hstrength, hroles⟩ := hdeep
  have hbool : a.meaning.2 = b.meaning.2 := Value.bool.inj hstrength
  have hrole : a.meaning.1 = b.meaning.1 := by
    cases hma : a.meaning.1 with
    | none =>
      cases hmb : b.meaning.1 with
      | none => rfl
      | some t => simp [hma, hmb] at hroles
    | some s =>
      cases hmb : b.meaning.1 with
      | none => simp [hma, hmb] at hroles
      | some t =>
        rw [hma, hmb] at hroles
        exact congrArg some (Value.str.inj (List.cons.inj hroles).1)
  obtain ⟨source, target, role, strength⟩ := a
  obtain ⟨source', target', role', strength'⟩ := b
  obtain rfl : source = source' := Ref.eq_of_deepEqual hsource
  obtain rfl : target = target' := Ref.eq_of_deepEqual htarget
  obtain rfl : strength = strength' := hbool
  obtain rfl : role = role' := hrole
  rfl

section Roles

/-- The roles of nodes. -/
def nodeRoles : List String :=
  ["emission_list_contract", "asset_declaration", "result_contract", "method_component",
    "method_unit", "method_plan", "method_instance", "conditional_policy", "branch"] ++
    Kind.all.map Kind.text

theorem role_mem_nodeRoles (r : Record) : role r ∈ nodeRoles := by
  have htext : r.target.kind.text ∈ nodeRoles :=
    List.mem_append_right _ (List.mem_map_of_mem (Kind.mem_all _))
  rw [role]
  split
  · decide
  · split <;> first | exact htext | decide

/-- Neither a role nor the name of the references holds a colon. -/
theorem colon_not_mem {name : String} (h : name ∈ "reference" :: nodeRoles) : ':' ∉ name.toList := by
  have hall : ∀ name ∈ "reference" :: nodeRoles, ':' ∉ name.toList := by decide
  exact hall name h

/-- An id tells its role and its digits. -/
theorem split_id {name name' s t : String} (hname : ':' ∉ name.toList) (hname' : ':' ∉ name'.toList)
    (h : name ++ ":" ++ s = name' ++ ":" ++ t) : name = name' ∧ s = t := by
  have hlist : name.toList ++ ':' :: s.toList = name'.toList ++ ':' :: t.toList := by
    simpa using congrArg String.toList h
  obtain ⟨hl, hm⟩ := append_cons_inj hname hname' hlist
  exact ⟨String.toList_injective hl, String.toList_injective hm⟩

end Roles

end Kdna.Ir

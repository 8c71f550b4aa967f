import Mathlib.Data.List.Induction
import Mathlib.Data.List.Nodup

/-!
# Maps in the order of insertion

A list of pairs without repeated keys is a map that remembers the order in which its keys
were added. An update changes the value of a key in place, or adds the key at the end.
-/

namespace Kdna

variable {κ α : Type} [DecidableEq κ]

/-- `map.set(key, f(map.get(key)))` -/
def upsert (key : κ) (f : Option α → α) : List (κ × α) → List (κ × α)
  | [] => [(key, f none)]
  | (k, a) :: rest => if k = key then (k, f (some a)) :: rest else (k, a) :: upsert key f rest

/-- `map.get(key)` -/
def getKey (key : κ) : List (κ × α) → Option α
  | [] => none
  | (k, a) :: rest => if k = key then some a else getKey key rest

variable {key k : κ} {f : Option α → α} {entries : List (κ × α)} {a : α}

theorem mem_of_getKey (h : getKey key entries = some a) : (key, a) ∈ entries := by
  induction entries with
  | nil => exact nomatch h
  | cons entry rest ih =>
    obtain ⟨k, b⟩ := entry
    rw [getKey] at h
    split_ifs at h with hk
    · cases h
      rw [hk]
      exact List.mem_cons_self
    · exact .tail _ (ih h)

/-- A key that a map lists is found. -/
theorem getKey_ne_none (h : key ∈ entries.map Prod.fst) : getKey key entries ≠ none := by
  induction entries with
  | nil => exact absurd h List.not_mem_nil
  | cons entry rest ih =>
    obtain ⟨k, b⟩ := entry
    rw [getKey]
    split_ifs with hk
    · exact Option.some_ne_none b
    · exact ih ((List.mem_cons.mp h).resolve_left fun heq => hk heq.symm)

/-- A map without repeated keys holds what it returns. -/
theorem getKey_eq_some_iff (hnodup : (entries.map Prod.fst).Nodup) :
    getKey key entries = some a ↔ (key, a) ∈ entries := by
  refine ⟨mem_of_getKey, fun hmem => ?_⟩
  induction entries with
  | nil => exact absurd hmem List.not_mem_nil
  | cons entry rest ih =>
    obtain ⟨k, b⟩ := entry
    rw [List.map_cons, List.nodup_cons] at hnodup
    rw [getKey]
    rcases List.mem_cons.mp hmem with heq | htail
    · cases heq
      rw [if_pos rfl]
    · have hne : k ≠ key := by
        rintro rfl
        exact hnodup.1 (List.mem_map.mpr ⟨_, htail, rfl⟩)
      rw [if_neg hne]
      exact ih hnodup.2 htail

/-- What a map holds behind an update. -/
theorem getKey_upsert : getKey k (upsert key f entries) =
    if k = key then some (f (getKey key entries)) else getKey k entries := by
  induction entries with
  | nil => simp [upsert, getKey, eq_comm]
  | cons entry rest ih =>
    obtain ⟨l, b⟩ := entry
    by_cases hl : l = key
    · subst hl
      by_cases hk : l = k
      · simp [upsert, getKey, hk]
      · simp [upsert, getKey, hk, Ne.symm hk]
    · by_cases hk : l = k
      · subst hk
        simp [upsert, getKey, hl]
      · simp [upsert, getKey, hl, hk, ih]

/-- A map without repeated keys that keeps some of its entries. -/
theorem getKey_filter (hnodup : (entries.map Prod.fst).Nodup) (p : κ × α → Bool) :
    getKey k (entries.filter p) = (getKey k entries).filter fun a => p (k, a) := by
  induction entries with
  | nil => rfl
  | cons entry rest ih =>
    obtain ⟨l, b⟩ := entry
    rw [List.map_cons, List.nodup_cons] at hnodup
    have hrest := ih hnodup.2
    by_cases hl : l = k
    · subst hl
      have hnone : getKey l rest = none := by
        by_contra hne
        obtain ⟨a, ha⟩ := Option.ne_none_iff_exists'.mp hne
        exact hnodup.1 (List.mem_map.mpr ⟨_, mem_of_getKey ha, rfl⟩)
      rw [hnone] at hrest
      by_cases hp : p (l, b) = true
      · rw [List.filter_cons_of_pos hp, getKey, getKey, if_pos rfl, if_pos rfl, Option.filter_some,
          if_pos hp]
      · rw [List.filter_cons_of_neg hp, hrest, getKey, if_pos rfl, Option.filter_some, if_neg hp]
        rfl
    · by_cases hp : p (l, b) = true
      · rw [List.filter_cons_of_pos hp, getKey, getKey, if_neg hl, if_neg hl, hrest]
      · rw [List.filter_cons_of_neg hp, getKey, if_neg hl, hrest]

/-- An update changes no other key. -/
theorem mem_upsert_of_ne (hne : k ≠ key) : (k, a) ∈ upsert key f entries ↔ (k, a) ∈ entries := by
  induction entries with
  | nil => simp [upsert, hne]
  | cons entry rest ih =>
    obtain ⟨l, b⟩ := entry
    rw [upsert]
    split_ifs with hl
    · simp [hl, hne]
    · rw [List.mem_cons, List.mem_cons, ih]

/-- Behind an update the key has the new value. -/
theorem mem_upsert_self (hnodup : (entries.map Prod.fst).Nodup) :
    (key, a) ∈ upsert key f entries ↔ a = f (getKey key entries) := by
  induction entries with
  | nil => simp [upsert, getKey]
  | cons entry rest ih =>
    obtain ⟨k, b⟩ := entry
    rw [List.map_cons, List.nodup_cons] at hnodup
    rw [upsert, getKey]
    split_ifs with hk
    · have hnot : (key, a) ∉ rest := by
        intro hmem
        exact hnodup.1 (List.mem_map.mpr ⟨_, hmem, hk.symm⟩)
      simp [hk, hnot]
    · rw [List.mem_cons, ih hnodup.2]
      exact or_iff_right fun heq => hk (Prod.mk.inj heq).1.symm

theorem mem_keys_upsert :
    k ∈ (upsert key f entries).map Prod.fst ↔ k = key ∨ k ∈ entries.map Prod.fst := by
  induction entries with
  | nil => simp [upsert]
  | cons entry rest ih =>
    obtain ⟨l, b⟩ := entry
    rw [upsert]
    split_ifs with hl
    · simp [hl]
    · rw [List.map_cons, List.mem_cons, ih, List.map_cons, List.mem_cons, or_left_comm]

/-- An update repeats no key. -/
theorem nodup_upsert (hnodup : (entries.map Prod.fst).Nodup) :
    ((upsert key f entries).map Prod.fst).Nodup := by
  induction entries with
  | nil => exact List.nodup_singleton _
  | cons entry rest ih =>
    obtain ⟨k, b⟩ := entry
    rw [List.map_cons, List.nodup_cons] at hnodup
    rw [upsert]
    split_ifs with hk
    · exact List.nodup_cons.mpr hnodup
    · refine List.nodup_cons.mpr ⟨fun hmem => ?_, ih hnodup.2⟩
      rcases mem_keys_upsert.mp hmem with heq | hold
      · exact hk heq
      · exact hnodup.1 hold

/-- An update behind entries with other keys. -/
theorem upsert_append {rest : List (κ × α)} (h : key ∉ entries.map Prod.fst) :
    upsert key f (entries ++ rest) = entries ++ upsert key f rest := by
  induction entries with
  | nil => rfl
  | cons entry entries ih =>
    obtain ⟨k, b⟩ := entry
    rw [List.map_cons, List.mem_cons, not_or] at h
    rw [List.cons_append, upsert, if_neg (Ne.symm h.1), ih h.2]
    rfl

section SetAll

variable {β : Type} {set : β → Option (κ × α)} {elements : List β}

/-- The map that the elements of a list set, one after the other. -/
def setAll (set : β → Option (κ × α)) (elements : List β) : List (κ × α) :=
  elements.foldl (fun entries b => match set b with
    | some (key, a) => upsert key (fun _ => a) entries
    | none => entries) []

omit [DecidableEq κ] in
/-- A list with one more element, split at an element: at the last one or before it. -/
theorem concat_eq_append_cons {front back : List β} {b last : β} :
    elements ++ [last] = front ++ b :: back ↔
      elements = front ∧ last = b ∧ back = [] ∨
        ∃ back', back = back' ++ [last] ∧ elements = front ++ b :: back' := by
  constructor
  · intro hsplit
    rcases List.eq_nil_or_concat back with rfl | ⟨back, c, rfl⟩
    · obtain ⟨hfront, hlast⟩ := List.append_inj' hsplit rfl
      exact .inl ⟨hfront, (List.cons.inj hlast).1, rfl⟩
    · rw [List.concat_eq_append] at hsplit ⊢
      rw [← List.cons_append, ← List.append_assoc] at hsplit
      obtain ⟨hfront, hlast⟩ := List.append_inj' hsplit rfl
      obtain ⟨rfl, -⟩ := List.cons.inj hlast
      exact .inr ⟨back, rfl, hfront⟩
  · rintro (⟨rfl, rfl, rfl⟩ | ⟨back', rfl, rfl⟩)
    · rfl
    · rw [List.append_assoc, List.cons_append]

/-- A key has the value of the last element that sets it. -/
theorem getKey_setAll : getKey key (setAll set elements) = some a ↔
    ∃ front b back, elements = front ++ b :: back ∧ set b = some (key, a) ∧
      ∀ c ∈ back, ∀ v, set c ≠ some (key, v) := by
  induction elements using List.reverseRecOn with
  | nil => exact iff_of_false nofun (by simp)
  | append_singleton elements last ih =>
    have hlater (hnot : ∀ v, set last ≠ some (key, v)) : getKey key (setAll set elements) = some a ↔
        ∃ front b back, elements ++ [last] = front ++ b :: back ∧ set b = some (key, a) ∧
          ∀ c ∈ back, ∀ v, set c ≠ some (key, v) := by
      rw [ih]
      constructor
      · rintro ⟨front, b, back, rfl, hb, hback⟩
        refine ⟨front, b, back ++ [last], concat_eq_append_cons.mpr (.inr ⟨back, rfl, rfl⟩), hb, ?_⟩
        intro c hc
        rcases List.mem_append.mp hc with hc | hc
        · exact hback c hc
        · rw [List.mem_singleton.mp hc]
          exact hnot
      · rintro ⟨front, b, back, hsplit, hb, hback⟩
        rcases concat_eq_append_cons.mp hsplit with ⟨-, rfl, -⟩ | ⟨back', rfl, hfront⟩
        · exact absurd hb (hnot a)
        · exact ⟨front, b, back', hfront, hb, fun c hc => hback c (List.mem_append_left _ hc)⟩
    rw [setAll, List.foldl_append, List.foldl_cons, List.foldl_nil]
    change getKey key (match set last with
      | some (k, v) => upsert k (fun _ => v) (setAll set elements)
      | none => setAll set elements) = some a ↔ _
    match hset : set last with
    | none => exact hlater fun v => by rw [hset]; exact nofun
    | some (k, v) =>
      dsimp only
      rw [getKey_upsert]
      by_cases hkey : key = k
      · subst hkey
        rw [if_pos rfl]
        constructor
        · rintro ⟨⟩
          exact ⟨elements, last, [], rfl, hset, List.forall_mem_nil _⟩
        · rintro ⟨front, b, back, hsplit, hb, hback⟩
          rcases concat_eq_append_cons.mp hsplit with ⟨-, rfl, -⟩ | ⟨back', rfl, -⟩
          · rw [hset] at hb
            rw [(Prod.mk.inj (Option.some.inj hb)).2]
          · exact absurd hset (hback _ (List.mem_append_right _ (List.mem_singleton_self _)) v)
      · rw [if_neg hkey]
        refine hlater fun w hw => hkey ?_
        rw [hset] at hw
        exact (Prod.mk.inj (Option.some.inj hw)).1.symm

end SetAll

end Kdna

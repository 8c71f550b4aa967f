import Kdna.Catalog.Lifecycle
import Kdna.Catalog.ParentClosure

/-!
# When replacements are cyclic

The rule reports a cycle exactly where the graph of local replacements has one, if only the last
entry of an identifier counts. Over unique identifiers this is the graph of the catalog, in any
order of its entries.
-/

namespace Kdna.Lifecycle

variable {payload j : Json} {a b base : String} {i : ℕ}

/-- A replacement is a local one, by the judgment `b` of the catalog. -/
def IsLocal (payload t : Json) (b : String) : Prop :=
  ∃ identity, targetOf t = some (identity, b) ∧ assetOf payload = some identity ∧
    ∃ k ∈ judgmentsOf payload, entryId k = some b

/-- The replacements of an entry with a lifecycle of the closed form. -/
def targetsOf (j : Json) : Option (List Json) :=
  ((j.prop "lifecycle").bind closedLifecycle).map Prod.snd

/-- An entry has a local replacement by the judgment `b`. -/
def HasReplacement (payload j : Json) (b : String) : Prop :=
  ∃ targets ∈ targetsOf j, ∃ t ∈ targets, IsLocal payload t b

/-- The graph of the local replacements among the judgments of a catalog. -/
def Replaces (payload : Json) (a b : String) : Prop :=
  ∃ j ∈ judgmentsOf payload, entryId j = some a ∧ HasReplacement payload j b

/-- The graph in which only the last entry of an identifier counts. -/
def LastReplaces (payload : Json) (a b : String) : Prop :=
  ∃ front j back, judgmentsOf payload = front ++ j :: back ∧ entryId j = some a ∧
    HasReplacement payload j b ∧ ∀ k ∈ back, entryId k = some a → targetsOf k = none

section Reading

theorem isDeclared_iff {judgments : List Json} :
    isDeclared judgments b = true ↔ ∃ k ∈ judgments, entryId k = some b := by
  rw [isDeclared, List.any_eq_true]
  simp only [decide_eq_true_eq]

/-- A turn notes the judgment of a local replacement, and nothing else. -/
theorem mem_here_readTarget {s : Reading} {t : Json × ℕ} :
    b ∈ (readTarget payload base j s t).here ↔ b ∈ s.here ∨ IsLocal payload t.1 b := by
  unfold readTarget IsLocal
  dsimp only
  split
  · next hnone =>
    rw [hnone]
    simp
  · next identity id htarget =>
    rw [htarget]
    split
    · next hasset =>
      split
      · next hdeclared =>
        rw [List.mem_append, List.mem_singleton]
        refine or_congr_right ⟨?_, ?_⟩
        · rintro rfl
          exact ⟨identity, rfl, hasset, isDeclared_iff.mp hdeclared⟩
        · rintro ⟨_, heq, -⟩
          exact (Prod.mk.inj (Option.some.inj heq)).2.symm
      · next hdeclared =>
        refine (or_iff_left ?_).symm
        rintro ⟨_, heq, -, hmem⟩
        rw [(Prod.mk.inj (Option.some.inj heq)).2] at hdeclared
        exact hdeclared (isDeclared_iff.mpr hmem)
    · next hasset =>
      refine (or_iff_left ?_).symm
      rintro ⟨_, heq, hsame, -⟩
      rw [← (Prod.mk.inj (Option.some.inj heq)).1] at hsame
      exact hasset hsame

/-- The loop notes the judgments of the local replacements. -/
theorem mem_here_foldl {targets : List (Json × ℕ)} {s : Reading} :
    b ∈ (targets.foldl (readTarget payload base j) s).here ↔
      b ∈ s.here ∨ ∃ t ∈ targets, IsLocal payload t.1 b := by
  induction targets generalizing s with
  | nil => simp
  | cons t targets ih =>
    rw [List.foldl_cons, ih, mem_here_readTarget, or_assoc]
    simp only [List.mem_cons, exists_eq_or_imp]

/-- A violation with another message reports no cycle. -/
theorem cyclic_not_mem {path message : String} (h : message ≠ cyclicReplacements.message) :
    cyclicReplacements ∉ [(⟨path, message⟩ : Violation)] := by
  intro hmem
  exact h (congrArg Violation.message (List.mem_singleton.mp hmem)).symm

theorem cyclic_not_mem_ite {p : Prop} [Decidable p] {path message : String}
    (h : message ≠ cyclicReplacements.message) :
    cyclicReplacements ∉ if p then [(⟨path, message⟩ : Violation)] else [] := by
  split
  · exact cyclic_not_mem h
  · exact List.not_mem_nil

/-- A turn adds no violation that reports a cycle. -/
theorem out_readTarget {s : Reading} {t : Json × ℕ} (hs : cyclicReplacements ∉ s.out) :
    cyclicReplacements ∉ (readTarget payload base j s t).out := by
  unfold readTarget
  dsimp only
  split
  · exact List.not_mem_append hs (cyclic_not_mem (by decide))
  · split
    · split
      · exact List.not_mem_append (List.not_mem_append hs (cyclic_not_mem_ite (by decide))) (cyclic_not_mem_ite (by decide))
      · exact List.not_mem_append (List.not_mem_append (List.not_mem_append hs (cyclic_not_mem_ite (by decide)))
          (cyclic_not_mem_ite (by decide))) (cyclic_not_mem (by decide))
    · exact List.not_mem_append hs (cyclic_not_mem_ite (by decide))

theorem out_foldl {targets : List (Json × ℕ)} {s : Reading} (hs : cyclicReplacements ∉ s.out) :
    cyclicReplacements ∉ (targets.foldl (readTarget payload base j) s).out := by
  induction targets generalizing s with
  | nil => exact hs
  | cons t targets ih => exact ih (out_readTarget hs)

/-- The first pass reports no cycle. -/
theorem out_readLifecycle : cyclicReplacements ∉ (readLifecycle payload i j).1 := by
  unfold readLifecycle
  dsimp only
  split
  · exact List.not_mem_nil
  · split
    · exact cyclic_not_mem (by decide)
    · apply out_foldl
      exact List.not_mem_append (cyclic_not_mem_ite (by decide)) (cyclic_not_mem_ite (by decide))

variable (payload j i) in
/-- What the first pass notes of an entry. -/
theorem readLifecycle_snd : (readLifecycle payload i j).2 = none ∧ targetsOf j = none ∨
    ∃ here, (readLifecycle payload i j).2 = some (idKey i j, here) ∧ targetsOf j ≠ none ∧
      ∀ b, b ∈ here ↔ HasReplacement payload j b := by
  unfold readLifecycle HasReplacement targetsOf
  dsimp only
  match hlifecycle : j.prop "lifecycle" with
  | none => exact .inl ⟨rfl, rfl⟩
  | some lifecycle =>
    dsimp only [Option.bind_some]
    match hclosed : closedLifecycle lifecycle with
    | none => exact .inl ⟨rfl, rfl⟩
    | some (status, targets) =>
      refine .inr ⟨_, rfl, nofun, fun b => ?_⟩
      rw [mem_here_foldl]
      simp only [List.not_mem_nil, false_or, Option.map_some, Option.mem_def, Option.some.injEq,
        exists_eq_left']
      constructor
      · rintro ⟨t, ht, hlocal⟩
        exact ⟨t.1, List.fst_mem_of_mem_zipIdx ht, hlocal⟩
      · rintro ⟨t, ht, hlocal⟩
        obtain ⟨n, hn, rfl⟩ := List.mem_iff_getElem.mp ht
        exact ⟨(_, n), List.mk_mem_zipIdx_iff_getElem?.mpr (List.getElem?_eq_getElem hn), hlocal⟩

end Reading

section Graph

theorem idKey_eq_text_iff : idKey i j = .text a ↔ entryId j = some a := by
  unfold idKey entryId
  match hid : j.prop "id" with
  | none => simp
  | some (.str id) => simp [Value.text?]
  | some .null => simp [Value.text?]
  | some (.bool b) => simp [Value.text?]
  | some (.num x) => simp [Value.text?]
  | some (.arr items) => simp [Value.text?]
  | some (.obj props) => simp [Value.text?]

/-- What an entry sets as the replacements of an identifier. -/
theorem set_spec {here : List String} (h : (readLifecycle payload i j).2 = some (.text a, here)) :
    entryId j = some a ∧ ∀ b, b ∈ here ↔ HasReplacement payload j b := by
  rcases readLifecycle_snd payload j i with
    ⟨hnone, -⟩ | ⟨_, hsome, -, hhere⟩
  · rw [hnone] at h
    cases h
  · rw [hsome] at h
    obtain ⟨hkey, rfl⟩ := Prod.mk.inj (Option.some.inj h)
    exact ⟨idKey_eq_text_iff.mp hkey, hhere⟩

variable (payload i) in
/-- An entry with a lifecycle of the closed form sets its identifier. -/
theorem exists_set (hid : entryId j = some a) (h : targetsOf j ≠ none) :
    ∃ here, (readLifecycle payload i j).2 = some (.text a, here) := by
  rcases readLifecycle_snd payload j i with
    ⟨-, hnone⟩ | ⟨here, hsome, -⟩
  · exact absurd hnone h
  · exact ⟨here, (idKey_eq_text_iff (i := i)).mpr hid ▸ hsome⟩

theorem HasReplacement.targets_ne_none (h : HasReplacement payload j b) : targetsOf j ≠ none := by
  obtain ⟨targets, htargets, -⟩ := h
  rw [Option.mem_def.mp htargets]
  exact Option.some_ne_none targets

/-- The noted replacements of an identifier are those of its last entry. -/
theorem mem_getKey_edges :
    b ∈ (getKey (.text a) (edges payload)).getD [] ↔ LastReplaces payload a b := by
  constructor
  · intro hb
    match hkey : getKey (.text a) (edges payload) with
    | none =>
      rw [hkey] at hb
      exact absurd hb List.not_mem_nil
    | some here =>
      rw [hkey, Option.getD_some] at hb
      obtain ⟨front, p, back, hsplit, hset, hback⟩ := getKey_setAll.mp hkey
      obtain ⟨hid, hhere⟩ := set_spec hset
      refine ⟨front.map Prod.fst, p.1, back.map Prod.fst, ?_, hid, (hhere b).mp hb, ?_⟩
      · rw [← List.zipIdx_map_fst 0 (judgmentsOf payload), hsplit, List.map_append, List.map_cons]
      · intro k hk hka
        obtain ⟨c, hc, rfl⟩ := List.mem_map.mp hk
        by_contra hne
        obtain ⟨v, hv⟩ := exists_set payload c.2 hka hne
        exact hback c hc v hv
  · rintro ⟨front, j, back, hsplit, hid, hreplacement, hback⟩
    obtain ⟨here, hset⟩ := exists_set payload front.length hid
      hreplacement.targets_ne_none
    have hkey : getKey (.text a) (edges payload) = some here := by
      apply getKey_setAll.mpr
      refine ⟨front.zipIdx, (j, front.length), back.zipIdx (front.length + 1), ?_, hset, ?_⟩
      · rw [hsplit, List.zipIdx_append, List.zipIdx_cons, Nat.zero_add]
      · intro c hc v hv
        obtain ⟨hca, -⟩ := set_spec hv
        have hnone := hback c.1 (List.fst_mem_of_mem_zipIdx hc) hca
        rcases readLifecycle_snd payload c.1 c.2 with
          ⟨hunset, -⟩ | ⟨_, -, hne, -⟩
        · rw [hunset] at hv
          cases hv
        · exact hne hnone
    rw [hkey]
    exact ((set_spec hset).2 b).mpr hreplacement

/-- The graph that is searched. -/
theorem mem_replacements {key : IdKey} :
    key ∈ replacements payload (.text a) ↔ ∃ b, LastReplaces payload a b ∧ .text b = key := by
  rw [replacements, List.mem_map]
  simp only [mem_getKey_edges]

/-- A cycle of the search is one of identifiers. -/
theorem cyclic_iff : (∃ key, Relation.TransGen (Follows (replacements payload)) key key) ↔
    ∃ a, Relation.TransGen (LastReplaces payload) a a := by
  constructor
  · rintro ⟨key, hkey⟩
    have hpath {k l : IdKey} (h : Relation.TransGen (Follows (replacements payload)) k l)
        (hl : ∃ a, l = .text a) :
        ∃ a b, k = .text b ∧ l = .text a ∧ Relation.TransGen (LastReplaces payload) a b := by
      obtain ⟨a, rfl⟩ := hl
      induction h using Relation.TransGen.head_induction_on with
      | single hstep =>
        obtain ⟨b, hb, rfl⟩ := mem_replacements.mp hstep
        exact ⟨a, b, rfl, rfl, .single hb⟩
      | head hstep _ ih =>
        obtain ⟨a', c, rfl, ha', hac⟩ := ih
        obtain ⟨b, hb, rfl⟩ := mem_replacements.mp hstep
        exact ⟨a', b, rfl, ha', hac.tail hb⟩
    have htext : ∃ a, key = .text a := by
      obtain ⟨c, hc, -⟩ := Relation.TransGen.head'_iff.mp hkey
      obtain ⟨a, -, ha⟩ := List.mem_map.mp hc
      exact ⟨a, ha.symm⟩
    obtain ⟨a, b, hkb, hka, hcycle⟩ := hpath hkey htext
    obtain rfl := IdKey.text.inj (hka.symm.trans hkb)
    exact ⟨a, hcycle⟩
  · rintro ⟨a, ha⟩
    have hpath {b : String} (h : Relation.TransGen (LastReplaces payload) a b) :
        Relation.TransGen (Follows (replacements payload)) (.text b) (.text a) := by
      induction h with
      | single hstep => exact .single (mem_replacements.mpr ⟨_, hstep, rfl⟩)
      | tail _ hstep ih => exact .head (mem_replacements.mpr ⟨_, hstep, rfl⟩) ih
    exact ⟨.text a, hpath ha⟩

/-- Over unique identifiers, the last entry of an identifier is its only one. -/
theorem lastReplaces_iff (hunique : UniqueIds (judgmentsOf payload)) :
    LastReplaces payload a b ↔ Replaces payload a b := by
  constructor
  · rintro ⟨front, j, back, hsplit, hid, hreplacement, -⟩
    exact ⟨j, hsplit ▸ List.mem_append_right _ List.mem_cons_self, hid, hreplacement⟩
  · rintro ⟨j, hj, hid, hreplacement⟩
    obtain ⟨front, back, hsplit⟩ := List.append_of_mem hj
    refine ⟨front, j, back, hsplit, hid, hreplacement, fun k hk hka => ?_⟩
    rw [UniqueIds, hsplit, List.filterMap_append, List.filterMap_cons_some hid] at hunique
    have hnodup := List.nodup_cons.mp hunique.of_append_right
    exact absurd (List.mem_filterMap.mpr ⟨k, hk, hka⟩) hnodup.1

/-- The graph does not depend on the order of the entries. -/
theorem replaces_perm {payload' : Json} (hasset : payload'.prop "asset" = payload.prop "asset")
    (hperm : (judgmentsOf payload').Perm (judgmentsOf payload)) :
    Replaces payload' a b ↔ Replaces payload a b := by
  have hmem (j : Json) : j ∈ judgmentsOf payload' ↔ j ∈ judgmentsOf payload := hperm.mem_iff
  simp only [Replaces, HasReplacement, IsLocal, assetOf, hasset, hmem]

end Graph

/-- With enough turns the rule ends, and it reports a cycle exactly where `cyclic` holds. -/
def Verdict (payload : Json) (cyclic : Prop) : Prop :=
  ∃ turns, ∀ fuel, turns ≤ fuel → ∃ out, ruleLifecycle fuel payload = some out ∧
    (cyclicReplacements ∈ out ↔ cyclic)

/-- The rule reports a cycle exactly where the graph that it notes has one. -/
theorem verdict_last (payload : Json) :
    Verdict payload (∃ a, Relation.TransGen (LastReplaces payload) a a) := by
  have hnodes : ∀ key, replacements payload key ≠ [] → key ∈ (edges payload).map Prod.fst := by
    intro key hne
    match hkey : getKey key (edges payload) with
    | none =>
      rw [replacements, hkey] at hne
      exact absurd rfl hne
    | some here => exact List.mem_map_of_mem (f := Prod.fst) (mem_of_getKey hkey)
  obtain ⟨turns, hturns⟩ := findsCycle_iff hnodes
  refine ⟨turns, fun fuel hfuel => ?_⟩
  obtain ⟨found, hfound, hcycle⟩ := hturns fuel hfuel
  refine ⟨_, by rw [ruleLifecycle, hfound]; rfl, ?_⟩
  rw [List.mem_append, ← cyclic_iff, ← hcycle]
  refine (or_iff_right fun hmem => ?_).trans ?_
  · obtain ⟨p, -, hp⟩ := List.mem_flatMap.mp hmem
    exact out_readLifecycle hp
  · cases found <;> simp

/-- The rule ends on every catalog. It reports a cycle exactly where the local replacements have
one, if only the last entry of an identifier counts; and over unique identifiers exactly where the
local replacements of the catalog have one, in any order of its entries. -/
theorem ruleLifecycle_exact (payload : Json) :
    Verdict payload (∃ a, Relation.TransGen (LastReplaces payload) a a) ∧
    (UniqueIds (judgmentsOf payload) → ∀ payload' : Json,
      payload'.prop "asset" = payload.prop "asset" →
      (judgmentsOf payload').Perm (judgmentsOf payload) →
      Verdict payload' (∃ a, Relation.TransGen (Replaces payload) a a)) := by
  refine ⟨verdict_last payload, fun hunique payload' hasset hperm => ?_⟩
  have hunique' : UniqueIds (judgmentsOf payload') := (hperm.filterMap entryId).nodup_iff.mpr hunique
  have hgraph : LastReplaces payload' = Replaces payload := by
    funext a b
    exact propext ((lastReplaces_iff hunique').trans (replaces_perm hasset hperm))
  exact hgraph ▸ verdict_last payload'

section Samples

/-- The asset of the sample catalogs. -/
def sampleAsset : Json :=
  .obj [("asset_id", .str "k"), ("asset_version", .str "1"), ("judgment_version", .str "1")]

/-- A local replacement. -/
def localTarget (b : String) : Json := .obj [("asset", sampleAsset), ("judgment_id", .str b)]

/-- An entry with its local replacements. -/
def replacedBy (id status : String) (ids : List String) : Json :=
  .obj [("id", .str id), ("lifecycle", .obj [("status", .str status),
    ("superseded_by", .arr (ids.map localTarget))])]

/-- A catalog of some entries. -/
def catalogOf (entries : List Json) : Json :=
  .obj [("asset", sampleAsset), ("judgments", .arr entries)]

/-- A local replacement of an entry of a sample catalog. -/
theorem replaces_sample {entries : List Json} {id status : String} {ids : List String}
    (hj : replacedBy id status ids ∈ entries)
    (hstatus : status ∈ ["active", "deprecated", "superseded", "withdrawn"]) (hb : b ∈ ids)
    (hne : b ≠ "") (hk : ∃ k ∈ entries, entryId k = some b) :
    Replaces (catalogOf entries) id b := by
  have hasset : coordinates.mapM (memberText? sampleAsset) = some ["k", "1", "1"] := by decide
  refine ⟨_, hj, rfl, ids.map localTarget, ?_, localTarget b, List.mem_map_of_mem hb,
    ["k", "1", "1"], ?_, hasset, hk⟩
  · change (closedLifecycle _).map Prod.snd = some _
    rw [closedLifecycle]
    exact congrArg (Option.map Prod.snd) (if_pos hstatus)
  · change (Option.filter (· ≠ "") (some b) >>= fun id => some (["k", "1", "1"], id)) = _
    rw [Option.filter_some, if_pos (decide_eq_true hne)]
    rfl

/-- With a repeated identifier, the rule misses a cycle of the catalog or reports it, as the entries
stand. -/
theorem repeated_identifier_by_order :
    (∃ a, Relation.TransGen (Replaces (catalogOf [replacedBy "a" "superseded" ["b"],
      replacedBy "a" "active" [], replacedBy "b" "superseded" ["a"]])) a a) ∧
    ruleLifecycle 20 (catalogOf [replacedBy "a" "superseded" ["b"], replacedBy "a" "active" [],
      replacedBy "b" "superseded" ["a"]]) = some [] ∧
    ruleLifecycle 20 (catalogOf [replacedBy "a" "active" [], replacedBy "a" "superseded" ["b"],
      replacedBy "b" "superseded" ["a"]]) = some [cyclicReplacements] := by
  refine ⟨⟨"a", .tail (b := "b") (.single ?_) ?_⟩, by decide, by decide⟩
  · apply replaces_sample (.head _) (by decide) (.head _) (by decide)
    exact ⟨_, .tail _ (.tail _ (.head _)), rfl⟩
  · apply replaces_sample (.tail _ (.tail _ (.head _))) (by decide) (.head _) (by decide)
    exact ⟨_, .head _, rfl⟩

theorem ruleLifecycle_exact_sample :
    UniqueIds (judgmentsOf (catalogOf [replacedBy "a" "superseded" ["a"]])) ∧
      Verdict (catalogOf [replacedBy "a" "superseded" ["a"]])
        (∃ a, Relation.TransGen (Replaces (catalogOf [replacedBy "a" "superseded" ["a"]])) a a) := by
  have hunique : UniqueIds (judgmentsOf (catalogOf [replacedBy "a" "superseded" ["a"]])) :=
    List.nodup_singleton "a"
  exact ⟨hunique, (ruleLifecycle_exact _).2 hunique _ rfl (.refl _)⟩

end Samples

end Kdna.Lifecycle

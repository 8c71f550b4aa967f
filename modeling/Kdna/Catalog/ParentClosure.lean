import Kdna.Catalog.Parents

/-!
# When the parents are closed

Over unique identifiers the rule finds nothing exactly when every `parent_ref` is an identifier of
an entry and every chain of parents ends. Neither depends on the order of the entries.
-/

namespace Kdna

/-- No two entries share an identifier. -/
def UniqueIds (judgments : List Json) : Prop := (judgments.filterMap entryId).Nodup

/-- An entry names a parent; `null` names none. -/
def NamesParent (j ref : Json) : Prop := j.prop "parent_ref" = some ref ∧ ref ≠ .null

/-- A `parent_ref` is a non-empty identifier of an entry. -/
def Resolves (judgments : List Json) (ref : Json) : Prop :=
  ∃ id, ref = .str id ∧ id ≠ "" ∧ ∃ j ∈ judgments, entryId j = some id

/-- The entry `a` names the identifier `b` as its parent. -/
def ParentIs (judgments : List Json) (a b : String) : Prop :=
  ∃ j ∈ judgments, entryId j = some a ∧ j.prop "parent_ref" = some (.str b) ∧ b ≠ ""

/-- The chain of parents from an identifier ends. -/
def ParentsEnd (judgments : List Json) (id : String) : Prop :=
  Acc (fun b a => ParentIs judgments a b) id

variable {judgments : List Json} {i : ℕ} {j ref : Json} {a b id : String}

/-- The chain from an identifier comes back and is reported, with the identifiers it passes. -/
def ReportsCycle (judgments : List Json) (out : List Violation) (id : String) : Prop :=
  ∃ start chain node, cycleViolation judgments start chain node ∈ out ∧ id ∈ chain ∧
    (chain ++ [node]).IsChain (ParentIs judgments) ∧ node ∈ chain

section Entries

theorem idCount_le_one (hunique : UniqueIds judgments) : idCount judgments id ≤ 1 := by
  have hcount : List.count id (judgments.filterMap entryId) ≤ 1 :=
    List.nodup_iff_count_le_one.mp hunique id
  rw [List.count_filterMap] at hcount
  simpa only [idCount, beq_iff_eq, beq_eq_decide] using hcount

/-- Entries that share an identifier are one. -/
theorem UniqueIds.eq_of_entryId (hunique : UniqueIds judgments) {k : Json} (hj : j ∈ judgments)
    (hk : k ∈ judgments) (hja : entryId j = some a) (hka : entryId k = some a) : j = k := by
  have hpairs := List.pairwise_filterMap.mp hunique
  have hall := (hpairs.imp (S := fun j k => entryId j = some a → entryId k = some a → j = k)
    fun h hj hk => absurd rfl (h a hj a hk)).forall_of_forall_of_flip (fun _ _ _ _ => rfl)
    (hpairs.imp fun h hk hj => absurd rfl (h a hj a hk))
  exact hall hj hk hja hka

theorem unresolved_eq_nil : unresolved judgments i a = [] ↔ ∃ j ∈ judgments, entryId j = some a := by
  rw [unresolved]
  split_ifs with h
  · simpa using h
  · simpa using h

theorem path_of_mem_unresolved {v : Violation} (hv : v ∈ unresolved judgments i a) :
    v.path = parentPath i := by
  rw [unresolved] at hv
  split_ifs at hv
  · exact absurd hv List.not_mem_nil
  · rw [List.mem_singleton.mp hv]

/-- What the second pass adds to `parentOf` at an entry. -/
theorem readParent_snd (hunique : UniqueIds judgments) :
    (readParent judgments i j).2 = some (a, b) ↔
      entryId j = some a ∧ j.prop "parent_ref" = some (.str b) ∧ b ≠ "" := by
  rw [readParent]
  cases href : j.prop "parent_ref" with
  | none => simp
  | some ref =>
    cases ref with
    | str raw =>
      by_cases hraw : raw = ""
      · simp +contextual [hraw]
      · cases hid : entryId j with
        | none => simp [hraw]
        | some id =>
          have hcount : ¬1 < idCount judgments id := not_lt.mpr (idCount_le_one hunique)
          by_cases hself : raw = id
          · subst hself
            simp only [hraw, hcount, if_false, if_true, Option.some.injEq, Prod.mk.injEq,
              Value.str.injEq]
            exact ⟨fun ⟨ha, hb⟩ => ⟨ha, hb, hb ▸ hraw⟩, fun ⟨ha, hb, _⟩ => ⟨ha, hb⟩⟩
          · simp only [hraw, hself, hcount, if_false, Option.some.injEq, Prod.mk.injEq,
              Value.str.injEq]
            exact ⟨fun ⟨ha, hb⟩ => ⟨ha, hb, hb ▸ hraw⟩, fun ⟨ha, hb, _⟩ => ⟨ha, hb⟩⟩
    | _ => simp

/-- What the second pass reports at an entry is at its `parent_ref`. -/
theorem path_of_mem_readParent {v : Violation} (hv : v ∈ (readParent judgments i j).1) :
    v.path = parentPath i := by
  rw [readParent] at hv
  cases href : j.prop "parent_ref" with
  | none => simp [href] at hv
  | some ref =>
    rw [href] at hv
    cases ref with
    | null => exact absurd hv List.not_mem_nil
    | str raw =>
      dsimp only at hv
      split_ifs at hv with hraw
      · rw [List.mem_singleton.mp hv]
      · cases hid : entryId j with
        | none => exact path_of_mem_unresolved (by simpa only [hid] using hv)
        | some id =>
          simp only [hid] at hv
          split_ifs at hv
          · rw [List.mem_singleton.mp hv]
          · rw [List.mem_singleton.mp hv]
          · exact path_of_mem_unresolved hv
    | _ => rw [List.mem_singleton.mp hv]

/-- The second pass reports nothing where the entry names no parent, or another entry. -/
theorem readParent_fst (hunique : UniqueIds judgments) :
    (readParent judgments i j).1 = [] ↔ ∀ ref, NamesParent j ref →
      Resolves judgments ref ∧ ∀ id, entryId j = some id → ref ≠ .str id := by
  rw [readParent]
  cases href : j.prop "parent_ref" with
  | none => simp [NamesParent, href]
  | some ref =>
    cases ref with
    | null => simp +contextual [NamesParent, href]
    | str raw =>
      by_cases hraw : raw = ""
      · simp [NamesParent, Resolves, href, hraw]
      · cases hid : entryId j with
        | none => simp [NamesParent, Resolves, href, hraw, unresolved_eq_nil]
        | some id =>
          have hcount : ¬1 < idCount judgments id := not_lt.mpr (idCount_le_one hunique)
          by_cases hself : raw = id
          · subst hself
            simp [NamesParent, href, hraw, hcount]
          · simp [NamesParent, Resolves, href, hself, hraw, hcount, unresolved_eq_nil]
    | _ => simp [NamesParent, Resolves, href]

/-- What `parentOf` holds. -/
theorem mem_parentOf (hunique : UniqueIds judgments) :
    (a, b) ∈ parentOf judgments ↔
      ParentIs judgments a b := by
  rw [parentOf, List.mem_filterMap]
  constructor
  · rintro ⟨found, hfound, hsnd⟩
    obtain ⟨i, hi, rfl⟩ := List.mem_mapIdx.mp hfound
    exact ⟨judgments[i], List.getElem_mem hi, (readParent_snd hunique).mp hsnd⟩
  · rintro ⟨j, hj, hparent⟩
    obtain ⟨i, hi, rfl⟩ := List.getElem_of_mem hj
    exact ⟨_, List.mem_mapIdx.mpr ⟨i, hi, rfl⟩, (readParent_snd hunique).mpr hparent⟩

/-- `parentOf.get(a)` is the parent that the entry `a` names. -/
theorem getKey_parentOf (hunique : UniqueIds judgments) :
    getKey a (parentOf judgments) = some b ↔ ParentIs judgments a b := by
  constructor
  · exact fun h => (mem_parentOf hunique).mp (mem_of_getKey h)
  · rintro ⟨j, hj, hid, href, hb⟩
    have hmem := (mem_parentOf hunique).mpr ⟨j, hj, hid, href, hb⟩
    obtain ⟨b', hb'⟩ := Option.ne_none_iff_exists'.mp (getKey_ne_none (List.mem_map_of_mem hmem))
    obtain ⟨k, hk, hkid, hkref, -⟩ := (mem_parentOf hunique).mp (mem_of_getKey hb')
    obtain rfl := hunique.eq_of_entryId hj hk hid hkid
    have hsame : b = b' := Value.str.inj (Option.some.inj (href.symm.trans hkref))
    rw [hb', hsame]

end Entries

section Cycles

variable {next : String → Option String} {fuel fuel' : ℕ} {starts settled : List String}
  {out : List Violation}

theorem reportCycles_of_walk {start : String} {chain : List String} {back : Option String}
    (hsettled : start ∉ settled) (hwalk : walk next fuel [] start = some (chain, back))
    (hlater : reportCycles judgments next fuel starts (settled ++ chain) = some out) :
    reportCycles judgments next fuel (start :: starts) settled = some (match back with
      | none => out
      | some node => cycleViolation judgments start chain node :: out) := by
  simp only [reportCycles, if_neg hsettled, hwalk, Option.bind_eq_bind, Option.bind_some, hlater]
  cases back <;> rfl

/-- The loop reports the chains of its starts that do not end, and no other. -/
theorem reportCycles_spec (starts settled : List String)
    (hnext : ∀ a b, next a = some b ↔ ParentIs judgments a b) (hstop : ∀ start, (walk next fuel [] start).isSome)
    (hstarts : ∀ start ∈ starts, next start ≠ none) :
    ∃ out, reportCycles judgments next fuel starts settled = some out ∧
      (∀ start ∈ starts, ¬ChainEnds next start →
        start ∈ settled ∨ ReportsCycle judgments out start) ∧
      (out ≠ [] → ∃ start, ¬ChainEnds next start) := by
  induction starts generalizing settled with
  | nil => exact ⟨[], rfl, fun _ hmem => absurd hmem List.not_mem_nil, fun h => absurd rfl h⟩
  | cons start starts ih =>
    obtain ⟨hstart, hrest⟩ := List.forall_mem_cons.mp hstarts
    by_cases hsettled : start ∈ settled
    · obtain ⟨out, hout, hreports, hfound⟩ := ih settled hrest
      refine ⟨out, by rw [reportCycles, if_pos hsettled, hout], ?_, hfound⟩
      exact List.forall_mem_cons.mpr ⟨fun _ => .inl hsettled, hreports⟩
    · obtain ⟨⟨chain, back⟩, hwalk⟩ := Option.isSome_iff_exists.mp (hstop start)
      obtain ⟨out, hout, hreports, hfound⟩ := ih (settled ++ chain) hrest
      have hmem := mem_of_walk hstart hwalk
      have hends := chainEnds_iff_of_walk (fun _ h => absurd h List.not_mem_nil)
        (fun _ h => absurd h List.not_mem_nil) hwalk
      cases back with
      | none =>
        refine ⟨out, reportCycles_of_walk hsettled hwalk hout, ?_, hfound⟩
        refine List.forall_mem_cons.mpr ⟨fun hno => absurd ((hends start hmem).mpr rfl) hno, ?_⟩
        intro id hid hno
        rcases hreports id hid hno with hin | hreport
        · refine .inl ((List.mem_append.mp hin).resolve_right fun hchain => ?_)
          exact hno ((hends id hchain).mpr rfl)
        · exact .inr hreport
      | some node =>
        have hcycle : ∀ id ∈ chain, ReportsCycle judgments
            (cycleViolation judgments start chain node :: out) id := by
          intro id hid
          obtain ⟨hchain, hnode⟩ := isChain_of_walk (List.isChain_singleton start) hwalk
          exact ⟨start, chain, node, List.mem_cons_self, hid,
            hchain.imp fun a b => (hnext a b).mp, hnode⟩
        refine ⟨_, reportCycles_of_walk hsettled hwalk hout, ?_, fun _ => ⟨start, fun h => ?_⟩⟩
        · refine List.forall_mem_cons.mpr ⟨fun _ => .inr (hcycle start hmem), ?_⟩
          intro id hid hno
          rcases hreports id hid hno with hin | ⟨first, links, target, hviolation, hrest⟩
          · exact (List.mem_append.mp hin).imp_right (hcycle id)
          · exact .inr ⟨first, links, target, .tail _ hviolation, hrest⟩
        · exact Option.some_ne_none node ((hends start hmem).mp h)

/-- More rounds change no report. -/
theorem reportCycles_mono (hle : fuel ≤ fuel')
    (h : reportCycles judgments next fuel starts settled = some out) :
    reportCycles judgments next fuel' starts settled = some out := by
  induction starts generalizing settled out with
  | nil => exact h
  | cons start starts ih =>
    rw [reportCycles] at h ⊢
    split_ifs at h ⊢ with hsettled
    · exact ih h
    · simp only [Option.bind_eq_bind, Option.bind_eq_some_iff, Prod.exists] at h ⊢
      obtain ⟨chain, back, hwalk, later, hlater, hreturn⟩ := h
      exact ⟨chain, back, walk_mono hle hwalk, later, ih hlater, hreturn⟩

end Cycles

/-- Over unique identifiers the rule always comes to an end. It reports nothing exactly when every
`parent_ref` that is given is a non-empty identifier of an entry and every chain of parents ends;
it reports each `parent_ref` that is not, at its place, and each identifier whose chain does not
end, with a chain that comes back. -/
theorem ruleParentClosure_exact (payload : Json) (hunique : UniqueIds (judgmentsOf payload)) :
    ∃ out, (∀ fuel, (judgmentsOf payload).length < fuel →
        ruleParentClosure fuel payload = some out) ∧
      (out = [] ↔ (∀ j ∈ judgmentsOf payload, ∀ ref, NamesParent j ref →
          Resolves (judgmentsOf payload) ref) ∧ ∀ id, ParentsEnd (judgmentsOf payload) id) ∧
      (∀ i j ref, (judgmentsOf payload)[i]? = some j → NamesParent j ref →
        ¬Resolves (judgmentsOf payload) ref → ∃ v ∈ out, v.path = parentPath i) ∧
      ∀ id, ¬ParentsEnd (judgmentsOf payload) id → ReportsCycle (judgmentsOf payload) out id := by
  generalize hjudgments : judgmentsOf payload = judgments at hunique
  have hnext : ∀ a b, getKey a (parentOf judgments) = some b ↔ ParentIs judgments a b :=
    fun a b => getKey_parentOf hunique
  have hends : ∀ id, ChainEnds (fun a => getKey a (parentOf judgments)) id ↔
      ParentsEnd judgments id := by
    intro id
    simp only [chainEnds_iff_acc, hnext, ParentsEnd]
  have hkeys : ∀ a, getKey a (parentOf judgments) ≠ none →
      a ∈ (parentOf judgments).map Prod.fst := by
    intro a ha
    obtain ⟨b, hb⟩ := Option.ne_none_iff_exists'.mp ha
    exact List.mem_map_of_mem (mem_of_getKey hb)
  have hbound : ((parentOf judgments).map Prod.fst).length ≤ judgments.length := by
    simpa only [parentOf, List.length_map, List.length_mapIdx] using
      List.length_filterMap_le Prod.snd (judgments.mapIdx (readParent judgments))
  have hstop : ∀ start, (walk (fun a => getKey a (parentOf judgments)) (judgments.length + 1) []
      start).isSome := fun start =>
    walk_isSome hkeys List.nodup_nil (List.nil_subset _) (by rw [List.length_nil]; omega)
  obtain ⟨cycles, hcycles, hreports, hfound⟩ := reportCycles_spec
    ((parentOf judgments).map Prod.fst) [] hnext hstop fun start hstart => getKey_ne_none hstart
  have hcyclic : ∀ id, ¬ParentsEnd judgments id → ReportsCycle judgments cycles id := by
    intro id hid
    have hlinked : getKey id (parentOf judgments) ≠ none :=
      fun hnone => hid ((hends id).mp (.stop hnone))
    exact (hreports id (hkeys id hlinked) fun h => hid ((hends id).mp h)).resolve_left
      List.not_mem_nil
  refine ⟨(judgments.mapIdx (readParent judgments)).flatMap Prod.fst ++ cycles, ?_, ?_, ?_, ?_⟩
  · intro fuel hfuel
    rw [ruleParentClosure, hjudgments, reportCycles_mono hfuel hcycles]
    rfl
  · rw [List.append_eq_nil_iff, List.flatMap_eq_nil_iff]
    constructor
    · rintro ⟨hpass, rfl⟩
      constructor
      · intro j hj ref href
        obtain ⟨i, hi, rfl⟩ := List.getElem_of_mem hj
        have hnone := hpass _ (List.mem_mapIdx.mpr ⟨i, hi, rfl⟩)
        exact ((readParent_fst hunique).mp hnone ref href).1
      · intro id
        by_contra hid
        obtain ⟨start, chain, node, hmem, -⟩ := hcyclic id hid
        exact List.not_mem_nil hmem
    · rintro ⟨hresolve, hall⟩
      constructor
      · intro found hmem
        obtain ⟨i, hi, rfl⟩ := List.mem_mapIdx.mp hmem
        apply (readParent_fst hunique).mpr
        intro ref href
        have hj := List.getElem_mem hi
        obtain ⟨id', rfl, hne, hentry⟩ := hresolve _ hj ref href
        refine ⟨⟨id', rfl, hne, hentry⟩, fun id hid hself => ?_⟩
        obtain rfl := Value.str.inj hself
        have hloop := (hnext id' id').mpr ⟨_, hj, hid, href.1, hne⟩
        exact not_chainEnds_of_loop (.single hloop) ((hends id').mpr (hall id'))
      · by_contra hne
        obtain ⟨id, hid⟩ := hfound hne
        exact hid ((hends id).mpr (hall id))
  · intro i j ref hj href hnot
    have hsome : (readParent judgments i j).1 ≠ [] :=
      fun hnil => hnot ((readParent_fst hunique).mp hnil ref href).1
    obtain ⟨v, hv⟩ := List.exists_mem_of_ne_nil _ hsome
    obtain ⟨hi, rfl⟩ := List.getElem?_eq_some_iff.mp hj
    refine ⟨v, List.mem_append_left _ (List.mem_flatMap.mpr ⟨_, ?_, hv⟩), path_of_mem_readParent hv⟩
    exact List.mem_mapIdx.mpr ⟨i, hi, rfl⟩
  · intro id hid
    obtain ⟨start, chain, node, hmem, hrest⟩ := hcyclic id hid
    exact ⟨start, chain, node, List.mem_append_right _ hmem, hrest⟩

/-- A rule of the sample catalogs: an identifier and what it names as its parent. -/
def parented (id : String) (ref : Json) : Json := .obj [("id", .str id), ("parent_ref", ref)]

theorem ruleParentClosure_exact_sample :
    UniqueIds (judgmentsOf (.obj [("judgments", .arr [parented "a" .null])])) ∧
      ∃ out, ruleParentClosure 2 (.obj [("judgments", .arr [parented "a" .null])]) = some out := by
  have hunique : UniqueIds (judgmentsOf (.obj [("judgments", .arr [parented "a" .null])])) :=
    List.nodup_singleton "a"
  obtain ⟨out, hout, -⟩ := ruleParentClosure_exact _ hunique
  exact ⟨hunique, out, hout 2 (Nat.lt_succ_self 1)⟩

/-- A catalog whose second entry names the first, by an empty identifier. -/
def emptyParented : Json := .obj [("judgments", .arr [parented "" .null, parented "b" (.str "")])]

/-- An empty `parent_ref` that is the identifier of an entry is reported all the same. -/
theorem empty_parent_reported :
    UniqueIds (judgmentsOf emptyParented) ∧
      (∀ j ∈ judgmentsOf emptyParented, ∀ ref, NamesParent j ref →
        ∃ k ∈ judgmentsOf emptyParented, (entryId k).map Value.str = some ref) ∧
      (∀ id, Acc (fun b a => ∃ j ∈ judgmentsOf emptyParented, entryId j = some a ∧
        j.prop "parent_ref" = some (.str b)) id) ∧
      ruleParentClosure 3 emptyParented = some [⟨"/judgments/1/parent_ref",
        "parent_ref must be a non-empty identifier; found string"⟩] := by
  have hjudgments : judgmentsOf emptyParented = [parented "" .null, parented "b" (.str "")] := rfl
  have hlinks : ∀ a b, (∃ j ∈ judgmentsOf emptyParented, entryId j = some a ∧
      j.prop "parent_ref" = some (.str b)) → a = "b" ∧ b = "" := by
    rintro a b ⟨j, hj, hid, href⟩
    rw [hjudgments, List.mem_pair] at hj
    rcases hj with rfl | rfl
    · have hnull : (Value.null : Json) = .str b := Option.some.inj href
      exact nomatch hnull
    · exact ⟨(Option.some.inj hid).symm, (Value.str.inj (Option.some.inj href)).symm⟩
  have hroot : Acc (fun b a => ∃ j ∈ judgmentsOf emptyParented, entryId j = some a ∧
      j.prop "parent_ref" = some (.str b)) "" :=
    ⟨_, fun b hb => absurd (hlinks "" b hb).1 (by decide)⟩
  refine ⟨?_, ?_, fun id => ⟨id, fun b hb => (hlinks id b hb).2 ▸ hroot⟩, by decide⟩
  · change ["", "b"].Nodup
    decide
  · intro j hj ref href
    refine ⟨parented "" .null, hjudgments ▸ List.mem_cons_self, ?_⟩
    rw [hjudgments, List.mem_pair] at hj
    rcases hj with rfl | rfl
    · exact absurd (Option.some.inj href.1).symm href.2
    · exact congrArg some (Option.some.inj href.1)

end Kdna

import Kdna.Sections.FixedPoint
import Mathlib.Data.UInt

/-!
# The fixed point of a scope

A pass that does not return names a judgment whose topic is not loaded, and loading it is what it
leads to. The judgments loaded are judgments of topics, and there are no more topics than sections,
so that the rounds of `deriveMandatoryContext` do not run out.
-/

namespace Kdna.Sections

open Ir (Ref Record Links Entries)

variable {α Result : Type} {rules : Rules Result} {scope : Scope} {s s' : Loaded}

/-- Only a judgment that is not loaded has an unloaded body. -/
theorem not_mem_of_unloaded {loaded : List String} {r : Record} {judgment : String}
    (h : unloaded loaded r = some judgment) : judgment ∉ loaded := by
  rw [unloaded, Option.filter_eq_some_iff, decide_eq_true_eq] at h
  exact h.2

/-- A program that misses a body names a judgment that is not loaded. -/
theorem Reading.not_mem_of_missingBody {loaded : List String} {program : Reading α}
    {judgment : String} (h : program.run loaded = .error (.missingBody judgment)) :
    judgment ∉ loaded := by
  induction program with
  | done a => cases h
  | fail f => cases h
  | value r next ih =>
    rw [Reading.run] at h
    cases hbody : unloaded loaded r with
    | none =>
      rw [hbody] at h
      exact ih _ h
    | some missing =>
      rw [hbody] at h
      obtain rfl := Halt.missingBody.inj (Except.error.inj h)
      exact not_mem_of_unloaded hbody

/-- What closures miss is not loaded. -/
theorem not_mem_of_mem_missingJudgments {loaded : List String} {c : Closures} {judgment : String}
    (h : judgment ∈ missingJudgments loaded c) : judgment ∉ loaded := by
  rw [missingJudgments, List.mem_eraseDups, List.mem_filterMap] at h
  obtain ⟨r, -, hr⟩ := h
  exact not_mem_of_unloaded hr

/-- What the loading keeps: the judgments are distinct judgments of topics, and every topic that is
loaded has its judgment among them. -/
structure Consistent (scope : Scope) (s : Loaded) : Prop where
  nodup : s.judgments.Nodup
  subset : s.judgments ⊆ scope.tables.topics.map (·.judgmentId)
  mem_of_row : ∀ id ∈ scope.tables.topics.map (·.judgmentId), "topic:" ++ id ∈ s.rows →
    id ∈ s.judgments

/-- Nothing that was loaded is lost. -/
structure Extends (s s' : Loaded) : Prop where
  rows : s.rows ⊆ s'.rows
  judgments : s.judgments ⊆ s'.judgments

theorem Extends.refl (s : Loaded) : Extends s s := ⟨fun _ h => h, fun _ h => h⟩

theorem Extends.trans {s t u : Loaded} (h : Extends s t) (h' : Extends t u) : Extends s u :=
  ⟨fun _ hx => h'.rows (h.rows hx), fun _ hx => h'.judgments (h.judgments hx)⟩

/-- What a round that asks for another leads to. -/
structure Advances (scope : Scope) (s s' : Loaded) : Prop where
  consistent : Consistent scope s'
  kept : Extends s s'
  /-- A topic that was not loaded is. -/
  loads : ∃ row ∈ scope.ordered, row.kind = .topic ∧ row.sectionId ∉ s.rows ∧
    row.sectionId ∈ s'.rows
  /-- Its judgment was not loaded and is. -/
  judgment : ∃ id, id ∉ s.judgments ∧ id ∈ s'.judgments

/-- Notes and members that were read leave what was loaded. -/
theorem Consistent.noted (hs : Consistent scope s) (iterations : List Iteration)
    (entries : Entries) :
    Consistent scope { s with iterations := iterations, entries := entries } :=
  ⟨hs.nodup, hs.subset, hs.mem_of_row⟩

theorem Advances.of_noted {iterations : List Iteration} {entries : Entries}
    (h : Advances scope { s with iterations := iterations, entries := entries } s') :
    Advances scope s s' :=
  ⟨h.consistent, ⟨h.kept.rows, h.kept.judgments⟩, h.loads, h.judgment⟩

theorem map_eq_ok_iff {ε β : Type} {f : α → β} {x : Except ε α} {b : β} :
    f <$> x = .ok b ↔ ∃ a, x = .ok a ∧ f a = b := by
  cases x <;> simp

theorem external_eq_ok_iff {x : Except Failure α} {a : α} : external x = .ok a ↔ x = .ok a := by
  cases x <;> simp [external, Except.mapError]

theorem mem_addNew {xs : List String} {x y : String} : y ∈ addNew xs x ↔ y ∈ xs ∨ y = x := by
  unfold addNew
  split
  · constructor
    · exact Or.inl
    · rintro (h | rfl)
      · exact h
      · assumption
  · rw [List.mem_append, List.mem_singleton]

theorem nodup_addNew {xs : List String} {x : String} (h : xs.Nodup) : (addNew xs x).Nodup := by
  unfold addNew
  split
  · exact h
  · rw [← List.concat_eq_append]
    exact h.concat ‹_›

/-- The judgment of a topic is what follows `topic:`. -/
theorem sectionOwner_topic {row : SectionRow} {id : String} (hkind : row.kind = .topic)
    (hid : row.sectionId = "topic:" ++ id) : sectionOwner row = some id := by
  have hname : String.ofList (("topic:" ++ id).toList.drop 6) = id := by
    rw [String.toList_append, List.drop_left' (by rfl), String.ofList_toList]
  rw [sectionOwner, if_neg (by rw [hkind]; decide), hid, hname]

/-- A section is loaded already or read and added. -/
theorem load_cases {why : String} {row : SectionRow} (h : load rules scope why s row = .ok s') :
    (row.sectionId ∈ s.rows ∧ s' = s) ∨
      (row.sectionId ∉ s.rows ∧ s'.rows = s.rows ++ [row.sectionId] ∧
        s'.judgments = judgmentsWith s.judgments row) := by
  unfold load at h
  split at h
  · exact Or.inl ⟨‹_›, (Except.ok.inj h).symm⟩
  · obtain ⟨nodes, -, hpure⟩ := bind_eq_ok_iff.mp h
    obtain rfl := Except.ok.inj hpure
    exact Or.inr ⟨‹_›, rfl, rfl⟩

section LaidOut

variable (hlaid : LaidOut scope.tables scope.ordered)

include hlaid

/-- Loading a volume leaves the judgments as they are. -/
theorem load_volume {why : String} {row : SectionRow} (hrow : row ∈ scope.ordered)
    (hkind : row.kind = .volume) (hs : Consistent scope s)
    (h : load rules scope why s row = .ok s') : Consistent scope s' ∧ Extends s s' := by
  obtain ⟨-, rfl⟩ | ⟨-, hrows, hjudgments⟩ := load_cases h
  · exact ⟨hs, .refl _⟩
  · rw [judgmentsWith, if_neg (by rw [hkind]; decide)] at hjudgments
    refine ⟨⟨?_, ?_, ?_⟩, ⟨?_, ?_⟩⟩
    · rw [hjudgments]
      exact hs.nodup
    · rw [hjudgments]
      exact hs.subset
    · intro id hid hmem
      rw [hrows, List.mem_append, List.mem_singleton] at hmem
      rw [hjudgments]
      rcases hmem with hmem | hname
      · exact hs.mem_of_row id hid hmem
      · -- the ids of the sections are distinct, so the topic would be the volume
        obtain ⟨topic, htopic, -, -, hsection, htopicKind⟩ := hlaid.topic_row id hid
        have heq : topic = row := by
          refine List.inj_on_of_nodup_map hlaid.sectionIds_nodup htopic hrow ?_
          rw [hsection, hname]
        rw [heq, hkind] at htopicKind
        cases htopicKind
    · rw [hrows]
      exact List.subset_append_left _ _
    · rw [hjudgments]
      exact fun _ hx => hx

/-- Loading a judgment loads its topic. -/
theorem loadJudgment_spec {why id : String} (hs : Consistent scope s)
    (h : loadJudgment rules scope why s id = .ok s') :
    Consistent scope s' ∧ Extends s s' ∧ id ∈ s'.judgments ∧
      ∃ row ∈ scope.ordered, row.kind = .topic ∧ row.sectionId = "topic:" ++ id ∧
        row.sectionId ∈ s'.rows := by
  simp only [loadJudgment, bind_eq_ok_iff, orFail_eq_ok_iff] at h
  obtain ⟨name, hname, row, hrow, hload⟩ := h
  have hid := mem_topics_of_topicSection hname
  obtain ⟨topic, htopic, hsection, hfound, htopicId, hkind⟩ := hlaid.topic_row id hid
  obtain rfl : name = topic.sectionId := Option.some.inj (hname.symm.trans hsection)
  obtain rfl : row = topic := Option.some.inj (hrow.symm.trans hfound)
  obtain ⟨hmem, rfl⟩ | ⟨-, hrows, hjudgments⟩ := load_cases hload
  · refine ⟨hs, .refl _, hs.mem_of_row id hid ?_, row, htopic, hkind, htopicId, hmem⟩
    rwa [htopicId] at hmem
  · have hadded : s'.judgments = addNew s.judgments id := by
      rw [hjudgments, judgmentsWith, if_pos hkind, sectionOwner_topic hkind htopicId,
        Option.elim_some]
    refine ⟨⟨?_, ?_, ?_⟩, ⟨?_, ?_⟩, ?_, row, htopic, hkind, htopicId, ?_⟩
    · rw [hadded]
      exact nodup_addNew hs.nodup
    · rw [hadded]
      intro x hx
      rcases mem_addNew.mp hx with hold | rfl
      · exact hs.subset hold
      · exact hid
    · intro other hother hmem
      rw [hrows, List.mem_append, List.mem_singleton, htopicId] at hmem
      rw [hadded, mem_addNew]
      rcases hmem with hmem | heq
      · exact Or.inl (hs.mem_of_row other hother hmem)
      · exact Or.inr ((String.append_right_inj "topic:").mp heq)
    · rw [hrows]
      exact List.subset_append_left _ _
    · rw [hadded]
      exact fun _ hx => mem_addNew.mpr (Or.inl hx)
    · rw [hadded]
      exact mem_addNew.mpr (Or.inr rfl)
    · rw [hrows]
      exact List.mem_append_right _ (List.mem_singleton_self _)

/-- Loading judgments one after the other loses nothing. -/
theorem foldlM_loadJudgment {why : String} {ids : List String} (hs : Consistent scope s)
    (h : ids.foldlM (loadJudgment rules scope why) s = .ok s') :
    Consistent scope s' ∧ Extends s s' := by
  induction ids generalizing s with
  | nil =>
    obtain rfl := Except.ok.inj h
    exact ⟨hs, .refl _⟩
  | cons id ids ih =>
    rw [List.foldlM_cons, bind_eq_ok_iff] at h
    obtain ⟨t, hfirst, hrest⟩ := h
    obtain ⟨ht, hext, -⟩ := loadJudgment_spec hlaid hs hfirst
    obtain ⟨hs', hext'⟩ := ih ht hrest
    exact ⟨hs', hext.trans hext'⟩

theorem foldlM_load_volumes {why : String} {rows : List SectionRow}
    (hrows : ∀ row ∈ rows, row ∈ scope.ordered ∧ row.kind = .volume) (hs : Consistent scope s)
    (h : rows.foldlM (load rules scope why) s = .ok s') : Consistent scope s' := by
  induction rows generalizing s with
  | nil =>
    obtain rfl := Except.ok.inj h
    exact hs
  | cons row rows ih =>
    rw [List.foldlM_cons, bind_eq_ok_iff] at h
    obtain ⟨t, hfirst, hrest⟩ := h
    obtain ⟨hmem, hkind⟩ := hrows row List.mem_cons_self
    exact ih (fun r hr => hrows r (.tail _ hr)) (load_volume hlaid hmem hkind hs hfirst).1 hrest

/-- What the start has loaded is consistent. -/
theorem consistent_start (h : start rules scope = .ok s) : Consistent scope s := by
  simp only [start, nothingLoaded, external_eq_ok_iff, bind_eq_ok_iff, pure_eq_ok, Except.ok.injEq] at h
  obtain ⟨_, ⟨ids, -, rfl⟩, t, hvolumes, hselected⟩ := h
  refine (foldlM_loadJudgment hlaid (foldlM_load_volumes hlaid ?_ ?_ hvolumes) hselected).1
  · intro row hrow
    rw [List.mem_filter, decide_eq_true_eq] at hrow
    exact hrow
  · exact ⟨List.nodup_nil, List.nil_subset _, fun _ _ hmem => absurd hmem List.not_mem_nil⟩

/-- Loading judgments of which the first is not loaded advances. -/
theorem advances_of_loadJudgments {why : String} {id : String} {ids : List String}
    (hs : Consistent scope s) (hid : id ∉ s.judgments)
    (h : (id :: ids).foldlM (loadJudgment rules scope why) s = .ok s') : Advances scope s s' := by
  rw [List.foldlM_cons, bind_eq_ok_iff] at h
  obtain ⟨t, hfirst, hrest⟩ := h
  obtain ⟨ht, hext, hjudgment, row, hrow, hkind, hname, hloaded⟩ :=
    loadJudgment_spec hlaid hs hfirst
  obtain ⟨hs', hext'⟩ := foldlM_loadJudgment hlaid ht hrest
  refine ⟨hs', hext.trans hext', ⟨row, hrow, hkind, ?_, hext'.rows hloaded⟩, id, hid,
    hext'.judgments hjudgment⟩
  intro hmem
  rw [hname] at hmem
  exact hid (hs.mem_of_row id (ht.subset hjudgment) hmem)

/-- Recovering from a body that is not loaded advances. -/
theorem advances_of_recover {count : ℕ} {halt : Halt} (hs : Consistent scope s)
    (hhalt : ∀ judgment, halt = .missingBody judgment → judgment ∉ s.judgments)
    (h : recover rules scope count s halt = .ok (.again s')) : Advances scope s s' := by
  cases halt with
  | failure f => cases h
  | missingBody judgment =>
    rw [recover, bind_eq_ok_iff] at h
    obtain ⟨t, hload, hround⟩ := h
    obtain rfl := Round.again.inj (Except.ok.inj hround)
    have hloads : [judgment].foldlM
        (loadJudgment rules scope "original domain rule requires actual value")
        { s with iterations := s.iterations ++ [.required count s.judgments judgment] } = .ok t := by
      rw [List.foldlM_cons, hload]
      rfl
    have hnoted := hs.noted (s.iterations ++ [.required count s.judgments judgment]) s.entries
    exact (advances_of_loadJudgments hlaid hnoted (hhalt judgment rfl) hloads).of_noted

/-- Concluding asks for another round only when a body is missing. -/
theorem advances_of_conclude {count : ℕ} {pass : Pass} {c : Closures} (hs : Consistent scope s)
    (h : conclude rules scope count s pass c = .ok (.again s')) : Advances scope s s' := by
  simp only [conclude, bind_eq_ok_iff] at h
  obtain ⟨_, -, identity, -, ids, -, h⟩ := h
  cases hrun : (rules.materialize pass c).run s.judgments with
  | ok result =>
    rw [hrun] at h
    cases h
  | error halt =>
    rw [hrun] at h
    refine advances_of_recover hlaid hs ?_ h
    rintro judgment rfl
    exact Reading.not_mem_of_missingBody hrun

/-- A pass asks for another round with topics that were missing. -/
theorem advances_of_judge {count : ℕ} {pass : Pass} (hs : Consistent scope s)
    (h : judge rules scope count s pass = .ok (.again s')) : Advances scope s s' := by
  rw [judge] at h
  cases hrun : (rules.validateR2 pass).run s.judgments with
  | error halt =>
    rw [hrun] at h
    refine advances_of_recover hlaid hs ?_ h
    rintro judgment rfl
    exact Reading.not_mem_of_missingBody hrun
  | ok links =>
    rw [hrun] at h
    obtain ⟨c, -, h⟩ := bind_eq_ok_iff.mp h
    cases hmissing : missingJudgments s.judgments c with
    | nil =>
      rw [hmissing, if_pos rfl] at h
      exact (advances_of_conclude hlaid (hs.noted _ _) h).of_noted
    | cons id ids =>
      rw [hmissing, if_neg (List.cons_ne_nil _ _), map_eq_ok_iff] at h
      obtain ⟨t, hloads, hround⟩ := h
      obtain rfl := Round.again.inj hround
      have hid : id ∉ s.judgments :=
        not_mem_of_mem_missingJudgments (by rw [hmissing]; exact List.mem_cons_self)
      have hnoted := hs.noted
        (s.iterations ++ [.closed count s.judgments c.closure.length (id :: ids)]) s.entries
      exact (advances_of_loadJudgments hlaid hnoted hid hloads).of_noted

/-- A round that asks for another has loaded a topic. -/
theorem advances_of_iterate {interpretation : Interpretation} {count : ℕ}
    (hs : Consistent scope s)
    (h : iterate rules scope interpretation count s = .ok (.again s')) : Advances scope s s' := by
  simp only [iterate, bind_eq_ok_iff] at h
  obtain ⟨nodes, -, payload, -, entries, -, registry, -, _, -, h⟩ := h
  exact (advances_of_judge hlaid (hs.noted _ _) h).of_noted

end LaidOut

namespace Advances

/-- More judgments are loaded. -/
theorem length_lt (h : Advances scope s s') (hs : Consistent scope s) :
    s.judgments.length < s'.judgments.length := by
  obtain ⟨id, hnew, hid⟩ := h.judgment
  have hnodup : (id :: s.judgments).Nodup := List.nodup_cons.mpr ⟨hnew, hs.nodup⟩
  have hsubset : id :: s.judgments ⊆ s'.judgments := List.cons_subset.mpr ⟨hid, h.kept.judgments⟩
  have hlength := (List.subperm_of_subset hnodup hsubset).length_le
  rwa [List.length_cons, Nat.succ_le_iff] at hlength

end Advances

/-- No more judgments are loaded than there are sections. -/
theorem Consistent.length_le (hs : Consistent scope s) (hlaid : LaidOut scope.tables scope.ordered) :
    s.judgments.length ≤ scope.ordered.length := by
  have hlength := (List.subperm_of_subset hs.nodup hs.subset).length_le
  rw [List.length_map] at hlength
  exact hlength.trans hlaid.topics_length_le

/-- The loop ends with a round that returns or that is stopped. -/
theorem deriveRounds_cases (hlaid : LaidOut scope.tables scope.ordered)
    {interpretation : Interpretation} {s₀ : Loaded}
    (hinputs : rules.readInterpretationInputs = .ok interpretation)
    (hstart : start rules scope = .ok s₀) :
    ∃ count s, RoundState (iterate rules scope interpretation) s₀ count s ∧
      ((∃ context, iterate rules scope interpretation count s = .ok (.done context) ∧
          deriveRounds rules scope = .ok (some context)) ∨
        ∃ stop, iterate rules scope interpretation count s = .error stop ∧
          deriveRounds rules scope = .error stop) := by
  have hrounds : deriveRounds rules scope =
      rounds (iterate rules scope interpretation) (scope.ordered.length + 1) 0 s₀ := by
    rw [deriveRounds, external_eq_ok_iff.mpr hinputs, ok_bind, hstart, ok_bind]
  have hstep : ∀ count s s', Consistent scope s →
      iterate rules scope interpretation count s = .ok (.again s') →
      Consistent scope s' ∧ s.judgments.length < s'.judgments.length := by
    intro count s s' hs hagain
    have hadvances := advances_of_iterate hlaid hs hagain
    exact ⟨hadvances.consistent, hadvances.length_lt hs⟩
  rw [hrounds]
  exact rounds_cases hstep (fun s hs => hs.length_le hlaid) RoundState.start
    (consistent_start hlaid hstart) (by omega)

/-- On the sections of a layout the derivation does not run out of rounds: its loop ends with a
round that returns or that a check stops, and every round before it has loaded a topic that was not
loaded. -/
theorem deriveMandatoryContext_converges (rules : Rules Result) (scope : Scope)
    (hlayout : readSectionLayout scope.tables = .ok scope.ordered) :
    deriveMandatoryContext rules scope ≠ .error .didNotConverge ∧
    ∀ interpretation s₀, rules.readInterpretationInputs = .ok interpretation →
      start rules scope = .ok s₀ →
      (∃ count s, RoundState (iterate rules scope interpretation) s₀ count s ∧
        ((∃ context, iterate rules scope interpretation count s = .ok (.done context) ∧
            deriveMandatoryContext rules scope = .ok context) ∨
          ∃ stop, iterate rules scope interpretation count s = .error stop ∧
            deriveMandatoryContext rules scope = .error (.stopped stop))) ∧
      ∀ count s s', RoundState (iterate rules scope interpretation) s₀ count s →
        iterate rules scope interpretation count s = .ok (.again s') →
        ∃ row ∈ scope.ordered, row.kind = .topic ∧ row.sectionId ∉ s.rows ∧
          row.sectionId ∈ s'.rows := by
  have hlaid := laidOut_of_readSectionLayout hlayout
  refine ⟨?_, fun interpretation s₀ hinputs hstart => ⟨?_, ?_⟩⟩
  · intro hlate
    cases hinputs : rules.readInterpretationInputs with
    | error f => simp [deriveMandatoryContext, deriveRounds, external, hinputs, Except.mapError] at hlate
    | ok interpretation =>
      cases hstart : start rules scope with
      | error stop =>
        simp [deriveMandatoryContext, deriveRounds, external_eq_ok_iff.mpr hinputs, hstart] at hlate
      | ok s₀ =>
        obtain ⟨_, _, -, ⟨_, -, hresult⟩ | ⟨_, -, hresult⟩⟩ :=
          deriveRounds_cases hlaid hinputs hstart
        all_goals
          rw [deriveMandatoryContext, hresult] at hlate
          cases hlate
  · obtain ⟨count, s, hstate, ⟨context, hdone, hresult⟩ | ⟨stop, hstop, hresult⟩⟩ :=
      deriveRounds_cases hlaid hinputs hstart
    · exact ⟨count, s, hstate, Or.inl ⟨context, hdone, by rw [deriveMandatoryContext, hresult]⟩⟩
    · exact ⟨count, s, hstate, Or.inr ⟨stop, hstop, by rw [deriveMandatoryContext, hresult]⟩⟩
  · intro count s s' hstate hagain
    have hs : Consistent scope s := hstate.induct (consistent_start hlaid hstart)
      fun count t t' ht hround => (advances_of_iterate hlaid ht hround).consistent
    exact (advances_of_iterate hlaid hs hagain).loads

/-- Two topics and a volume. -/
def sampleTables : Tables where
  assetId := "asset"
  assetVersion := "1"
  catalog := [⟨"a", "judgment:a"⟩, ⟨"b", "judgment:b"⟩]
  mandatoryClosures := [⟨"asset", "1", "a", ["asset_declaration", "judgment:a", "judgment:b"]⟩,
    ⟨"asset", "1", "b", ["asset_declaration", "judgment:b"]⟩]
  nodeOrder := ["asset_declaration", "judgment:a", "contract:a", "judgment:b", "contract:b"]
  sections := [⟨"topic:a", .topic, "sections/pack-0.kdnab", 0, 10, 2, 0, "sha256:a"⟩,
    ⟨"topic:b", .topic, "sections/pack-0.kdnab", 10, 10, 2, 1, "sha256:b"⟩,
    ⟨"volume:0", .volume, "sections/pack-0.kdnab", 20, 10, 1, 2, "sha256:c"⟩]
  topics := [⟨"a", "topic:a"⟩, ⟨"b", "topic:b"⟩]
  nodeSections := [⟨"asset_declaration", "volume:0"⟩, ⟨"contract:a", "topic:a"⟩,
    ⟨"contract:b", "topic:b"⟩, ⟨"judgment:a", "topic:a"⟩, ⟨"judgment:b", "topic:b"⟩]

/-- The asset, its two judgments and their contracts. -/
def sampleNodes : List Json :=
  let target (kind id : String) : Json := .obj [("kind", .str kind), ("id", .str id)]
  let node (id kind name : String) (owner : Json) (judgment : Json) (value : Json) : Json :=
    .obj [("id", .str id), ("target", target kind name), ("owner", owner),
      ("owner_judgment_id", judgment), ("value", value)]
  let contract (id : String) : Json := .obj [("id", .str ("contract:" ++ id))]
  let judgment (id : String) : List Json :=
    [node ("judgment:" ++ id) "judgment" id (target "asset" "uid") (.str id)
      (.obj [("id", .str id), ("result_contract", contract id),
        ("method", .obj [("components", .arr [])])]),
    node ("contract:" ++ id) "contract" ("contract:" ++ id) (target "judgment" id) (.str id)
      (contract id)]
  node "asset_declaration" "asset" "uid" (target "asset" "uid") .null
    (.obj [("declarations", .obj [])]) :: judgment "a" ++ judgment "b"

/-- The first judgment needs the second. -/
def sampleLinks : Links where
  edges r := if r = ⟨.judgment, "a"⟩ then [(⟨.judgment, "b"⟩, true)] else []
  referenceRoles _ := []
  unresolved := []

/-- Rules that read every record. -/
def sampleRules : Rules Unit where
  readFrame row := .ok ⟨row.kind, row.sectionId, sampleNodes.filter (ownedBy · (sectionOwner row))⟩
  resourceAfterAuthorization _ := .ok []
  readInterpretationInputs := .ok ⟨[], []⟩
  hasher := Digest.keepingHasher fun bytes => Vector.replicate 32 bytes.sum
  validateR2 pass :=
    pass.registry.foldr (fun r program => .value r fun _ => program) (.done sampleLinks)
  materialize _ _ := .done ()

/-- A selection of the first topic. -/
def sampleScope : Scope where
  tables := sampleTables
  ordered := sampleTables.sections
  metadata := .obj [("tuple", .obj [("payload_profile", .str "kdna.payload.judgment"),
    ("payload_version", .str "0.5.1")]), ("asset", .obj [("asset_id", .str "asset")])]
  manifest := .obj [("asset_uid", .str "uid"), ("history", .obj [("entries", .arr [])])]
  structureNodes := sampleNodes
  selectedIds := ["a"]
  target := none

/-- The sample returns in its second round, which the body of the second judgment asks for. -/
theorem deriveMandatoryContext_converges_sample :
    deriveMandatoryContext sampleRules sampleScope ≠ .error .didNotConverge :=
  (deriveMandatoryContext_converges sampleRules sampleScope (by decide)).1

example : ((deriveMandatoryContext sampleRules sampleScope).toOption.map fun context =>
    (context.loadedJudgments, context.iterations.length)) = some (["a", "b"], 2) := by
  decide +kernel

end Kdna.Sections

import Kdna.Ir.Registry

/-!
# What the registry holds of each kind

The records of one kind that the asset owns directly hold the items of one collection
of the payload, in its order. Every body of a judgment carries the judgment's id.
-/

namespace Kdna.Ir

variable {asset owner : Ref} {kind : Kind} {judgment : Option String} {activation : Option Json}

/-- The asset owns the record directly, outside every judgment. -/
def Record.OwnedBy (asset : Ref) (kind : Kind) (r : Record) : Prop :=
  r.target.kind = kind ∧ r.judgment = none ∧ r.owner = asset

instance (asset : Ref) (kind : Kind) : DecidablePred (Record.OwnedBy asset kind) := by
  intro r
  unfold Record.OwnedBy
  infer_instance

/-- The values of the records of a kind that the asset owns directly. -/
def ownValues (asset : Ref) (kind : Kind) (records : List Record) : List Json :=
  (records.filter fun r => r.OwnedBy asset kind).map Record.value

theorem ownValues_append (rs ss : List Record) :
    ownValues asset kind (rs ++ ss) = ownValues asset kind rs ++ ownValues asset kind ss := by
  rw [ownValues, List.filter_append, List.map_append]
  rfl

theorem ownValues_flatten (ls : List (List Record)) :
    ownValues asset kind ls.flatten = (ls.map (ownValues asset kind)).flatten := by
  rw [ownValues, List.filter_flatten, List.map_flatten, List.map_map]
  rfl

theorem ownValues_of_forall {rs : List Record} (h : ∀ r ∈ rs, r.OwnedBy asset kind) :
    ownValues asset kind rs = rs.map Record.value := by
  rw [ownValues, List.filter_eq_self.mpr fun r hr => decide_eq_true (h r hr)]

theorem ownValues_eq_nil {rs : List Record} (h : ∀ r ∈ rs, ¬ r.OwnedBy asset kind) :
    ownValues asset kind rs = [] := by
  rw [ownValues, List.filter_eq_nil_iff.mpr fun r hr => by simpa using h r hr, List.map_nil]

theorem owned_eq_ok_iff {object : Json} {r : Record} :
    owned kind owner judgment activation object = .ok r ↔
      ∃ id, object.prop "id" = some (.str id) ∧ r = ⟨⟨kind, id⟩, owner, object, judgment, activation⟩ := by
  simp only [owned, bind_eq_ok_iff, memberText_eq_ok_iff, pure_eq_ok, Except.ok.injEq]
  exact exists_congr fun id => and_congr_right fun _ => eq_comm

/-- The records of a list of objects with one kind and one owner. -/
theorem ownedAll_spec {items : List Json} {rs : List Record}
    (h : items.mapM (owned kind owner judgment activation) = .ok rs) :
    rs.map Record.value = items ∧
      ∀ r ∈ rs, r.target.kind = kind ∧ r.owner = owner ∧ r.judgment = judgment := by
  rw [mapM_eq_ok_iff] at h
  induction h with
  | nil => exact ⟨rfl, List.forall_mem_nil _⟩
  | cons hr _ ih =>
    obtain ⟨id, -, rfl⟩ := owned_eq_ok_iff.mp hr
    exact ⟨by rw [List.map_cons, ih.1], List.forall_mem_cons.mpr ⟨⟨rfl, rfl, rfl⟩, ih.2⟩⟩

/-- The records of a collection of the asset. -/
theorem ownValues_ownedAll {k : Kind} {items : List Json} {rs : List Record}
    (h : items.mapM (owned k asset none activation) = .ok rs) :
    ownValues asset kind rs = if k = kind then items else [] := by
  obtain ⟨hvalues, hrs⟩ := ownedAll_spec h
  by_cases hk : k = kind
  · rw [if_pos hk, ownValues_of_forall, hvalues]
    exact fun r hr => ⟨(hrs r hr).1.trans hk, (hrs r hr).2.2, (hrs r hr).2.1⟩
  · rw [if_neg hk, ownValues_eq_nil]
    exact fun r hr hown => hk ((hrs r hr).1.symm.trans hown.1)

/-- An exception registers itself and at most one boundary, which it owns. -/
theorem exceptionRecords_spec {e : Json} {rs : List Record}
    (h : exceptionRecords owner judgment e = .ok rs) :
    ∃ id, e.prop "id" = some (.str id) ∧
      ∃ replacements : List Record, rs = ⟨⟨.exception, id⟩, owner, e, judgment, none⟩ :: replacements ∧
        ∀ r ∈ replacements, r.target.kind = .boundary ∧ r.owner = ⟨.exception, id⟩ ∧
          r.judgment = judgment := by
  simp only [exceptionRecords, bind_eq_ok_iff, owned_eq_ok_iff] at h
  obtain ⟨_, ⟨id, hid, rfl⟩, effect, -, h⟩ := h
  refine ⟨id, hid, ?_⟩
  split at h
  · simp only [bind_eq_ok_iff, owned_eq_ok_iff, pure_eq_ok, Except.ok.injEq] at h
    obtain ⟨replacement, -, _, ⟨id', -, rfl⟩, rfl⟩ := h
    exact ⟨_, rfl, List.forall_mem_singleton.mpr ⟨rfl, rfl, rfl⟩⟩
  · exact ⟨[], (Except.ok.inj h).symm, List.forall_mem_nil _⟩

/-- The parts of a holder's restrictions. -/
theorem restrictions_spec {boundaries exceptions misuse : List Json} {rs : List Record}
    (h : restrictions boundaries exceptions misuse owner judgment = .ok rs) :
    ∃ limits exempt misused, rs = limits ++ exempt.flatten ++ misused ∧
      boundaries.mapM (owned .boundary owner judgment (some alwaysActive)) = .ok limits ∧
      exceptions.mapM (exceptionRecords owner judgment) = .ok exempt ∧
      misuse.mapM (owned .misuse owner judgment none) = .ok misused := by
  simp only [restrictions, bind_eq_ok_iff] at h
  obtain ⟨limits, hlimits, exempt, hexempt, misused, hmisused, h⟩ := h
  exact ⟨limits, exempt, misused, (Except.ok.inj h).symm, hlimits, hexempt, hmisused⟩

/-- The exceptions of the asset, without the limits they put in place. -/
theorem ownValues_exceptions (hasset : asset.kind = .asset) {exceptions : List Json}
    {exempt : List (List Record)} (h : exceptions.mapM (exceptionRecords asset none) = .ok exempt) :
    ownValues asset kind exempt.flatten = if kind = .exception then exceptions else [] := by
  rw [mapM_eq_ok_iff] at h
  induction h with
  | nil => simp [ownValues]
  | @cons e rs es rss hr _ ih =>
    obtain ⟨id, -, replacements, rfl, hreplacements⟩ := exceptionRecords_spec hr
    have hnone : ownValues asset kind replacements = [] := by
      refine ownValues_eq_nil fun r hr hown => ?_
      have howner := congrArg Ref.kind ((hreplacements r hr).2.1.symm.trans hown.2.2)
      exact nomatch howner.trans hasset
    rw [List.flatten_cons, ownValues_append, ih, ← List.singleton_append, ownValues_append, hnone,
      List.append_nil]
    by_cases hk : kind = .exception
    · rw [if_pos hk, if_pos hk, ownValues_of_forall]
      · rfl
      · exact List.forall_mem_singleton.mpr ⟨hk.symm, rfl, rfl⟩
    · rw [if_neg hk, if_neg hk, ownValues_eq_nil]
      · rfl
      · exact List.forall_mem_singleton.mpr fun hown => hk hown.1.symm

/-- The asset's own restrictions, by kind. -/
theorem ownValues_restrictions (hasset : asset.kind = .asset) {boundaries exceptions misuse : List Json}
    {rs : List Record} (h : restrictions boundaries exceptions misuse asset none = .ok rs) :
    ownValues asset kind rs =
      if kind = .boundary then boundaries else if kind = .exception then exceptions
        else if kind = .misuse then misuse else [] := by
  obtain ⟨limits, exempt, misused, rfl, hlimits, hexempt, hmisused⟩ := restrictions_spec h
  rw [ownValues_append, ownValues_append, ownValues_ownedAll hlimits,
    ownValues_exceptions hasset hexempt, ownValues_ownedAll hmisused]
  cases kind <;> simp

/-- The kinds of what a judgment owns. -/
def bodyKinds : List Kind :=
  [.contract, .result, .component, .unit, .plan, .planNode, .policy, .branchEntry, .candidate,
    .boundary, .exception, .misuse]

/-- A body of the judgment `id`. -/
structure Record.BodyOf (id : String) (r : Record) : Prop where
  judgment : r.judgment = some id
  mem_kinds : r.target.kind ∈ bodyKinds

theorem Record.BodyOf.notJudgment {id : String} {r : Record} (h : r.BodyOf id) :
    r.target.kind ≠ .judgment := by
  intro hkind
  exact absurd (hkind ▸ h.mem_kinds) (by decide)

theorem Record.BodyOf.notAsset {id : String} {r : Record} (h : r.BodyOf id) :
    r.target.kind ≠ .asset := by
  intro hkind
  exact absurd (hkind ▸ h.mem_kinds) (by decide)

theorem bodyOf_mk {id i : String} {value : Json} (hkind : kind ∈ bodyKinds) :
    Record.BodyOf id ⟨⟨kind, i⟩, owner, value, some id, activation⟩ :=
  ⟨rfl, hkind⟩

theorem bodies_ownedAll {id : String} (hkinds : kind ∈ bodyKinds) {items : List Json}
    {rs : List Record} (h : items.mapM (owned kind owner (some id) activation) = .ok rs) :
    ∀ r ∈ rs, r.BodyOf id := by
  intro r hr
  obtain ⟨hkind, -, hid⟩ := (ownedAll_spec h).2 r hr
  exact ⟨hid, hkind ▸ hkinds⟩

/-- The kinds of a holder's restrictions. -/
theorem restrictions_kinds {boundaries exceptions misuse : List Json} {rs : List Record}
    (h : restrictions boundaries exceptions misuse owner judgment = .ok rs) :
    ∀ r ∈ rs, r.judgment = judgment ∧ r.target.kind ∈ [Kind.boundary, .exception, .misuse] := by
  obtain ⟨limits, exempt, misused, rfl, hlimits, hexempt, hmisused⟩ := restrictions_spec h
  intro r hr
  rcases List.mem_append.mp hr with hr | hr
  · rcases List.mem_append.mp hr with hr | hr
    · obtain ⟨hkind, -, hid⟩ := (ownedAll_spec hlimits).2 r hr
      exact ⟨hid, by simp [hkind]⟩
    · obtain ⟨rs, hrs, hmem⟩ := List.mem_flatten.mp hr
      obtain ⟨e, -, he⟩ := exists_of_mem_mapM hexempt hrs
      obtain ⟨eid, -, replacements, rfl, hreplacements⟩ := exceptionRecords_spec he
      rcases List.mem_cons.mp hmem with rfl | hmem
      · exact ⟨rfl, by simp⟩
      · obtain ⟨hkind, -, hid⟩ := hreplacements r hmem
        exact ⟨hid, by simp [hkind]⟩
  · obtain ⟨hkind, -, hid⟩ := (ownedAll_spec hmisused).2 r hr
    exact ⟨hid, by simp [hkind]⟩

theorem bodies_restrictions {id : String} {boundaries exceptions misuse : List Json}
    {rs : List Record} (h : restrictions boundaries exceptions misuse owner (some id) = .ok rs) :
    ∀ r ∈ rs, r.BodyOf id := by
  have hkinds : ∀ k ∈ [Kind.boundary, .exception, .misuse], k ∈ bodyKinds := by decide
  intro r hr
  obtain ⟨hid, hkind⟩ := restrictions_kinds h r hr
  exact ⟨hid, hkinds _ hkind⟩

theorem bodies_optional {id : String} {records : Json → Except Failure (List Record)}
    (hrecords : ∀ object rs, records object = .ok rs → ∀ r ∈ rs, r.BodyOf id) {object : Option Json}
    {rs : List Record} (h : optionalRecords records object = .ok rs) : ∀ r ∈ rs, r.BodyOf id := by
  cases object with
  | none =>
    rw [← Except.ok.inj h]
    exact List.forall_mem_nil _
  | some object => exact hrecords object rs h

theorem bodies_planRecords {id : String} (plan : Json) (rs : List Record)
    (h : planRecords owner id plan = .ok rs) : ∀ r ∈ rs, r.BodyOf id := by
  simp only [planRecords, bind_eq_ok_iff, owned_eq_ok_iff] at h
  obtain ⟨_, ⟨pid, -, rfl⟩, nodes, ⟨items, -, hnodes⟩, h⟩ := h
  rw [← Except.ok.inj h, List.forall_mem_cons]
  exact ⟨bodyOf_mk (by decide), bodies_ownedAll (by decide) hnodes⟩

theorem bodies_policyRecords {id : String} (policy : Json) (rs : List Record)
    (h : policyRecords owner id policy = .ok rs) : ∀ r ∈ rs, r.BodyOf id := by
  simp only [policyRecords, bind_eq_ok_iff, owned_eq_ok_iff] at h
  obtain ⟨_, ⟨pid, -, rfl⟩, entries, ⟨items, -, hentries⟩, candidates, ⟨items', -, hcandidates⟩, h⟩ := h
  rw [← Except.ok.inj h, List.cons_append, List.forall_mem_cons, List.forall_mem_append]
  exact ⟨bodyOf_mk (by decide), bodies_ownedAll (by decide) hentries,
    bodies_ownedAll (by decide) hcandidates⟩

/-- Everything behind a judgment is a body of it. -/
theorem bodies_judgmentBodies {target : Ref} {j : Json} {rs : List Record}
    (h : judgmentBodies target j = .ok rs) : ∀ r ∈ rs, r.BodyOf target.id := by
  simp only [judgmentBodies, bind_eq_ok_iff, owned_eq_ok_iff] at h
  obtain ⟨_, ⟨_, -, cid, -, rfl⟩, method, -, components, ⟨_, -, hcomponents⟩, units, ⟨_, -, hunits⟩,
    plan, hplan, policy, hpolicy, bs, -, es, -, ms, -, limits, hlimits, h⟩ := h
  rw [← Except.ok.inj h]
  simp only [List.cons_append, List.forall_mem_cons, List.forall_mem_append, List.forall_mem_map]
  exact ⟨bodyOf_mk (by decide), ⟨⟨⟨⟨fun _ _ => bodyOf_mk (by decide),
    bodies_ownedAll (by decide) hcomponents⟩,
    bodies_ownedAll (by decide) hunits⟩, bodies_optional bodies_planRecords hplan⟩,
    bodies_optional bodies_policyRecords hpolicy⟩, bodies_restrictions hlimits⟩

theorem judgmentRecords_spec {j : Json} {rs : List Record} (h : judgmentRecords asset j = .ok rs) :
    ∃ id bodies, j.prop "id" = some (.str id) ∧
      rs = ⟨⟨.judgment, id⟩, asset, j, some id, none⟩ :: bodies ∧ ∀ r ∈ bodies, r.BodyOf id := by
  simp only [judgmentRecords, bind_eq_ok_iff, memberText_eq_ok_iff] at h
  obtain ⟨id, hid, bodies, hbodies, h⟩ := h
  exact ⟨id, bodies, hid, (Except.ok.inj h).symm, bodies_judgmentBodies hbodies⟩

/-- The parts of a registry. -/
structure Registered (manifest payload : Json) (asset : Ref) (records : List Record) where
  roots : List (List Record)
  limits : List Record
  judgments : List (List Record)
  results : List (List Record)
  revisions : List Record
  judgmentItems : List Json
  exampleItems : List Json
  records_eq : records = ⟨asset, asset, .null, none, none⟩ :: roots.flatten ++ limits ++
    judgments.flatten ++ results.flatten ++ revisions
  kind : asset.kind = .asset
  roots_eq : rootRecords asset payload = .ok roots
  limits_eq : assetRestrictions asset payload = .ok limits
  judgmentItems_eq : memberItems payload "judgments" = .ok judgmentItems
  judgments_eq : judgmentItems.mapM (judgmentRecords asset) = .ok judgments
  exampleItems_eq : memberItems payload "examples" = .ok exampleItems
  results_eq : exampleItems.mapM exampleResults = .ok results
  revisions_eq : revisionRecords asset manifest = .ok revisions

theorem createRegistry_spec {manifest payload : Json} {records : List Record}
    (h : createRegistry manifest payload = .ok records) :
    ∃ asset, assetRef manifest = .ok asset ∧ Nonempty (Registered manifest payload asset records) ∧
      (records.map Record.target).Nodup := by
  simp only [createRegistry, authoredRecords, bind_eq_ok_iff, require_eq_ok_iff] at h
  obtain ⟨_, ⟨asset, hasset, roots, hroots, limits, hlimits, judgments, ⟨js, hjs, hjudgments⟩,
    results, ⟨xs, hxs, hresults⟩, revisions, hrevisions, hall⟩, _, hnodup, h⟩ := h
  obtain rfl := Except.ok.inj hall
  obtain rfl := Except.ok.inj h
  have hkind : asset.kind = .asset := by
    obtain ⟨uid, -, huid⟩ := bind_eq_ok_iff.mp hasset
    rw [← Except.ok.inj huid]
  exact ⟨asset, hasset, ⟨⟨roots, limits, judgments, results, revisions, js, xs, rfl, hkind, hroots,
    hlimits, hjs, hjudgments, hxs, hresults, hrevisions⟩⟩, hnodup⟩

section Kinds

variable {manifest payload : Json} {records : List Record}

/-- The records of the collections `cs`, one group each. -/
def GroupsOf (asset : Ref) (payload : Json) (cs : List (Kind × String))
    (groups : List (List Record)) : Prop :=
  List.Forall₂ (fun c rs => ∃ items, collection payload c.2 = .ok items ∧
    items.mapM (owned c.1 asset none none) = .ok rs) cs groups

theorem groupsOf_rootRecords {roots : List (List Record)}
    (h : rootRecords asset payload = .ok roots) : GroupsOf asset payload rootCollections roots := by
  rw [rootRecords, mapM_eq_ok_iff] at h
  exact h.imp fun _ _ hc => bind_eq_ok_iff.mp hc

theorem ownValues_groups_eq_nil {cs : List (Kind × String)} {groups : List (List Record)}
    (h : GroupsOf asset payload cs groups) (hkind : kind ∉ cs.map Prod.fst) :
    ownValues asset kind groups.flatten = [] := by
  induction h with
  | nil => rfl
  | cons hc _ ih =>
    obtain ⟨items, -, hrs⟩ := hc
    rw [List.map_cons, List.mem_cons, not_or] at hkind
    rw [List.flatten_cons, ownValues_append, ownValues_ownedAll hrs, if_neg (Ne.symm hkind.1),
      ih hkind.2, List.nil_append]

theorem ownValues_groups {cs : List (Kind × String)} {groups : List (List Record)}
    (h : GroupsOf asset payload cs groups) (hkinds : (cs.map Prod.fst).Nodup) {name : String}
    (hmem : (kind, name) ∈ cs) {items : List Json} (hitems : collection payload name = .ok items) :
    ownValues asset kind groups.flatten = items := by
  induction h with
  | nil => exact absurd hmem List.not_mem_nil
  | @cons c rs cs rss hc hcs ih =>
    obtain ⟨items', hitems', hrs⟩ := hc
    rw [List.map_cons, List.nodup_cons] at hkinds
    rw [List.flatten_cons, ownValues_append, ownValues_ownedAll hrs]
    rcases List.mem_cons.mp hmem with rfl | htail
    · obtain rfl : items = items' := Except.ok.inj (hitems.symm.trans hitems')
      rw [if_pos rfl, ownValues_groups_eq_nil hcs hkinds.1, List.append_nil]
    · have hne : ¬ c.1 = kind := fun heq =>
        hkinds.1 (List.mem_map.mpr ⟨(kind, name), htail, heq.symm⟩)
      rw [if_neg hne, ih hkinds.2 htail, List.nil_append]

/-- No judgment's record is owned outside the judgments. -/
theorem ownValues_judgments {js : List Json} {groups : List (List Record)}
    (h : js.mapM (judgmentRecords asset) = .ok groups) :
    ownValues asset kind groups.flatten = [] := by
  refine ownValues_eq_nil fun r hr hown => ?_
  obtain ⟨rs, hrs, hmem⟩ := List.mem_flatten.mp hr
  obtain ⟨j, -, hj⟩ := exists_of_mem_mapM h hrs
  obtain ⟨id, bodies, -, rfl, hbodies⟩ := judgmentRecords_spec hj
  rcases List.mem_cons.mp hmem with rfl | hbody
  · exact nomatch hown.2.1
  · exact nomatch (hbodies r hbody).judgment.symm.trans hown.2.1

/-- No result of an example is owned by the asset. -/
theorem ownValues_results (hasset : asset.kind = .asset) {xs : List Json}
    {groups : List (List Record)} (h : xs.mapM exampleResults = .ok groups) :
    ownValues asset kind groups.flatten = [] := by
  refine ownValues_eq_nil fun r hr hown => ?_
  obtain ⟨rs, hrs, hmem⟩ := List.mem_flatten.mp hr
  obtain ⟨x, -, hx⟩ := exists_of_mem_mapM h hrs
  simp only [exampleResults, bind_eq_ok_iff] at hx
  obtain ⟨id, -, results, -, hresults⟩ := hx
  have howner := ((ownedAll_spec hresults).2 r hmem).2.1
  exact nomatch (congrArg Ref.kind (howner.symm.trans hown.2.2)).trans hasset

theorem ownValues_revisions {revisions : List Record} (hkind : kind ≠ .revision)
    (h : revisionRecords asset manifest = .ok revisions) : ownValues asset kind revisions = [] := by
  simp only [revisionRecords, bind_eq_ok_iff] at h
  obtain ⟨history, -, items, -, hrevisions⟩ := h
  rw [ownValues_ownedAll hrevisions, if_neg (Ne.symm hkind)]

/-- What the asset owns directly comes from the root collections and the asset's own
restrictions. -/
theorem Registered.ownValues_eq (h : Registered manifest payload asset records)
    (hasset : kind ≠ .asset) (hrevision : kind ≠ .revision) :
    ownValues asset kind records =
      ownValues asset kind h.roots.flatten ++ ownValues asset kind h.limits := by
  have hfirst : ownValues asset kind [⟨asset, asset, .null, none, none⟩] = [] :=
    ownValues_eq_nil (List.forall_mem_singleton.mpr fun hown =>
      hasset (hown.1.symm.trans h.kind))
  have hsplit : ownValues asset kind records = ownValues asset kind
      ([⟨asset, asset, .null, none, none⟩] ++ h.roots.flatten ++ h.limits ++ h.judgments.flatten ++
        h.results.flatten ++ h.revisions) := congrArg _ h.records_eq
  rw [hsplit, ownValues_append, ownValues_append, ownValues_append, ownValues_append,
    ownValues_append, hfirst, ownValues_judgments h.judgments_eq,
    ownValues_results h.kind h.results_eq, ownValues_revisions hrevision h.revisions_eq]
  simp only [List.nil_append, List.append_nil]

theorem collection_of_memberItems {name : String} {items : List Json}
    (h : memberItems payload name = .ok items) : collection payload name = .ok items := by
  rw [collection, Value.present, memberItems_eq_ok_iff.mp h]
  rfl

/-- The records of a root collection hold its items. -/
theorem Registered.ownValues_root (h : Registered manifest payload asset records) {name : String}
    (hmem : (kind, name) ∈ rootCollections) {items : List Json}
    (hitems : memberItems payload name = .ok items) : ownValues asset kind records = items := by
  have hcollection : collection payload name = .ok items := collection_of_memberItems hitems
  have hothers : ∀ c ∈ rootCollections, c.1 ≠ .asset ∧ c.1 ≠ .revision ∧ c.1 ≠ .boundary ∧
      c.1 ≠ .exception ∧ c.1 ≠ .misuse := by decide
  obtain ⟨hasset, hrevision, hboundary, hexception, hmisuse⟩ := hothers _ hmem
  have hlimits := h.limits_eq
  simp only [assetRestrictions, bind_eq_ok_iff] at hlimits
  obtain ⟨_, -, bs, -, es, -, ms, -, hlimits⟩ := hlimits
  rw [h.ownValues_eq hasset hrevision, ownValues_restrictions h.kind hlimits, if_neg hboundary,
    if_neg hexception, if_neg hmisuse, List.append_nil]
  exact ownValues_groups (groupsOf_rootRecords h.roots_eq) (by decide) hmem hcollection

/-- The items of a root collection have records of their own, in order. -/
theorem Registered.rootGroup (h : Registered manifest payload asset records) {name : String}
    (hmem : (kind, name) ∈ rootCollections) {items : List Json}
    (hitems : memberItems payload name = .ok items) :
    ∃ rs, items.mapM (owned kind asset none none) = .ok rs ∧ rs.Sublist records := by
  have hcollection : collection payload name = .ok items := collection_of_memberItems hitems
  obtain ⟨rs, hrs, hgroup⟩ := exists_mem_mapM h.roots_eq hmem
  simp only [hcollection, ok_bind] at hgroup
  refine ⟨rs, hgroup, ?_⟩
  rw [h.records_eq]
  have hroots : rs.Sublist h.roots.flatten := List.sublist_flatten_of_mem hrs
  have hfirst : rs.Sublist (⟨asset, asset, .null, none, none⟩ :: h.roots.flatten) := hroots.cons _
  exact (((hfirst.trans (List.sublist_append_left _ _)).trans (List.sublist_append_left _ _)).trans
    (List.sublist_append_left _ _)).trans (List.sublist_append_left _ _)

/-- The records of the asset's own restrictions hold its boundaries, exceptions and
misuse. -/
theorem Registered.ownValues_limits (h : Registered manifest payload asset records)
    {declarations : Json} {boundaries exceptions misuse : List Json}
    (hdeclarations : member payload "declarations" = .ok declarations)
    (hboundaries : declaredValues declarations "boundaries" = .ok boundaries)
    (hexceptions : memberItems payload "exceptions" = .ok exceptions)
    (hmisuse : memberItems payload "misuse" = .ok misuse) :
    ownValues asset .boundary records = boundaries ∧
      ownValues asset .exception records = exceptions ∧
      ownValues asset .misuse records = misuse := by
  have hlimits := h.limits_eq
  rw [assetRestrictions, hdeclarations, ok_bind, hboundaries, ok_bind, hexceptions, ok_bind,
    hmisuse, ok_bind] at hlimits
  have hroots := groupsOf_rootRecords h.roots_eq
  have hkind : ∀ k : Kind, k ∉ rootCollections.map Prod.fst → k ≠ .asset → k ≠ .revision →
      ownValues asset k records = ownValues asset k h.limits := by
    intro k hk hasset hrevision
    rw [h.ownValues_eq hasset hrevision, ownValues_groups_eq_nil hroots hk, List.nil_append]
  refine ⟨?_, ?_, ?_⟩
  · rw [hkind _ (by decide) (by decide) (by decide), ownValues_restrictions h.kind hlimits]
    rfl
  · rw [hkind _ (by decide) (by decide) (by decide), ownValues_restrictions h.kind hlimits]
    rfl
  · rw [hkind _ (by decide) (by decide) (by decide), ownValues_restrictions h.kind hlimits]
    rfl

/-- The values of all records of a kind. -/
def valuesOf (kind : Kind) (records : List Record) : List Json :=
  (records.filter fun r => r.target.kind = kind).map Record.value

theorem valuesOf_append (rs ss : List Record) :
    valuesOf kind (rs ++ ss) = valuesOf kind rs ++ valuesOf kind ss := by
  rw [valuesOf, List.filter_append, List.map_append]
  rfl

theorem valuesOf_eq_nil {rs : List Record} (h : ∀ r ∈ rs, r.target.kind ≠ kind) :
    valuesOf kind rs = [] := by
  rw [valuesOf, List.filter_eq_nil_iff.mpr fun r hr => by simpa using h r hr, List.map_nil]

/-- Outside the judgments nothing but the asset itself is an asset or a judgment. -/
theorem Registered.others (h : Registered manifest payload asset records) :
    ∀ r ∈ h.roots.flatten ++ h.limits ++ h.results.flatten ++ h.revisions,
      r.target.kind ≠ .asset ∧ r.target.kind ≠ .judgment := by
  have hplain : ∀ {k : Kind} {r : Record}, k ≠ .asset ∧ k ≠ .judgment → r.target.kind = k →
      r.target.kind ≠ .asset ∧ r.target.kind ≠ .judgment := by
    rintro k r hk rfl
    exact hk
  intro r hr
  simp only [List.mem_append, or_assoc] at hr
  rcases hr with hr | hr | hr | hr
  · obtain ⟨rs, hrs, hmem⟩ := List.mem_flatten.mp hr
    obtain ⟨c, hc, hstep⟩ := exists_of_mem_mapM h.roots_eq hrs
    obtain ⟨items, -, hitems⟩ := bind_eq_ok_iff.mp hstep
    have hkinds : ∀ c ∈ rootCollections, c.1 ≠ .asset ∧ c.1 ≠ .judgment := by decide
    exact hplain (hkinds c hc) ((ownedAll_spec hitems).2 r hmem).1
  · have hlimits := h.limits_eq
    simp only [assetRestrictions, bind_eq_ok_iff] at hlimits
    obtain ⟨_, -, bs, -, es, -, ms, -, hlimits⟩ := hlimits
    have hkinds : ∀ k ∈ [Kind.boundary, .exception, .misuse], k ≠ .asset ∧ k ≠ .judgment := by decide
    exact hkinds _ (restrictions_kinds hlimits r hr).2
  · obtain ⟨rs, hrs, hmem⟩ := List.mem_flatten.mp hr
    obtain ⟨x, -, hx⟩ := exists_of_mem_mapM h.results_eq hrs
    simp only [exampleResults, bind_eq_ok_iff] at hx
    obtain ⟨id, -, results, -, hresults⟩ := hx
    exact hplain (by decide) ((ownedAll_spec hresults).2 r hmem).1
  · have hrevisions := h.revisions_eq
    simp only [revisionRecords, bind_eq_ok_iff] at hrevisions
    obtain ⟨history, -, items, -, hrevisions⟩ := hrevisions
    exact hplain (by decide) ((ownedAll_spec hrevisions).2 r hr).1

theorem valuesOf_judgmentGroups {js : List Json} {groups : List (List Record)}
    (h : js.mapM (judgmentRecords asset) = .ok groups) : valuesOf .judgment groups.flatten = js := by
  rw [mapM_eq_ok_iff] at h
  induction h with
  | nil => rfl
  | cons hj _ ih =>
    obtain ⟨id, bodies, -, rfl, hbodies⟩ := judgmentRecords_spec hj
    rw [List.flatten_cons, valuesOf_append, ih, ← List.singleton_append, valuesOf_append,
      valuesOf_eq_nil fun r hr => (hbodies r hr).notJudgment]
    rfl

/-- The judgments' records hold the judgments. -/
theorem Registered.valuesOf_judgment (h : Registered manifest payload asset records) :
    valuesOf .judgment records = h.judgmentItems := by
  have hothers : ∀ rs : List Record,
      (∀ r ∈ rs, r ∈ h.roots.flatten ++ h.limits ++ h.results.flatten ++ h.revisions) →
      valuesOf .judgment rs = [] :=
    fun rs hrs => valuesOf_eq_nil fun r hr => (h.others r (hrs r hr)).2
  have hfirst : valuesOf .judgment [⟨asset, asset, .null, none, none⟩] = [] :=
    valuesOf_eq_nil (List.forall_mem_singleton.mpr fun hj => nomatch h.kind.symm.trans hj)
  have hsplit : valuesOf .judgment records = valuesOf .judgment
      ([⟨asset, asset, .null, none, none⟩] ++ h.roots.flatten ++ h.limits ++ h.judgments.flatten ++
        h.results.flatten ++ h.revisions) := congrArg _ h.records_eq
  rw [hsplit, valuesOf_append, valuesOf_append, valuesOf_append, valuesOf_append, valuesOf_append,
    hfirst, valuesOf_judgmentGroups h.judgments_eq,
    hothers h.roots.flatten fun r hr => by simp [hr], hothers h.limits fun r hr => by simp [hr],
    hothers h.results.flatten fun r hr => by simp only [List.mem_append, hr, or_true, true_or],
    hothers h.revisions fun r hr => by simp [hr]]
  simp only [List.nil_append, List.append_nil]

/-- The records of a kind that no judgment owns and that has a root collection are the
asset's own. -/
theorem Registered.ownedBy_of_kind (h : Registered manifest payload asset records)
    (hroot : kind ∈ rootCollections.map Prod.fst) (hbody : kind ∉ bodyKinds) {r : Record}
    (hr : r ∈ records) (hkind : r.target.kind = kind) : r.OwnedBy asset kind := by
  have hothers : ∀ k ∈ rootCollections.map Prod.fst, k ∉ bodyKinds →
      k ≠ .asset ∧ k ≠ .judgment ∧ k ≠ .exampleResult ∧ k ≠ .revision := by decide
  obtain ⟨hasset, hjudgment, hresult, hrevision⟩ := hothers kind hroot hbody
  have hmem : r ∈ ⟨asset, asset, .null, none, none⟩ :: h.roots.flatten ++ h.limits ++
      h.judgments.flatten ++ h.results.flatten ++ h.revisions := h.records_eq ▸ hr
  simp only [List.mem_append, List.mem_cons, or_assoc] at hmem
  rcases hmem with rfl | hmem | hmem | hmem | hmem | hmem
  · exact absurd (hkind.symm.trans h.kind) hasset
  · obtain ⟨rs, hrs, hmem⟩ := List.mem_flatten.mp hmem
    obtain ⟨c, -, hstep⟩ := exists_of_mem_mapM h.roots_eq hrs
    obtain ⟨items, -, hitems⟩ := bind_eq_ok_iff.mp hstep
    obtain ⟨-, howner, hid⟩ := (ownedAll_spec hitems).2 r hmem
    exact ⟨hkind, hid, howner⟩
  · have hlimits := h.limits_eq
    simp only [assetRestrictions, bind_eq_ok_iff] at hlimits
    obtain ⟨_, -, bs, -, es, -, ms, -, hlimits⟩ := hlimits
    have hkinds : ∀ k ∈ [Kind.boundary, .exception, .misuse], k ∈ bodyKinds := by decide
    exact absurd (hkind ▸ hkinds _ (restrictions_kinds hlimits r hmem).2) hbody
  · obtain ⟨rs, hrs, hmem⟩ := List.mem_flatten.mp hmem
    obtain ⟨j, -, hj⟩ := exists_of_mem_mapM h.judgments_eq hrs
    obtain ⟨id, bodies, -, rfl, hbodies⟩ := judgmentRecords_spec hj
    rcases List.mem_cons.mp hmem with rfl | hmem
    · exact absurd hkind.symm hjudgment
    · exact absurd (hkind ▸ (hbodies r hmem).mem_kinds) hbody
  · obtain ⟨rs, hrs, hmem⟩ := List.mem_flatten.mp hmem
    obtain ⟨x, -, hx⟩ := exists_of_mem_mapM h.results_eq hrs
    simp only [exampleResults, bind_eq_ok_iff] at hx
    obtain ⟨id, -, results, -, hresults⟩ := hx
    exact absurd (hkind.symm.trans ((ownedAll_spec hresults).2 r hmem).1) hresult
  · have hrevisions := h.revisions_eq
    simp only [revisionRecords, bind_eq_ok_iff] at hrevisions
    obtain ⟨history, -, items, -, hrevisions⟩ := hrevisions
    exact absurd (hkind.symm.trans ((ownedAll_spec hrevisions).2 r hmem).1) hrevision

/-- The only record of the kind `asset` is the first. -/
theorem Registered.filter_asset (h : Registered manifest payload asset records) :
    (records.filter fun r => r.target.kind = .asset) = [⟨asset, asset, .null, none, none⟩] := by
  have hrest : ∀ r ∈ h.roots.flatten ++ h.limits ++ h.judgments.flatten ++ h.results.flatten ++
      h.revisions, r.target.kind ≠ .asset := by
    intro r hr
    by_cases hj : r ∈ h.judgments.flatten
    · obtain ⟨rs, hrs, hmem⟩ := List.mem_flatten.mp hj
      obtain ⟨j, -, hstep⟩ := exists_of_mem_mapM h.judgments_eq hrs
      obtain ⟨id, bodies, -, rfl, hbodies⟩ := judgmentRecords_spec hstep
      rcases List.mem_cons.mp hmem with rfl | hbody
      · exact fun hkind => nomatch hkind
      · exact (hbodies r hbody).notAsset
    · simp only [List.mem_append, hj, or_false] at hr
      exact (h.others r (by simpa only [List.mem_append] using hr)).1
  have hsplit := h.records_eq
  simp only [List.cons_append] at hsplit
  rw [hsplit, List.filter_cons_of_pos (by simpa using h.kind),
    List.filter_eq_nil_iff.mpr fun r hr => by simpa using hrest r hr]

end Kinds

section Origins

variable {manifest payload : Json} {asset : Ref} {records : List Record} {c : Record}

/-- A limit that replaces another is not always active. -/
theorem exceptionRecords_inactive {owner : Ref} {judgment : Option String} {e : Json}
    {rs : List Record} (h : exceptionRecords owner judgment e = .ok rs) (hc : c ∈ rs) :
    c.activation.any (·.propIs "kind" "always") = false := by
  simp only [exceptionRecords, bind_eq_ok_iff, owned_eq_ok_iff] at h
  obtain ⟨_, ⟨id, -, rfl⟩, effect, -, h⟩ := h
  split at h
  · simp only [bind_eq_ok_iff, owned_eq_ok_iff, pure_eq_ok, Except.ok.injEq] at h
    obtain ⟨replacement, -, _, ⟨id', -, rfl⟩, rfl⟩ := h
    rcases List.mem_cons.mp hc with rfl | hc
    · rfl
    · rw [List.mem_singleton.mp hc]
      rfl
  · obtain rfl := Except.ok.inj h
    rw [List.mem_singleton.mp hc]
    rfl

/-- A record of a list of objects is that of one of them. -/
theorem item_of_owned {kind : Kind} {owner : Ref} {judgment : Option String} {activation : Option Json}
    {items : List Json} {rs : List Record}
    (h : items.mapM (owned kind owner judgment activation) = .ok rs) (hc : c ∈ rs) :
    c.value ∈ items ∧ c.target.kind = kind ∧ c.value.prop "id" = some (.str c.target.id) := by
  obtain ⟨item, hitem, hc⟩ := exists_of_mem_mapM h hc
  obtain ⟨id, hid, rfl⟩ := owned_eq_ok_iff.mp hc
  exact ⟨hitem, rfl, hid⟩

/-- Where the records that no judgment has come from. -/
theorem Registered.origin (h : Registered manifest payload asset records) (hc : c ∈ records)
    (hnone : c.judgment = none) (hkind : c.target.kind ∉ [Kind.asset, .exampleResult, .revision]) :
    (∃ name items, (c.target.kind, name) ∈ rootCollections ∧ collection payload name = .ok items ∧
      c.value ∈ items ∧ c.value.prop "id" = some (.str c.target.id)) ∨
    (c.target.kind ∈ [Kind.boundary, .exception, .misuse] ∧ (c.target.kind = .boundary →
      c.activation.any (·.propIs "kind" "always") = true → ∃ declarations items,
        member payload "declarations" = .ok declarations ∧
        declaredValues declarations "boundaries" = .ok items ∧ c.value ∈ items ∧
        c.value.prop "id" = some (.str c.target.id))) := by
  simp only [List.mem_cons, List.not_mem_nil, or_false, not_or] at hkind
  obtain ⟨hasset, hresult, hrevision⟩ := hkind
  have hmem : c ∈ ⟨asset, asset, .null, none, none⟩ :: h.roots.flatten ++ h.limits ++
      h.judgments.flatten ++ h.results.flatten ++ h.revisions := h.records_eq ▸ hc
  simp only [List.mem_append, List.mem_cons, or_assoc] at hmem
  rcases hmem with rfl | hmem | hmem | hmem | hmem | hmem
  · exact absurd h.kind hasset
  · obtain ⟨rs, hrs, hmem⟩ := List.mem_flatten.mp hmem
    obtain ⟨⟨kind, name⟩, hcollection, hstep⟩ := exists_of_mem_mapM h.roots_eq hrs
    obtain ⟨items, hitems, howned⟩ := bind_eq_ok_iff.mp hstep
    obtain ⟨hitem, rfl, hid⟩ := item_of_owned howned hmem
    exact .inl ⟨name, items, hcollection, hitems, hitem, hid⟩
  · have hlimits := h.limits_eq
    simp only [assetRestrictions, bind_eq_ok_iff] at hlimits
    obtain ⟨declarations, hdeclarations, items, hitems, es, -, ms, -, hlimits⟩ := hlimits
    refine .inr ⟨(restrictions_kinds hlimits c hmem).2, fun hboundary halways => ?_⟩
    obtain ⟨limits, exempt, misused, heq, hbs, hes, hms⟩ := restrictions_spec hlimits
    simp only [heq, List.mem_append, or_assoc] at hmem
    rcases hmem with hmem | hmem | hmem
    · obtain ⟨hitem, -, hid⟩ := item_of_owned hbs hmem
      exact ⟨declarations, items, hdeclarations, hitems, hitem, hid⟩
    · obtain ⟨rs, hrs, hmem⟩ := List.mem_flatten.mp hmem
      obtain ⟨e, -, he⟩ := exists_of_mem_mapM hes hrs
      rw [exceptionRecords_inactive he hmem] at halways
      cases halways
    · exact absurd (hboundary.symm.trans (item_of_owned hms hmem).2.1) (by decide)
  · obtain ⟨rs, hrs, hmem⟩ := List.mem_flatten.mp hmem
    obtain ⟨j, -, hj⟩ := exists_of_mem_mapM h.judgments_eq hrs
    obtain ⟨id, bodies, -, rfl, hbodies⟩ := judgmentRecords_spec hj
    rcases List.mem_cons.mp hmem with rfl | hmem
    · cases hnone
    · rw [(hbodies c hmem).judgment] at hnone
      cases hnone
  · obtain ⟨rs, hrs, hmem⟩ := List.mem_flatten.mp hmem
    obtain ⟨x, -, hx⟩ := exists_of_mem_mapM h.results_eq hrs
    simp only [exampleResults, bind_eq_ok_iff] at hx
    obtain ⟨id, -, results, -, hresults⟩ := hx
    exact absurd (item_of_owned hresults hmem).2.1 hresult
  · have hrevisions := h.revisions_eq
    simp only [revisionRecords, bind_eq_ok_iff] at hrevisions
    obtain ⟨history, -, items, -, hrevisions⟩ := hrevisions
    exact absurd (item_of_owned hrevisions hmem).2.1 hrevision

/-- A registered judgment is one of the payload's. -/
theorem Registered.exists_judgment (h : Registered manifest payload asset records) {id : String}
    (hid : ⟨.judgment, id⟩ ∈ records.map Record.target) :
    ∃ j ∈ h.judgmentItems, j.prop "id" = some (.str id) := by
  obtain ⟨c, hc, htarget⟩ := List.mem_map.mp hid
  have hkind : c.target.kind = .judgment := by rw [htarget]
  have hmem : c ∈ ⟨asset, asset, .null, none, none⟩ :: h.roots.flatten ++ h.limits ++
      h.judgments.flatten ++ h.results.flatten ++ h.revisions := h.records_eq ▸ hc
  by_cases hj : c ∈ h.judgments.flatten
  · obtain ⟨rs, hrs, hmem⟩ := List.mem_flatten.mp hj
    obtain ⟨j, hitem, hstep⟩ := exists_of_mem_mapM h.judgments_eq hrs
    obtain ⟨id', bodies, hid', rfl, hbodies⟩ := judgmentRecords_spec hstep
    rcases List.mem_cons.mp hmem with rfl | hmem
    · obtain rfl : id' = id := congrArg Ref.id htarget
      exact ⟨j, hitem, hid'⟩
    · exact absurd hkind (hbodies c hmem).notJudgment
  · have hothers : c ≠ ⟨asset, asset, .null, none, none⟩ := by
      rintro rfl
      exact absurd (h.kind.symm.trans hkind) (by decide)
    refine absurd hkind (h.others c ?_).2
    simp only [List.mem_append, List.mem_cons] at hmem ⊢
    tauto

end Origins

end Kdna.Ir

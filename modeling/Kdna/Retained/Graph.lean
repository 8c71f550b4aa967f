import Kdna.Ir.ClosureExact
import Kdna.Retained.Plan

/-!
# The planner's walk on a built IR

The walk over the mandatory references of an IR finds the scopes that the IR records, and the
rows that a plan reads are there.
-/

namespace Kdna.Retained

open Value Ir Read

/-- The elements of a part, taken in the order of the whole, are the part. -/
theorem filter_mem_of_sublist {l l' : List String} (h : l.Sublist l') (hnodup : l'.Nodup) :
    l'.filter (· ∈ l) = l := by
  induction h with
  | slnil => rfl
  | cons a h ih =>
    rw [List.nodup_cons] at hnodup
    rw [List.filter_cons_of_neg (by simpa using fun hmem => hnodup.1 (h.subset hmem)),
      ih hnodup.2]
  | cons_cons a h ih =>
    rw [List.nodup_cons] at hnodup
    rw [List.filter_cons_of_pos (by simp)]
    refine congrArg (a :: ·) (Eq.trans (List.filter_congr fun x hx => ?_) (ih hnodup.2))
    have hne : x ≠ a := fun heq => hnodup.1 (heq ▸ hx)
    simp [hne]

theorem textOf_eq_some_iff {row : Json} {name t : String} :
    textOf row name = some t ↔ row.prop name = some (.str t) := by
  rw [textOf, Option.bind_eq_some_iff]
  constructor
  · rintro ⟨v, hv, ht⟩
    cases v <;> simp_all [text?]
  · exact fun h => ⟨_, h, rfl⟩

theorem within_iff {ids : List String} {row : Json} {name : String} :
    within ids row name = true ↔ ∃ id ∈ ids, textOf row name = some id := by
  rw [within, Option.any_eq_true]
  constructor
  · rintro ⟨id, hid, hmem⟩
    exact ⟨id, by simpa using hmem, hid⟩
  · rintro ⟨id, hmem, hid⟩
    exact ⟨id, hid, by simpa using hmem⟩

theorem texts_map_str (ids : List String) : texts? (.arr (ids.map .str)) = some ids := by
  rw [texts?, items?, Option.bind_some, List.mapM_map]
  induction ids with
  | nil => rfl
  | cons id ids ih =>
    rw [List.mapM_cons, ih]
    rfl

/-- What a reading of the payload meets: the foundations of its kernel and the participants of
each relationship are lists. -/
def Readable (payload : Json) : Prop :=
  (∃ kernel refs, payload.prop "kernel" = some kernel ∧
    kernel.prop "foundation_refs" = some (.arr refs)) ∧
  ∀ relationships, payload.prop "relationships" = some (.arr relationships) →
    ∀ r ∈ relationships, ∃ rows, r.prop "participants" = some (.arr rows)

variable {core : Core} {manifest payload : Json} {entries : Entries} {ir : CanonicalIr}

/-- A built IR whose identities have digits of their own, with links between its records. -/
structure Sound (b : Built core manifest payload entries ir) : Prop where
  free : CollisionFree core ir.asset (identities b.targets b.links)
  linked : ∃ s : Linking, Consistent b.targets s ∧ s.links = b.links
  memory : InMemory payload
  readable : Readable payload

variable {b : Built core manifest payload entries ir}

theorem nodeIds_eq (b : Built core manifest payload entries ir) :
    ir.nodes.filterMap idOf = b.targets.map b.nodeId :=
  filterMap_text b.nodeIds_eq

theorem nodeFor_eq_ok {t : Ref} (ht : t ∈ b.targets) : nodeFor b.nodes t = .ok (b.nodeId t) := by
  obtain ⟨n, hn, rfl, -⟩ := b.exists_node ht
  have hsome : (b.nodes.find? fun m => m.target = n.target).isSome :=
    List.find?_isSome.mpr ⟨n, hn, by simp⟩
  obtain ⟨m, hm⟩ := Option.isSome_iff_exists.mp hsome
  rw [nodeFor, Built.nodeId, hm]
  rfl

namespace Sound

theorem nodup_nodeIds (h : Sound b) : (ir.nodes.filterMap idOf).Nodup :=
  nodeIds_eq b ▸ b.nodup_nodeIds h.free

/-- The planner follows the mandatory references. -/
theorem mem_requiredBy_iff (h : Sound b) {x y : String} :
    y ∈ requiredBy ir x ↔ ir.Requires x y := by
  rw [requiredBy, List.mem_map]
  constructor
  · rintro ⟨⟨x', y'⟩, hmem, rfl⟩
    obtain ⟨hedge, hsource⟩ := List.mem_filter.mp hmem
    obtain rfl : x' = x := of_decide_eq_true hsource
    obtain ⟨r, hr, hread⟩ := List.mem_filterMap.mp hedge
    obtain ⟨href, hmandatory⟩ := List.mem_filter.mp hr
    simp only [Option.bind_eq_bind, Option.bind_eq_some_iff, Option.pure_def, Option.some.injEq,
      Prod.mk.injEq, textOf_eq_some_iff] at hread
    obtain ⟨x', hx, y', hy, rfl, rfl⟩ := hread
    refine ⟨r, href, hx, hy, ?_⟩
    obtain ⟨a, -, -, -, id, -, rfl⟩ := exists_of_mem_forall₂ (b.references_forall₂ h.free) href
    have hread : Value.prop (.obj [("id", .str id), ("source_node", .str (b.nodeId a.source)),
        ("target_node", .str (b.nodeId a.target)), ("role", .str (meaningRole a.meaning)),
        ("mandatory", .bool a.meaning.2)]) "mandatory" = some (.bool a.meaning.2) := by simp
    rw [given, hread] at hmandatory
    rw [hread]
    cases hstrong : a.meaning.2 with
    | true => rfl
    | false =>
      rw [hstrong] at hmandatory
      exact absurd hmandatory (by decide)
  · rintro ⟨r, hr, hx, hy, hmandatory⟩
    refine ⟨(x, y), List.mem_filter.mpr ⟨List.mem_filterMap.mpr ⟨r, ?_, ?_⟩, by simp⟩, rfl⟩
    · refine List.mem_filter.mpr ⟨hr, ?_⟩
      rw [given, hmandatory]
      rfl
    · simp only [textOf_eq_some_iff.mpr hx, textOf_eq_some_iff.mpr hy]
      rfl

/-- The walk from the nodes of some targets finds their exact scope. -/
theorem closureOf_eq (h : Sound b) {seeds : List Ref} {scope input : List String}
    (hscope : ir.ExactScope seeds scope)
    (hinput : ∀ id, id ∈ input ↔ ∃ t ∈ seeds, ir.StandsFor t id) :
    closureOf ir input = .ok scope := by
  obtain ⟨s, hconsistent, hlinks⟩ := h.linked
  have hnext : ∀ r, ∀ t ∈ requiredBy ir r, t ∈ ir.nodes.filterMap idOf := by
    intro r t ht
    obtain ⟨t', u, -, hmem, rfl, rfl⟩ :=
      (b.requires_iff h.free hlinks hconsistent).mp (h.mem_requiredBy_iff.mp ht)
    rw [nodeIds_eq b]
    exact List.mem_map_of_mem (known_of_mandatory hconsistent (hlinks ▸ hmem)).2
  obtain ⟨all, hall⟩ : ∃ all, reach Code.projectionInvalid (ir.nodes.filterMap idOf) (requiredBy ir)
      (turns (ir.nodes.filterMap idOf) input input) input input = .ok all :=
    reach_isOk hnext (le_refl _)
  have hleast := reach_isLeast hall (fun _ ht => ht) fun r hr => .inl hr
  have hsets : LinkClosed (requiredBy ir) input = ir.ClosedSets seeds := by
    ext S
    refine and_congr ⟨fun hS t ht id hid => hS id ((hinput id).mpr ⟨t, ht, hid⟩),
      fun hS id hid => ?_⟩ ⟨fun hS x hx y hy => hS x hx y (h.mem_requiredBy_iff.mpr hy),
        fun hS x hx y hy => hS x hx y (h.mem_requiredBy_iff.mp hy)⟩
    obtain ⟨t, ht, hstands⟩ := (hinput id).mp hid
    exact hS t ht id hstands
  rw [hsets] at hleast
  have hmem (id : String) : id ∈ all ↔ id ∈ scope := Set.ext_iff.mp (hleast.unique hscope.least) id
  rw [closureOf, hall, ok_bind, pure_eq_ok]
  have hsub : scope.Sublist (ir.nodes.filterMap idOf) := hscope.ordered
  rw [← filter_mem_of_sublist hsub h.nodup_nodeIds]
  refine congrArg Except.ok (List.filter_congr fun id _ => ?_)
  rw [decide_eq_decide]
  exact hmem id

/-- Every list of targets has its exact scope. -/
theorem exists_scope (h : Sound b) {seeds : List Ref} (hseeds : ∀ t ∈ seeds, t ∈ b.targets) :
    ∃ scope, ir.ExactScope seeds scope := by
  obtain ⟨s, hconsistent, hlinks⟩ := h.linked
  have htargets : b.records.map Record.target = b.targets := map_target_registryWithAsset ..
  obtain ⟨closed, hclosed⟩ : ∃ closed, closure b.records b.links seeds = .ok closed :=
      closure_isOk b.targets_nodup
    (fun r _ t ht => htargets ▸ (known_of_mandatory hconsistent (hlinks ▸ ht)).2)
    (fun t ht => htargets ▸ hseeds t ht)
  have hknown : ∀ r ∈ closed, r.target ∈ b.targets := fun r hr =>
    htargets ▸ List.mem_map_of_mem ((closure_sublist hclosed).subset hr)
  have hscope : scopeFor b.records b.links b.nodes seeds =
      .ok (closed.map fun r => .str (b.nodeId r.target)) := by
    rw [scopeFor, hclosed, ok_bind, mapM_eq_ok_iff, List.forall₂_map_right_iff,
      List.forall₂_same]
    intro r hr
    rw [nodeFor_eq_ok (hknown r hr)]
    rfl
  obtain ⟨ids, -, hexact⟩ := b.exactScope h.free hlinks hconsistent hscope
  exact ⟨ids, hexact⟩

/-- The walk from the nodes of targets is exact. -/
theorem closureOf_targets (h : Sound b) {seeds : List Ref} (hseeds : ∀ t ∈ seeds, t ∈ b.targets) :
    ∃ scope, closureOf ir (seeds.map b.nodeId) = .ok scope ∧ ir.ExactScope seeds scope := by
  obtain ⟨scope, hscope⟩ := h.exists_scope hseeds
  refine ⟨scope, h.closureOf_eq hscope fun id => ?_, hscope⟩
  rw [List.mem_map]
  refine exists_congr fun t => and_congr_right fun ht => ?_
  rw [b.standsFor_iff, eq_comm]
  exact (and_iff_right (hseeds t ht)).symm

end Sound

section Rows

/-- The role tells the asset. -/
theorem role_eq_asset_iff {r : Ir.Record} : role r = "asset_declaration" ↔ r.target.kind = .asset := by
  constructor
  · intro h
    rw [role] at h
    split at h
    · exact absurd h (by decide)
    · generalize r.target.kind = kind at h
      cases kind
      case asset => rfl
      all_goals exact absurd h (by decide)
  · intro h
    rw [role, if_neg (by simp [h]), h]

/-- The asset is the only target of its kind. -/
theorem target_eq_asset (b : Built core manifest payload entries ir) {t : Ref} (ht : t ∈ b.targets)
    (hkind : t.kind = .asset) : t = b.asset := by
  obtain ⟨registry⟩ := b.registry
  obtain ⟨r, hr, rfl⟩ := List.mem_map.mp ht
  have hmem : r ∈ b.registered.filter fun r => r.target.kind = .asset :=
    List.mem_filter.mpr ⟨hr, by simpa using hkind⟩
  rw [registry.filter_asset, List.mem_singleton] at hmem
  rw [hmem]

theorem asset_mem (b : Built core manifest payload entries ir) : b.asset ∈ b.targets := by
  obtain ⟨registry⟩ := b.registry
  have hmem : (⟨b.asset, b.asset, .null, none, none⟩ : Ir.Record) ∈
      b.registered.filter fun r => r.target.kind = .asset := by
    rw [registry.filter_asset]
    exact List.mem_singleton_self _
  exact List.mem_map.mpr ⟨_, (List.mem_filter.mp hmem).1, rfl⟩

/-- A node of the IR stands for a target. -/
theorem exists_target (b : Built core manifest payload entries ir) {n : Json} (hn : n ∈ ir.nodes) :
    ∃ t ∈ b.targets, idOf n = some (b.nodeId t) ∧ n.prop "target" = some t.json ∧
      (roleIs n "asset_declaration" = true → t = b.asset) := by
  rw [b.json_eq, List.mem_map] at hn
  obtain ⟨n, hn, rfl⟩ := hn
  obtain ⟨r, -, hshows⟩ := b.exists_record hn
  refine ⟨n.target, b.target_mem hn, ?_, ?_, fun hrole => ?_⟩
  · rw [b.nodeId_target hn]
    exact textOf_eq_some_iff.mpr hshows.id_prop
  · rw [hshows.target_prop, hshows.target]
  · refine target_eq_asset b (b.target_mem hn) ?_
    have hrole' := propIs_eq_true_iff.mp hrole
    rw [hshows.role_prop] at hrole'
    rw [hshows.target]
    exact role_eq_asset_iff.mp (Value.str.inj (Option.some.inj hrole'))

/-- Every target has a node. -/
theorem exists_nodeOf (b : Built core manifest payload entries ir) {t : Ref} (ht : t ∈ b.targets) :
    ∃ n ∈ ir.nodes, idOf n = some (b.nodeId t) ∧ n.prop "target" = some t.json ∧
      (t = b.asset → roleIs n "asset_declaration" = true) := by
  obtain ⟨n, hn, rfl, hid⟩ := b.exists_node ht
  obtain ⟨r, -, hshows⟩ := b.exists_record hn
  refine ⟨n.json, b.json_eq ▸ List.mem_map_of_mem hn, ?_, ?_, fun hasset => ?_⟩
  · rw [← hid]
    exact textOf_eq_some_iff.mpr hshows.id_prop
  · rw [hshows.target_prop, hshows.target]
  · obtain ⟨registry⟩ := b.registry
    have hkind : r.target.kind = .asset := by rw [← hshows.target, hasset, registry.kind]
    rw [roleIs, propIs_eq_true_iff, hshows.role_prop, role_eq_asset_iff.mpr hkind]

/-- The id of the asset's node. -/
theorem assetId_eq (b : Built core manifest payload entries ir) :
    assetId ir = .ok (b.nodeId b.asset) := by
  obtain ⟨n, hn, -, -, hrole⟩ := exists_nodeOf b (asset_mem b)
  have hsome : (ir.nodes.find? (roleIs · "asset_declaration")).isSome :=
    List.find?_isSome.mpr ⟨n, hn, hrole rfl⟩
  obtain ⟨m, hm⟩ := Option.isSome_iff_exists.mp hsome
  obtain ⟨t, -, hid, -, hasset⟩ := exists_target b (List.mem_of_find?_eq_some hm)
  have hrole' : roleIs m "asset_declaration" = true := by simpa using List.find?_some hm
  rw [assetId, hm, Option.bind_some, hid, hasset hrole']
  rfl

/-- The ids of the catalog. -/
def catalogIds (ir : CanonicalIr) : List String := ir.catalog.filterMap (textOf · "judgment_id")

/-- A row of the catalog names a judgment and its node. -/
theorem catalog_row (b : Built core manifest payload entries ir) {row : Json}
    (hrow : row ∈ ir.catalog) :
    ∃ id, ∃ j ∈ b.judgments, j.prop "id" = some (.str id) ∧
      textOf row "judgment_id" = some id ∧ (⟨.judgment, id⟩ : Ref) ∈ b.targets ∧
      textOf row "node_ref" = some (b.nodeId ⟨.judgment, id⟩) := by
  obtain ⟨j, hj, hcatalog⟩ := exists_of_mem_mapM b.catalog_eq hrow
  simp only [catalogRow, bind_eq_ok_iff, memberText_eq_ok_iff, pure_eq_ok, Except.ok.injEq] at hcatalog
  obtain ⟨id, hid, focus, -, nodeRef, hnode, parent, -, lifecycle, -, rfl⟩ := hcatalog
  obtain ⟨hmem, rfl⟩ := b.nodeFor_spec hnode
  exact ⟨id, j, hj, hid, by simp [textOf, text?], hmem, by simp [textOf, text?]⟩

/-- The node of a judgment of the catalog. -/
theorem judgmentNode_eq (b : Built core manifest payload entries ir) {id : String}
    (hid : id ∈ catalogIds ir) :
    judgmentNode ir id = .ok (b.nodeId ⟨.judgment, id⟩) ∧ (⟨.judgment, id⟩ : Ref) ∈ b.targets := by
  obtain ⟨row, hrow, hread⟩ := List.mem_filterMap.mp hid
  have hsome : (ir.catalog.find? fun row => textOf row "judgment_id" = some id).isSome :=
    List.find?_isSome.mpr ⟨row, hrow, by simpa using hread⟩
  obtain ⟨found, hfound⟩ := Option.isSome_iff_exists.mp hsome
  obtain ⟨id', -, -, -, hid', hmem, hnode⟩ := catalog_row b (List.mem_of_find?_eq_some hfound)
  obtain rfl : id' = id := by
    have hsame : textOf found "judgment_id" = some id := by simpa using List.find?_some hfound
    exact Option.some.inj (hid'.symm.trans hsame)
  refine ⟨?_, hmem⟩
  rw [judgmentNode, hfound, Option.bind_some, hnode]
  rfl

/-- The targets from which a selection is walked. -/
def seedTargets (b : Built core manifest payload entries ir) (selection : Option SelectionSet) :
    List Ref :=
  b.asset :: ((selection.map SelectionSet.judgmentIds).getD []).map fun id => ⟨.judgment, id⟩

/-- A selection names judgments of the catalog only. -/
def Known (ir : CanonicalIr) (selection : Option SelectionSet) : Prop :=
  ∀ id ∈ (selection.map SelectionSet.judgmentIds).getD [], id ∈ catalogIds ir

theorem seedTargets_subset {selection : Option SelectionSet} (hknown : Known ir selection) :
    ∀ t ∈ seedTargets b selection, t ∈ b.targets := by
  rw [seedTargets, List.forall_mem_cons]
  refine ⟨asset_mem b, fun t ht => ?_⟩
  obtain ⟨id, hid, rfl⟩ := List.mem_map.mp ht
  exact (judgmentNode_eq b (hknown id hid)).2

theorem seedsOf_eq {selection : Option SelectionSet} (hknown : Known ir selection) :
    seedsOf ir selection = .ok ((seedTargets b selection).map b.nodeId) := by
  have hjudgments : ((selection.map SelectionSet.judgmentIds).getD []).mapM (judgmentNode ir) =
      .ok (((selection.map SelectionSet.judgmentIds).getD []).map fun id =>
        b.nodeId ⟨.judgment, id⟩) := by
    rw [mapM_eq_ok_iff, List.forall₂_map_right_iff, List.forall₂_same]
    exact fun id hid => (judgmentNode_eq b (hknown id hid)).1
  rw [seedsOf, assetId_eq b, ok_bind, hjudgments, ok_bind, seedTargets, List.map_cons, List.map_map]
  rfl

/-- A row of the index names a target and its node. -/
theorem index_row (b : Built core manifest payload entries ir) {d : Json} (hd : d ∈ ir.assetIndex) :
    ∃ t ∈ b.targets, d.prop "target" = some t.json ∧ textOf d "node_ref" = some (b.nodeId t) := by
  obtain ⟨r, -, hindex⟩ := exists_of_mem_mapM b.index_eq hd
  simp only [indexRow, bind_eq_ok_iff, pure_eq_ok, Except.ok.injEq] at hindex
  obtain ⟨name, -, nodeRef, hnode, rfl⟩ := hindex
  obtain ⟨hmem, rfl⟩ := b.nodeFor_spec hnode
  exact ⟨r.target, hmem, by simp, by simp [textOf, text?]⟩

/-- The recorded closure of a judgment of the catalog. -/
theorem Sound.storedClosure_eq (h : Sound b) {id : String} (hid : id ∈ catalogIds ir) :
    ∃ scope, storedClosure ir id = .ok scope ∧ ir.ExactScope [b.asset, ⟨.judgment, id⟩] scope := by
  obtain ⟨s, hconsistent, hlinks⟩ := h.linked
  have hclosures := b.closures_forall₂ h.free hlinks hconsistent
  have hread {row chosen : Json} {id' : String} (hselection : row.prop "selection" = some chosen)
      (hid' : chosen.prop "judgment_id" = some (.str id')) :
      (row.prop "selection").any (·.propIs "judgment_id" id) = decide (id' = id) := by
    rw [hselection, Option.any_some, Bool.eq_iff_iff, propIs_eq_true_iff, hid']
    simp
  obtain ⟨row, hrow, hname⟩ := List.mem_filterMap.mp hid
  obtain ⟨id', j, hj, hjid, hid', -⟩ := catalog_row b hrow
  obtain rfl : id' = id := Option.some.inj (hid'.symm.trans hname)
  obtain ⟨stored, hstored, id'', chosen, -, hid'', hselection, hchosen, -⟩ :=
    exists_mem_forall₂ hclosures hj
  obtain rfl : id'' = id' := Value.str.inj (Option.some.inj (hid''.symm.trans hjid))
  have hsome : (ir.mandatoryClosures.find? fun x =>
      (x.prop "selection").any (·.propIs "judgment_id" id'')).isSome :=
    List.find?_isSome.mpr ⟨stored, hstored, by rw [hread hselection hchosen]; simp⟩
  obtain ⟨found, hfound⟩ := Option.isSome_iff_exists.mp hsome
  obtain ⟨j', -, i, chosen', scope, -, hselection', hchosen', hnodes, hexact⟩ :=
    exists_of_mem_forall₂ hclosures (List.mem_of_find?_eq_some hfound)
  have hsame := List.find?_some hfound
  rw [hread hselection' hchosen', decide_eq_true_eq] at hsame
  refine ⟨scope, ?_, hsame ▸ hexact⟩
  rw [storedClosure, hfound]
  simp only [orFail, ok_bind, hnodes, Option.bind_some, texts_map_str]

end Rows

end Kdna.Retained

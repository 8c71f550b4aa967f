import Kdna.Ir.ReconstructExact

/-!
# The nodes of an admitted IR apart

The targets of an IR's nodes are pairwise different, and so are their canonical texts. A
relationship's node holds the row of the relationship.
-/

namespace Kdna.Ir

open Value

variable {core : Core} {manifest payload : Json} {entries : Entries} {ir : CanonicalIr}

/-- What admission leaves behind: a built IR that passes the strict check. -/
theorem admitPayload_spec {fields : SnapshotFields}
    (h : admitPayload core fields manifest payload entries = .ok ir) :
    Nonempty (Built core manifest payload entries ir) ∧ assertStrictJson ir.json = .ok () := by
  simp only [admitPayload, bind_eq_ok_iff, pure_eq_ok, Except.ok.injEq] at h
  obtain ⟨-, -, ir', hbuild, ⟨⟩, hstrict, rfl⟩ := h
  have hir : (snapshotData fields ir').prop "ir" = some ir'.json := by
    simp [snapshotData]
  exact ⟨buildIR_spec hbuild, strict_prop hstrict hir⟩

/-- The registry of a built IR with the value of the asset in it. -/
abbrev Built.records (b : Built core manifest payload entries ir) : List Record :=
  registryWithAsset b.asset b.value b.registered

/-- The targets of the records stay when the asset's value is put in. -/
theorem map_target_registryWithAsset (asset : Ref) (value : Json) (records : List Record) :
    (registryWithAsset asset value records).map Record.target = records.map Record.target := by
  rw [registryWithAsset, List.map_map]
  refine List.map_congr_left fun r _ => ?_
  by_cases hr : r.target = asset
  · simp [hr]
  · simp [hr]

theorem mem_of_mem_registryWithAsset {asset : Ref} {value : Json} {records : List Record} {r : Record}
    (h : r ∈ registryWithAsset asset value records) (hne : r.target ≠ asset) : r ∈ records := by
  rw [registryWithAsset, List.mem_map] at h
  obtain ⟨s, hs, rfl⟩ := h
  by_cases hasset : s.target = asset
  · rw [if_pos hasset] at hne
    exact absurd hasset hne
  · rwa [if_neg hasset]

theorem Built.targets_nodup (b : Built core manifest payload entries ir) :
    (b.records.map Record.target).Nodup := by
  obtain ⟨-, -, -, hnodup⟩ := createRegistry_spec b.registered_eq
  rwa [Built.records, map_target_registryWithAsset]

/-- Each node stands for the target of its record. -/
theorem Built.map_target (b : Built core manifest payload entries ir) :
    b.nodes.map Node.target = b.records.map Record.target := by
  have htargets : List.Forall₂ Eq (b.records.map Record.target) (b.nodes.map Node.target) := by
    rw [List.forall₂_map_left_iff, List.forall₂_map_right_iff]
    exact b.shows.imp fun _ _ hn => hn.target.symm
  exact (List.forall₂_eq_eq_eq ▸ htargets).symm

/-- No two nodes stand for one target. -/
theorem Built.node_eq (b : Built core manifest payload entries ir) {m n : Node} (hm : m ∈ b.nodes)
    (hn : n ∈ b.nodes) (h : m.target = n.target) : m = n :=
  List.inj_on_of_nodup_map (b.map_target ▸ b.targets_nodup) hm hn h

/-- Each node shows a record. -/
theorem Built.exists_record (b : Built core manifest payload entries ir) {n : Node}
    (hn : n ∈ b.nodes) : ∃ r ∈ b.records, Shows r n := by
  obtain ⟨r, hr, hnode⟩ := exists_of_mem_mapM b.nodes_eq hn
  exact ⟨r, hr, shows_of_node hnode⟩

section Admitted

variable (b : Built core manifest payload entries ir) (hstrict : assertStrictJson ir.json = .ok ())
include b hstrict

/-- The target of a node passes the strict check. -/
theorem Built.strict_target {n : Node} (hn : n ∈ b.nodes) :
    n.target.json.Strict (maxDepth + 1) := by
  obtain ⟨r, -, hshows⟩ := b.exists_record hn
  have hnode : assertStrictJson n.json = .ok () :=
    strict_item (strict_prop hstrict (prop_nodes ir)) (b.json_eq ▸ List.mem_map_of_mem hn)
  rw [hshows.target]
  exact (assertStrictJson_eq_ok_iff.mp (strict_prop hnode hshows.target_prop)).1

/-- Nodes whose targets have one canonical text are one node. -/
theorem Built.node_eq_of_canonicalText {m n v w : Json} (hm : m ∈ ir.nodes) (hn : n ∈ ir.nodes)
    (hv : m.prop "target" = some v) (hw : n.prop "target" = some w)
    (h : canonicalText v = canonicalText w) : m = n := by
  rw [b.json_eq, List.mem_map] at hm hn
  obtain ⟨m, hm, rfl⟩ := hm
  obtain ⟨n, hn, rfl⟩ := hn
  have hread : ∀ {n : Node}, n ∈ b.nodes → n.json.prop "target" = some n.target.json := by
    intro n hn
    obtain ⟨r, -, hshows⟩ := b.exists_record hn
    rw [hshows.target_prop, hshows.target]
  obtain rfl : m.target.json = v := Option.some.inj ((hread hm).symm.trans hv)
  obtain rfl : n.target.json = w := Option.some.inj ((hread hn).symm.trans hw)
  exact congrArg Node.json (b.node_eq hm hn
    (Ref.eq_of_canonicalText (b.strict_target hstrict hm) (b.strict_target hstrict hn) h))

end Admitted

/-- The role tells a relationship. -/
theorem role_eq_relationship {r : Record} (h : role r = "relationship") :
    r.target.kind = .relationship := by
  rw [role] at h
  split at h
  · exact absurd h (by decide)
  · generalize r.target.kind = kind at h
    cases kind
    case relationship => rfl
    all_goals exact absurd h (by decide)

/-- The relationships of an IR are the values of the records of their kind. -/
theorem Built.relationships_eq (b : Built core manifest payload entries ir) :
    ownValues b.asset .relationship b.records = ir.relationships := by
  obtain ⟨registry⟩ := b.registry
  rw [ownValues_registryWithAsset registry.kind _ (by decide)]
  exact registry.ownValues_root (by decide) (memberItems_eq_ok_iff.mpr b.relationships_prop)

/-- The node of a relationship holds its row. -/
theorem Built.relationshipNode (b : Built core manifest payload entries ir)
    (hpayload : InMemory payload) {n : Json} (hn : n ∈ ir.nodes)
    (hrole : n.propIs "role" "relationship" = true) :
    ∃ r ∈ ir.relationships, n.prop "value" = some r := by
  rw [b.json_eq, List.mem_map] at hn
  obtain ⟨n, hn, rfl⟩ := hn
  obtain ⟨r, hr, hshows⟩ := b.exists_record hn
  have hkind : r.target.kind = .relationship := by
    refine role_eq_relationship ?_
    have hrole' := propIs_eq_true_iff.mp hrole
    rw [hshows.role_prop] at hrole'
    exact Value.str.inj (Option.some.inj hrole')
  obtain ⟨registry⟩ := b.registry
  have hne : r.target ≠ b.asset := by
    intro heq
    rw [heq, registry.kind] at hkind
    exact nomatch hkind
  have hown : r.OwnedBy b.asset .relationship :=
    registry.ownedBy_of_kind (by decide) (by decide) (mem_of_mem_registryWithAsset hr hne) hkind
  have hmem : r.value ∈ ir.relationships := by
    rw [← b.relationships_eq, ownValues, List.mem_map]
    exact ⟨r, List.mem_filter.mpr ⟨hr, decide_eq_true hown⟩, rfl⟩
  obtain ⟨v, hv, hvalue⟩ := hshows.value_prop
  obtain rfl : v = r.value :=
    ((hpayload.prop b.relationships_prop).item hmem).copyJson hv
  exact ⟨r.value, hmem, hvalue⟩

/-- Relationships of one id are one relationship. -/
theorem Built.relationship_eq (b : Built core manifest payload entries ir) {r r' : Json}
    (hr : r ∈ ir.relationships) (hr' : r' ∈ ir.relationships)
    (h : (r.prop "id").bind text? = (r'.prop "id").bind text?) : r = r' := by
  obtain ⟨registry⟩ := b.registry
  have hgroup : (.relationship, "relationships") ∈ rootCollections := by decide
  obtain ⟨rs, hrs, hsub⟩ :=
    registry.rootGroup hgroup (memberItems_eq_ok_iff.mpr b.relationships_prop)
  have hnodup : (rs.map Record.target).Nodup := by
    obtain ⟨-, -, -, hnodup⟩ := createRegistry_spec b.registered_eq
    exact hnodup.sublist (hsub.map _)
  obtain ⟨s, hs, howned⟩ := exists_mem_mapM hrs hr
  obtain ⟨s', hs', howned'⟩ := exists_mem_mapM hrs hr'
  obtain ⟨id, hid, rfl⟩ := owned_eq_ok_iff.mp howned
  obtain ⟨id', hid', rfl⟩ := owned_eq_ok_iff.mp howned'
  rw [hid, hid'] at h
  obtain rfl : id = id' := Option.some.inj h
  exact congrArg Record.value (List.inj_on_of_nodup_map hnodup hs hs' rfl)

end Kdna.Ir

import Kdna.Ir.Canonical
import Kdna.Ir.Owned

/-!
# The nodes of an IR

Each record has one node, in the order of the registry, which shows the record's target,
its owner, its judgment and a copy of its value.
-/

namespace Kdna.Ir

/-- What `buildIR` computes on its way to an IR. -/
structure Built (core : Core) (manifest payload : Json) (entries : Entries) (ir : CanonicalIr) where
  asset : Ref
  registered : List Record
  links : Links
  methods : String → Option Json
  policies : String → Option Json
  value : Json
  nodes : List Node
  judgments : List Json
  asset_eq : assetRef manifest = .ok asset
  registered_eq : createRegistry manifest payload = .ok registered
  links_eq : core.validateR2 manifest payload entries registered = .ok links
  value_eq : assetValue manifest payload = .ok value
  asset_prop : payload.prop "asset" = some ir.asset
  nodes_eq : (registryWithAsset asset value registered).mapM
    (node core ir.asset methods policies) = .ok nodes
  json_eq : ir.nodes = nodes.map Node.json
  references_eq : references core ir.asset (registryWithAsset asset value registered) links nodes =
    .ok ir.references
  judgments_prop : payload.prop "judgments" = some (.arr judgments)
  catalog_eq : judgments.mapM (catalogRow nodes) = .ok ir.catalog
  closures_eq : judgments.mapM (mandatoryClosure ir.asset asset
    (registryWithAsset asset value registered) links nodes) = .ok ir.mandatoryClosures
  overview_eq : assetClosure asset payload (registryWithAsset asset value registered) links nodes =
    .ok ir.assetClosure
  index_eq : (registryWithAsset asset value registered).mapM (indexRow nodes) = .ok ir.assetIndex
  targets_eq : expansionTargets ir.asset asset judgments
    (registryWithAsset asset value registered) links nodes = .ok ir.expansionTargets
  relationships_prop : payload.prop "relationships" = some (.arr ir.relationships)
  contract_eq : ir.contract = .str "kdna.canonical-ir/0.6.1"
  tuple_eq : ir.tuple = textRecord versionTuple
  valid : validIr core versionTuple ir = true

/-- A built IR comes from the steps of `buildIR`. -/
theorem buildIR_spec {core : Core} {manifest payload : Json} {entries : Entries} {ir : CanonicalIr}
    (h : buildIR core manifest payload entries = .ok ir) :
    Nonempty (Built core manifest payload entries ir) := by
  simp only [buildIR, bind_eq_ok_iff, member_eq_ok_iff, memberItems_eq_ok_iff, require_eq_ok_iff,
    pure_eq_ok, Except.ok.injEq] at h
  obtain ⟨registered, hregistered, links, hlinks, methods, -, policies, -, value, hvalue, asset,
    hasset, assetJson, hassetJson, nodes, hnodes, linked, hlinked, judgments, hjudgments, catalog,
    hcatalog, closures, hclosures, overview, hoverview, index, hindex, targets, htargets,
    relationships, hrelationships, -, hvalid, -, -, rfl⟩ := h
  exact ⟨⟨asset, registered, links, methods, policies, value, nodes, judgments, hasset, hregistered,
    hlinks, hvalue, hassetJson, hnodes, rfl, hlinked, hjudgments, hcatalog, hclosures, hoverview,
    hindex, htargets, hrelationships, rfl, rfl, hvalid⟩⟩

/-- The node of the record `r`. -/
structure Shows (r : Record) (n : Node) : Prop where
  target : n.target = r.target
  id_prop : n.json.prop "id" = some (.str n.id)
  role_prop : n.json.prop "role" = some (.str (role r))
  target_prop : n.json.prop "target" = some r.target.json
  owner_prop : n.json.prop "owner" = some r.owner.json
  judgment_prop : n.json.prop "owner_judgment_id" = some (Value.ofText? r.judgment)
  value_prop : ∃ v, copyJson r.value = .ok v ∧ n.json.prop "value" = some v

theorem shows_of_node {core : Core} {asset : Json} {methods policies : String → Option Json}
    {r : Record} {n : Node} (h : node core asset methods policies r = .ok n) : Shows r n := by
  simp only [node, bind_eq_ok_iff, pure_eq_ok, Except.ok.injEq] at h
  obtain ⟨id, -, value, hvalue, interpreted, -, rfl⟩ := h
  have hfirst : ∀ (fields : List (String × Json)) (name : String) (v : Json),
      Value.prop (.obj fields) name = some v → ∀ more : List (String × Json),
      Value.prop (.obj (fields ++ more)) name = some v := by
    intro fields name v hv more
    rw [Value.prop_obj_append, hv, Option.some_or]
  refine ⟨rfl, ?_, ?_, ?_, ?_, ?_, value, hvalue, ?_⟩
  all_goals
    simp only [List.append_assoc]
    refine hfirst _ _ _ ?_ _
    simp

/-- A node shows the kind of its record. -/
theorem Shows.kindIs {r : Record} {n : Node} (h : Shows r n) (kind : Kind) :
    (n.json.prop "target").any (·.propIs "kind" kind.text) = decide (r.target.kind = kind) := by
  have hkind : (Ref.json r.target).prop "kind" = some (.str r.target.kind.text) := by
    simp [Ref.json]
  rw [h.target_prop, Option.any_some, Value.propIs, hkind]
  by_cases hk : r.target.kind = kind
  · simp [hk, Value.text?]
  · have hne : r.target.kind.text ≠ kind.text := fun heq => hk (Kind.text_injective heq)
    simp [hk, Value.text?, hne]

/-- Putting the value of the asset in leaves every other record as it is. -/
theorem ownValues_registryWithAsset {asset : Ref} (hasset : asset.kind = .asset) (value : Json)
    {kind : Kind} (hkind : kind ≠ .asset) (records : List Record) :
    ownValues asset kind (registryWithAsset asset value records) = ownValues asset kind records := by
  induction records with
  | nil => rfl
  | cons r rs ih =>
    rw [registryWithAsset, List.map_cons, ← List.singleton_append, ownValues_append,
      ← registryWithAsset, ih, ← List.singleton_append (l := rs), ownValues_append]
    by_cases hr : r.target = asset
    · have hne : r.target.kind ≠ kind := fun h => hkind (by rw [← h, hr, hasset])
      have hnone : ∀ v : Json, ownValues asset kind [{ r with value := v }] = [] := fun v =>
        ownValues_eq_nil (List.forall_mem_singleton.mpr fun hown => hne hown.1)
      rw [if_pos hr, hnone, hnone r.value]
    · rw [if_neg hr]

theorem valuesOf_registryWithAsset {asset : Ref} (hasset : asset.kind = .asset) (value : Json)
    {kind : Kind} (hkind : kind ≠ .asset) (records : List Record) :
    valuesOf kind (registryWithAsset asset value records) = valuesOf kind records := by
  induction records with
  | nil => rfl
  | cons r rs ih =>
    rw [registryWithAsset, List.map_cons, ← List.singleton_append, valuesOf_append,
      ← registryWithAsset, ih, ← List.singleton_append (l := rs), valuesOf_append]
    by_cases hr : r.target = asset
    · have hne : r.target.kind ≠ kind := fun h => hkind (by rw [← h, hr, hasset])
      have hnone : ∀ v : Json, valuesOf kind [{ r with value := v }] = [] := fun v =>
        valuesOf_eq_nil (List.forall_mem_singleton.mpr hne)
      rw [if_pos hr, hnone, hnone r.value]
    · rw [if_neg hr]

end Kdna.Ir

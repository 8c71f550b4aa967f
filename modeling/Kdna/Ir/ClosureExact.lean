import Kdna.Ir.Identity
import Kdna.Ir.Link
import Kdna.Ir.StableId

/-!
# Closures are exact

The scopes that an IR records are the least sets of nodes that hold their seeds and what
mandatory references lead to, and the ids of the IR's nodes and references are pairwise
different.
-/

namespace Kdna.Ir

open Value

namespace CanonicalIr

variable (ir : CanonicalIr)

/-- The ids of the nodes, in their order. -/
def nodeIds : List String := ir.nodes.filterMap fun n => (n.prop "id").bind text?

/-- The ids of the references, in their order. -/
def referenceIds : List String := ir.references.filterMap fun r => (r.prop "id").bind text?

/-- A node with the id stands for the target. -/
def StandsFor (t : Ref) (id : String) : Prop :=
  ∃ n ∈ ir.nodes, n.prop "target" = some t.json ∧ n.prop "id" = some (.str id)

/-- A mandatory reference leads from one node to the other. -/
def Requires (a b : String) : Prop :=
  ∃ r ∈ ir.references, r.prop "source_node" = some (.str a) ∧
    r.prop "target_node" = some (.str b) ∧ r.prop "mandatory" = some (.bool true)

/-- The sets of ids that hold the nodes of the seeds and what mandatory references lead to. -/
def ClosedSets (seeds : List Ref) : Set (Set String) :=
  {S | (∀ t ∈ seeds, ∀ id, ir.StandsFor t id → id ∈ S) ∧ ∀ a ∈ S, ∀ b, ir.Requires a b → b ∈ S}

/-- A scope is the least closed set of the seeds, in the order of the nodes. -/
structure ExactScope (seeds : List Ref) (scope : List String) : Prop where
  seeded : ∀ t ∈ seeds, ∃ id, ir.StandsFor t id
  ordered : scope.Sublist ir.nodeIds
  nodup : scope.Nodup
  least : IsLeast (ir.ClosedSets seeds) {id | id ∈ scope}

/-- The recorded closure of a judgment. -/
def ClosureOf (asset : Ref) (judgment closure : Json) : Prop :=
  ∃ id chosen scope, judgment.prop "id" = some (.str id) ∧
    closure.prop "selection" = some chosen ∧ chosen.prop "judgment_id" = some (.str id) ∧
    closure.prop "node_ids" = some (.arr (scope.map .str)) ∧
    ir.ExactScope [asset, ⟨.judgment, id⟩] scope

/-- The recorded scope of an expansion target. -/
def ScopeOf (asset : Ref) (judgments : List Json) (x : Json) : Prop :=
  ∃ t scope, x.prop "target" = some (Ref.json t) ∧ x.prop "scope" = some (.arr (scope.map .str)) ∧
    ((x.prop "anchor" = some assetAnchor ∧ ir.ExactScope [asset, t] scope) ∨
      ∃ judgment ∈ judgments, ∃ id chosen, judgment.prop "id" = some (.str id) ∧
        x.prop "anchor" = some (judgmentAnchor chosen) ∧
        chosen.prop "judgment_id" = some (.str id) ∧
        ir.ExactScope [asset, ⟨.judgment, id⟩, t] scope)

/-- What holds of the graph of an IR. -/
structure ExactGraph (asset : Ref) (judgments : List Json) : Prop where
  nodes_named : ir.nodes.map (·.prop "id") = ir.nodeIds.map fun id => some (.str id)
  references_named : ir.references.map (·.prop "id") = ir.referenceIds.map fun id => some (.str id)
  ids_nodup : (ir.nodeIds ++ ir.referenceIds).Nodup
  endpoints : ∀ r ∈ ir.references, ∃ a ∈ ir.nodeIds, ∃ b ∈ ir.nodeIds,
    r.prop "source_node" = some (.str a) ∧ r.prop "target_node" = some (.str b)
  closures : List.Forall₂ (ir.ClosureOf asset) judgments ir.mandatoryClosures
  scopes : ∀ x ∈ ir.expansionTargets, ir.ScopeOf asset judgments x

end CanonicalIr

/-- The references to be of a link: one for each meaning, none from a record to itself. -/
def linkArrows (from' : Ref) (link : Ref × List (Option String × Bool)) : List Arrow :=
  if from' = link.1 then []
  else (sortByUtf8 meaningRole link.2).map fun meaning => ⟨from', link.1, meaning⟩

/-- The references to be of a record. -/
def recordArrows (links : Links) (from' : Ref) : List Arrow :=
  (links.referenceRoles from').flatMap (linkArrows from')

/-- The references to be of an IR. -/
def arrows (targets : List Ref) (links : Links) : List Arrow := targets.flatMap (recordArrows links)

/-- The identities of the nodes and references of an IR. -/
def identities (targets : List Ref) (links : Links) : List Json :=
  targets.map Ref.json ++ (arrows targets links).map Arrow.identity

variable {core : Core} {manifest payload : Json} {entries : Entries} {ir : CanonicalIr}

namespace Built

/-- The targets of the registry. -/
abbrev targets (b : Built core manifest payload entries ir) : List Ref :=
  b.registered.map Record.target

theorem map_target_eq (b : Built core manifest payload entries ir) :
    b.nodes.map Node.target = b.targets := by
  rw [b.map_target, records, map_target_registryWithAsset]

theorem nodup_targets (b : Built core manifest payload entries ir) : b.targets.Nodup := by
  obtain ⟨-, -, -, hnodup⟩ := createRegistry_spec b.registered_eq
  exact hnodup

/-- The id of the node that stands for a target. -/
def nodeId (b : Built core manifest payload entries ir) (t : Ref) : String :=
  ((b.nodes.find? fun n => n.target = t).map Node.id).getD ""

theorem nodeId_target (b : Built core manifest payload entries ir) {n : Node} (hn : n ∈ b.nodes) :
    b.nodeId n.target = n.id := by
  rw [nodeId]
  cases hfind : b.nodes.find? fun m => m.target = n.target with
  | none =>
    have hnone := List.find?_eq_none.mp hfind n hn
    simp at hnone
  | some m =>
    have htarget := List.find?_some hfind
    rw [b.node_eq (List.mem_of_find?_eq_some hfind) hn (of_decide_eq_true htarget)]
    rfl

theorem exists_node (b : Built core manifest payload entries ir) {t : Ref} (ht : t ∈ b.targets) :
    ∃ n ∈ b.nodes, n.target = t ∧ n.id = b.nodeId t := by
  rw [← b.map_target_eq] at ht
  obtain ⟨n, hn, rfl⟩ := List.mem_map.mp ht
  exact ⟨n, hn, rfl, (b.nodeId_target hn).symm⟩

theorem target_mem (b : Built core manifest payload entries ir) {n : Node} (hn : n ∈ b.nodes) :
    n.target ∈ b.targets :=
  b.map_target_eq ▸ List.mem_map_of_mem hn

theorem nodeFor_spec (b : Built core manifest payload entries ir) {t : Ref} {id : String}
    (h : nodeFor b.nodes t = .ok id) : t ∈ b.targets ∧ id = b.nodeId t := by
  rw [nodeFor, orFail_eq_ok_iff, Option.map_eq_some_iff] at h
  obtain ⟨n, hn, rfl⟩ := h
  have htarget := List.find?_some hn
  have hmem := List.mem_of_find?_eq_some hn
  obtain rfl : n.target = t := of_decide_eq_true htarget
  exact ⟨b.target_mem hmem, (b.nodeId_target hmem).symm⟩

theorem standsFor_iff (b : Built core manifest payload entries ir) {t : Ref} {id : String} :
    ir.StandsFor t id ↔ t ∈ b.targets ∧ id = b.nodeId t := by
  constructor
  · rintro ⟨j, hj, htarget, hid⟩
    rw [b.json_eq, List.mem_map] at hj
    obtain ⟨n, hn, rfl⟩ := hj
    obtain ⟨r, -, hshows⟩ := b.exists_record hn
    rw [hshows.target_prop, ← hshows.target] at htarget
    rw [hshows.id_prop] at hid
    obtain rfl : n.target = t := Ref.json_injective (Option.some.inj htarget)
    have heq : n.id = id := Value.str.inj (Option.some.inj hid)
    exact ⟨b.target_mem hn, by rw [← heq, b.nodeId_target hn]⟩
  · rintro ⟨ht, rfl⟩
    obtain ⟨n, hn, rfl, hid⟩ := b.exists_node ht
    obtain ⟨r, -, hshows⟩ := b.exists_record hn
    refine ⟨n.json, b.json_eq ▸ List.mem_map_of_mem hn, ?_, ?_⟩
    · rw [hshows.target_prop, hshows.target]
    · rw [hshows.id_prop, hid]

/-- The ids of the nodes in the order of the registry. -/
theorem nodeIds_eq (b : Built core manifest payload entries ir) :
    ir.nodes.map (·.prop "id") = (b.targets.map b.nodeId).map fun id => some (.str id) := by
  rw [← b.map_target_eq, b.json_eq, List.map_map, List.map_map, List.map_map]
  refine List.map_congr_left fun n hn => ?_
  obtain ⟨r, -, hshows⟩ := b.exists_record hn
  simp only [Function.comp_apply]
  rw [hshows.id_prop, b.nodeId_target hn]

end Built

/-- The texts of a list of string members. -/
theorem filterMap_text {vs : List Json} {name : String} {ids : List String}
    (h : vs.map (·.prop name) = ids.map fun id => some (.str id)) :
    (vs.filterMap fun v => (v.prop name).bind text?) = ids := by
  have hcomp : (vs.filterMap fun v => (v.prop name).bind text?) =
      (vs.map (·.prop name)).filterMap fun o => o.bind text? := by
    rw [List.filterMap_map]
    rfl
  rw [hcomp, h, List.filterMap_map]
  exact List.filterMap_some

/-- The id of a node comes from its role and its target. -/
theorem stableId_of_node {asset : Json} {methods policies : String → Option Json} {r : Record}
    {n : Node} (h : node core asset methods policies r = .ok n) :
    stableId core asset (role r) n.target.json = .ok n.id := by
  simp only [node, bind_eq_ok_iff, pure_eq_ok, Except.ok.injEq] at h
  obtain ⟨id, hid, value, -, interpreted, -, rfl⟩ := h
  exact hid

theorem mem_linkArrows {from' : Ref} {link : Ref × List (Option String × Bool)} {a : Arrow} :
    a ∈ linkArrows from' link ↔
      from' ≠ link.1 ∧ a.source = from' ∧ a.target = link.1 ∧ a.meaning ∈ link.2 := by
  rw [linkArrows]
  split_ifs with heq
  · simp [heq]
  · rw [List.mem_map]
    constructor
    · rintro ⟨meaning, hmem, rfl⟩
      exact ⟨heq, rfl, rfl, (sortByUtf8_perm _ _).mem_iff.mp hmem⟩
    · rintro ⟨-, hsource, htarget, hmem⟩
      refine ⟨a.meaning, (sortByUtf8_perm _ _).mem_iff.mpr hmem, ?_⟩
      rw [← hsource, ← htarget]

theorem mem_arrows {targets : List Ref} {links : Links} {a : Arrow} :
    a ∈ arrows targets links ↔ a.source ∈ targets ∧ a.source ≠ a.target ∧
      ∃ meanings, (a.target, meanings) ∈ links.referenceRoles a.source ∧ a.meaning ∈ meanings := by
  simp only [arrows, recordArrows, List.mem_flatMap, mem_linkArrows]
  constructor
  · rintro ⟨t, ht, ⟨u, meanings⟩, hlink, hne, rfl, rfl, hmeaning⟩
    exact ⟨ht, hne, meanings, hlink, hmeaning⟩
  · rintro ⟨ht, hne, meanings, hlink, hmeaning⟩
    exact ⟨_, ht, _, hlink, hne, rfl, rfl, hmeaning⟩

/-- What a record contributes is pairwise different. -/
theorem nodup_recordArrows {known : List Ref} {s : Linking} (h : Consistent known s) (from' : Ref) :
    (recordArrows s.links from').Nodup := by
  rw [recordArrows, List.nodup_flatMap]
  constructor
  · intro link hlink
    rw [linkArrows]
    split_ifs
    · exact List.nodup_nil
    · have hmeanings : link.2.Nodup := (h.meanings_nodup from' link.1 link.2 hlink).of_map
      refine List.Nodup.map ?_ ((sortByUtf8_perm meaningRole link.2).nodup_iff.mpr hmeanings)
      exact fun m m' heq => (Arrow.mk.inj heq).2.2
  · have hkeys : ((s.referenceRoles from').Pairwise fun l l' => l.1 ≠ l'.1) :=
      List.pairwise_map.mp (h.roles_nodup from')
    refine hkeys.imp fun {l l'} hne => List.disjoint_left.mpr fun a ha ha' => hne ?_
    rw [← (mem_linkArrows.mp ha).2.2.1, ← (mem_linkArrows.mp ha').2.2.1]

/-- The references to be of different records are different. -/
theorem nodup_arrows {known targets : List Ref} {s : Linking} (h : Consistent known s)
    (htargets : targets.Nodup) : (arrows targets s.links).Nodup := by
  have hsource {from' : Ref} {a : Arrow} (ha : a ∈ recordArrows s.links from') :
      a.source = from' := by
    obtain ⟨link, -, hmem⟩ := List.mem_flatMap.mp ha
    exact (mem_linkArrows.mp hmem).2.1
  rw [arrows, List.nodup_flatMap]
  refine ⟨fun t _ => nodup_recordArrows h t, htargets.imp fun {t t'} hne => ?_⟩
  refine List.disjoint_left.mpr fun a ha ha' => hne ?_
  rw [← hsource ha, ← hsource ha']

/-- Mandatory links lead from registered targets to registered targets. -/
theorem known_of_mandatory {known : List Ref} {s : Linking} (h : Consistent known s) {t u : Ref}
    (hmem : u ∈ s.links.mandatory t) : t ∈ known ∧ u ∈ known := by
  obtain ⟨edge, hedge, rfl⟩ := List.mem_map.mp hmem
  have hkey := List.mem_map_of_mem (f := Prod.fst) (List.mem_filter.mp hedge).1
  exact ⟨h.source_mem t _ hkey, h.target_mem t _ hkey⟩

section Ids

variable (b : Built core manifest payload entries ir)
variable (hfree : CollisionFree core ir.asset (identities b.targets b.links))

include hfree

/-- Nodes with one id are one node. -/
theorem Built.eq_of_id {m n : Node} (hm : m ∈ b.nodes) (hn : n ∈ b.nodes) (h : m.id = n.id) :
    m = n := by
  obtain ⟨r, -, hnode⟩ := exists_of_mem_mapM b.nodes_eq hm
  obtain ⟨r', -, hnode'⟩ := exists_of_mem_mapM b.nodes_eq hn
  obtain ⟨s, hs, hid⟩ := stableId_spec (stableId_of_node hnode)
  obtain ⟨t, ht, hid'⟩ := stableId_spec (stableId_of_node hnode')
  rw [hid, hid'] at h
  have hdigits := (split_id (colon_not_mem (.tail _ (role_mem_nodeRoles r)))
    (colon_not_mem (.tail _ (role_mem_nodeRoles r'))) h).2
  have hmem {k : Node} (hk : k ∈ b.nodes) : k.target.json ∈ identities b.targets b.links :=
    List.mem_append_left _ (List.mem_map_of_mem (b.target_mem hk))
  obtain ⟨hstrict, hstrict', htext⟩ := identity_of_digits hfree (hmem hm) (hmem hn) hs ht hdigits
  exact b.node_eq hm hn (Ref.eq_of_canonicalText hstrict hstrict' htext)

/-- Targets whose nodes have one id are one target. -/
theorem Built.nodeId_inj {t u : Ref} (ht : t ∈ b.targets) (hu : u ∈ b.targets)
    (h : b.nodeId t = b.nodeId u) : t = u := by
  obtain ⟨m, hm, rfl, hmid⟩ := b.exists_node ht
  obtain ⟨n, hn, rfl, hnid⟩ := b.exists_node hu
  rw [b.eq_of_id hfree hm hn (by rw [hmid, hnid, h])]

theorem Built.nodup_nodeIds : (b.targets.map b.nodeId).Nodup :=
  b.nodup_targets.map_on fun _ ht _ hu h => b.nodeId_inj hfree ht hu h

/-- The reference that shows an arrow. -/
def IsReference (b : Built core manifest payload entries ir) (a : Arrow) (r : Json) : Prop :=
  a.source ∈ b.targets ∧ a.target ∈ b.targets ∧
    ∃ id, stableId core ir.asset "reference" a.identity = .ok id ∧
      r = .obj [("id", .str id), ("source_node", .str (b.nodeId a.source)),
        ("target_node", .str (b.nodeId a.target)), ("role", .str (meaningRole a.meaning)),
        ("mandatory", .bool a.meaning.2)]

/-- The references of the IR are those of the links, self-links apart. -/
theorem Built.references_forall₂ :
    List.Forall₂ (IsReference b) (arrows b.targets b.links) ir.references := by
  have hrefs := b.references_eq
  simp only [references, bind_eq_ok_iff, pure_eq_ok, Except.ok.injEq] at hrefs
  obtain ⟨perRecord, hperRecord, hflatten⟩ := hrefs
  have hpair (from' : Ref) (link : Ref × List (Option String × Bool)) (rs : List Json)
      (h : pairReferences core ir.asset b.nodes from' link = .ok rs) :
      List.Forall₂ (IsReference b) (linkArrows from' link) rs := by
    simp only [pairReferences, bind_eq_ok_iff] at h
    obtain ⟨sourceId, hsource, targetId, htarget, h⟩ := h
    obtain ⟨hfrom, rfl⟩ := b.nodeFor_spec hsource
    obtain ⟨hto, rfl⟩ := b.nodeFor_spec htarget
    rw [linkArrows]
    by_cases hsame : from' = link.1
    · rw [if_pos hsame]
      rw [if_pos (congrArg b.nodeId hsame)] at h
      cases h
      exact .nil
    · rw [if_neg hsame]
      rw [if_neg fun heq => hsame (b.nodeId_inj hfree hfrom hto heq), mapM_eq_ok_iff] at h
      rw [List.forall₂_map_left_iff]
      refine h.imp fun meaning r hr => ?_
      simp only [bind_eq_ok_iff, pure_eq_ok, Except.ok.injEq] at hr
      obtain ⟨id, hid, rfl⟩ := hr
      exact ⟨hfrom, hto, id, hid, rfl⟩
  have hrecord (r : Record) (rss : List (List Json))
      (h : (b.links.referenceRoles r.target).mapM
        (pairReferences core ir.asset b.nodes r.target) = .ok rss) :
      List.Forall₂ (IsReference b) (recordArrows b.links r.target) rss.flatten := by
    have hall := forall₂_flatMap_of_mapM (g := linkArrows r.target) (k := id) h
      fun link _ rs hrs => hpair r.target link rs hrs
    rwa [List.flatMap_id] at hall
  have hall := forall₂_flatMap_of_mapM (g := fun r : Record => recordArrows b.links r.target)
    (k := List.flatten) hperRecord fun r _ rss hrss => hrecord r rss hrss
  have htargets : (registryWithAsset b.asset b.value b.registered).map Record.target = b.targets :=
    map_target_registryWithAsset ..
  rw [← hflatten, arrows, ← htargets, List.flatMap_map]
  exact hall

/-- Ids of references tell them apart. -/
theorem Built.arrow_eq_of_id {a a' : Arrow} (ha : a ∈ arrows b.targets b.links)
    (ha' : a' ∈ arrows b.targets b.links) {id : String}
    (hid : stableId core ir.asset "reference" a.identity = .ok id)
    (hid' : stableId core ir.asset "reference" a'.identity = .ok id) : a = a' := by
  obtain ⟨s, hs, rfl⟩ := stableId_spec hid
  obtain ⟨t, ht, heq⟩ := stableId_spec hid'
  have hdigits := (split_id (colon_not_mem List.mem_cons_self)
    (colon_not_mem List.mem_cons_self) heq).2
  have hmem {a : Arrow} (ha : a ∈ arrows b.targets b.links) :
      a.identity ∈ identities b.targets b.links :=
    List.mem_append_right _ (List.mem_map_of_mem ha)
  obtain ⟨hstrict, hstrict', htext⟩ :=
    identity_of_digits hfree (hmem ha) (hmem ha') hs ht hdigits
  exact Arrow.eq_of_canonicalText hstrict hstrict' htext

/-- The ids of the references, one for each arrow. -/
theorem Built.exists_referenceIds : ∃ ids : List String,
    List.Forall₂ (fun a id => stableId core ir.asset "reference" a.identity = .ok id)
      (arrows b.targets b.links) ids ∧
    ir.references.map (·.prop "id") = ids.map fun id => some (.str id) := by
  have hrefs := b.references_forall₂ hfree
  generalize arrows b.targets b.links = as, ir.references = rs at hrefs
  induction hrefs with
  | nil => exact ⟨[], .nil, rfl⟩
  | cons hr _ ih =>
    obtain ⟨ids, hids, hmap⟩ := ih
    obtain ⟨-, -, id, hid, rfl⟩ := hr
    refine ⟨id :: ids, .cons hid hids, ?_⟩
    rw [List.map_cons, List.map_cons, hmap]
    simp

/-- No two nodes and references share an id. -/
theorem Built.nodup_ids {s : Linking} (hlinks : s.links = b.links)
    (hconsistent : Consistent b.targets s) {ids : List String}
    (hids : List.Forall₂ (fun a id => stableId core ir.asset "reference" a.identity = .ok id)
      (arrows b.targets b.links) ids) : (b.targets.map b.nodeId ++ ids).Nodup := by
  have harrows : (arrows b.targets b.links).Nodup :=
    hlinks ▸ nodup_arrows hconsistent b.nodup_targets
  have hmem : List.Forall₂ (fun a id => a ∈ arrows b.targets b.links ∧
      stableId core ir.asset "reference" a.identity = .ok id) (arrows b.targets b.links) ids :=
    (List.forall₂_and_left _ _).mpr ⟨fun a ha => ha, hids⟩
  rw [List.nodup_append]
  refine ⟨b.nodup_nodeIds hfree, ?_, ?_⟩
  · refine (List.rel_nodup (r := fun a id => a ∈ arrows b.targets b.links ∧
      stableId core ir.asset "reference" a.identity = .ok id) ⟨?_, ?_⟩ hmem).mp harrows
    · exact fun a id a' h h' => b.arrow_eq_of_id hfree h.1 h'.1 h.2 h'.2
    · intro a id id' h h'
      rw [h.2] at h'
      exact Except.ok.inj h'.2
  · rintro id hid id' hid' rfl
    obtain ⟨t, ht, rfl⟩ := List.mem_map.mp hid
    obtain ⟨n, hn, rfl, hnid⟩ := b.exists_node ht
    obtain ⟨r, -, hnode⟩ := exists_of_mem_mapM b.nodes_eq hn
    obtain ⟨text, -, htext⟩ := stableId_spec (stableId_of_node hnode)
    obtain ⟨a, -, ha⟩ : ∃ a ∈ arrows b.targets b.links,
        stableId core ir.asset "reference" a.identity = .ok (b.nodeId n.target) :=
      exists_of_mem_mapM (mapM_eq_ok_iff.mpr hids) hid'
    obtain ⟨text', -, htext'⟩ := stableId_spec ha
    rw [← hnid, htext] at htext'
    have hrole := (split_id (colon_not_mem (.tail _ (role_mem_nodeRoles r)))
      (colon_not_mem List.mem_cons_self) htext').1
    exact absurd (hrole ▸ role_mem_nodeRoles r) (by decide)

/-- Mandatory references are the mandatory links between different records. -/
theorem Built.requires_iff {s : Linking} (hlinks : s.links = b.links)
    (hconsistent : Consistent b.targets s) {x y : String} :
    ir.Requires x y ↔ ∃ t u, t ≠ u ∧ u ∈ b.links.mandatory t ∧ x = b.nodeId t ∧ y = b.nodeId u := by
  have hrefs := b.references_forall₂ hfree
  have hmandatory (t u : Ref) : u ∈ b.links.mandatory t ↔
      ∃ roles role, (u, roles) ∈ b.links.referenceRoles t ∧ (role, true) ∈ roles := by
    rw [← hlinks, Links.mandatory, List.mem_map]
    refine Iff.trans ?_ (hconsistent.mandatory_iff t u)
    constructor
    · rintro ⟨⟨u', m⟩, hmem, rfl⟩
      obtain ⟨hedge, hm⟩ := List.mem_filter.mp hmem
      rwa [show m = true from hm] at hedge
    · exact fun hedge => ⟨(u, true), List.mem_filter.mpr ⟨hedge, rfl⟩, rfl⟩
  constructor
  · rintro ⟨r, hr, hsource, htarget, hstrong⟩
    obtain ⟨a, ha, -, -, id, -, rfl⟩ := exists_of_mem_forall₂ hrefs hr
    obtain ⟨-, hne, roles, hroles, hmeaning⟩ := mem_arrows.mp ha
    simp only [prop_obj_cons, String.reduceEq, if_true, if_false, Option.some.injEq,
      Value.str.injEq, Value.bool.injEq] at hsource htarget hstrong
    refine ⟨a.source, a.target, hne, (hmandatory _ _).mpr ⟨roles, a.meaning.1, hroles, ?_⟩,
      hsource.symm, htarget.symm⟩
    rwa [← hstrong]
  · rintro ⟨t, u, hne, hmem, rfl, rfl⟩
    obtain ⟨roles, role, hroles, hrole⟩ := (hmandatory t u).mp hmem
    have hedge : u ∈ (s.edges t).map Prod.fst := by
      rw [← hconsistent.roles_keys, List.mem_map]
      have hroles' : (u, roles) ∈ s.links.referenceRoles t := hlinks ▸ hroles
      exact ⟨_, hroles', rfl⟩
    have harrow : (⟨t, u, role, true⟩ : Arrow) ∈ arrows b.targets b.links :=
      mem_arrows.mpr ⟨hconsistent.source_mem t u hedge, hne, roles, hroles, hrole⟩
    obtain ⟨r, hr, -, -, id, -, rfl⟩ := exists_mem_forall₂ hrefs harrow
    exact ⟨_, hr, by simp, by simp, by simp⟩

/-- The scope of a closure is exact. -/
theorem Built.exactScope {s : Linking} (hlinks : s.links = b.links)
    (hconsistent : Consistent b.targets s) {seeds : List Ref} {scope : List Json}
    (h : scopeFor b.records b.links b.nodes seeds = .ok scope) :
    ∃ ids : List String, scope = ids.map .str ∧ ir.ExactScope seeds ids := by
  simp only [scopeFor, bind_eq_ok_iff] at h
  obtain ⟨closed, hclosed, hscope⟩ := h
  have hsub := closure_sublist hclosed
  have htargets : b.records.map Record.target = b.targets := map_target_registryWithAsset ..
  have hknown {t : Ref} (ht : t ∈ closed.map Record.target) : t ∈ b.targets :=
    htargets ▸ (hsub.map _).subset ht
  obtain ⟨⟨hseeds, hnext⟩, hleast⟩ := closure_isLeast hclosed
  refine ⟨(closed.map Record.target).map b.nodeId, ?_, ?_⟩
  · rw [mapM_eq_ok_iff] at hscope
    rw [List.map_map, List.map_map]
    clear hclosed hsub hknown hseeds hnext hleast
    induction hscope with
    | nil => rfl
    | cons hr _ ih =>
      simp only [bind_eq_ok_iff, pure_eq_ok, Except.ok.injEq] at hr
      obtain ⟨id, hid, rfl⟩ := hr
      rw [List.map_cons, ih, (b.nodeFor_spec hid).2]
      rfl
  · have hsubscope : ((closed.map Record.target).map b.nodeId).Sublist ir.nodeIds := by
      rw [CanonicalIr.nodeIds, filterMap_text b.nodeIds_eq, ← htargets]
      exact (hsub.map _).map _
    refine ⟨fun t ht => ⟨_, b.standsFor_iff.mpr ⟨hknown (hseeds t ht), rfl⟩⟩, hsubscope, ?_, ?_, ?_⟩
    · rw [CanonicalIr.nodeIds, filterMap_text b.nodeIds_eq] at hsubscope
      exact (b.nodup_nodeIds hfree).sublist hsubscope
    · constructor
      · intro t ht id hid
        obtain ⟨-, rfl⟩ := b.standsFor_iff.mp hid
        exact List.mem_map_of_mem (hseeds t ht)
      · intro x hx y hxy
        obtain ⟨t, u, -, hmem, rfl, rfl⟩ := (b.requires_iff hfree hlinks hconsistent).mp hxy
        obtain ⟨t', ht', heq⟩ := List.mem_map.mp hx
        have hsource : t ∈ b.targets := (known_of_mandatory hconsistent (hlinks ▸ hmem)).1
        obtain rfl := b.nodeId_inj hfree (hknown ht') hsource heq
        exact List.mem_map_of_mem (hnext _ ht' _ hmem)
    · intro S hS x hx
      obtain ⟨t, ht, rfl⟩ := List.mem_map.mp hx
      -- The targets whose nodes lie in the set hold the seeds and are closed under the links.
      have hclosedSet : {t | t ∈ b.targets → b.nodeId t ∈ S} ∈
          Closed b.links.mandatory (· ∈ seeds) := by
        refine ⟨fun u hu hu' => hS.1 u hu _ (b.standsFor_iff.mpr ⟨hu', rfl⟩), ?_⟩
        intro u hu v hv hv'
        by_cases hsame : u = v
        · exact hsame ▸ hu (hsame ▸ hv')
        · have hsource : u ∈ b.targets := (known_of_mandatory hconsistent (hlinks ▸ hv)).1
          exact hS.2 _ (hu hsource) _
            ((b.requires_iff hfree hlinks hconsistent).mpr ⟨u, v, hsame, hv, rfl, rfl⟩)
      exact hleast hclosedSet ht (hknown ht)

/-- The recorded closures of the judgments. -/
theorem Built.closures_forall₂ {s : Linking} (hlinks : s.links = b.links)
    (hconsistent : Consistent b.targets s) :
    List.Forall₂ (ir.ClosureOf b.asset) b.judgments ir.mandatoryClosures := by
  refine (mapM_eq_ok_iff.mp b.closures_eq).imp fun judgment closure hclosure => ?_
  simp only [mandatoryClosure, selection, bind_eq_ok_iff, memberText_eq_ok_iff, pure_eq_ok,
    Except.ok.injEq] at hclosure
  obtain ⟨id, hid, chosen, ⟨assetId, -, version, -, hchosen⟩, scope, hscope, rfl⟩ := hclosure
  obtain ⟨scope, rfl, hexact⟩ := b.exactScope hfree hlinks hconsistent hscope
  exact ⟨id, chosen, scope, hid, by simp, by simp [← hchosen], by simp, hexact⟩

/-- The recorded expansion targets: one below the asset for each record, then those below the
judgments. -/
theorem Built.expansionTargets_spec {s : Linking} (hlinks : s.links = b.links)
    (hconsistent : Consistent b.targets s) :
    ∃ own others, ir.expansionTargets = own ++ others ∧
      List.Forall₂ (fun t x => ∃ scope : List String, x.prop "target" = some (Ref.json t) ∧
        x.prop "anchor" = some assetAnchor ∧ x.prop "scope" = some (.arr (scope.map .str)) ∧
        ir.ExactScope [b.asset, t] scope) b.targets own ∧
      ∀ x ∈ others, ∃ judgment ∈ b.judgments, ∃ id chosen t, ∃ scope : List String,
        judgment.prop "id" = some (.str id) ∧ chosen.prop "judgment_id" = some (.str id) ∧
        x.prop "anchor" = some (judgmentAnchor chosen) ∧ x.prop "target" = some (Ref.json t) ∧
        x.prop "scope" = some (.arr (scope.map .str)) ∧
        ir.ExactScope [b.asset, ⟨.judgment, id⟩, t] scope := by
  have htargets := b.targets_eq
  simp only [expansionTargets, bind_eq_ok_iff, pure_eq_ok, Except.ok.injEq] at htargets
  obtain ⟨own, hown, perJudgment, hperJudgment, heq⟩ := htargets
  refine ⟨own, perJudgment.flatten, heq.symm, ?_, ?_⟩
  · have hrecords : b.records.map Record.target = b.targets := map_target_registryWithAsset ..
    rw [← hrecords, List.forall₂_map_left_iff]
    refine (mapM_eq_ok_iff.mp hown).imp fun r x hr => ?_
    simp only [expansionTarget, bind_eq_ok_iff, pure_eq_ok, Except.ok.injEq] at hr
    obtain ⟨scope, hscope, rfl⟩ := hr
    obtain ⟨scope, rfl, hexact⟩ := b.exactScope hfree hlinks hconsistent hscope
    exact ⟨scope, by simp, by simp, by simp, hexact⟩
  · intro x hx
    obtain ⟨xs, hxs, hx⟩ := List.mem_flatten.mp hx
    obtain ⟨judgment, hjudgment, htargets⟩ := exists_of_mem_mapM hperJudgment hxs
    simp only [judgmentTargets, selection, bind_eq_ok_iff, memberText_eq_ok_iff, pure_eq_ok,
      Except.ok.injEq] at htargets
    obtain ⟨id, hid, mandatory, -, chosen, ⟨assetId, -, version, -, hchosen⟩, htargets⟩ := htargets
    obtain ⟨r, -, hr⟩ := exists_of_mem_mapM htargets hx
    simp only [expansionTarget, bind_eq_ok_iff, pure_eq_ok, Except.ok.injEq] at hr
    obtain ⟨scope, hscope, rfl⟩ := hr
    obtain ⟨scope, rfl, hexact⟩ := b.exactScope hfree hlinks hconsistent hscope
    exact ⟨judgment, hjudgment, id, chosen, r.target, scope, hid, by simp [← hchosen], by simp,
      by simp, by simp, hexact⟩

end Ids

/-- An accepted payload has exact closures: each scope of its IR is the least set of nodes
that holds its seeds and what mandatory references lead to, in the order of the nodes, and
the ids of nodes and references are pairwise different. The semantic pass links records of
the registry only, and no two of the identities share their digits. -/
theorem closures_exact (core : Core) (fields : SnapshotFields) (manifest payload : Json)
    (entries : Entries) (ir : CanonicalIr)
    (h : admitPayload core fields manifest payload entries = .ok ir)
    (hlinked : ∀ records links, createRegistry manifest payload = .ok records →
      core.validateR2 manifest payload entries records = .ok links → Linked ir.asset records links)
    (hfree : ∀ records links, createRegistry manifest payload = .ok records →
      core.validateR2 manifest payload entries records = .ok links →
        CollisionFree core ir.asset (identities (records.map Record.target) links)) :
    ∃ asset judgments, assetRef manifest = .ok asset ∧
      payload.prop "judgments" = some (.arr judgments) ∧ ir.ExactGraph asset judgments := by
  obtain ⟨⟨b⟩, -⟩ := admitPayload_spec h
  have hfree := hfree _ _ b.registered_eq b.links_eq
  obtain ⟨s, hconsistent, hlinks⟩ := (hlinked _ _ b.registered_eq b.links_eq).consistent
  obtain ⟨ids, hids, hreferences⟩ := b.exists_referenceIds hfree
  refine ⟨b.asset, b.judgments, b.asset_eq, b.judgments_prop, ?_⟩
  constructor
  case nodes_named => rw [b.nodeIds_eq, CanonicalIr.nodeIds, filterMap_text b.nodeIds_eq]
  case references_named => rw [hreferences, CanonicalIr.referenceIds, filterMap_text hreferences]
  case ids_nodup =>
    rw [CanonicalIr.nodeIds, filterMap_text b.nodeIds_eq, CanonicalIr.referenceIds,
      filterMap_text hreferences]
    exact b.nodup_ids hfree hlinks hconsistent hids
  case endpoints =>
    intro r hr
    obtain ⟨a, -, hsource, htarget, id, -, rfl⟩ :=
      exists_of_mem_forall₂ (b.references_forall₂ hfree) hr
    rw [CanonicalIr.nodeIds, filterMap_text b.nodeIds_eq]
    exact ⟨_, List.mem_map_of_mem hsource, _, List.mem_map_of_mem htarget, by simp, by simp⟩
  case closures => exact b.closures_forall₂ hfree hlinks hconsistent
  case scopes =>
    intro x hx
    obtain ⟨own, others, heq, hown, hothers⟩ := b.expansionTargets_spec hfree hlinks hconsistent
    rw [heq, List.mem_append] at hx
    rcases hx with hx | hx
    · obtain ⟨t, -, scope, htarget, hanchor, hscope, hexact⟩ := exists_of_mem_forall₂ hown hx
      exact ⟨t, scope, htarget, hscope, .inl ⟨hanchor, hexact⟩⟩
    · obtain ⟨judgment, hjudgment, id, chosen, t, scope, hid, hchosen, hanchor, htarget, hscope,
        hexact⟩ := hothers x hx
      exact ⟨t, scope, htarget, hscope,
        .inr ⟨judgment, hjudgment, id, chosen, hid, hanchor, hchosen, hexact⟩⟩

section Sample

/-- The targets of the sample. -/
def sampleTargets : List Ref := [⟨.asset, "u"⟩, ⟨.judgment, "j"⟩, ⟨.contract, "c"⟩, ⟨.component, "m"⟩]

theorem sampleTargets_eq {records : List Record}
    (h : createRegistry sampleManifest samplePayload = .ok records) :
    records.map Record.target = sampleTargets := by
  have htargets : ((createRegistry sampleManifest samplePayload).toOption.map
      (List.map Record.target)) = some sampleTargets := by decide
  rw [h] at htargets
  exact Option.some.inj htargets

/-- What the judgment of the sample names. -/
def sampleTarget (t : Ref) : Target := ⟨t, none, t.json⟩

theorem linked_sample {asset : Json} {records : List Record} {links : Links}
    (h : createRegistry sampleManifest samplePayload = .ok records)
    (hlinks : sampleCore.validateR2 sampleManifest samplePayload [] records = .ok links) :
    Linked asset records links := by
  cases hlinks
  rw [Linked, sampleTargets_eq h]
  refine ⟨[⟨⟨.judgment, "j"⟩, sampleTarget ⟨.contract, "c"⟩, true, none, none⟩,
    ⟨⟨.judgment, "j"⟩, sampleTarget ⟨.component, "m"⟩, true, none, none⟩], _,
    .cons (link_eq_ok rfl (by decide) (by decide) _ _ _)
      (.cons (link_eq_ok rfl (by decide) (by decide) _ _ _) (.nil _)), ?_⟩
  simp only [Linking.links, Links.mk.injEq]
  refine ⟨funext fun r => ?_, funext fun r => ?_, rfl⟩
  · rw [edges_record, edges_record, sampleLinks]
    split_ifs <;> rfl
  · rw [referenceRoles_record, referenceRoles_record, sampleLinks]
    split_ifs <;> rfl

theorem closures_exact_sample :
    ∃ ir, admitPayload sampleCore sampleFields sampleManifest samplePayload [] = .ok ir ∧
      ∃ asset judgments, assetRef sampleManifest = .ok asset ∧
        samplePayload.prop "judgments" = some (.arr judgments) ∧ ir.ExactGraph asset judgments := by
  obtain ⟨ir, hir⟩ := exists_sampleIr
  refine ⟨ir, hir, closures_exact sampleCore sampleFields sampleManifest samplePayload [] ir hir
    (fun _ _ => linked_sample) fun records links hrecords hlinks => ?_⟩
  obtain ⟨⟨b⟩, -⟩ := admitPayload_spec hir
  have hasset : sampleAsset = ir.asset := Option.some.inj b.asset_prop
  cases hlinks
  rw [← hasset, sampleTargets_eq hrecords]
  refine collisionFree_of_nodup ?_
  unfold identityDigits
  simp only [digest_sampleCore, toList_eq_quickToList]
  decide

end Sample

end Kdna.Ir

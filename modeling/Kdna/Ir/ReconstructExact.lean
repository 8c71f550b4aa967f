import Kdna.Ir.AssetValue
import Kdna.Ir.Collect
import Kdna.Json.Quick
import Mathlib.Data.List.Dedup

/-!
# Nothing is lost

The payload put together from the nodes of an admitted IR is the admitted payload: the
same members, every list in its order, up to the order of members.
-/

namespace Kdna.Ir

open Value

/-- The candidate's own tuple fits into the room of the snapshot's second tuple. -/
theorem scalarBytes_candidateTuple :
    scalarBytes (textRecord candidateTuple) ≤
      scalarBytes (textRecord versionTuple) + scalarBytes (textRecord versionTuple) := by
  rw [scalarBytes_eq_weigh, scalarBytes_eq_weigh]
  decide

theorem strict_obj_iff {levels : ℕ} {props : List (String × Json)} :
    Value.Strict (levels + 1) (.obj props) ↔
      ∀ p ∈ props, (Utf8.encode p.1).length ≤ maxStringBytes ∧ p.2.Strict levels :=
  Iff.rfl

theorem strict_textRecord {fields : List (String × String)}
    (h : ∀ f ∈ fields, (Utf8.encode f.1).length ≤ maxStringBytes ∧
      (Utf8.encode f.2).length ≤ maxStringBytes) : (textRecord fields).Strict 2 := by
  intro p hp
  obtain ⟨f, hf, rfl⟩ := List.mem_map.mp hp
  exact h f hf

/-- An object whose second member changes. -/
theorem scalarBytes_second (p : String × Json) (name : String) (v w : Json)
    (rest : List (String × Json)) :
    scalarBytes (.obj (p :: (name, v) :: rest)) + scalarBytes w =
      scalarBytes (.obj (p :: (name, w) :: rest)) + scalarBytes v := by
  simp only [scalarBytes_obj, List.map_cons, List.sum_cons, List.length_cons]
  omega

/-- Two members of an object fit into its text. -/
theorem le_scalarBytes_obj (before between behind : List (String × Json)) (p q : String × Json) :
    scalarBytes p.2 + scalarBytes q.2 ≤
      scalarBytes (.obj (before ++ p :: (between ++ q :: behind))) := by
  simp only [scalarBytes_obj, List.map_append, List.map_cons, List.sum_append, List.sum_cons]
  omega

/-- The candidate of an IR passes the strict check when the snapshot of the IR does. -/
theorem strict_candidate {fields : SnapshotFields} {ir : CanonicalIr}
    (htuple : ir.tuple = textRecord versionTuple)
    (h : assertStrictJson (snapshotData fields ir) = .ok ()) :
    assertStrictJson ir.candidate.json = .ok () := by
  have hnames : ∀ f ∈ candidateTuple, (Utf8.encode f.1).length ≤ maxStringBytes ∧
      (Utf8.encode f.2).length ≤ maxStringBytes := by
    simp only [length_encode_eq]
    decide
  rw [assertStrictJson_eq_ok_iff] at h ⊢
  constructor
  · obtain ⟨levels, hlevels⟩ : ∃ l, maxDepth = l + 3 := ⟨maxDepth - 3, by decide⟩
    have hir : ir.json.Strict (levels + 3) := hlevels ▸ (h.1 ("ir", ir.json) (by simp)).2
    have hmore : levels + 3 ≤ maxDepth + 1 := by omega
    refine Value.Strict.mono hmore ?_
    rw [CanonicalIr.json, strict_obj_iff] at hir ⊢
    simp only [List.forall_mem_cons] at hir ⊢
    obtain ⟨hcontract, htupleName, hothers⟩ := hir
    exact ⟨hcontract, ⟨htupleName.1, (strict_textRecord hnames).mono (by omega)⟩, hothers⟩
  · have hroom := scalarBytes_candidateTuple
    have hsnapshot := le_trans (le_scalarBytes_obj [("snapshot_id", .str fields.snapshotId)]
      [("asset", ir.asset), ("digests", fields.digests)]
      [("ir_digest", .str fields.irDigest),
        ("runtime_entry_names", .arr (fields.runtimeEntryNames.map .str))]
      ("tuple", textRecord versionTuple) ("ir", ir.json)) h.2
    have hswap : scalarBytes ir.candidate.json + scalarBytes (textRecord versionTuple) =
        scalarBytes ir.json + scalarBytes (textRecord candidateTuple) := by
      rw [← htuple]
      exact scalarBytes_second _ _ _ _ _
    have hsnapshot : scalarBytes (textRecord versionTuple) + scalarBytes ir.json ≤ maxGraphBytes :=
      hsnapshot
    omega

/-- The distinct forms of judgments that all have a known form. -/
theorem dedup_forms {declared : List (Option String)} (hne : declared ≠ [])
    (h : ∀ f ∈ declared, f = some "conclusion" ∨ f = some "rule") :
    declared.dedup = [some "conclusion"] ∨ declared.dedup = [some "rule"] ∨
      declared.dedup = [some "conclusion", some "rule"] ∨
      declared.dedup = [some "rule", some "conclusion"] := by
  have hnodup := declared.nodup_dedup
  have hmem : ∀ f ∈ declared.dedup, f = some "conclusion" ∨ f = some "rule" :=
    fun f hf => h f (List.mem_dedup.mp hf)
  have hnonempty : declared.dedup ≠ [] := by
    intro hempty
    obtain ⟨f, hf⟩ := List.exists_mem_of_ne_nil _ hne
    exact List.not_mem_nil (hempty ▸ List.mem_dedup.mpr hf)
  generalize declared.dedup = ds at hnodup hmem hnonempty
  match ds with
  | [] => exact absurd rfl hnonempty
  | [f] =>
    rcases hmem f (by simp) with rfl | rfl
    · exact .inl rfl
    · exact .inr (.inl rfl)
  | [f, g] =>
    rcases hmem f (by simp) with rfl | rfl <;> rcases hmem g (by simp) with rfl | rfl
    · exact absurd hnodup (by decide)
    · exact .inr (.inr (.inl rfl))
    · exact .inr (.inr (.inr rfl))
    · exact absurd hnodup (by decide)
  | f :: g :: k :: fs =>
    have hdistinct : f ≠ g ∧ f ≠ k ∧ g ≠ k := by
      simp only [List.nodup_cons, List.mem_cons, not_or] at hnodup
      exact ⟨hnodup.1.1, hnodup.1.2.1, hnodup.2.1.1⟩
    have hf := hmem f (by simp)
    have hg := hmem g (by simp)
    have hk := hmem k (by simp)
    rcases hf with rfl | rfl <;> rcases hg with rfl | rfl <;> rcases hk with rfl | rfl <;>
      simp at hdistinct

/-- The forms of the judgments make the capability that the payload declares. -/
theorem capabilityOf_eq {payload : Json} {judgments : List Json}
    (h : ruleAssetCapability payload judgments = true) :
    ∃ capability, capabilityOf judgments = .ok capability ∧
      payload.prop "asset_capability" = some (.str capability) := by
  obtain ⟨expected, hexpected, hprop⟩ : ∃ expected, capabilityFor judgments = some expected ∧
      payload.propIs "asset_capability" expected = true := by
    rw [ruleAssetCapability] at h
    split at h
    · exact ⟨_, by assumption, h⟩
    · exact nomatch h
  have hne : forms judgments ≠ [] := by
    intro hempty
    rw [capabilityFor, if_pos hempty] at hexpected
    exact nomatch hexpected
  have hknown : ¬ ∃ f ∈ forms judgments, f ≠ some "conclusion" ∧ f ≠ some "rule" := by
    intro hunknown
    rw [capabilityFor, if_neg hne, if_pos hunknown] at hexpected
    exact nomatch hexpected
  have hforms : ∀ f ∈ forms judgments, f = some "conclusion" ∨ f = some "rule" := by
    intro f hf
    by_contra hother
    exact hknown ⟨f, hf, not_or.mp hother⟩
  rw [capabilityFor, if_neg hne, if_neg hknown] at hexpected
  refine ⟨expected, ?_, propIs_eq_true_iff.mp hprop⟩
  rcases dedup_forms hne hforms with hd | hd | hd | hd
  all_goals
    rw [hd] at hexpected
    rw [capabilityOf, hd, ← Option.some.inj hexpected]
    rfl

section Built

variable {core : Core} {manifest payload : Json} {entries : Entries} {ir : CanonicalIr}

/-- The registry of a built IR. -/
theorem Built.registry (b : Built core manifest payload entries ir) :
    Nonempty (Registered manifest payload b.asset b.registered) := by
  obtain ⟨asset, hasset, hregistered, -⟩ := createRegistry_spec b.registered_eq
  obtain rfl : b.asset = asset := Except.ok.inj (b.asset_eq.symm.trans hasset)
  exact hregistered

/-- The nodes of a built IR show its records. -/
theorem Built.shows (b : Built core manifest payload entries ir) :
    List.Forall₂ Shows (registryWithAsset b.asset b.value b.registered) b.nodes :=
  (mapM_eq_ok_iff.mp b.nodes_eq).imp fun _ _ hn => shows_of_node hn

theorem Built.filter_nodes (b : Built core manifest payload entries ir) (kind : Kind) :
    (ir.nodes.filter fun n => kindIs n kind) =
      (b.nodes.filter fun n => kindIs n.json kind).map Node.json := by
  rw [b.json_eq, List.filter_map]
  rfl

/-- The one asset node shows the asset and holds its value. -/
theorem Built.assetNode (b : Built core manifest payload entries ir) :
    ∃ n, (ir.nodes.filter fun n => kindIs n .asset) = [n] ∧
      n.prop "target" = some b.asset.json ∧ n.prop "value" = some b.value.enumerated := by
  obtain ⟨registry⟩ := b.registry
  have hrecords : ((registryWithAsset b.asset b.value b.registered).filter
      fun r => r.target.kind = .asset) = [⟨b.asset, b.asset, b.value, none, none⟩] := by
    have hsame : ((fun r : Record => decide (r.target.kind = .asset)) ∘ fun r : Record =>
        if r.target = b.asset then { r with value := b.value } else r) =
        fun r => decide (r.target.kind = .asset) := by
      funext r
      by_cases hr : r.target = b.asset
      · simp [hr]
      · simp [hr]
    rw [registryWithAsset, List.filter_map, hsame, registry.filter_asset]
    simp
  have hshown := shows_filter b.shows .asset
  rw [hrecords, List.forall₂_cons_left_iff] at hshown
  obtain ⟨n, ns, hn, hns, hnodes⟩ := hshown
  obtain rfl := List.forall₂_nil_left_iff.mp hns
  obtain ⟨v, hv, hvalue⟩ := hn.value_prop
  refine ⟨n.json, ?_, hn.target_prop, ?_⟩
  · rw [b.filter_nodes, hnodes]
    rfl
  · rw [hvalue, (copyJson_eq_ok_iff.mp hv).2.2]

/-- The values of the nodes of a kind. -/
theorem nodeValues_of_shows {records : List Record} {nodes : List Node}
    (h : List.Forall₂ Shows records nodes) :
    (nodes.map Node.json).mapM (member · "value") =
      .ok ((records.map Record.value).map enumerated) := by
  rw [mapM_eq_ok_iff]
  induction h with
  | nil => exact .nil
  | cons hn _ ih =>
    obtain ⟨v, hv, hvalue⟩ := hn.value_prop
    refine .cons ?_ ih
    rw [member_eq_ok_iff, hvalue, (copyJson_eq_ok_iff.mp hv).2.2]

theorem InMemory.map_items {items : List Json} (h : InMemory (.arr items)) :
    items.map enumerated = items := by
  have hmap := h.enumerated
  rwa [enumerated_arr, Value.arr.injEq] at hmap

/-- The judgments are read from their nodes. -/
theorem Built.judgmentNodes (b : Built core manifest payload entries ir) (hpayload : InMemory payload) :
    (ir.nodes.filter fun n => kindIs n .judgment).mapM (member · "value") = .ok b.judgments := by
  obtain ⟨registry⟩ := b.registry
  have hitems : registry.judgmentItems = b.judgments := by
    have hjudgments := memberItems_eq_ok_iff.mp registry.judgmentItems_eq
    rw [b.judgments_prop] at hjudgments
    exact (Value.arr.inj (Option.some.inj hjudgments)).symm
  rw [b.filter_nodes, nodeValues_of_shows (shows_filter b.shows .judgment), ← valuesOf,
    valuesOf_registryWithAsset registry.kind _ (by decide), registry.valuesOf_judgment, hitems,
    InMemory.map_items (hpayload.prop b.judgments_prop)]

theorem prop_nodes (ir : CanonicalIr) : ir.json.prop "nodes" = some (.arr ir.nodes) := by
  simp [CanonicalIr.json]

/-- Each collection is read from its nodes. -/
theorem Built.collection (b : Built core manifest payload entries ir)
    (hstrict : assertStrictJson ir.candidate.json = .ok ()) {kind : Kind} {items : List Json}
    (hkind : kind ≠ .asset) (hitems : ownValues b.asset kind b.registered = items)
    (hmemory : InMemory (.arr items)) :
    collectNodes ir.nodes b.asset.json kind = .ok items := by
  obtain ⟨registry⟩ := b.registry
  have hnodes : assertStrictJson (.arr ir.nodes) = .ok () :=
    strict_prop hstrict (prop_nodes _)
  have hnode : ∀ n ∈ b.nodes, assertStrictJson n.json = .ok () := by
    intro n hn
    refine strict_item hnodes ?_
    rw [b.json_eq]
    exact List.mem_map_of_mem hn
  obtain ⟨n, hn, htarget, -⟩ := b.assetNode
  have hasset : assertStrictJson b.asset.json = .ok () := by
    have hmem : n ∈ ir.nodes := List.mem_of_mem_filter (hn ▸ List.mem_singleton_self n)
    exact strict_prop (strict_item hnodes hmem) htarget
  rw [b.json_eq, collectNodes_of_shows b.shows hnode hasset,
    ownValues_registryWithAsset registry.kind _ hkind, hitems, InMemory.map_items hmemory]

/-- What the asset owns of a payload. -/
theorem Built.ownValues_collections (b : Built core manifest payload entries ir) {kind : Kind}
    {name : String} (hmem : (kind, name) ∈ ownCollections) {items exceptions misuse : List Json}
    (hexceptions : memberItems payload "exceptions" = .ok exceptions)
    (hmisuse : memberItems payload "misuse" = .ok misuse)
    (hitems : memberItems payload name = .ok items) :
    ownValues b.asset kind b.registered = items := by
  obtain ⟨registry⟩ := b.registry
  rcases List.mem_append.mp hmem with hroot | hlimit
  · exact registry.ownValues_root hroot hitems
  · have hlimits := registry.limits_eq
    simp only [assetRestrictions, bind_eq_ok_iff] at hlimits
    obtain ⟨declarations, hdeclarations, boundaries, hboundaries, -⟩ := hlimits
    obtain ⟨-, hexception, hmisused⟩ :=
      registry.ownValues_limits hdeclarations hboundaries hexceptions hmisuse
    simp only [List.mem_cons, Prod.mk.injEq, List.not_mem_nil, or_false] at hlimit
    rcases hlimit with ⟨rfl, rfl⟩ | ⟨rfl, rfl⟩
    · exact hexception.trans (Except.ok.inj (hexceptions.symm.trans hitems))
    · exact hmisused.trans (Except.ok.inj (hmisuse.symm.trans hitems))

/-- Every collection of the payload is read from the nodes. -/
theorem Built.readCollections (b : Built core manifest payload entries ir)
    (hpayload : InMemory payload) (hstrict : assertStrictJson ir.candidate.json = .ok ())
    (hitems : ∀ c ∈ ownCollections, (memberItems payload c.2).toBool = true) :
    ∀ c ∈ ownCollections, ∃ items, payload.prop c.2 = some (.arr items) ∧
      collectNodes ir.nodes b.asset.json c.1 = .ok items := by
  have hread : ∀ c ∈ ownCollections, ∃ items, memberItems payload c.2 = .ok items := by
    intro c hc
    have hc' := hitems c hc
    cases hm : memberItems payload c.2 with
    | ok items => exact ⟨items, rfl⟩
    | error e =>
      rw [hm] at hc'
      exact nomatch hc'
  obtain ⟨exceptions, hexceptions⟩ := hread (.exception, "exceptions") (by decide)
  obtain ⟨misuse, hmisuse⟩ := hread (.misuse, "misuse") (by decide)
  intro c hc
  obtain ⟨items, hc'⟩ := hread c hc
  have hprop := memberItems_eq_ok_iff.mp hc'
  have hkind : ∀ c ∈ ownCollections, c.1 ≠ .asset := by decide
  exact ⟨items, hprop, b.collection hstrict (hkind c hc)
    (b.ownValues_collections hc hexceptions hmisuse hc') (hpayload.prop hprop)⟩

theorem inMemory_declaredValues {declarations : Json} (h : InMemory declarations) {name : String}
    {items : List Json} (hitems : declaredValues declarations name = .ok items) :
    InMemory (.arr items) := by
  have hempty : InMemory (.arr []) :=
    ⟨rfl, (distinctKeys_arr _).mpr (List.forall_mem_nil _)⟩
  rw [declaredValues] at hitems
  split at hitems
  · rename_i declaration hdeclaration
    by_cases hprovided : declaration.propIs "state" "provided" = true
    · rw [if_pos hprovided] at hitems
      exact (h.prop hdeclaration).prop (memberItems_eq_ok_iff.mp hitems)
    · rw [if_neg hprovided] at hitems
      exact Except.ok.inj hitems ▸ hempty
  · exact Except.ok.inj hitems ▸ hempty

/-- The declared boundaries are read from the nodes. -/
theorem Built.readBoundaries (b : Built core manifest payload entries ir)
    (hpayload : InMemory payload) (hstrict : assertStrictJson ir.candidate.json = .ok ())
    {declarations : Json} (hdeclarations : payload.prop "declarations" = some declarations) :
    ∃ items, declaredValues declarations "boundaries" = .ok items ∧
      collectNodes ir.nodes b.asset.json .boundary = .ok items := by
  obtain ⟨registry⟩ := b.registry
  have hlimits := registry.limits_eq
  simp only [assetRestrictions, bind_eq_ok_iff] at hlimits
  obtain ⟨d, hd, items, hitems, exceptions, hexceptions, misuse, hmisuse, -⟩ := hlimits
  obtain rfl : d = declarations :=
    Option.some.inj ((member_eq_ok_iff.mp hd).symm.trans hdeclarations)
  exact ⟨items, hitems, b.collection hstrict (by decide)
    (registry.ownValues_limits hd hitems hexceptions hmisuse).1
    (inMemory_declaredValues (hpayload.prop hdeclarations) hitems)⟩

theorem prop_candidateTuple :
    (textRecord candidateTuple).prop "payload_profile" = some (.str "kdna.payload.judgment") ∧
      (textRecord candidateTuple).prop "payload_version" = some (.str "0.5.1") := by
  constructor <;> simp [textRecord, candidateTuple]

/-- The candidate of a built IR passes its check. -/
theorem Built.validateCandidate_eq (b : Built core manifest payload entries ir)
    (hstrict : assertStrictJson ir.candidate.json = .ok ()) :
    validateCandidate core ir.candidate = .ok () := by
  have hvalid := b.valid
  have htuple : closedObject (textRecord candidateTuple) (candidateTuple.map Prod.fst) [] = true ∧
      (candidateTuple.all fun f => (textRecord candidateTuple).propIs f.1 f.2) = true := by
    decide
  have hbody : ir.candidate.body = ir.body := rfl
  simp only [validIr, Bool.and_eq_true] at hvalid
  rw [validateCandidate, hstrict, ok_bind, require_eq_ok_iff, validIr, hbody, hvalid.2,
    Bool.and_true, CanonicalIr.candidate, hvalid.1.1.1, htuple.1, htuple.2]
  rfl

/-- The collections that are read are the payload's members. -/
theorem mapM_collections {nodes : List Json} {assetTarget : Json} {cs : List (Kind × String)}
    (h : ∀ c ∈ cs, ∃ items, payload.prop c.2 = some (.arr items) ∧
      collectNodes nodes assetTarget c.1 = .ok items) :
    cs.mapM (fun c => do return (c.2, Value.arr (← collectNodes nodes assetTarget c.1))) =
      .ok (listed (cs.map Prod.snd) payload.prop) := by
  rw [mapM_eq_ok_iff]
  induction cs with
  | nil => exact .nil
  | cons c cs ih =>
    rw [List.forall_mem_cons] at h
    obtain ⟨items, hprop, hcollect⟩ := h.1
    rw [List.map_cons, listed, List.filterMap_cons, hprop]
    refine .cons ?_ (ih h.2)
    rw [hcollect]
    rfl

/-- The members of a payload in the order in which they are put together. -/
def payloadMembers : List String :=
  ["profile", "profile_version", "asset"] ++ ownCollections.map Prod.snd ++
    ["judgments", "asset_capability"] ++ payloadNames ++ ["declarations"]

end Built

/-- The payload put together from the candidate of an admitted IR is the admitted payload,
up to the order of members. -/
theorem reconstructPayload_candidate (core : Core) (fields : SnapshotFields)
    (manifest payload : Json) (entries : Entries) (ir : CanonicalIr) (hpayload : InMemory payload)
    (h : admitPayload core fields manifest payload entries = .ok ir) :
    ∃ p, reconstructPayload core ir.candidate = .ok p ∧ p.DeepEqual payload := by
  simp only [admitPayload, validateDecodedPayload, bind_eq_ok_iff, require_eq_ok_iff,
    member_eq_ok_iff, memberItems_eq_ok_iff, pure_eq_ok, Except.ok.injEq] at h
  obtain ⟨-, ⟨-, hvalid, asset, hasset, -, -, judgments, hjudgments, hrules, -⟩, ir', hbuild, ⟨⟩,
    hstrict, rfl⟩ := h
  obtain ⟨b⟩ := buildIR_spec hbuild
  have hcandidate := strict_candidate b.tuple_eq hstrict
  obtain ⟨n, hn, htarget, hvalue⟩ := b.assetNode
  obtain ⟨hkept, declarations, question, overview, hshown, hdeclarations, hquestion, hoverview⟩ :=
    prop_assetValue hpayload b.value_eq
  simp only [validPayload, Bool.and_eq_true, List.all_eq_true] at hvalid
  obtain ⟨⟨⟨⟨⟨hclosed, hprofile⟩, hversion⟩, hitems⟩, hshape⟩, -⟩ := hvalid
  obtain ⟨⟨props, rfl⟩, hothers, -⟩ := closedObject_spec hclosed
  obtain rfl : b.judgments = judgments :=
    Value.arr.inj (Option.some.inj (b.judgments_prop.symm.trans hjudgments))
  obtain ⟨capability, hcapability, hdeclared⟩ := capabilityOf_eq hrules
  have hcollections := b.readCollections hpayload hcandidate fun c hc =>
    hitems c.2 (List.mem_append_left _ (List.mem_map_of_mem hc))
  obtain ⟨boundaries, hboundaries, hcollect⟩ := b.readBoundaries hpayload hcandidate hdeclarations
  rw [hdeclarations, Option.any_some] at hshape
  obtain ⟨restored, hrestored, hdeep⟩ := restoredDeclarations_spec (hpayload.prop hdeclarations)
    hshape hquestion hoverview hboundaries hcollect
  refine ⟨.obj (listed payloadMembers fun name =>
    if name = "declarations" then some restored else prop (.obj props) name), ?_, ?_⟩
  · have htuple := prop_candidateTuple
    rw [reconstructPayload, b.validateCandidate_eq hcandidate, ok_bind]
    simp only [hn, List.length_singleton, require_bind_of_pos, List.head?_cons, orFail,
      ok_bind, member_eq_ok_iff.mpr hvalue, member_eq_ok_iff.mpr htarget,
      CanonicalIr.candidate, member_eq_ok_iff.mpr htuple.1, member_eq_ok_iff.mpr htuple.2,
      mapM_collections hcollections, b.judgmentNodes hpayload, hcapability,
      member_eq_ok_iff.mpr hshown, hrestored]
    refine congrArg (fun ps => Except.ok (obj ps)) ?_
    have hlisted : ∀ names : List String, "declarations" ∉ names →
        listed names (fun name => if name = "declarations" then some restored
          else prop (.obj props) name) = listed names (obj props).prop := by
      intro names hnames
      refine listed_congr fun name hname => if_neg ?_
      rintro rfl
      exact hnames hname
    rw [payloadMembers, listed_append, listed_append, listed_append, listed_append,
      hlisted _ (by decide), hlisted _ (by decide), hlisted _ (by decide), hlisted _ (by decide),
      listed_congr hkept]
    simp only [listed, List.filterMap_cons, List.filterMap_nil, propIs_eq_true_iff.mp hprofile,
      propIs_eq_true_iff.mp hversion, b.asset_prop, b.judgments_prop, hdeclared, if_true,
      Option.map_some]
  · have hnodup : payloadMembers.Nodup := by decide
    refine IsObject.deepEqual ⟨_, rfl, nodup_listed hnodup _⟩ hpayload.isObject fun name => ?_
    rw [prop_listed]
    by_cases hname : name = "declarations"
    · have hmem : name ∈ payloadMembers := by
        rw [hname]
        decide
      rw [if_pos hmem, if_pos hname, hname, hdeclarations]
      exact congrArg some hdeep
    · rw [if_neg hname]
      by_cases hmem : name ∈ payloadMembers
      · rw [if_pos hmem]
      · rw [if_neg hmem]
        have hsub : ∀ n ∈ ownCollections.map Prod.snd ++ requiredNames ++ optionalNames,
            n ∈ payloadMembers := by decide
        have hnot : name ∉ ownCollections.map Prod.snd ++ requiredNames ++ optionalNames :=
          fun h => hmem (hsub name h)
        rw [List.mem_append, not_or] at hnot
        rw [hothers name hnot.1 hnot.2]

section Sample

/-- A small asset: one rule, formed by observation. -/
def sampleAsset : Json :=
  textRecord [("asset_id", "a"), ("asset_version", "1"), ("judgment_version", "1")]

def sampleContract : Json :=
  .obj [("id", .str "c"), ("form", textRecord [("term", "text")]),
    ("shape", textRecord [("kind", "scalar"), ("scalar_type", "text")]),
    ("minimum", .num ⟨false, 0, by decide +kernel⟩), ("maximum", .null),
    ("allowed_result_types", .arr [textRecord [("term", "text")]])]

def sampleMethod : Json :=
  .obj [("method", textRecord [("term", "observation")]),
    ("components", .arr [.obj [("id", .str "m"), ("method", textRecord [("term", "observation")]),
      ("role", .str "观察依据"), ("statement", .str "Seen."), ("material_refs", .arr [])]]),
    ("bindings", .arr [])]

def sampleJudgment : Json :=
  .obj [("id", .str "j"), ("focus", .str "Is it so?"),
    ("subject", .obj [("actor_ids", .arr []), ("statement", .str "It.")]),
    ("scope", textRecord [("statement", "Here.")]), ("form", .str "rule"),
    ("answer_kind", .str "determination"),
    ("core_expression", .obj [("kind", .str "authored"), ("statement", .str "Look."),
      ("qualification_refs", .arr [])]),
    ("formation_rule", .obj [("statement", .str "Look."), ("condition_refs", .arr []),
      ("output_contract_ref", .str "c")]),
    ("result_contract", sampleContract), ("method", sampleMethod), ("material_refs", .arr []),
    ("reason_refs", .arr []), ("parent_ref", .null), ("ports", .arr []), ("inputs", .arr []),
    ("content_uses", .arr [])]

def samplePayload : Json :=
  .obj ([("profile", .str "kdna.payload.judgment"), ("profile_version", .str "0.5.1"),
      ("asset", sampleAsset)] ++
    (ownCollections.map fun c => (c.2, .arr [])) ++
    [("scope", textRecord [("statement", "Here.")]), ("judgments", .arr [sampleJudgment]),
      ("asset_capability", .str "result_forming_rules"),
      ("declarations", .obj [("highest_question",
        textRecord [("state", "provided"), ("value", "Is it so?")])]),
      ("kernel", .obj [("purpose", textRecord [("kind", "summary")]), ("foundation_refs", .arr [])])])

def sampleManifest : Json :=
  .obj [("format_version", .str "0.5.0"), ("asset_id", .str "a"), ("asset_uid", .str "u"),
    ("asset_type", .str "sample"), ("title", .str "Sample"), ("version", .str "1"),
    ("judgment_version", .str "1"), ("created_at", .str "2026-01-01T00:00:00Z"),
    ("updated_at", .str "2026-01-01T00:00:00Z"),
    ("compatibility", textRecord [("min_loader_version", "0.1.0"),
      ("profile", "kdna.payload.judgment"), ("profile_version", "0.5.1")]),
    ("payload", .obj [("path", .str "payload.kdnab"), ("encoding", .str "cbor"),
      ("encrypted", .bool false)]),
    ("runtime", .obj [("mandatory_entries", .arr [])]), ("summary", .str "A sample."),
    ("languages", .arr [.str "en"]),
    ("history", .obj [("coverage", .str "complete"), ("statement", .str "All."),
      ("entries", .arr [])])]

/-- The links of the sample: the judgment needs its bodies. -/
def sampleLinks (r : Ref) : List Ref :=
  if r = ⟨.judgment, "j"⟩ then [⟨.contract, "c"⟩, ⟨.component, "m"⟩] else []

/-- The digests of the canonical identities of the sample's nodes and references, by the
sum of their octets. -/
def sampleDigests : List (ℕ × String) :=
  [(7297, "sha256:bdef55bb76af8b86ed7dd91ddcb811e3a293bd9558f8b6d0da47f8fe0ab2a5ef"),
    (7604, "sha256:1c9a5a77410b332705a54f74baec131044cc1db04e2d0be1369d2700ff1d45f7"),
    (7597, "sha256:e88e4ab0d99b4db4981d07f93f22c8474e3e8df81747ef12a46c5d0116e61516"),
    (7724, "sha256:10f3b5648a08bfd7b66c64acf162d51c9013f679e82a5fb725cfd038c20b93cd"),
    (10592, "sha256:ddde2ff8a040b5a3a3848e5657865388ce00fbc3b0cb3753d6ab47c1e85b913a"),
    (10719, "sha256:175d7b6ba3fae69ef8d0a733aec966c6a57980823a9e2c78288822ff3e4b434a")]

/-- The method interpretation of the sample's judgment. -/
def sampleInterpretation : Json :=
  .obj [("declaration", sampleMethod),
    ("declaration_presence", textRecord [("components_state", "declared"),
      ("bindings_state", "declared")]),
    ("component_interpretations", .arr [.obj [("judgment_ref", .str "j"), ("component_ref", .str "m"),
      ("component_type", .null),
      ("definition_digest",
        .str "sha256:37e857cc4e43f7283a51ee6abe1f6e8401803902e8dc47f6d14d712aa7d7b089"),
      ("status", .str "undeclared"), ("declaration_digest", .null), ("content_digest", .null),
      ("profile_id", .null), ("component_declaration_digest", .null), ("statement_origin", .null),
      ("bindings_digest", .null), ("adoption_proposal_digest", .null), ("authored_content", .null),
      ("body", .null)]])]

/-- What admission and `buildIR` call, on the sample. -/
def sampleCore : Core where
  digest bytes :=
    ((sampleDigests.find? fun row => row.1 = (bytes.map UInt8.toNat).sum).map Prod.snd).getD ""
  validateR2 _ _ _ _ := .ok
    { edges := fun r => (sampleLinks r).map fun target => (target, true)
      referenceRoles := fun r => (sampleLinks r).map fun target => (target, [(none, true)])
      unresolved := [] }
  resolveComponents _ _ := .ok fun id => if id = "j" then some sampleInterpretation else none
  resolveStaticPolicies _ _ := .ok fun _ => none
  checkInterpretationComplete _ _ := .ok ()
  irShape _ := true
  payloadShape _ := true
  crossEntryRules _ := true

theorem digest_sampleCore (v : Json) : sampleCore.digest (Utf8.encodeChars (canonicalText v)) =
    ((sampleDigests.find? fun row => row.1 = v.tally).map Prod.snd).getD "" := by
  rw [← tallyChars_canonicalText]
  rfl

def sampleFields : SnapshotFields :=
  ⟨"snapshot", .obj [], "sha256:0000000000000000000000000000000000000000000000000000000000000000",
    ["kdna.json", "mimetype", "payload.kdnab"]⟩

/-- The sample is admitted. -/
theorem exists_sampleIr :
    ∃ ir, admitPayload sampleCore sampleFields sampleManifest samplePayload [] = .ok ir := by
  have hok : (admitPayload sampleCore sampleFields sampleManifest samplePayload []).toBool = true := by
    unfold admitPayload buildIR node interpretations references pairReferences assetValue copiedMembers
    simp only [stableId_eq, digest_sampleCore, toList_eq_quickToList, copyJson_eq_copyQuickly,
      assertStrictJson_eq_checkQuickly]
    decide +kernel
  cases h : admitPayload sampleCore sampleFields sampleManifest samplePayload [] with
  | ok ir => exact ⟨ir, rfl⟩
  | error e =>
    rw [h] at hok
    exact absurd hok Bool.false_ne_true

/-- The sample's payload comes back. -/
theorem reconstructPayload_sample :
    ∃ ir, admitPayload sampleCore sampleFields sampleManifest samplePayload [] = .ok ir ∧
      ∃ p, reconstructPayload sampleCore ir.candidate = .ok p ∧ p.DeepEqual samplePayload := by
  obtain ⟨ir, hir⟩ := exists_sampleIr
  have hmemory : InMemory samplePayload := inMemory_of_named (by decide)
  exact ⟨ir, hir, reconstructPayload_candidate sampleCore sampleFields sampleManifest samplePayload []
    ir hmemory hir⟩

end Sample

end Kdna.Ir

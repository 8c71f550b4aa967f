import Kdna.Ir.Identity
import Kdna.Retained.Graph

/-!
# Issued targets can be expanded

Every target that a retained plan issues is defined, and an expansion that carries its anchor,
its target and its scope is planned with exactly that scope.
-/

namespace Kdna.Retained

open Value Ir Read

section Totality

variable {ε α β : Type}

/-- A mapped reading that reads every element succeeds. -/
theorem exists_mapM_eq_some {f : α → Option β} {l : List α} (h : ∀ a ∈ l, ∃ y, f a = some y) :
    ∃ ys, l.mapM f = some ys := by
  induction l with
  | nil => exact ⟨[], rfl⟩
  | cons a l ih =>
    rw [List.forall_mem_cons] at h
    obtain ⟨⟨y, hy⟩, htail⟩ := h
    obtain ⟨ys, hys⟩ := ih htail
    exact ⟨y :: ys, by rw [List.mapM_cons, hy, hys]; rfl⟩

/-- A mapped step that succeeds on every element succeeds. -/
theorem exists_mapM_eq_ok {f : α → Except ε β} {l : List α} (h : ∀ a ∈ l, ∃ y, f a = .ok y) :
    ∃ ys, l.mapM f = .ok ys := by
  induction l with
  | nil => exact ⟨[], rfl⟩
  | cons a l ih =>
    rw [List.forall_mem_cons] at h
    obtain ⟨⟨y, hy⟩, htail⟩ := h
    obtain ⟨ys, hys⟩ := ih htail
    exact ⟨y :: ys, by rw [List.mapM_cons, hy, ok_bind, hys]; rfl⟩

end Totality

variable {core : Core} {manifest payload : Json} {entries : Entries} {ir : CanonicalIr}
variable {b : Built core manifest payload entries ir}

/-- The text of a target passes the strict check: an id was made of it. -/
theorem strict_target (b : Built core manifest payload entries ir) {t : Ref} (ht : t ∈ b.targets) :
    t.json.Strict maxDepth := by
  obtain ⟨n, hn, rfl, -⟩ := b.exists_node ht
  obtain ⟨r, -, hnode⟩ := exists_of_mem_mapM b.nodes_eq hn
  obtain ⟨text, htext, -⟩ := stableId_spec (stableId_of_node hnode)
  obtain ⟨hstrict, -, -⟩ := canonicalJson_eq_ok_iff.mp htext
  exact hstrict.2 _ (by simp)

theorem same_self (v : Json) : Read.same v v = true := beq_self_eq_true _

/-- Targets of the registry that read the same are the same. -/
theorem eq_of_same {t u : Ref} (ht : t ∈ b.targets) (hu : u ∈ b.targets)
    (h : Read.same t.json u.json = true) : t = u :=
  Ref.eq_of_canonicalText (strict_target b ht) (strict_target b hu) (eq_of_beq h)

/-- The node that a target finds stands for it. -/
theorem find_target {t : Ref} (ht : t ∈ b.targets) :
    ∃ n ∈ ir.nodes, ir.nodes.find? (fun n => propSame n "target" t.json) = some n ∧
      idOf n = some (b.nodeId t) := by
  obtain ⟨n, hn, -, htarget, -⟩ := exists_nodeOf b ht
  have hsome : (ir.nodes.find? fun n => propSame n "target" t.json).isSome :=
    List.find?_isSome.mpr ⟨n, hn, by rw [propSame, htarget]; exact same_self _⟩
  obtain ⟨m, hm⟩ := Option.isSome_iff_exists.mp hsome
  have hmem := List.mem_of_find?_eq_some hm
  obtain ⟨u, hu, hid, hutarget, -⟩ := exists_target b hmem
  have hsame := List.find?_some hm
  rw [propSame, hutarget, Option.any_some] at hsame
  exact ⟨m, hmem, hm, eq_of_same hu ht hsame ▸ hid⟩

/-- A row of an id that a node has. -/
theorem exists_rowOf {rows : List Json} {id : String} (h : id ∈ rows.filterMap idOf) :
    ∃ row ∈ rows, rowOf rows id = some row ∧ idOf row = some id := by
  obtain ⟨row, hrow, hid⟩ := List.mem_filterMap.mp h
  have hsome : (rows.reverse.find? fun row => idOf row = some id).isSome :=
    List.find?_isSome.mpr ⟨row, List.mem_reverse.mpr hrow, by simpa using hid⟩
  obtain ⟨found, hfound⟩ := Option.isSome_iff_exists.mp hsome
  exact ⟨found, List.mem_reverse.mp (List.mem_of_find?_eq_some hfound), hfound,
    by simpa using List.find?_some hfound⟩

/-- The asset's node is projected. -/
theorem Sound.exists_projected (h : Sound b) (targets : List Identity) {n : Json}
    (hn : n ∈ ir.nodes) : ∃ y, projected ir targets n = some y := by
  rw [projected]
  split_ifs with hrole
  · obtain ⟨t, -, hid, htarget, hasset⟩ := exists_target b hn
    obtain ⟨kernel, refs, hkernel, hrefs⟩ := h.readable.1
    obtain ⟨m, hfilter, -, hvalue⟩ := b.assetNode
    have hmem : n ∈ ir.nodes.filter fun n => kindIs n .asset := by
      refine List.mem_filter.mpr ⟨hn, ?_⟩
      obtain ⟨registry⟩ := b.registry
      rw [kindIs, htarget, Option.any_some, propIs_eq_true_iff, hasset hrole]
      simp [Ref.json, registry.kind]
    rw [hfilter, List.mem_singleton] at hmem
    have hheld : b.value.enumerated.prop "kernel" = some kernel :=
      ((prop_assetValue h.memory b.value_eq).1 "kernel" (by decide)).trans hkernel
    simp only [hid, hmem ▸ hvalue, hheld, hrefs, Option.bind_eq_bind, Option.bind_some, items?,
      Option.pure_def]
    exact ⟨_, rfl⟩
  · exact ⟨_, rfl⟩

/-- Nodes of the IR without repetition have a context. -/
theorem Sound.exists_context (h : Sound b) {ids : List String}
    (hids : ∀ id ∈ ids, id ∈ ir.nodes.filterMap idOf) (hnodup : ids.Nodup) :
    ∃ context, selectedContext ir ids = some context := by
  obtain ⟨original, horiginal⟩ := exists_mapM_eq_some (f := rowOf ir.nodes) (l := ids) fun id hid => by
    obtain ⟨row, -, hrow, -⟩ := exists_rowOf (hids id hid)
    exact ⟨row, hrow⟩
  have hnodes : ∀ n ∈ original, n ∈ ir.nodes := fun n hn => by
    obtain ⟨id, -, hrow⟩ := exists_of_mem_mapM_some horiginal hn
    exact List.mem_reverse.mp (List.mem_of_find?_eq_some hrow)
  obtain ⟨closure, hclosure⟩ := exists_mapM_eq_some (l := original) fun n hn =>
    h.exists_projected (original.map fun n => identity ir ((n.prop "target").getD .null))
      (hnodes n hn)
  obtain ⟨taking, htaking⟩ := exists_mapM_eq_some (f := participants)
      (l := original.filter (roleIs · "relationship")) fun n hn => by
    obtain ⟨hmem, hrole⟩ := List.mem_filter.mp hn
    obtain ⟨r, hr, hvalue⟩ := b.relationshipNode h.memory (hnodes n hmem) hrole
    obtain ⟨rows, hrows⟩ := h.readable.2 _ b.relationships_prop r hr
    refine ⟨rows.map (textOf · "judgment_ref"), ?_⟩
    simp only [participants, hvalue, hrows, Option.bind_eq_bind, Option.bind_some, items?,
      Option.pure_def]
  simp only [selectedContext, horiginal, hclosure, htaking, Option.bind_eq_bind, Option.bind_some,
    guard, if_pos hnodup, Option.pure_def]
  obtain ⟨outside, houtside⟩ : ∃ outside, omittedRows ((ir.catalog.filter fun row =>
      has (((original.filter (roleIs · "judgment")).map (valueText · "id")) ++ taking.flatten)
        (textOf row "judgment_id")).filter fun row => ¬ within ids row "node_ref")
      .outsideSelection = some outside := by
    refine exists_mapM_eq_some fun row hrow => ?_
    obtain ⟨id, j, -, -, -, -, hnode⟩ :=
      catalog_row b (List.mem_filter.mp (List.mem_filter.mp hrow).1).1
    exact ⟨_, by rw [hnode]; rfl⟩
  rw [houtside]
  exact ⟨_, rfl⟩

section Frames

/-- The steps of a plan that follow the selection of the nodes. -/
theorem plan_eq_frame {request : Request} {view : View} (hmode : request ≠ .catalog) :
    plan request view = do
      let f ← frame request view
      return f.plan view.ir fun d => unsupplied f d || reducibleMember request f d := by
  cases request with
  | catalog => exact absurd rfl hmode
  | _ => rfl

/-- What the loop over the index keeps is supplied or has a target. -/
theorem indexed_spec {request : Request} {supplied : List String} {targets : List Target}
    {d d' : Json} (h : indexed request ir supplied targets d = .ok (some d')) :
    d' = d ∧ ((∃ node, (textOf d "node_ref").bind (rowOf ir.nodes) = some node ∧
      within supplied node "id" = true) ∨
        ((d.prop "target").bind (byTarget targets)).isSome = true) := by
  simp only [indexed, bind_eq_ok_iff, orFail_eq_ok_iff] at h
  obtain ⟨node, hnode, h⟩ := h
  split_ifs at h with hexpand hjudgment hnone
  · exact nomatch Except.ok.inj h
  · exact nomatch Except.ok.inj h
  · exact nomatch Except.ok.inj h
  · obtain ⟨hkept, h⟩ := require_bind_eq_ok_iff.mp h
    obtain rfl := Option.some.inj (Except.ok.inj h)
    exact ⟨rfl, hkept.imp_left fun hinside => ⟨node, hnode, hinside⟩⟩

/-- The loop over the index does not fail: outside the whole asset a descriptor that is not
supplied and has no target is left out. -/
theorem indexed_isOk {request : Request} {supplied : List String} {targets : List Target} {d : Json}
    (hd : d ∈ ir.assetIndex) (b : Built core manifest payload entries ir)
    (hwhole : request.isWhole = true → ∀ t ∈ b.targets, (byTarget targets t.json).isSome = true) :
    ∃ o, indexed request ir supplied targets d = .ok o := by
  obtain ⟨t, ht, htarget, hnode⟩ := index_row b hd
  have hmem : b.nodeId t ∈ ir.nodes.filterMap idOf := nodeIds_eq b ▸ List.mem_map_of_mem ht
  obtain ⟨row, -, hrow, -⟩ := exists_rowOf hmem
  simp only [indexed, hnode, htarget, Option.bind_some, hrow, orFail, ok_bind]
  split_ifs with hexpand hjudgment hnone
  · exact ⟨_, rfl⟩
  · exact ⟨_, rfl⟩
  · exact ⟨_, rfl⟩
  · have hkept : within supplied row "id" = true ∨ (byTarget targets t.json).isSome = true := by
      by_cases hmode : request.isWhole = true
      · exact .inr (hwhole hmode t ht)
      · by_cases hinside : within supplied row "id" = true
        · exact .inl hinside
        · right
          cases hfound : byTarget targets t.json with
          | some x => rfl
          | none => exact absurd ⟨hmode, hinside, by rw [hfound]; rfl⟩ hnone
    rw [require_bind_of_pos hkept]
    exact ⟨_, rfl⟩

/-- A supplied descriptor is kept. -/
theorem indexed_of_within {request : Request} {supplied : List String} {targets : List Target}
    {d : Json} (hd : d ∈ ir.assetIndex) (b : Built core manifest payload entries ir)
    (hinside : within supplied d "node_ref" = true) :
    indexed request ir supplied targets d = .ok (some d) := by
  obtain ⟨t, ht, htarget, hnode⟩ := index_row b hd
  have hmem : b.nodeId t ∈ ir.nodes.filterMap idOf := nodeIds_eq b ▸ List.mem_map_of_mem ht
  obtain ⟨row, -, hrow, hid⟩ := exists_rowOf hmem
  have hwithin : within supplied row "id" = true := by
    rw [within, hnode] at hinside
    rwa [within, show textOf row "id" = _ from hid]
  simp only [indexed, hnode, Option.bind_some, hrow, orFail, ok_bind, hwithin, not_true_eq_false,
    and_false, false_and, if_false, true_or, require]
  rfl

/-- A target for which a list has an entry is found. -/
theorem byTarget_isSome {targets : List Target} {t : Json} {x : Target} (hx : x ∈ targets)
    (htarget : x.target = t) : (byTarget targets t).isSome = true :=
  List.find?_isSome.mpr ⟨x, List.mem_reverse.mpr hx, htarget ▸ same_self _⟩

theorem mem_of_byTarget {targets : List Target} {t : Json} {x : Target}
    (h : byTarget targets t = some x) : x ∈ targets :=
  List.mem_reverse.mp (List.mem_of_find?_eq_some h)

end Frames

/-- A target below a selection, with its exact scope. -/
structure Issuable (b : Built core manifest payload entries ir) (selection : Option SelectionSet)
    (x : Target) : Prop where
  anchor : x.anchor = anchorOf selection
  target : ∃ t ∈ b.targets, x.target = t.json ∧
    ir.ExactScope (seedTargets b selection ++ [t]) x.scope

section Selections

/-- The target that a row below the asset records. -/
def ownTarget (x : Json) : Target :=
  ⟨assetAnchor, (x.prop "target").getD .null, (scopeOf x).getD []⟩

/-- The whole asset has a target for each record. -/
theorem Sound.selectWhole_spec (h : Sound b) :
    ∃ selected, selectWhole ir = .ok selected ∧
      (∀ x ∈ selected.targets, Issuable b none x) ∧
      ∀ t ∈ b.targets, ∃ x ∈ selected.targets, x.target = t.json := by
  obtain ⟨s, hconsistent, hlinks⟩ := h.linked
  obtain ⟨own, others, hsplit, hown, hothers⟩ :=
    b.expansionTargets_spec h.free hlinks hconsistent
  have hkind {x anchor : Json} (kind : String) (hanchor : x.prop "anchor" = some anchor)
      (hkind : anchor.prop "kind" = some (.str kind)) :
      (x.prop "anchor").any (·.propIs "kind" "asset") = decide (kind = "asset") := by
    rw [hanchor, Option.any_some, Bool.eq_iff_iff, propIs_eq_true_iff, hkind]
    simp
  have hrows : (ir.expansionTargets.filter fun x => (x.prop "anchor").any (·.propIs "kind" "asset")) =
      own := by
    rw [hsplit, List.filter_append, List.filter_eq_self.mpr, List.filter_eq_nil_iff.mpr,
      List.append_nil]
    · intro x hx
      obtain ⟨judgment, -, id, chosen, t, scope, -, -, hanchor, -⟩ := hothers x hx
      rw [hkind "judgment" hanchor (by simp [judgmentAnchor])]
      decide
    · intro x hx
      obtain ⟨t, -, scope, -, hanchor, -⟩ := exists_of_mem_forall₂ hown hx
      rw [hkind "asset" hanchor (by simp [assetAnchor])]
      rfl
  obtain ⟨ids, hids⟩ : ∃ ids, ir.assetClosure.mapM text? = some ids := by
    refine exists_mapM_eq_some fun v hv => ?_
    have hoverview := b.overview_eq
    simp only [assetClosure, bind_eq_ok_iff, pure_eq_ok, Except.ok.injEq] at hoverview
    obtain ⟨_, _, _, _, _, _, _, _, _, _, _, _, _, _, hclosure⟩ := hoverview
    rw [← hclosure] at hv
    obtain ⟨n, -, rfl⟩ := List.mem_map.mp hv
    exact ⟨n.id, rfl⟩
  have hread : List.Forall₂ (fun x target => (do
      let t ← orFail .thrown (x.prop "target")
      let scope ← orFail .thrown (scopeOf x)
      return (⟨assetAnchor, t, scope⟩ : Target)) = Except.ok (ε := Code) target) own
        (own.map ownTarget) := by
    rw [List.forall₂_map_right_iff, List.forall₂_same]
    intro x hx
    obtain ⟨t, -, scope, htarget, -, hscope, -⟩ := exists_of_mem_forall₂ hown hx
    rw [ownTarget, htarget, scopeOf, hscope, Option.bind_some, texts_map_str]
    rfl
  have hseeds : seedsOf ir none = .ok [b.nodeId b.asset] :=
    seedsOf_eq (b := b) fun id hid => absurd hid List.not_mem_nil
  refine ⟨⟨ids, own.map ownTarget⟩, ?_, ?_, ?_⟩
  · have hread' : orFail Code.thrown (ir.assetClosure.mapM text?) = .ok ids :=
      orFail_eq_ok_iff.mpr hids
    simp only [selectWhole, hseeds, hread', hrows, ok_bind]
    rw [mapM_eq_ok_iff.mpr hread]
    rfl
  · intro x hx
    obtain ⟨y, hy, rfl⟩ := List.mem_map.mp hx
    obtain ⟨t, ht, scope, htarget, -, hscope, hexact⟩ := exists_of_mem_forall₂ hown hy
    refine ⟨rfl, t, ht, by rw [ownTarget, htarget]; rfl, ?_⟩
    rw [ownTarget, scopeOf, hscope, Option.bind_some, texts_map_str]
    exact hexact
  · intro t ht
    obtain ⟨y, hy, scope, htarget, -⟩ := exists_mem_forall₂ hown ht
    exact ⟨_, List.mem_map_of_mem hy, by rw [ownTarget, htarget]; rfl⟩

/-- The target of a node below a selection is issuable. -/
theorem Sound.targetOf_spec (h : Sound b) {selection : SelectionSet}
    (hknown : Known ir (some selection)) {n : Json} (hn : n ∈ ir.nodes) :
    ∃ x, targetOf ir (selectionAnchor selection) ((seedTargets b (some selection)).map b.nodeId) n =
        .ok x ∧ Issuable b (some selection) x ∧ n.prop "target" = some x.target := by
  obtain ⟨t, ht, hid, htarget, -⟩ := exists_target b hn
  have hseeds : ∀ u ∈ seedTargets b (some selection) ++ [t], u ∈ b.targets := by
    intro u hu
    rcases List.mem_append.mp hu with hseed | hlast
    · exact seedTargets_subset hknown u hseed
    · exact List.mem_singleton.mp hlast ▸ ht
  obtain ⟨scope, hclosure, hexact⟩ := h.closureOf_targets hseeds
  rw [List.map_append, List.map_singleton] at hclosure
  refine ⟨⟨selectionAnchor selection, t.json, scope⟩, ?_, ⟨rfl, t, ht, rfl, hexact⟩, htarget⟩
  simp only [targetOf, htarget, hid, orFail, ok_bind, hclosure]
  rfl

/-- A selection supplies the recorded closures of its judgments and has a target for each
node of them. -/
theorem Sound.selectExact_spec (h : Sound b) {selection : SelectionSet}
    (hknown : Known ir (some selection)) :
    ∃ selected, selectExact ir selection = .ok selected ∧
      (∀ x ∈ selected.targets, Issuable b (some selection) x) ∧
      (selected.ids.Sublist (ir.nodes.filterMap idOf)) ∧
      (∀ t ∈ b.targets, b.nodeId t ∈ selected.ids → ∃ x ∈ selected.targets, x.target = t.json) ∧
      ∀ t ∈ b.targets, b.nodeId t ∈ selected.ids ↔
        ∃ id ∈ selection.judgmentIds, ∃ scope, storedClosure ir id = .ok scope ∧
          b.nodeId t ∈ scope := by
  obtain ⟨closures, hclosures⟩ := exists_mapM_eq_ok (f := storedClosure ir)
      (l := selection.judgmentIds) fun id hid => by
    obtain ⟨scope, hscope, -⟩ := h.storedClosure_eq (hknown id hid)
    exact ⟨scope, hscope⟩
  let ids := (ir.nodes.filterMap idOf).filter (· ∈ closures.flatten)
  let available := ids ++ linkedFrom ir (b.nodeId b.asset) closures.flatten
  obtain ⟨targets, htargets⟩ := exists_mapM_eq_ok
      (f := targetOf ir (selectionAnchor selection) ((seedTargets b (some selection)).map b.nodeId))
      (l := ir.nodes.filter fun n => within available n "id") fun n hn => by
    obtain ⟨x, hx, -⟩ := h.targetOf_spec hknown (List.mem_filter.mp hn).1
    exact ⟨x, hx⟩
  have hids : ∀ t ∈ b.targets, (b.nodeId t ∈ ids ↔ b.nodeId t ∈ closures.flatten) := by
    intro t ht
    rw [List.mem_filter, decide_eq_true_eq, nodeIds_eq b]
    exact and_iff_right (List.mem_map_of_mem ht)
  refine ⟨⟨ids, targets⟩, ?_, ?_, List.filter_sublist, ?_, ?_⟩
  · simp only [selectExact, assetId_eq b, seedsOf_eq hknown (b := b), hclosures, ok_bind]
    rw [htargets]
    rfl
  · intro x hx
    obtain ⟨n, hn, hread⟩ := exists_of_mem_mapM htargets hx
    obtain ⟨y, hy, hissuable, -⟩ := h.targetOf_spec hknown (List.mem_filter.mp hn).1
    obtain rfl := Except.ok.inj (hread.symm.trans hy)
    exact hissuable
  · intro t ht hmem
    obtain ⟨n, hn, hid, htarget, -⟩ := exists_nodeOf b ht
    have hinside : within available n "id" = true :=
      within_iff.mpr ⟨_, List.mem_append_left _ hmem, hid⟩
    obtain ⟨x, hx, hread⟩ := exists_mem_mapM htargets (List.mem_filter.mpr ⟨hn, hinside⟩)
    obtain ⟨y, hy, -, hytarget⟩ := h.targetOf_spec hknown hn
    obtain rfl := Except.ok.inj (hread.symm.trans hy)
    exact ⟨x, hx, Option.some.inj (hytarget.symm.trans htarget)⟩
  · intro t ht
    rw [hids t ht, List.mem_flatten]
    constructor
    · rintro ⟨scope, hscope, hmem⟩
      obtain ⟨id, hid, hstored⟩ := exists_of_mem_mapM hclosures hscope
      exact ⟨id, hid, scope, hstored, hmem⟩
    · rintro ⟨id, hid, scope, hstored, hmem⟩
      obtain ⟨scope', hscope', hstored'⟩ := exists_mem_mapM hclosures hid
      obtain rfl := Except.ok.inj (hstored.symm.trans hstored')
      exact ⟨scope, hscope', hmem⟩

end Selections

section Plans

variable {view : View}

/-- A request for the whole asset or for a selection of the catalog. -/
def Issuing (request : Request) : Prop := request.isWhole = true ∨ request.isExact = true

/-- The frame around selected nodes. -/
theorem frame_of_selected (b : Built core manifest payload entries ir) (hview : view.ir = ir)
    (request : Request) {selected : Selected} {context : Option SelectedContext}
    (hselect : select request view = .ok selected)
    (hcontext : scopedContext request ir selected.ids = .ok context)
    (hwhole : request.isWhole = true →
      ∀ t ∈ b.targets, (byTarget selected.targets t.json).isSome = true) :
    ∃ f, frame request view = .ok f ∧ f.selected = selected ∧
      f.supplied = suppliedBy ir context selected.ids ∧
      (∀ d ∈ ir.assetIndex, within f.supplied d "node_ref" = true → d ∈ f.index) ∧
      ∀ d ∈ f.index, d ∈ ir.assetIndex ∧ (within f.supplied d "node_ref" = true ∨
        ((d.prop "target").bind (byTarget selected.targets)).isSome = true) := by
  subst hview
  obtain ⟨kept, hkept⟩ := exists_mapM_eq_ok
    (f := indexed request view.ir (suppliedBy view.ir context selected.ids) selected.targets)
    fun d hd => indexed_isOk hd b hwhole
  refine ⟨⟨selected, suppliedBy view.ir context selected.ids,
    (context.map SelectedContext.catalog).getD view.ir.catalog, kept.reduceOption⟩, ?_, rfl, rfl,
    fun d hd hinside => ?_, fun d hd => ?_⟩
  · simp only [frame, hselect, hcontext, hkept, ok_bind]
    rfl
  · obtain ⟨o, ho, hindexed⟩ := exists_mem_mapM hkept hd
    rw [indexed_of_within hd b hinside] at hindexed
    obtain rfl := Except.ok.inj hindexed
    exact List.reduceOption_mem_iff.mpr ho
  · obtain ⟨d', hd', hindexed⟩ := exists_of_mem_mapM hkept (List.reduceOption_mem_iff.mp hd)
    obtain ⟨rfl, hreason⟩ := indexed_spec hindexed
    refine ⟨hd', hreason.imp_left ?_⟩
    rintro ⟨node, hnode, hinside⟩
    obtain ⟨id, hid, hrow⟩ := Option.bind_eq_some_iff.mp hnode
    rw [rowOf] at hrow
    have hread : idOf node = some id := by simpa using List.find?_some hrow
    rw [within, show textOf node "id" = some id from hread] at hinside
    rwa [within, hid]

/-- The context of nodes without repetition. -/
theorem Sound.scopedContext_eq (h : Sound b) (request : Request)
    (hscoped : (request.isExact || request.isExpand) = true) {ids : List String}
    (hids : ids.Sublist (ir.nodes.filterMap idOf)) :
    ∃ context, scopedContext request ir ids = .ok (some context) := by
  obtain ⟨context, hcontext⟩ := h.exists_context (fun _ hid => hids.subset hid)
    (h.nodup_nodeIds.sublist hids)
  exact ⟨context, by rw [scopedContext, if_pos hscoped, hcontext]; rfl⟩

/-- The frame of a selection: what it supplies are the recorded closures of its judgments, and
every descriptor of its index has a target. -/
theorem Sound.frame_exact (h : Sound b) (hview : view.ir = ir) {s : SelectionSet}
    (hknown : Known ir (some s)) :
    ∃ f, frame (.exactSelection s) view = .ok f ∧
      (∀ x ∈ f.selected.targets, Issuable b (some s) x) ∧
      (∀ d ∈ ir.assetIndex, within f.supplied d "node_ref" = true → d ∈ f.index) ∧
      (∀ d ∈ f.index, d ∈ ir.assetIndex ∧
        ((d.prop "target").bind (byTarget f.selected.targets)).isSome = true) ∧
      ∀ d ∈ ir.assetIndex, within f.supplied d "node_ref" = true ↔
        ∃ id ∈ s.judgmentIds, ∃ scope, storedClosure ir id = .ok scope ∧
          within scope d "node_ref" = true := by
  obtain ⟨selected, hselect, hissuable, hids, hmembers, hstored⟩ := h.selectExact_spec hknown
  obtain ⟨context, hcontext⟩ := h.scopedContext_eq (.exactSelection s) rfl hids
  obtain ⟨f, hf, rfl, hsupplied, hkept, hindex⟩ := frame_of_selected b hview
    (.exactSelection s) (by rw [select, hview, hselect]) hcontext
    fun hwhole => nomatch hwhole
  rw [suppliedBy, if_pos (show (some context).isSome = true from rfl)] at hsupplied
  refine ⟨f, hf, hissuable, hkept, fun d hd => ?_, fun d hd => ?_⟩
  · obtain ⟨hrow, hreason⟩ := hindex d hd
    refine ⟨hrow, ?_⟩
    obtain ⟨t, ht, htarget, hnode⟩ := index_row b hrow
    by_cases hinside : within f.supplied d "node_ref" = true
    · obtain ⟨id, hid, hread⟩ := within_iff.mp hinside
      obtain rfl := Option.some.inj (hnode.symm.trans hread)
      obtain ⟨x, hx, hxtarget⟩ := hmembers t ht (hsupplied ▸ hid)
      rw [htarget]
      exact byTarget_isSome hx hxtarget
    · exact hreason.resolve_left hinside
  · obtain ⟨t, ht, -, hnode⟩ := index_row b hd
    have hread (ids : List String) : within ids d "node_ref" = true ↔ b.nodeId t ∈ ids := by
      rw [within_iff, hnode]
      constructor
      · rintro ⟨id, hid, hsame⟩
        exact Option.some.inj hsame ▸ hid
      · exact fun hmem => ⟨_, hmem, rfl⟩
    simp only [hread, hsupplied]
    exact hstored t ht

/-- The frame of an issuing request: it exists, its targets are issuable, and every descriptor
that counts as deferred has a target. -/
theorem Sound.frame_spec (h : Sound b) (hview : view.ir = ir) {request : Request}
    (hknown : Known ir request.selection) (hissuing : Issuing request) :
    ∃ f, frame request view = .ok f ∧
      (∀ x ∈ f.selected.targets, Issuable b request.selection x) ∧
      ∀ d ∈ f.index, unsupplied f d = true ∨ reducibleMember request f d = true →
        ((d.prop "target").bind (byTarget f.selected.targets)).isSome = true := by
  cases request with
  | catalog => exact absurd hissuing (by simp [Issuing, Request.isWhole, Request.isExact])
  | expand s handle => exact absurd hissuing (by simp [Issuing, Request.isWhole, Request.isExact])
  | wholeAsset =>
    obtain ⟨selected, hselect, hissuable, hall⟩ := h.selectWhole_spec
    have hfound : ∀ t ∈ b.targets, (byTarget selected.targets t.json).isSome = true := by
      intro t ht
      obtain ⟨x, hx, htarget⟩ := hall t ht
      exact byTarget_isSome hx htarget
    obtain ⟨f, hf, rfl, -, -, hindex⟩ := frame_of_selected b hview .wholeAsset
      (by simp only [select, hview, hselect]) rfl fun _ => hfound
    refine ⟨f, hf, hissuable, fun d hd _ => ?_⟩
    obtain ⟨t, ht, htarget, -⟩ := index_row b (hindex d hd).1
    rw [htarget]
    exact hfound t ht
  | exactSelection s =>
    obtain ⟨f, hf, hissuable, -, hindex, -⟩ := h.frame_exact hview hknown
    exact ⟨f, hf, hissuable, fun d hd _ => (hindex d hd).2⟩

/-- The request carries a target of its own snapshot. -/
structure Carries (view : View) (x : Target) (selection : Option SelectionSet) (handle : Handle) :
    Prop where
  selection : anchorOf selection = x.anchor
  asset : handle.asset = view.asset
  tuple : handle.tuple = view.tuple
  anchor : handle.anchor = x.anchor
  target : handle.target = x.target
  scope : handle.scope = x.scope

/-- An issuable target is expanded to its scope. -/
theorem Sound.plan_expand (h : Sound b) (hview : view.ir = ir) {selection : Option SelectionSet}
    (hknown : Known ir selection) {x : Target} (hx : Issuable b selection x) {handle : Handle}
    (hcarries : Carries view x selection handle) :
    ∃ p, plan (.expand selection handle) view = .ok p ∧ p.nodeIds = x.scope := by
  obtain ⟨t, ht, htarget, hexact⟩ := hx.target
  obtain ⟨n, hn, hfind, hid⟩ := find_target ht
  have hclosure : closureOf ir ((seedTargets b selection).map b.nodeId ++ [b.nodeId t]) =
      .ok x.scope := by
    refine h.closureOf_eq hexact fun id => ?_
    rw [← List.map_singleton, ← List.map_append, List.mem_map]
    refine exists_congr fun u => and_congr_right fun hu => ?_
    have hmem : u ∈ b.targets := by
      rcases List.mem_append.mp hu with hseed | hlast
      · exact seedTargets_subset hknown u hseed
      · exact List.mem_singleton.mp hlast ▸ ht
    rw [b.standsFor_iff, eq_comm]
    exact (and_iff_right hmem).symm
  have hselect : select (.expand selection handle) view = .ok ⟨x.scope, []⟩ := by
    subst hview
    rw [select, selectExpand, seedsOf_eq hknown (b := b), ok_bind, hcarries.asset,
      require_bind_of_pos (same_self _), hcarries.tuple, require_bind_of_pos (same_self _),
      hcarries.anchor, hcarries.selection, require_bind_of_pos (same_self _), hcarries.target,
      htarget, hfind]
    simp only [orFail, ok_bind, hid, hclosure]
    rw [hcarries.scope, require_bind_of_pos rfl]
    rfl
  obtain ⟨context, hcontext⟩ := h.scopedContext_eq (.expand selection handle) rfl
    hexact.ordered
  obtain ⟨f, hf, hselected, -⟩ := frame_of_selected b hview _ hselect hcontext
    fun hwhole => absurd hwhole Bool.false_ne_true
  refine ⟨_, by rw [plan_eq_frame Request.noConfusion, hf]; rfl, ?_⟩
  rw [Frame.plan, hselected]

end Plans

section Normalised

variable {view : View}

theorem SelectionSet.json_injective : Function.Injective SelectionSet.json := by
  rintro ⟨a, v, ids⟩ ⟨a', v', ids'⟩ h
  simp only [SelectionSet.json, Value.obj.injEq, List.cons.injEq, Prod.mk.injEq, Value.str.injEq,
    Value.arr.injEq, true_and, and_true] at h
  obtain ⟨rfl, rfl, hids⟩ := h
  rw [List.map_injective_iff.mpr (fun _ _ heq => Value.str.inj heq) hids]

/-- An anchor tells the selection. -/
theorem anchorOf_injective : Function.Injective anchorOf := by
  have hkind (s : SelectionSet) : assetAnchor ≠ selectionAnchor s := by
    intro h
    simp [assetAnchor, selectionAnchor] at h
  rintro (_ | s) (_ | s') h
  · rfl
  · exact absurd h (hkind s')
  · exact absurd h.symm (hkind s)
  · simp only [anchorOf, Option.map_some, Option.getD_some, selectionAnchor, Value.obj.injEq,
      List.cons.injEq, Prod.mk.injEq, true_and, and_true] at h
    rw [SelectionSet.json_injective h]

/-- A normalised selection names judgments of the catalog, in its order. -/
theorem normalizeSelection_spec {s s' : SelectionSet} (h : normalizeSelection s view = .ok s') :
    (∀ id ∈ s'.judgmentIds, id ∈ catalogIds view.ir) ∧ normalizeSelection s' view = .ok s' := by
  simp only [normalizeSelection, bind_eq_ok_iff, require_eq_ok_iff, pure_eq_ok, Except.ok.injEq,
    exists_const] at h
  obtain ⟨hasset, hversion, units, hunits, rfl⟩ := h
  refine ⟨fun id hid => (List.mem_filter.mp hid).1, ?_⟩
  simp only [normalizeSelection, bind_eq_ok_iff, require_eq_ok_iff, pure_eq_ok, Except.ok.injEq,
    exists_const]
  refine ⟨hasset, hversion, ?_⟩
  obtain ⟨units', hunits'⟩ := exists_mapM_eq_ok (f := fun id => do
      require (0 < (view.ir.catalog.filter fun row => textOf row "judgment_id" = some id).length)
        Code.selectionNotFound
      require ((view.ir.catalog.filter fun row => textOf row "judgment_id" = some id).length = 1)
        Code.selectionAmbiguous)
      (l := ((catalogIds view.ir).filter (· ∈ s.judgmentIds)).eraseDups) fun id hid => by
    have hmem : id ∈ s.judgmentIds := by
      simpa using (List.mem_filter.mp (List.mem_eraseDups.mp hid)).2
    obtain ⟨y, -, hy⟩ := exists_mem_mapM hunits (List.mem_eraseDups.mpr hmem)
    exact ⟨y, hy⟩
  refine ⟨units', hunits', ?_⟩
  refine congrArg (SelectionSet.mk _ _) (List.filter_congr fun id hid => ?_)
  rw [decide_eq_decide, List.mem_filter, decide_eq_true_eq]
  exact and_iff_right hid

/-- A normalised request selects judgments of the catalog. -/
theorem known_of_normalize {raw request : Request} (h : normalize raw view = .ok request) :
    Known view.ir request.selection := by
  cases raw with
  | catalog =>
    obtain rfl := Except.ok.inj h
    exact fun id hid => absurd hid List.not_mem_nil
  | wholeAsset =>
    obtain rfl := Except.ok.inj h
    exact fun id hid => absurd hid List.not_mem_nil
  | exactSelection s =>
    obtain ⟨s', hs', h⟩ := bind_eq_ok_iff.mp h
    obtain rfl := Except.ok.inj h
    exact (normalizeSelection_spec hs').1
  | expand s handle =>
    cases s with
    | none =>
      obtain rfl := Except.ok.inj h
      exact fun id hid => absurd hid List.not_mem_nil
    | some s =>
      obtain ⟨s', hs', h⟩ := bind_eq_ok_iff.mp h
      obtain rfl := Except.ok.inj h
      exact (normalizeSelection_spec hs').1

/-- An expansion below the selection of a normalised request is normalised. -/
theorem normalize_expand {raw request : Request} (h : normalize raw view = .ok request)
    (handle : Handle) :
    normalize (.expand request.selection handle) view = .ok (.expand request.selection handle) := by
  have hsome {s s' : SelectionSet} (hs' : normalizeSelection s view = .ok s') :
      normalize (.expand (some s') handle) view = .ok (.expand (some s') handle) := by
    rw [normalize, (normalizeSelection_spec hs').2]
    rfl
  cases raw with
  | catalog =>
    obtain rfl := Except.ok.inj h
    rfl
  | wholeAsset =>
    obtain rfl := Except.ok.inj h
    rfl
  | exactSelection s =>
    obtain ⟨s', hs', h⟩ := bind_eq_ok_iff.mp h
    obtain rfl := Except.ok.inj h
    exact hsome hs'
  | expand s handle' =>
    cases s with
    | none =>
      obtain rfl := Except.ok.inj h
      rfl
    | some s =>
      obtain ⟨s', hs', h⟩ := bind_eq_ok_iff.mp h
      obtain rfl := Except.ok.inj h
      exact hsome hs'

end Normalised

/-- What the semantic pass does to a payload: it links records of the registry only, no two of
the identities share their digits, and it has read the kernel and the relationships. -/
structure Passed (core : Core) (manifest payload : Json) (entries : Entries) (ir : CanonicalIr) :
    Prop where
  linked : ∀ records links, createRegistry manifest payload = .ok records →
    core.validateR2 manifest payload entries records = .ok links → Linked ir.asset records links
  free : ∀ records links, createRegistry manifest payload = .ok records →
    core.validateR2 manifest payload entries records = .ok links →
      CollisionFree core ir.asset (identities (records.map Record.target) links)
  readable : ∀ records links, createRegistry manifest payload = .ok records →
    core.validateR2 manifest payload entries records = .ok links → Readable payload

theorem Passed.sound (h : Passed core manifest payload entries ir) (hmemory : InMemory payload)
    (b : Built core manifest payload entries ir) : Sound b where
  free := h.free _ _ b.registered_eq b.links_eq
  linked := (h.linked _ _ b.registered_eq b.links_eq).consistent
  memory := hmemory
  readable := h.readable _ _ b.registered_eq b.links_eq

section Tuple

variable {view : View} {tuple : Json}

/-- A plan does not read the tuple of the IR, which an admission replaces. -/
theorem plan_of_tuple (hview : view.ir = { ir with tuple }) (request : Request) :
    plan request view = plan request { view with ir } := by
  obtain ⟨asset, viewTuple, viewIr⟩ := view
  subst hview
  cases request <;> rfl

theorem browserPlan_of_tuple (hview : view.ir = { ir with tuple }) (request : Request) :
    browserPlan request view = browserPlan request { view with ir } := by
  obtain ⟨asset, viewTuple, viewIr⟩ := view
  subst hview
  cases request <;> rfl

theorem normalize_of_tuple (hview : view.ir = { ir with tuple }) (request : Request) :
    normalize request view = normalize request { view with ir } := by
  obtain ⟨asset, viewTuple, viewIr⟩ := view
  subst hview
  cases request <;> rfl

end Tuple

/-- A normalised request for the whole asset or a selection is planned, every target that its
plan issues is defined, and an expansion that carries one is planned with the nodes of its
scope. -/
theorem issued_targets_expand (core : Core) (manifest payload : Json) (entries : Entries)
    (ir : CanonicalIr) (hbuild : buildIR core manifest payload entries = .ok ir)
    (hpassed : Passed core manifest payload entries ir) (hmemory : InMemory payload)
    (view : View) (tuple : Json) (hview : view.ir = { ir with tuple }) (raw request : Request)
    (hrequest : normalize raw view = .ok request) (hissuing : Issuing request) :
    ∃ p, plan request view = .ok p ∧ ∀ issued ∈ p.targets, ∃ x, issued = some x ∧
      ∀ selection handle, Carries view x selection handle →
        normalize (.expand selection handle) view = .ok (.expand selection handle) ∧
          ∃ p', plan (.expand selection handle) view = .ok p' ∧ p'.nodeIds = x.scope := by
  obtain ⟨b⟩ := buildIR_spec hbuild
  have hsound := hpassed.sound hmemory b
  rw [normalize_of_tuple hview] at hrequest
  have hknown : Known ir request.selection := known_of_normalize hrequest
  have hown : ({ view with ir } : View).ir = ir := rfl
  obtain ⟨f, hf, hissuable, hindex⟩ := hsound.frame_spec hown hknown hissuing
  have hmode : request ≠ .catalog := by
    rintro rfl
    exact absurd hissuing (by simp [Issuing, Request.isWhole, Request.isExact])
  refine ⟨_, by rw [plan_of_tuple hview, plan_eq_frame hmode, hf]; rfl, fun issued hissued => ?_⟩
  obtain ⟨d, hd, rfl⟩ := List.mem_map.mp hissued
  obtain ⟨hkept, hdeferred⟩ := List.mem_filter.mp hd
  rw [Bool.or_eq_true] at hdeferred
  obtain ⟨x, hx⟩ := Option.isSome_iff_exists.mp (hindex d hkept hdeferred)
  refine ⟨x, hx, fun selection handle hcarries => ?_⟩
  obtain ⟨target, -, hfound⟩ := Option.bind_eq_some_iff.mp hx
  have hissued := hissuable x (mem_of_byTarget hfound)
  obtain rfl : selection = request.selection :=
    anchorOf_injective (hcarries.selection.trans hissued.anchor)
  have hcarries' : Carries { view with ir } x request.selection handle :=
    ⟨hcarries.selection, hcarries.asset, hcarries.tuple, hcarries.anchor, hcarries.target,
      hcarries.scope⟩
  rw [normalize_of_tuple hview, plan_of_tuple hview]
  exact ⟨normalize_expand hrequest handle, hsound.plan_expand rfl hknown hissued hcarries'⟩

section Others

/-- The descriptor of a judgment that is not selected. -/
def isOther (s : SelectionSet) (d : Json) : Bool :=
  (d.prop "target").any fun target =>
    target.propIs "kind" "judgment" && !(textOf target "id").any (· ∈ s.judgmentIds)

/-- The mandatory closures of the selected judgments hold a judgment that is not selected. -/
def HoldsOther (ir : CanonicalIr) (s : SelectionSet) : Prop :=
  ∃ d ∈ ir.assetIndex, isOther s d = true ∧
    ∃ id ∈ s.judgmentIds, ∃ scope, storedClosure ir id = .ok scope ∧
      within scope d "node_ref" = true

instance (ir : CanonicalIr) (s : SelectionSet) : Decidable (HoldsOther ir s) :=
  decidable_of_iff (ir.assetIndex.any fun d => isOther s d && s.judgmentIds.any fun id =>
      (storedClosure ir id).toOption.any (within · d "node_ref")) <| by
    simp only [List.any_eq_true, Bool.and_eq_true, Option.any_eq_true, toOption_eq_some_iff,
      HoldsOther]

end Others

section Sample

/-- The second judgment of a small asset: the one that replaces the first. -/
def laterJudgment : Json :=
  (((sampleJudgment.setProp "id" (.str "k")).setProp "formation_rule"
    (.obj [("statement", .str "Look."), ("condition_refs", .arr []),
      ("output_contract_ref", .str "e")])).setProp "result_contract"
    (sampleContract.setProp "id" (.str "e"))).setProp "method"
    (sampleMethod.setProp "components" (.arr [.obj [("id", .str "o"),
      ("method", textRecord [("term", "observation")]), ("role", .str "观察依据"),
      ("statement", .str "Seen."), ("material_refs", .arr [])]]))

/-- The first judgment: its lifecycle names the second. -/
def replacedJudgment : Json :=
  sampleJudgment.setProp "lifecycle" (.obj [("status", .str "superseded"),
    ("superseded_by", .arr [.obj [("asset", sampleAsset), ("judgment_id", .str "k")]]),
    ("statement", .str "Replaced.")])

/-- The payload of the two judgments. -/
def replacedPayload : Json :=
  samplePayload.setProp "judgments" (.arr [replacedJudgment, laterJudgment])

/-- The links of the two judgments: each needs its bodies, and the first its replacement. -/
def replacedLinks (r : Ref) : List (Ref × Option String) :=
  if r = ⟨.judgment, "j"⟩ then [(⟨.contract, "c"⟩, none), (⟨.component, "m"⟩, none),
    (⟨.judgment, "k"⟩, some "lifecycle_replacement")]
  else if r = ⟨.judgment, "k"⟩ then [(⟨.contract, "e"⟩, none), (⟨.component, "o"⟩, none)]
  else []

/-- The digests of the identities of the nodes and references, by the sum of their octets. -/
def replacedDigests : List (ℕ × String) :=
  sampleDigests ++
  [(7605, "sha256:bc236e805641f1f80c0deb78634423dd60609653ba0a949d98fef4756d814bd6"),
    (7599, "sha256:32784a257490b3444550b6c833e66075e8758d8e3eab2de18164a8d02b96c9b5"),
    (7726, "sha256:d79eda4ba4164354216867acfee7bf390967d8b21b9a4971e11d0501bb747243"),
    (12919, "sha256:d010b7a3c38d8a0e92bff39c5cdf6d9f0769bcd8a5e2c2d048b48da9fca8591f"),
    (10595, "sha256:6ffb2f5128bf6b51ce38b18d710b24fc62b2b007f56f6a60b1bf2a031cfbc250"),
    (10722, "sha256:ed79c6b8b0fe46b875b4c78efbad57d97b95cc8cfc9eea774907672c71f3ff2a")]

/-- What `buildIR` calls, on the two judgments. -/
def replacedCore : Core :=
  { sampleCore with
    digest := fun bytes => ((replacedDigests.find? fun row =>
      row.1 = (bytes.map UInt8.toNat).sum).map Prod.snd).getD ""
    validateR2 := fun _ _ _ _ => .ok
      { edges := fun r => (replacedLinks r).map fun link => (link.1, true)
        referenceRoles := fun r => (replacedLinks r).map fun link => (link.1, [(link.2, true)])
        unresolved := [] }
    resolveComponents := fun _ _ => .ok fun id =>
      if id = "j" ∨ id = "k" then some sampleInterpretation else none }

theorem digest_replacedCore (v : Json) :
    replacedCore.digest (Utf8.encodeChars (canonicalText v)) =
      ((replacedDigests.find? fun row => row.1 = v.tally).map Prod.snd).getD "" := by
  rw [← tallyChars_canonicalText]
  rfl

/-- The selection of the first judgment. -/
def replacedSelection : SelectionSet := ⟨"a", "1", ["j"]⟩

theorem exists_replacedIr :
    ∃ ir, buildIR replacedCore sampleManifest replacedPayload [] = .ok ir ∧
      normalizeSelection replacedSelection ⟨ir.asset, ir.tuple, ir⟩ = .ok replacedSelection ∧
        HoldsOther ir replacedSelection := by
  have hok : (buildIR replacedCore sampleManifest replacedPayload []).toOption.any (fun ir =>
      decide (normalizeSelection replacedSelection ⟨ir.asset, ir.tuple, ir⟩ =
        .ok replacedSelection ∧ HoldsOther ir replacedSelection)) = true := by
    unfold buildIR node interpretations references pairReferences assetValue copiedMembers
    simp only [stableId_eq, digest_replacedCore, toList_eq_quickToList, copyJson_eq_copyQuickly,
      assertStrictJson_eq_checkQuickly]
    decide +kernel
  obtain ⟨ir, hir, hfacts⟩ := Option.any_eq_true _ _ |>.mp hok
  exact ⟨ir, toOption_eq_some_iff.mp hir, of_decide_eq_true hfacts⟩

/-- The targets of the two judgments. -/
def replacedTargets : List Ref :=
  [⟨.asset, "u"⟩, ⟨.judgment, "j"⟩, ⟨.contract, "c"⟩, ⟨.component, "m"⟩, ⟨.judgment, "k"⟩,
    ⟨.contract, "e"⟩, ⟨.component, "o"⟩]

theorem replacedTargets_eq {records : List Ir.Record}
    (h : createRegistry sampleManifest replacedPayload = .ok records) :
    records.map Record.target = replacedTargets := by
  have htargets : ((createRegistry sampleManifest replacedPayload).toOption.map
      (List.map Record.target)) = some replacedTargets := by decide
  rw [h] at htargets
  exact Option.some.inj htargets

theorem passed_replaced {ir : CanonicalIr}
    (h : buildIR replacedCore sampleManifest replacedPayload [] = .ok ir) :
    Passed replacedCore sampleManifest replacedPayload [] ir where
  linked records links hrecords hlinks := by
    cases hlinks
    rw [Linked, replacedTargets_eq hrecords]
    refine ⟨[⟨⟨.judgment, "j"⟩, sampleTarget ⟨.contract, "c"⟩, true, none, none⟩,
      ⟨⟨.judgment, "j"⟩, sampleTarget ⟨.component, "m"⟩, true, none, none⟩,
      ⟨⟨.judgment, "j"⟩, sampleTarget ⟨.judgment, "k"⟩, true, none, some "lifecycle_replacement"⟩,
      ⟨⟨.judgment, "k"⟩, sampleTarget ⟨.contract, "e"⟩, true, none, none⟩,
      ⟨⟨.judgment, "k"⟩, sampleTarget ⟨.component, "o"⟩, true, none, none⟩], _,
      .cons (link_eq_ok rfl (by decide) (by decide) _ _ _)
        (.cons (link_eq_ok rfl (by decide) (by decide) _ _ _)
          (.cons (link_eq_ok rfl (by decide) (by decide) _ _ _)
            (.cons (link_eq_ok rfl (by decide) (by decide) _ _ _)
              (.cons (link_eq_ok rfl (by decide) (by decide) _ _ _) (.nil _))))), ?_⟩
    simp only [Linking.links, Links.mk.injEq]
    refine ⟨funext fun r => ?_, funext fun r => ?_, rfl⟩
    · simp only [edges_record, replacedLinks]
      by_cases hj : r = ⟨.judgment, "j"⟩
      · subst hj
        rfl
      · by_cases hk : r = ⟨.judgment, "k"⟩
        · subst hk
          rfl
        · rw [if_neg hj, if_neg hk, if_neg hk, if_neg hk, if_neg hj, if_neg hj, if_neg hj]
          rfl
    · simp only [referenceRoles_record, replacedLinks]
      by_cases hj : r = ⟨.judgment, "j"⟩
      · subst hj
        rfl
      · by_cases hk : r = ⟨.judgment, "k"⟩
        · subst hk
          rfl
        · rw [if_neg hj, if_neg hk, if_neg hk, if_neg hk, if_neg hj, if_neg hj, if_neg hj]
          rfl
  free records links hrecords hlinks := by
    obtain ⟨b⟩ := buildIR_spec h
    have hasset : sampleAsset = ir.asset := Option.some.inj b.asset_prop
    cases hlinks
    rw [← hasset, replacedTargets_eq hrecords]
    refine collisionFree_of_nodup ?_
    unfold identityDigits
    simp only [digest_replacedCore, toList_eq_quickToList]
    decide
  readable _ _ _ _ := by
    refine ⟨⟨_, _, rfl, rfl⟩, fun relationships hprop => ?_⟩
    obtain rfl : relationships = [] := (Value.arr.inj (Option.some.inj hprop)).symm
    exact fun r hr => absurd hr List.not_mem_nil

theorem inMemory_replaced : InMemory replacedPayload := inMemory_of_named (by decide)

theorem issued_targets_expand_sample :
    ∃ ir, buildIR replacedCore sampleManifest replacedPayload [] = .ok ir ∧
      ∃ p, plan .wholeAsset ⟨ir.asset, ir.tuple, ir⟩ = .ok p ∧
        ∀ issued ∈ p.targets, ∃ x, issued = some x ∧ ∀ selection handle,
          Carries ⟨ir.asset, ir.tuple, ir⟩ x selection handle →
            normalize (.expand selection handle) ⟨ir.asset, ir.tuple, ir⟩ =
                .ok (.expand selection handle) ∧
              ∃ p', plan (.expand selection handle) ⟨ir.asset, ir.tuple, ir⟩ = .ok p' ∧
                p'.nodeIds = x.scope := by
  obtain ⟨ir, hir, -⟩ := exists_replacedIr
  exact ⟨ir, hir, issued_targets_expand replacedCore sampleManifest replacedPayload [] ir hir
    (passed_replaced hir) inMemory_replaced ⟨ir.asset, ir.tuple, ir⟩ ir.tuple rfl .wholeAsset
    .wholeAsset rfl (.inl rfl)⟩

end Sample

end Kdna.Retained

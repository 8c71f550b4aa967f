import Kdna.Contract.RoundTrip
import Kdna.Sections.WrittenLayout

/-!
# Whole reading of written frames

What `buildFrames` writes for an IR, `restoreWholeFrames` reads as the nodes and the references of
the IR.
-/

namespace Kdna.Sections

section Texts

variable {v : Json}

/-- A text holds no number. -/
theorem mapNum_of_text {f : Binary64 → Binary64} (h : v.text?.isSome) : v.mapNum f = v := by
  cases v with
  | str t => rfl
  | _ => exact absurd h (by simp [Value.text?])

/-- An object of which every member holds no number holds none. -/
theorem mapNum_of_closedObject {f : Binary64 → Binary64} {required optional : List String}
    (hclosed : Ir.closedObject v required optional) (hkeys : v.DistinctKeys)
    (hprops : ∀ name ∈ required ++ optional, ∀ w, v.prop name = some w → w.mapNum f = w) :
    v.mapNum f = v := by
  cases v with
  | obj props =>
    rw [Ir.closedObject, Bool.and_eq_true, List.all_eq_true] at hclosed
    rw [Value.distinctKeys_obj] at hkeys
    have hsame : props.map (fun p => (p.1, p.2.mapNum f)) = props := by
      refine (List.map_congr_left ?_).trans (List.map_id props)
      intro p hp
      have hname : p.1 ∈ required ++ optional := by
        have hlisted := hclosed.1 p hp
        simpa [List.mem_append] using hlisted
      rw [hprops p.1 hname p.2 ((Value.prop_eq_some_iff hkeys.1).mpr hp)]
      rfl
    rw [Value.mapNum_obj, hsame]
  | _ => exact absurd hclosed (by simp [Ir.closedObject])

theorem mapNum_of_passes {f : Binary64 → Binary64} {name : String} {w : Json}
    (h : Read.passes Read.shapeIdentifier? v name) (hw : v.prop name = some w) : w.mapNum f = w := by
  rw [Read.passes, hw, Option.bind_some, Read.shapeIdentifier?] at h
  apply mapNum_of_text
  cases ht : w.text? with
  | some t => rfl
  | none =>
    rw [ht] at h
    exact absurd h Bool.false_ne_true

theorem mapNum_of_propIs {f : Binary64 → Binary64} {name t : String} {w : Json}
    (h : v.propIs name t) (hw : v.prop name = some w) : w.mapNum f = w := by
  rw [Value.propIs_eq_true_iff, hw, Option.some.injEq] at h
  rw [h]
  rfl

/-- The identifiers of a closed object are texts. -/
theorem mapNum_of_identifiers {f : Binary64 → Binary64} {names : List String}
    (hkeys : v.DistinctKeys) (h : Ir.closedObject v names [] &&
      names.all (Read.passes Read.shapeIdentifier? v)) : v.mapNum f = v := by
  rw [Bool.and_eq_true, List.all_eq_true] at h
  apply mapNum_of_closedObject h.1 hkeys
  intro name hname w hw
  rw [List.append_nil] at hname
  exact mapNum_of_passes (h.2 name hname) hw

theorem mapNum_of_isAnchor {f : Binary64 → Binary64} (hmemory : Value.InMemory v)
    (h : isAnchor Read.shapeIdentifier? v) : v.mapNum f = v := by
  rw [isAnchor, Bool.or_eq_true] at h
  rcases h with h | h
  · rw [Bool.and_eq_true] at h
    apply mapNum_of_closedObject h.1 hmemory.distinct
    intro name hname w hw
    obtain rfl := List.mem_singleton.mp hname
    exact mapNum_of_propIs h.2 hw
  · rw [Bool.and_eq_true, Bool.and_eq_true] at h
    obtain ⟨⟨hclosed, hkind⟩, hselection⟩ := h
    apply mapNum_of_closedObject hclosed hmemory.distinct
    intro name hname w hw
    rcases List.mem_cons.mp hname with rfl | hname
    · exact mapNum_of_propIs hkind hw
    · obtain rfl := List.mem_singleton.mp hname
      rw [hw, Option.any_some] at hselection
      exact mapNum_of_identifiers (hmemory.prop hw).distinct hselection

theorem mapNum_of_isRef {f : Binary64 → Binary64} (hmemory : Value.InMemory v)
    (h : isRef Read.shapeIdentifier? v) : v.mapNum f = v := by
  simp only [isRef, Bool.and_eq_true] at h
  obtain ⟨⟨⟨hclosed, hkind⟩, hid⟩, hasset⟩ := h
  apply mapNum_of_closedObject hclosed hmemory.distinct
  intro name hname w hw
  rcases List.mem_cons.mp hname with rfl | hname
  · obtain ⟨kind, -, hkind⟩ := List.any_eq_true.mp hkind
    exact mapNum_of_propIs hkind hw
  rcases List.mem_cons.mp hname with rfl | hname
  · exact mapNum_of_passes hid hw
  · obtain rfl := List.mem_singleton.mp hname
    rw [hw, Option.all_some] at hasset
    exact mapNum_of_identifiers (hmemory.prop hw).distinct hasset

/-- A checked reference holds no number. -/
theorem mapNum_target {f : Binary64 → Binary64} {x : Target} (hmemory : Value.InMemory x.json)
    (hvalid : validateTarget x = .ok ()) : x.json.mapNum f = x.json := by
  have hshape := (validateTarget_eq_ok_iff.mp hvalid).2.1
  rw [Target.shape, Bool.and_eq_true, Bool.and_eq_true] at hshape
  have hanchor : Value.InMemory x.anchor := hmemory.mem (.head _)
  have htarget : Value.InMemory x.target := hmemory.mem (.tail _ (.head _))
  have hscope : (scopeJson x.scope).mapNum f = scopeJson x.scope := by
    rw [scopeJson, Value.mapNum_arr, List.map_map]
    rfl
  simp only [Target.json, Value.mapNum_obj, List.map_cons, List.map_nil,
    mapNum_of_isAnchor hanchor hshape.1.1, mapNum_of_isRef htarget hshape.1.2, hscope]

/-- The parts of a reference are determined by its value. -/
theorem json_injective : Function.Injective Target.json := by
  rintro ⟨anchor, target, scope⟩ ⟨anchor', target', scope'⟩ h
  simp only [Target.json, Value.obj.injEq, List.cons.injEq, Prod.mk.injEq, true_and, and_true,
    scopeJson, Value.arr.injEq] at h
  obtain ⟨rfl, rfl, hscope⟩ := h
  rw [List.map_injective_iff.mpr (fun _ _ heq => Value.str.inj heq) hscope]

/-- Checked references in memory are determined by their text. -/
theorem targetsText_injective {xs ys : List Target}
    (hxs : ∀ x ∈ xs, Value.InMemory x.json ∧ validateTarget x = .ok ())
    (hys : ∀ y ∈ ys, Value.InMemory y.json ∧ validateTarget y = .ok ())
    (h : targetsText xs = targetsText ys) : xs = ys := by
  have hmemory {zs : List Target} (hzs : ∀ z ∈ zs, Value.InMemory z.json ∧ validateTarget z = .ok ()) :
      Value.InMemory (.arr (zs.map Target.json)) := by
    constructor
    · rw [Value.enumerated_arr, List.map_map]
      congr 1
      apply List.map_congr_left
      intro z hz
      exact (hzs z hz).1.enumerated
    · rw [Value.distinctKeys_arr]
      intro v hv
      obtain ⟨z, hz, rfl⟩ := List.mem_map.mp hv
      exact (hzs z hz).1.distinct
  have hnumbers {zs : List Target} (hzs : ∀ z ∈ zs, Value.InMemory z.json ∧ validateTarget z = .ok ()) :
      Value.mapNum Binary64.unsignedZero (.arr (zs.map Target.json)) = .arr (zs.map Target.json) := by
    rw [Value.mapNum_arr, List.map_map]
    congr 1
    apply List.map_congr_left
    intro z hz
    exact mapNum_target (hzs z hz).1 (hzs z hz).2
  have htext {zs : List Target} (hzs : ∀ z ∈ zs, Value.InMemory z.json ∧ validateTarget z = .ok ()) :
      Spaced (JsonText (.arr (zs.map Target.json))) (targetsText zs) := by
    have hjson := jsonText_stringify (.arr (zs.map Target.json))
    rw [hnumbers hzs] at hjson
    exact ⟨[], _, [], List.forall_mem_nil _, hjson, List.forall_mem_nil _, by
      rw [List.append_nil, List.nil_append, targetsText]⟩
  have hx := htext hxs
  rw [h] at hx
  have heq := Contract.enumerated_eq_of_texts (hmemory hxs).distinct (hmemory hys).distinct hx
    (htext hys)
  rw [(hmemory hxs).enumerated, (hmemory hys).enumerated, Value.arr.injEq] at heq
  exact List.map_injective_iff.mpr json_injective heq

end Texts

variable {core : FrameCore} {ir : FrameIr} {built : Built} {data : List StoredData}
  {written : List Bytes} {ls : List Location} {places : TableName → List Location}

/-- The references of a frame. -/
def PlainData.targets : PlainData → List Target
  | .xref frame => frame.records
  | .nodes _ _ _ => []

section Stored

/-- A frame that was encoded is decoded again. -/
theorem decodeFrame_of_encodeFrame {plain : Frame} {stored : StoredFrame}
    (h : encodeFrame plain = .ok stored) : decodeFrame stored = .ok plain ∧
      (∀ x ∈ plain.records, validateTarget x = .ok ()) ∧
        stored.records.length = plain.records.length := by
  obtain ⟨hvalid, ⟨f, hf⟩, rfl⟩ := encodeFrame_eq_ok_iff.mp h
  have hdecode := decodeFrame_numbered hvalid (decodeFrame_eq_ok_iff.mp hf).1
  exact ⟨hdecode, hvalid, (restored_zipWith hvalid (named_numbered hvalid)).length_eq⟩

theorem describe_of_store {plain : PlainData} {frame : StoredData} (h : plain.store = .ok frame) :
    (frame.sectionId, frame.kind, frame.entryCount) = plain.describe := by
  cases plain with
  | xref f =>
    obtain ⟨stored, hstored, h⟩ := bind_eq_ok_iff.mp h
    obtain rfl := Except.ok.inj h
    have hlength := (decodeFrame_of_encodeFrame hstored).2.2
    obtain ⟨-, -, rfl⟩ := encodeFrame_eq_ok_iff.mp hstored
    exact congrArg (fun n => (f.sectionId, SectionKind.xref, n)) hlength
  | nodes id kind records =>
    obtain rfl := Except.ok.inj h
    rfl

/-- The row of a data frame: the frame stands at its place. -/
structure RowOf (core : FrameCore) (written : List Bytes) (plain : PlainData) (row : SectionRow) :
    Prop where
  describe : row.describe = plain.describe
  frame : ∃ frame, plain.store = .ok frame ∧
    Kept core written frame.sectionId (.data frame) row.location

theorem forall₂_rowOf {plains : List PlainData}
    (hstored : List.Forall₂ (fun plain frame => plain.store = .ok frame) plains data)
    (hkept : List.Forall₂ (fun frame l => Kept core written frame.sectionId (.data frame) l) data ls) :
    List.Forall₂ (RowOf core written) plains (dataRows data ls) := by
  rw [dataRows]
  induction hstored generalizing ls with
  | nil =>
    cases hkept
    exact .nil
  | @cons plain frame plains frames hplain hplains ih =>
    cases hkept with
    | @cons _ l _ ls hl hls =>
      refine .cons ⟨?_, frame, hplain, hl⟩ (ih hls)
      rw [← describe_of_store hplain, SectionRow.describe]
      exact congrArg (fun id => (id, frame.kind, frame.entryCount)) hl.sectionId

theorem BuiltFrom.rowsOf (h : BuiltFrom core ir built data written ls places) :
    List.Forall₂ (RowOf core written) (dataFrames ir) (dataRows data ls) :=
  forall₂_rowOf (mapM_eq_ok_iff.mp h.stored) h.frames.kept

theorem map_location_dataRows (h : data.length = ls.length) :
    (dataRows data ls).map SectionRow.location = ls := by
  induction data generalizing ls with
  | nil => exact (List.eq_nil_of_length_eq_zero h.symm).symm
  | cons frame data ih =>
    cases ls with
    | nil => cases h
    | cons l ls => exact congrArg (l :: ·) (ih (Nat.succ.inj h))

theorem length_dataRows (h : data.length = ls.length) : (dataRows data ls).length = ls.length := by
  rw [← List.length_map (f := SectionRow.location), map_location_dataRows h]

end Stored

section Tables

theorem map_key_filterMap {ρ : Type} {f : TableRow → Option ρ} {key : ρ → String}
    {rows : List TableRow} (h : ∀ r ∈ rows, ∃ x, f r = some x ∧ key x = r.key) :
    (rows.filterMap f).map key = rows.map TableRow.key := by
  induction rows with
  | nil => rfl
  | cons r rows ih =>
    rw [List.forall_mem_cons] at h
    obtain ⟨⟨x, hx, hkey⟩, hrows⟩ := h
    rw [List.filterMap_cons_some hx, List.map_cons, List.map_cons, hkey, ih hrows]

/-- A sorted table and the rows it was made of. -/
theorem filterMap_sorted {ρ : Type} {g : ρ → TableRow} {f : TableRow → Option ρ} (key : ρ → String)
    (hfg : ∀ x, f (g x) = some x) (hkey : ∀ x, (g x).key = key x) (xs : List ρ) :
    ((sortByUtf8 TableRow.key (xs.map g)).filterMap f).Perm xs ∧
      ((sortByUtf8 TableRow.key (xs.map g)).filterMap f).map key =
        (sortByUtf8 TableRow.key (xs.map g)).map TableRow.key := by
  constructor
  · have hperm := (sortByUtf8_perm TableRow.key (xs.map g)).filterMap f
    rw [List.filterMap_map] at hperm
    have hself : xs.filterMap (f ∘ g) = xs := by
      rw [funext hfg (f := f ∘ g), List.filterMap_some]
    rwa [hself] at hperm
  · apply map_key_filterMap
    intro r hr
    obtain ⟨x, -, rfl⟩ := List.mem_map.mp ((sortByUtf8_perm _ _).mem_iff.mp hr)
    exact ⟨x, hfg x, (hkey x).symm⟩

/-- What the reader takes from the manifest that is written for an IR. -/
def Built.manifest (built : Built) (ir : FrameIr) : FrameManifest where
  assetId := ir.assetId
  assetVersion := ir.assetVersion
  catalog := ir.catalog
  mandatoryClosures := ir.mandatoryClosures
  nodeOrder := ir.nodes.map (·.id)
  tables := built.tables

/-- The tables that are read. -/
def readTables (ir : FrameIr) (built : Built) (rows : List SectionRow) : Tables :=
  layoutTables (built.manifest ir) (sortedRows ir rows .sections) (sortedRows ir rows .topics)
    (sortedRows ir rows .nodeSections)

theorem BuiltFrom.tablesOf (h : BuiltFrom core ir built data written ls places) :
    TablesOf ir (dataRows data ls) (readTables ir built (dataRows data ls)) := by
  have hlength := h.frames.kept.length_eq
  obtain ⟨hsections, hsectionKeys⟩ := filterMap_sorted SectionRow.sectionId
    (fun x => rfl : ∀ x, TableRow.section? (.ofSection x) = some x) (fun _ => rfl) (dataRows data ls)
  obtain ⟨htopics, htopicKeys⟩ := filterMap_sorted TopicRow.judgmentId
    (fun x => rfl : ∀ x, TableRow.topic? (.ofTopic x) = some x) (fun _ => rfl) (topicRows ir)
  obtain ⟨hnodes, hnodeKeys⟩ := filterMap_sorted NodeSectionRow.nodeRef
    (fun x => rfl : ∀ x, TableRow.node? (.ofNode x) = some x) (fun _ => rfl) (nodeMap ir)
  refine ⟨rfl, rfl, rfl, rfl, rfl, hsections, htopics, hnodes, ?_, ?_, ?_, ?_, ?_, h.nodes_length⟩
  · exact hsectionKeys ▸ h.sorted .sections
  · exact htopicKeys ▸ h.sorted .topics
  · exact hnodeKeys ▸ h.sorted .nodeSections
  · have hrows := h.rowsOf
    generalize dataFrames ir = plains at hrows
    generalize dataRows data ls = rows at hrows
    induction hrows with
    | nil => rfl
    | cons hrow _ ih => rw [List.map_cons, List.map_cons, hrow.describe, ih]
  · have hordinals := h.frames.ordinals
    have hmap : (dataRows data ls).map (·.packOrdinal) =
        ((dataRows data ls).map SectionRow.location).map (·.packOrdinal) := by
      rw [List.map_map]
      rfl
    rw [hmap, map_location_dataRows hlength, hordinals, length_dataRows hlength,
      List.range_eq_range']

end Tables

/-- The frames of an IR are checked by the reader for what its writer does not check. -/
structure FrameIr.Linked (core : FrameCore) (ir : FrameIr) : Prop where
  closed : ir.Closed
  nodes : ∀ n ∈ ir.nodes, core.nodeShape n
  targets : ∀ x ∈ ir.expansionTargets, Value.InMemory x.json ∧ validateTarget x = .ok ()
  scopes : ∀ x ∈ ir.expansionTargets, ∀ id ∈ x.scope, id ∈ ir.nodes.map (·.id)
  anchors : ∀ x ∈ ir.expansionTargets, x.anchor.propIs "kind" "judgment" →
    ∀ selection, x.anchor.prop "selection" = some selection →
      selection.propIs "asset_id" ir.assetId ∧ selection.propIs "asset_version" ir.assetVersion

section Restore

variable {rows : List SectionRow} {t : Tables} {members : Members} {row : SectionRow}

theorem sectionOrdinal_xrefId (ordinal c : ℕ) : sectionOrdinal (xrefId ordinal c) = ordinal := by
  have hsplit : (xrefId ordinal c).toList.splitOn ':' =
      ["xref".toList, (toString ordinal).toList, (toString c).toList] := by
    have hjoin : (xrefId ordinal c).toList = List.intercalate [':']
        ["xref".toList, (toString ordinal).toList, (toString c).toList] := by
      simp [xrefId, List.intercalate]
    rw [hjoin]
    apply List.splitOn_intercalate
    · intro text htext
      simp only [List.mem_cons, List.not_mem_nil, or_false] at htext
      rcases htext with rfl | rfl | rfl
      · decide
      · exact colon_not_mem_toString ordinal
      · exact colon_not_mem_toString c
    · exact List.cons_ne_nil _ _
  rw [sectionOrdinal, hsplit]
  change decimalValue (toString ordinal).toList = ordinal
  rw [Nat.toString_eq_repr, Nat.toList_repr, decimalValue_toDigits]

/-- Where the references of a frame are anchored. -/
theorem xref_mem_dataFrames {frame : Frame} (h : .xref frame ∈ dataFrames ir) :
    ∃ ordinal c judgmentId, frame.sectionId = xrefId ordinal c ∧ frame.records.length ≤ 1024 ∧
      (∀ x ∈ frame.records, x ∈ ir.expansionTargets ∧ anchoredAt judgmentId x = true) ∧
      (ordinal = 0 ∧ judgmentId = none ∨ ∃ item, ir.catalog[ordinal - 1]? = some item ∧
        ordinal ≠ 0 ∧ judgmentId = some item.judgmentId) := by
  have hxrefs {ordinal : ℕ} {judgmentId : Option String}
      (hframe : .xref frame ∈ xrefs ir ordinal judgmentId) : ∃ c, frame.sectionId = xrefId ordinal c ∧
        frame.records.length ≤ 1024 ∧
        ∀ x ∈ frame.records, x ∈ ir.expansionTargets ∧ anchoredAt judgmentId x = true := by
    obtain ⟨⟨records, c⟩, hrecords, heq⟩ := List.mem_map.mp hframe
    obtain rfl := PlainData.xref.inj heq
    have hchunk := List.mem_of_getElem? (List.mem_zipIdx_iff_getElem?.mp hrecords)
    refine ⟨c, rfl, length_le_of_mem_chunks hchunk, fun x hx => ?_⟩
    have hx' : x ∈ ir.expansionTargets.filter (anchoredAt judgmentId) := by
      rw [← flatten_chunks (by omega : 0 < 1024) (ir.expansionTargets.filter (anchoredAt judgmentId))]
      exact List.mem_flatten.mpr ⟨records, hchunk, hx⟩
    exact List.mem_filter.mp hx'
  rw [dataFrames, List.mem_append, List.mem_append] at h
  rcases h with (h | h) | h
  · obtain ⟨c, hid, hlength, hrecords⟩ := hxrefs h
    exact ⟨0, c, none, hid, hlength, hrecords, Or.inl ⟨rfl, rfl⟩⟩
  · obtain ⟨⟨item, i⟩, hitem, h⟩ := List.mem_flatMap.mp h
    rcases List.mem_cons.mp h with heq | h
    · cases heq
    · obtain ⟨c, hid, hlength, hrecords⟩ := hxrefs h
      exact ⟨i + 1, c, _, hid, hlength, hrecords,
        Or.inr ⟨item, List.mem_zipIdx_iff_getElem?.mp hitem, Nat.succ_ne_zero i, rfl⟩⟩
  · obtain ⟨c, records, heq⟩ := mem_volumeFrames h
    cases heq

/-- A reference is anchored where its frame says. -/
theorem anchorFits_of_anchoredAt (hlinked : ir.Linked core) {ordinal : ℕ}
    {judgmentId : Option String} {x : Target} (hx : x ∈ ir.expansionTargets)
    (hanchor : anchoredAt judgmentId x = true)
    (hordinal : ordinal = 0 ∧ judgmentId = none ∨ ∃ item, ir.catalog[ordinal - 1]? = some item ∧
      ordinal ≠ 0 ∧ judgmentId = some item.judgmentId) :
    anchorFits (built.manifest ir) ordinal x = true := by
  rcases hordinal with ⟨rfl, rfl⟩ | ⟨item, hitem, hne, rfl⟩
  · exact hanchor
  · simp only [anchoredAt, Bool.and_eq_true] at hanchor
    obtain ⟨hkind, hselection⟩ := hanchor
    rw [anchorFits, if_neg hne, Bool.and_eq_true]
    refine ⟨hkind, ?_⟩
    cases hs : x.anchor.prop "selection" with
    | none =>
      rw [hs] at hselection
      exact absurd hselection Bool.false_ne_true
    | some selection =>
      rw [hs, Option.any_some] at hselection
      obtain ⟨hasset, hversion⟩ := hlinked.anchors x hx hkind selection hs
      have hmanifest : (built.manifest ir).catalog[ordinal - 1]? = some item := hitem
      rw [Option.any_some, hmanifest, Option.any_some, hselection, Bool.true_and, Bool.and_eq_true]
      exact ⟨hasset, hversion⟩

/-- The references of a frame are restored. -/
theorem restoreXref_eq (ht : TablesOf ir rows t) (hlinked : ir.Linked core) {frame : Frame}
    {stored : StoredFrame} (hframe : .xref frame ∈ dataFrames ir)
    (hstored : encodeFrame frame = .ok stored)
    (hdescribe : row.describe = (PlainData.xref frame).describe) :
    restoreXref (built.manifest ir) t row (.data (.xref stored)) = .ok frame.records := by
  obtain ⟨hdecode, hvalid, -⟩ := decodeFrame_of_encodeFrame hstored
  obtain ⟨ordinal, c, judgmentId, hid, hlength, hrecords, hordinal⟩ := xref_mem_dataFrames hframe
  obtain ⟨hrowId, hrest⟩ := Prod.mk.inj hdescribe
  have hcount : row.entryCount = frame.records.length := (Prod.mk.inj hrest).2
  have hrowOrdinal : sectionOrdinal row.sectionId = ordinal := by
    rw [hrowId, hid, sectionOrdinal_xrefId]
  have hchecked : frame.records.mapM (checkTarget (built.manifest ir) t ordinal) =
      .ok (frame.records.map fun _ => ()) := by
    rw [mapM_eq_ok_iff, List.forall₂_map_right_iff, List.forall₂_same]
    intro x hx
    obtain ⟨htarget, hanchor⟩ := hrecords x hx
    rw [checkTarget, hvalid x hx]
    simp only [Except.mapError, ok_bind]
    rw [require_bind_of_pos fun id hmem => ht.nodeSection_isSome (hlinked.scopes x htarget id hmem),
      require_eq_ok_iff]
    exact anchorFits_of_anchoredAt hlinked htarget hanchor hordinal
  rw [restoreXref]
  simp only [orFail, ok_bind, hdecode, Except.mapError]
  rw [require_bind_of_pos hrowId.symm, require_bind_of_pos ⟨hcount.symm, hlength⟩, hrowOrdinal,
    hchecked]
  rfl

/-- The nodes that the tables put into the section of a frame are its nodes. -/
theorem TablesOf.sectionNodes (ht : TablesOf ir rows t) {id : String} {kind : SectionKind}
    {records : List ReadNode} (hframe : .nodes id kind records ∈ dataFrames ir) :
    sortByUtf8 (fun name => name) ((t.nodeSections.filter fun r => r.sectionId = id).map
      (·.nodeRef)) = sortByUtf8 (fun name => name) (records.map (·.id)) := by
  have hids : ((dataFrames ir).map fun frame => frame.describe.1).Nodup := by
    have hnodup := ht.sectionIds_nodup
    have hmap : rows.map (·.sectionId) = (dataFrames ir).map fun frame => frame.describe.1 := by
      have hfst := congrArg (List.map Prod.fst) ht.describe
      rwa [List.map_map, List.map_map] at hfst
    rwa [hmap] at hnodup
  have hrefs := ht.nodeRefs_nodup
  have hrecords : (records.map (·.id)).Nodup := by
    rw [nodeRefs_eq] at hrefs
    refine hrefs.sublist (List.Sublist.map _ ?_)
    rw [framedNodes, List.flatMap_def]
    exact List.sublist_flatten_of_mem (List.mem_map.mpr ⟨_, hframe, rfl⟩)
  have hperm : ((t.nodeSections.filter fun r => r.sectionId = id).map (·.nodeRef)).Perm
      (records.map (·.id)) := by
    refine ((ht.nodeSections.filter _).map _).trans ?_
    rw [List.perm_ext_iff_of_nodup (hrefs.sublist (List.filter_sublist.map _)) hrecords]
    intro name
    rw [List.mem_map, List.mem_map]
    constructor
    · rintro ⟨r, hr, rfl⟩
      obtain ⟨hr, hid⟩ := List.mem_filter.mp hr
      obtain ⟨id', kind', records', hframe', n, hn, rfl⟩ := mem_nodeMap.mp hr
      have hsame := List.inj_on_of_nodup_map hids hframe' hframe (of_decide_eq_true hid)
      cases hsame
      exact ⟨n, hn, rfl⟩
    · rintro ⟨n, hn, rfl⟩
      exact ⟨⟨n.id, id⟩, List.mem_filter.mpr ⟨mem_nodeMap.mpr ⟨id, kind, records, hframe, n, hn, rfl⟩,
        decide_eq_true rfl⟩, rfl⟩
  have hnodup : (((t.nodeSections.filter fun r => r.sectionId = id).map (·.nodeRef)).map
      fun name => name).Nodup := by
    rw [List.map_id']
    exact hperm.nodup_iff.mpr hrecords
  exact sortByUtf8_eq_of_perm hnodup hperm

/-- Nodes that are not there yet are added. -/
theorem foldlM_addNode {nodes records : List ReadNode} (hshape : ∀ n ∈ records, core.nodeShape n)
    (hnodup : ((nodes ++ records).map (·.id)).Nodup)
    (howner : ∀ n ∈ records, if row.kind = .volume then n.ownerJudgmentId = none
      else "topic:" ++ n.ownerJudgmentId.getD "null" = row.sectionId) :
    records.foldlM (addNode core row) nodes = .ok (nodes ++ records) := by
  induction records generalizing nodes with
  | nil =>
    rw [List.append_nil]
    rfl
  | cons n records ih =>
    rw [List.forall_mem_cons] at hshape howner
    rw [List.append_cons] at hnodup ⊢
    have hnew : n.id ∉ nodes.map (·.id) := by
      intro hmem
      rw [List.map_append, List.map_append, List.append_assoc, List.nodup_append] at hnodup
      exact hnodup.2.2 _ hmem _ List.mem_cons_self rfl
    rw [List.foldlM_cons, addNode, require_bind_of_pos hshape.1, require_bind_of_pos hnew,
      require_bind_of_pos howner.1]
    exact ih hshape.2 hnodup howner.2

/-- The nodes of a frame are restored. -/
theorem restoreNodes_eq (ht : TablesOf ir rows t) (hlinked : ir.Linked core) {id : String}
    {kind : SectionKind} {records nodes : List ReadNode}
    (hframe : .nodes id kind records ∈ dataFrames ir)
    (hdescribe : row.describe = (PlainData.nodes id kind records).describe)
    (hnodup : ((nodes ++ records).map (·.id)).Nodup) :
    restoreNodes core t row (.data (.nodes id kind records)) nodes = .ok (nodes ++ records) := by
  obtain ⟨hid, hrest⟩ := Prod.mk.inj hdescribe
  have hkind : row.kind = kind := (Prod.mk.inj hrest).1
  have hnodes : ∀ n ∈ records, n ∈ ir.nodes := by
    intro n hn
    refine ht.framedNodes_perm.mem_iff.mp ?_
    exact List.mem_flatMap.mpr ⟨_, hframe, hn⟩
  have hvolume : row.kind = .volume → records.length ≤ 512 ∧
      SortedUnique (records.map (·.id)) ∧ ∀ n ∈ records, n.ownerJudgmentId = none := by
    intro hvolume
    rcases nodes_mem_dataFrames.mp hframe with ⟨-, -, -, htopic, -⟩ | ⟨i, hi, -, -⟩
    · rw [hkind, htopic] at hvolume
      cases hvolume
    · have hchunk := List.mem_of_getElem? hi
      have hsub : records.Sublist (volumeNodes ir) := by
        conv_rhs => rw [← flatten_chunks (by omega : 0 < 512) (volumeNodes ir)]
        exact List.sublist_flatten_of_mem hchunk
      have hsorted : SortedUnique ((volumeNodes ir).map (·.id)) :=
        sortedUnique_sortByUtf8 (ht.nodeIds_nodup.sublist (List.filter_sublist.map _))
      refine ⟨length_le_of_mem_chunks hchunk, ?_, ?_⟩
      · rw [sortedUnique_iff_pairwise] at hsorted ⊢
        exact hsorted.sublist (hsub.map _)
      · intro n hn
        exact (mem_volumeNodes.mp (hsub.subset hn)).2
  have howner : ∀ n ∈ records, if row.kind = .volume then n.ownerJudgmentId = none
      else "topic:" ++ n.ownerJudgmentId.getD "null" = row.sectionId := by
    intro n hn
    split_ifs with hkindVolume
    · exact (hvolume hkindVolume).2.2 n hn
    · rcases nodes_mem_dataFrames.mp hframe with ⟨c, -, rfl, -, rfl⟩ | ⟨-, -, -, hkind'⟩
      · have hn' := of_decide_eq_true (List.mem_filter.mp hn).2
        rw [hn', hid]
        rfl
      · exact absurd (hkind.trans hkind') hkindVolume
  rw [restoreNodes]
  simp only [orFail, ok_bind]
  rw [require_bind_of_pos ⟨hid.symm, hkind.symm⟩, hid]
  change (require (_ = _) _ >>= _) = _
  rw [require_bind_of_pos (ht.sectionNodes hframe), require_bind_of_pos fun h => (hvolume h).1,
    require_bind_of_pos fun h => (hvolume h).2.1]
  exact foldlM_addNode (fun n hn => hlinked.nodes n (hnodes n hn)) hnodup howner

/-- One section is restored. -/
theorem restoreRow_eq (ht : TablesOf ir rows t) (hlinked : ir.Linked core)
    (hs : built.packs.Holds written) (hpacks : members.packs.Perm built.packs.entries)
    {plain : PlainData} (hplain : plain ∈ dataFrames ir) (hrow : RowOf core written plain row)
    {nodes : List ReadNode} {expansions : List Target}
    (hnodup : ((nodes ++ plain.records).map (·.id)).Nodup) :
    restoreRow core members (built.manifest ir) t ⟨nodes, expansions⟩ row =
      .ok ⟨nodes ++ plain.records, expansions ++ plain.targets⟩ := by
  obtain ⟨hdescribe, frame, hstore, hkept⟩ := hrow
  have hread := hkept.read hs hpacks
  have hkind : row.kind = plain.describe.2.1 := congrArg (fun d => d.2.1) hdescribe
  rw [restoreRow, hread]
  simp only [Except.mapError, ok_bind]
  cases plain with
  | xref f =>
    obtain ⟨stored, hstored, hpure⟩ := bind_eq_ok_iff.mp hstore
    obtain rfl := Except.ok.inj hpure
    have hxref : row.kind = .xref := hkind
    rw [if_pos hxref, restoreXref_eq ht hlinked hplain hstored hdescribe]
    simp only [ok_bind, PlainData.records, PlainData.targets, List.append_nil]
    rfl
  | nodes id kind records =>
    obtain rfl := Except.ok.inj hstore
    have hne : row.kind ≠ .xref := by
      rw [hkind]
      rcases nodes_mem_dataFrames.mp hplain with ⟨-, -, -, rfl, -⟩ | ⟨-, -, -, rfl⟩
      · intro heq
        cases heq
      · intro heq
        cases heq
    rw [if_neg hne, restoreNodes_eq ht hlinked hplain hdescribe hnodup]
    simp only [ok_bind, PlainData.records, PlainData.targets, List.append_nil]
    rfl

/-- All sections are restored. -/
theorem foldlM_restoreRow (ht : TablesOf ir rows t) (hlinked : ir.Linked core)
    (hs : built.packs.Holds written) (hpacks : members.packs.Perm built.packs.entries)
    {plains : List PlainData} {rest : List SectionRow} (hplains : plains ⊆ dataFrames ir)
    (hrows : List.Forall₂ (RowOf core written) plains rest) {nodes : List ReadNode}
    {expansions : List Target}
    (hnodup : ((nodes ++ plains.flatMap PlainData.records).map (·.id)).Nodup) :
    rest.foldlM (restoreRow core members (built.manifest ir) t) ⟨nodes, expansions⟩ =
      .ok ⟨nodes ++ plains.flatMap PlainData.records,
        expansions ++ plains.flatMap PlainData.targets⟩ := by
  induction hrows generalizing nodes expansions with
  | nil =>
    simp only [List.flatMap_nil, List.append_nil]
    rfl
  | @cons plain row plains rest hrow _ ih =>
    rw [List.cons_subset] at hplains
    rw [List.flatMap_cons, ← List.append_assoc] at hnodup
    have hfirst : ((nodes ++ plain.records).map (·.id)).Nodup :=
      hnodup.sublist (List.Sublist.map _ (List.sublist_append_left _ _))
    rw [List.foldlM_cons, restoreRow_eq ht hlinked hs hpacks hplains.1 hrow hfirst, ok_bind,
      ih hplains.2 hnodup, List.flatMap_cons, List.flatMap_cons, ← List.append_assoc,
      ← List.append_assoc]

end Restore

section Whole

variable {members : Members}

/-- The frames that are decoded are those that were encoded. -/
theorem decoded_of_stored {plains : List PlainData}
    (h : List.Forall₂ (fun plain frame => plain.store = .ok frame) plains data) :
    ∃ decoded, (data.filterMap StoredData.xref?).mapM decodeFrame = .ok decoded ∧
      decoded.flatMap (·.records) = plains.flatMap PlainData.targets ∧
        ∀ x ∈ plains.flatMap PlainData.targets, validateTarget x = .ok () := by
  induction h with
  | nil => exact ⟨[], rfl, rfl, List.forall_mem_nil _⟩
  | @cons plain frame plains frames hplain _ ih =>
    obtain ⟨decoded, hdecoded, hrecords, hvalid⟩ := ih
    cases plain with
    | xref f =>
      obtain ⟨stored, hstored, hpure⟩ := bind_eq_ok_iff.mp hplain
      obtain rfl := Except.ok.inj hpure
      obtain ⟨hdecode, hrecordsValid, -⟩ := decodeFrame_of_encodeFrame hstored
      refine ⟨f :: decoded, ?_, ?_, ?_⟩
      · have hcons : ((StoredData.xref stored) :: frames).filterMap StoredData.xref? =
            stored :: frames.filterMap StoredData.xref? := rfl
        rw [hcons, List.mapM_cons, hdecode, ok_bind, hdecoded]
        rfl
      · rw [List.flatMap_cons, List.flatMap_cons, hrecords]
        rfl
      · intro x hx
        rcases List.mem_append.mp hx with hx | hx
        · exact hrecordsValid x hx
        · exact hvalid x hx
    | nodes id kind records =>
      obtain rfl := Except.ok.inj hplain
      exact ⟨decoded, hdecoded, hrecords, hvalid⟩

/-- The references stand in the frames in their order. -/
theorem BuiltFrom.targets_eq (h : BuiltFrom core ir built data written ls places)
    (hlinked : ir.Linked core) :
    (dataFrames ir).flatMap PlainData.targets = ir.expansionTargets := by
  obtain ⟨decoded, hdecoded, hrecords, hvalid⟩ := decoded_of_stored (mapM_eq_ok_iff.mp h.stored)
  have htext := h.targets decoded hdecoded
  rw [hrecords] at htext
  refine targetsText_injective (fun x hx => ⟨?_, hvalid x hx⟩) hlinked.targets htext
  obtain ⟨plain, hplain, hx⟩ := List.mem_flatMap.mp hx
  cases plain with
  | xref frame =>
    obtain ⟨_, _, _, -, -, hmem, -⟩ := xref_mem_dataFrames hplain
    exact (hlinked.targets x (hmem x hx).1).1
  | nodes id kind records => exact absurd hx List.not_mem_nil

/-- The tables are read back. -/
theorem BuiltFrom.readTable_eq (h : BuiltFrom core ir built data written ls places)
    (hpacks : members.packs.Perm built.packs.entries) (table : TableName)
    {rest : List DirectoryRow} (hrest : ∀ d ∈ rest.head?, d.table ≠ table) :
    readTable core members table
        (directoryOf core ir (dataRows data ls) table (places table) ++ rest) =
      .ok (sortedRows ir (dataRows data ls) table, rest) := by
  obtain ⟨start, hparts⟩ := h.parts table
  have htable : ∀ r ∈ sortedRows ir (dataRows data ls) table, r.table = table := by
    intro r hr
    cases table <;>
      obtain ⟨x, -, rfl⟩ := List.mem_map.mp ((sortByUtf8_perm _ _).mem_iff.mp hr) <;> rfl
  exact readTable_appended h.holds hpacks hparts (h.sorted table)
    (fun r hr => ⟨htable r hr, h.shapes table r hr⟩) hrest

/-- The rows of a directory are of its table. -/
theorem table_of_mem_directoryOf {rows : List SectionRow} {table : TableName}
    {ps : List Location} {d : DirectoryRow} (h : d ∈ directoryOf core ir rows table ps) :
    d.table = table := by
  rw [directoryOf, ← List.map_uncurry_zip_eq_zipWith] at h
  obtain ⟨p, -, rfl⟩ := List.mem_map.mp h
  rfl

/-- The next directory is one of another table. -/
theorem head_directoryOf_ne {rows : List SectionRow} {table next : TableName} (hne : next ≠ table)
    {ps : List Location} {rest : List DirectoryRow} (hrest : ∀ d ∈ rest.head?, d.table ≠ table) :
    ∀ d ∈ (directoryOf core ir rows next ps ++ rest).head?, d.table ≠ table := by
  intro d hd
  cases hdirectory : directoryOf core ir rows next ps with
  | nil =>
    rw [hdirectory, List.nil_append] at hd
    exact hrest d hd
  | cons e es =>
    rw [hdirectory, List.cons_append, List.head?_cons, Option.mem_some_iff] at hd
    have hmem : d ∈ directoryOf core ir rows next ps := by
      rw [hdirectory, hd]
      exact List.mem_cons_self
    rw [table_of_mem_directoryOf hmem]
    exact hne

theorem location_directoryOf {rows : List SectionRow} {table : TableName} {ps : List Location}
    (h : (tableParts (sortedRows ir rows table)).zipIdx.length = ps.length) :
    (directoryOf core ir rows table ps).map (·.location) = ps := by
  rw [directoryOf]
  generalize (tableParts (sortedRows ir rows table)).zipIdx = groups at h
  induction groups generalizing ps with
  | nil => exact (List.eq_nil_of_length_eq_zero h.symm).symm
  | cons group groups ih =>
    cases ps with
    | nil => cases h
    | cons p ps => exact congrArg (p :: ·) (ih (Nat.succ.inj h))

/-- The places of all frames. -/
theorem BuiltFrom.all_locations (h : BuiltFrom core ir built data written ls places) :
    (dataRows data ls).map SectionRow.location ++ built.tables.map (·.location) =
      ls ++ (places .sections ++ places .topics ++ places .nodeSections) := by
  have hparts (table : TableName) :
      (directoryOf core ir (dataRows data ls) table (places table)).map (·.location) =
        places table := by
    obtain ⟨start, happended⟩ := h.parts table
    exact location_directoryOf happended.kept.length_eq
  rw [map_location_dataRows h.frames.kept.length_eq, h.tables, List.map_append, List.map_append,
    hparts, hparts, hparts]

/-- Every place holds a frame. -/
theorem BuiltFrom.stands (h : BuiltFrom core ir built data written ls places) :
    ∀ l ∈ ls ++ (places .sections ++ places .topics ++ places .nodeSections),
      ∃ b, Stands core.codec written l b := by
  have hpart {table : TableName} {l : Location} (hl : l ∈ places table) :
      ∃ b, Stands core.codec written l b := by
    obtain ⟨start, happended⟩ := h.parts table
    obtain ⟨group, -, hkept⟩ := exists_of_mem_forall₂ happended.kept hl
    exact ⟨_, hkept.stands⟩
  intro l hl
  rw [List.mem_append, List.mem_append, List.mem_append] at hl
  rcases hl with hl | (hl | hl) | hl
  · obtain ⟨frame, -, hkept⟩ := exists_of_mem_forall₂ h.frames.kept hl
    exact ⟨_, hkept.stands⟩
  · exact hpart hl
  · exact hpart hl
  · exact hpart hl

theorem Packs.Holds.names {s : Packs} (hs : s.Holds written) {rows : List Location}
    (hlength : rows.length = written.length) :
    (endsOf rows).map Prod.fst = s.entries.map Prod.fst := by
  have hsnd : (chunks 8 written).zipIdx.map Prod.snd = List.range ((rows.length + 7) / 8) := by
    rw [List.zipIdx_map_snd, length_chunks, hlength, List.range_eq_range']
  rw [names_endsOf, ← hsnd, List.map_map, Packs.entries, hs.packs, List.map_map]
  rfl

/-- What was written for an IR is read as its nodes and its references, each in their order, and
every pack is read. -/
theorem restoreWholeFrames_buildFrames (hlinked : ir.Linked core)
    (hbuilt : buildFrames core ir = .ok built) (hpacks : members.packs.Perm built.packs.entries) :
    ∃ checked, restoreWholeFrames core members (built.manifest ir) =
      .ok ⟨ir.nodes, ir.expansionTargets, checked, built.packs.entries.map Prod.fst⟩ := by
  obtain ⟨data, written, ls, places, h⟩ := buildFrames_spec hbuilt
  have ht := h.tablesOf
  have hlayout := ht.readSectionLayout_eq hlinked.closed
  set rows := dataRows data ls with hrows
  have hcatalog : checkCatalog (built.manifest ir) = .ok () := by
    have hids : ((built.manifest ir).catalog.map (·.judgmentId)).Nodup := ht.judgmentIds_nodup
    have hlength : (built.manifest ir).mandatoryClosures.length = (built.manifest ir).catalog.length :=
      hlinked.closed.closures_length
    rw [checkCatalog, require_bind_of_pos hids, require_bind_of_pos hlength, require_eq_ok_iff]
    exact hlinked.closed.closures
  have hlength := congrArg List.length h.ordinals
  rw [List.length_map, List.length_range] at hlength
  have hends : checkPacks (rows.map SectionRow.location ++ built.tables.map (·.location)) members =
      .ok (endsOf (rows.map SectionRow.location ++ built.tables.map (·.location))) := by
    have hordinals := h.ordinals
    rw [← hlength] at hordinals
    rw [h.all_locations]
    exact checkPacks_of_stands h.holds hpacks hordinals hlength h.stands
  have hnames := h.holds.names (h.all_locations ▸ hlength :
    (rows.map SectionRow.location ++ built.tables.map (·.location)).length = written.length)
  have hnodup : ((([] : List ReadNode) ++ (dataFrames ir).flatMap PlainData.records).map (·.id)).Nodup := by
    have hrefs := ht.nodeRefs_nodup
    rwa [nodeRefs_eq, framedNodes] at hrefs
  have hrestored : rows.foldlM (restoreRow core members (built.manifest ir)
      (readTables ir built rows)) ⟨[], []⟩ = .ok ⟨[] ++ framedNodes ir,
        [] ++ (dataFrames ir).flatMap PlainData.targets⟩ :=
    foldlM_restoreRow ht hlinked h.holds hpacks (List.Subset.refl _) h.rowsOf hnodup
  have horder : (ir.nodes.map (·.id)).mapM (fun id => orFail GraphFailure.requiredNodeMissing
      ((framedNodes ir).find? fun n => n.id = id)) = .ok ir.nodes := by
    rw [mapM_eq_ok_iff, List.forall₂_map_left_iff, List.forall₂_same]
    intro n hn
    have hids : ((framedNodes ir).map (·.id)).Nodup := by
      rw [← nodeRefs_eq]
      exact ht.nodeRefs_nodup
    rw [(find?_key_eq_some_iff hids).mpr ⟨ht.framedNodes_perm.mem_iff.mpr hn, rfl⟩]
    rfl
  -- the directories follow each other, and none is behind the last one
  have hnone : ∀ d ∈ ([] : List DirectoryRow).head?, d.table ≠ .nodeSections := fun d hd => by cases hd
  have hafterTopics : ∀ d ∈ (directoryOf core ir rows .nodeSections (places .nodeSections) ++
      []).head?, d.table ≠ .topics :=
    head_directoryOf_ne (by decide) fun d hd => by cases hd
  have hafterSections : ∀ d ∈ (directoryOf core ir rows .topics (places .topics) ++
      (directoryOf core ir rows .nodeSections (places .nodeSections) ++ [])).head?,
        d.table ≠ .sections :=
    head_directoryOf_ne (by decide) (head_directoryOf_ne (by decide) fun d hd => by cases hd)
  have htables : (built.manifest ir).tables =
      directoryOf core ir rows .sections (places .sections) ++
        (directoryOf core ir rows .topics (places .topics) ++
          (directoryOf core ir rows .nodeSections (places .nodeSections) ++ [])) := by
    rw [List.append_nil, ← List.append_assoc]
    exact h.tables
  have hsections : readTable core members .sections (built.manifest ir).tables =
      .ok (sortedRows ir rows .sections, directoryOf core ir rows .topics (places .topics) ++
        (directoryOf core ir rows .nodeSections (places .nodeSections) ++ [])) := by
    rw [htables]
    exact h.readTable_eq hpacks .sections hafterSections
  have htopics : readTable core members .topics
      (directoryOf core ir rows .topics (places .topics) ++
        (directoryOf core ir rows .nodeSections (places .nodeSections) ++ [])) =
      .ok (sortedRows ir rows .topics,
        directoryOf core ir rows .nodeSections (places .nodeSections) ++ []) :=
    h.readTable_eq hpacks .topics hafterTopics
  have hnodes : readTable core members .nodeSections
      (directoryOf core ir rows .nodeSections (places .nodeSections) ++ []) =
      .ok (sortedRows ir rows .nodeSections, []) :=
    h.readTable_eq hpacks .nodeSections hnone
  refine ⟨rows.map SectionRow.location ++ built.tables.map (·.location), ?_⟩
  rw [restoreWholeFrames]
  simp only [mapError_of_ok hcatalog, hsections, htopics, hnodes, ok_bind]
  rw [require_bind_of_pos List.isEmpty_nil]
  change (((readSectionLayout (readTables ir built rows)).mapError GraphFailure.layout) >>= _) = _
  rw [mapError_of_ok hlayout, ok_bind]
  change ((checkPacks (rows.map SectionRow.location ++ built.tables.map (·.location))
    members).mapError GraphFailure.pack >>= _) = _
  rw [mapError_of_ok hends, ok_bind]
  change ((rows.foldlM (restoreRow core members (built.manifest ir) (readTables ir built rows))
    ⟨[], []⟩ >>= _) : Except GraphFailure Whole) = _
  rw [hrestored, ok_bind, h.targets_eq hlinked]
  change (((ir.nodes.map (·.id)).mapM (fun id => orFail GraphFailure.requiredNodeMissing
    ((framedNodes ir).find? fun n => n.id = id)) >>= _) : Except GraphFailure Whole) = _
  rw [horder, ← hnames]
  rfl

end Whole

section Samples

/-- A short text in CBOR. -/
def shortText (t : String) : Bytes :=
  if (Utf8.encode t).length < 24 then UInt8.ofNat (0x60 + (Utf8.encode t).length) :: Utf8.encode t
  else 0x78 :: UInt8.ofNat (Utf8.encode t).length :: Utf8.encode t

/-- The number 0 as a double. -/
def doubleZero : Bytes := [0xFB, 0, 0, 0, 0, 0, 0, 0, 0]

/-- The number 48 as a double. -/
def doubleFortyEight : Bytes := [0xFB, 0x40, 0x48, 0, 0, 0, 0, 0, 0]

/-- A node that no judgment owns. -/
def volumeNode : ReadNode := ⟨"n", none, .obj [("id", .str "n")]⟩

/-- The frame of the node. -/
def volumeBytes : Bytes :=
  [0xA3] ++ shortText "section_id" ++ shortText "volume:0" ++ shortText "kind" ++
    shortText "volume" ++ shortText "records" ++ [0x81, 0xA1] ++ shortText "id" ++ shortText "n"

/-- The row of the frame. -/
def volumeRow : SectionRow :=
  ⟨"volume:0", .volume, packName 0, 0, 48, 0, 0,
    "sha256:404a9885d92a2a9340e7991eac5c4c8cbe89069105e82707ec1617ab83814a38"⟩

/-- The table `sections` with the row. -/
def sectionsBytes : Bytes :=
  [0x81, 0xA8] ++ shortText "section_id" ++ shortText volumeRow.sectionId ++ shortText "member" ++
    shortText volumeRow.member ++ shortText "offset_bytes" ++ doubleZero ++
    shortText "length_bytes" ++ doubleFortyEight ++ shortText "pack_ordinal" ++ doubleZero ++
    shortText "digest" ++ shortText volumeRow.digest ++ shortText "kind" ++ shortText "volume" ++
    shortText "entry_count" ++ doubleZero

/-- The table `node_sections` with the place of the node. -/
def nodeSectionsBytes : Bytes :=
  [0x81, 0xA2] ++ shortText "node_ref" ++ shortText "n" ++ shortText "section_id" ++
    shortText "volume:0"

/-- An empty table. -/
def emptyTableBytes : Bytes := [0x80]

/-- The encoder on these frames. -/
def sampleEncode : Stored → Bytes
  | .data (.nodes "volume:0" .volume [⟨"n", none, .obj [("id", .str "n")]⟩]) => volumeBytes
  | .rows [.ofSection row] => if row = volumeRow then sectionsBytes else []
  | .rows [.ofNode row] => if row = ⟨"n", "volume:0"⟩ then nodeSectionsBytes else []
  | .rows [] => emptyTableBytes
  | _ => []

/-- The decoder on these frames. -/
def sampleDecode (b : Bytes) : Except Failure Stored :=
  if b = volumeBytes then .ok (.data (.nodes "volume:0" .volume [volumeNode]))
  else if b = sectionsBytes then .ok (.rows [.ofSection volumeRow])
  else if b = nodeSectionsBytes then .ok (.rows [.ofNode ⟨"n", "volume:0"⟩])
  else if b = emptyTableBytes then .ok (.rows [])
  else .error .coreInvalid

/-- Their digests. -/
def sampleSha (b : Bytes) : String :=
  if b = volumeBytes then volumeRow.digest
  else if b = sectionsBytes then
    "sha256:c6f6ddb16c6540ab1246a212002aa5802cfe477cd641271c7bd237da1b036821"
  else if b = nodeSectionsBytes then
    "sha256:f9e376012a65cc6913d3caccf01f29f323afe406dd442b49c9b0f8fd150da50f"
  else "sha256:76be8b528d0075f7aae98d6fa57a6d3c83ae480a8469e668d7b0af968995ac71"

theorem sampleDecode_sampleEncode {v w : Stored} (h : sampleDecode (sampleEncode v) = .ok w) :
    w = v := by
  have hnil : sampleDecode [] = .error .coreInvalid := by
    rw [sampleDecode, if_neg (by decide +kernel), if_neg (by decide +kernel),
      if_neg (by decide +kernel), if_neg (by decide +kernel)]
  unfold sampleEncode at h
  split at h
  · rw [sampleDecode, if_pos rfl] at h
    exact (Except.ok.inj h).symm
  · split at h
    · next hrow =>
      rw [sampleDecode, if_neg (by decide +kernel), if_pos rfl, ← hrow] at h
      exact (Except.ok.inj h).symm
    · rw [hnil] at h
      cases h
  · split at h
    · next hrow =>
      rw [sampleDecode, if_neg (by decide +kernel), if_neg (by decide +kernel), if_pos rfl,
        ← hrow] at h
      exact (Except.ok.inj h).symm
    · rw [hnil] at h
      cases h
  · rw [sampleDecode, if_neg (by decide +kernel), if_neg (by decide +kernel),
      if_neg (by decide +kernel), if_pos rfl] at h
    exact (Except.ok.inj h).symm
  · rw [hnil] at h
    cases h

theorem length_of_sampleDecode {b : Bytes} {v : Stored} (h : sampleDecode b = .ok v) :
    b.length ≤ maxPayloadBytes := by
  unfold sampleDecode at h
  split at h
  · next hb =>
    rw [hb]
    decide +kernel
  · split at h
    · next hb =>
      rw [hb]
      decide +kernel
    · split at h
      · next hb =>
        rw [hb]
        decide +kernel
      · split at h
        · next hb =>
          rw [hb]
          decide +kernel
        · cases h

/-- The codec on these frames. -/
def sampleCore : FrameCore where
  codec := ⟨sampleEncode, sampleDecode, sampleSha, length_of_sampleDecode, sampleDecode_sampleEncode⟩
  rowShape _ := true
  directoryShape _ := true
  nodeShape n := !n.id.isEmpty

/-- An IR with the node alone. -/
def sampleFrameIr : FrameIr := ⟨"a", "1", [volumeNode], [], [], []⟩

theorem sampleFrameIr_linked : sampleFrameIr.Linked sampleCore where
  closed := by
    constructor
    · rfl
    · intro p hp
      cases hp
    · intro x hx
      cases hx
    · intro c hc
      cases hc
  nodes n hn := by
    rw [List.mem_singleton.mp hn]
    decide
  targets x hx := by cases hx
  scopes x hx := by cases hx
  anchors x hx := by cases hx

/-- What is built for it. -/
def sampleBuilt : Built := (buildFrames sampleCore sampleFrameIr).toOption.getD ⟨[], ⟨[], 0⟩⟩

theorem buildFrames_sampleFrameIr : buildFrames sampleCore sampleFrameIr = .ok sampleBuilt := by
  have hsome : (buildFrames sampleCore sampleFrameIr).toOption.isSome := by decide +kernel
  rw [sampleBuilt]
  cases h : buildFrames sampleCore sampleFrameIr with
  | ok built => rfl
  | error e =>
    rw [h] at hsome
    cases hsome

/-- The pack of the frames, and another member. -/
def builtMembers : Members where
  entries := ("kdna.json", [7]) :: sampleBuilt.packs.entries
  nodup := by decide +kernel

theorem restoreWholeFrames_sampleFrameIr :
    ∃ checked, restoreWholeFrames sampleCore builtMembers (sampleBuilt.manifest sampleFrameIr) =
      .ok ⟨[volumeNode], [], checked, [packName 0]⟩ := by
  have hpacks : builtMembers.packs = sampleBuilt.packs.entries := by decide +kernel
  have hname : sampleBuilt.packs.entries.map Prod.fst = [packName 0] := by decide +kernel
  have h := restoreWholeFrames_buildFrames sampleFrameIr_linked buildFrames_sampleFrameIr
    (List.Perm.of_eq hpacks)
  rw [hname] at h
  exact h

end Samples

end Kdna.Sections

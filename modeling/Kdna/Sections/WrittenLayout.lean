import Kdna.Data.Delimited
import Kdna.Data.Reorder
import Kdna.Sections.WrittenFrames

/-!
# The layout of written frames

The reader takes the order of the sections from their ids and numbers, not from the tables. For the
tables of an IR it finds the order in which the frames were written.
-/

namespace Kdna.Sections

section Ids

/-- What the ids of the references behind `ordinal` topics start with. -/
def xrefPrefix (ordinal : ℕ) : String := "xref:" ++ toString ordinal ++ ":"

theorem colon_not_mem_toString (n : ℕ) : ':' ∉ (toString n).toList := by
  rw [Nat.toString_eq_repr, Nat.toList_repr]
  intro h
  exact absurd (Nat.isDigit_of_mem_toDigits (by omega) (by omega) h) (by decide)

theorem startsWith_xrefId (n m c : ℕ) : startsWith (xrefId m c) (xrefPrefix n) = true ↔ m = n := by
  rw [startsWith, List.isPrefixOf_iff_prefix, xrefId, xrefPrefix]
  simp only [String.toList_append, List.append_assoc]
  constructor
  · rintro ⟨rest, h⟩
    rw [List.append_assoc, List.append_cancel_left_eq, List.append_assoc] at h
    have hdigits := (append_cons_inj (colon_not_mem_toString n) (colon_not_mem_toString m) h).1
    exact (toString_injective (String.toList_inj.mp hdigits)).symm
  · rintro rfl
    exact ⟨(toString c).toList, by simp only [List.append_assoc]⟩

theorem startsWith_topic (n : ℕ) (id : String) :
    startsWith ("topic:" ++ id) (xrefPrefix n) = false := by
  rw [startsWith, xrefPrefix]
  simp only [String.toList_append, List.append_assoc]
  rfl

theorem startsWith_volume (n : ℕ) (id : String) :
    startsWith ("volume:" ++ id) (xrefPrefix n) = false := by
  rw [startsWith, xrefPrefix]
  simp only [String.toList_append, List.append_assoc]
  rfl

end Ids

/-- Lists that are equal to a concatenation when they are mapped are concatenations. -/
theorem exists_segments {α β γ : Type} {f : α → β} {g : γ → List β} {l : List α} {xs : List γ}
    (h : l.map f = xs.flatMap g) :
    ∃ ls : List (List α), l = ls.flatten ∧ List.Forall₂ (fun x m => m.map f = g x) xs ls := by
  induction xs generalizing l with
  | nil =>
    rw [List.flatMap_nil, List.map_eq_nil_iff] at h
    exact ⟨[], h, .nil⟩
  | cons x xs ih =>
    rw [List.flatMap_cons] at h
    obtain ⟨m, rest, rfl, hm, hrest⟩ := List.map_eq_append_iff.mp h
    obtain ⟨ls, rfl, hls⟩ := ih hrest
    exact ⟨m :: ls, rfl, .cons hm hls⟩

/-- What the layout reads of a row. -/
def SectionRow.describe (row : SectionRow) : String × SectionKind × ℕ :=
  (row.sectionId, row.kind, row.entryCount)

/-- The row of a frame, as far as the layout reads it. -/
def PlainData.describe : PlainData → String × SectionKind × ℕ
  | .xref frame => (frame.sectionId, .xref, frame.records.length)
  | .nodes sectionId kind _ => (sectionId, kind, 0)

/-- The nodes of a frame. -/
def PlainData.records : PlainData → List ReadNode
  | .xref _ => []
  | .nodes _ _ records => records

variable {ir : FrameIr} {rows : List SectionRow} {t : Tables}

/-- The tables `t` are those of an IR whose data frames have the rows `rows`. -/
structure TablesOf (ir : FrameIr) (rows : List SectionRow) (t : Tables) : Prop where
  assetId : t.assetId = ir.assetId
  assetVersion : t.assetVersion = ir.assetVersion
  catalog : t.catalog = ir.catalog
  mandatoryClosures : t.mandatoryClosures = ir.mandatoryClosures
  nodeOrder : t.nodeOrder = ir.nodes.map (·.id)
  sections : t.sections.Perm rows
  topics : t.topics.Perm (topicRows ir)
  nodeSections : t.nodeSections.Perm (nodeMap ir)
  sectionKeys : SortedUnique (t.sections.map (·.sectionId))
  topicKeys : SortedUnique (t.topics.map (·.judgmentId))
  nodeKeys : SortedUnique (t.nodeSections.map (·.nodeRef))
  describe : rows.map SectionRow.describe = (dataFrames ir).map PlainData.describe
  ordinals : rows.map (·.packOrdinal) = List.range rows.length
  nodes_length : (nodeMap ir).length = ir.nodes.length

namespace TablesOf

theorem sectionIds_nodup (h : TablesOf ir rows t) : (rows.map (·.sectionId)).Nodup :=
  (h.sections.map _).nodup_iff.mp h.sectionKeys.nodup

theorem nodeRefs_nodup (h : TablesOf ir rows t) : ((nodeMap ir).map (·.nodeRef)).Nodup :=
  (h.nodeSections.map _).nodup_iff.mp h.nodeKeys.nodup

theorem judgmentIds_nodup (h : TablesOf ir rows t) : (ir.catalog.map (·.judgmentId)).Nodup := by
  have hnodup := (h.topics.map (·.judgmentId)).nodup_iff.mp h.topicKeys.nodup
  rwa [topicRows, List.map_map] at hnodup

theorem sectionOf_eq_some_iff (h : TablesOf ir rows t) {id : String} {row : SectionRow} :
    t.sectionOf id = some row ↔ row ∈ rows ∧ row.sectionId = id := by
  rw [Tables.sectionOf, find?_key_eq_some_iff h.sectionKeys.nodup, h.sections.mem_iff]

theorem topicSection_eq (h : TablesOf ir rows t) {c : CatalogItem} (hc : c ∈ ir.catalog) :
    t.topicSection c.judgmentId = some ("topic:" ++ c.judgmentId) := by
  have hrow : (⟨c.judgmentId, "topic:" ++ c.judgmentId⟩ : TopicRow) ∈ t.topics :=
    h.topics.mem_iff.mpr (List.mem_map.mpr ⟨c, hc, rfl⟩)
  rw [Tables.topicSection, (find?_key_eq_some_iff h.topicKeys.nodup).mpr ⟨hrow, rfl⟩]
  rfl

theorem nodeSection_eq_some (h : TablesOf ir rows t) {r : NodeSectionRow} (hr : r ∈ nodeMap ir) :
    t.nodeSection r.nodeRef = some r.sectionId := by
  rw [Tables.nodeSection, (find?_key_eq_some_iff h.nodeKeys.nodup).mpr
    ⟨h.nodeSections.mem_iff.mpr hr, rfl⟩]
  rfl

end TablesOf

section Nodes

/-- The nodes of all frames. -/
def framedNodes (ir : FrameIr) : List ReadNode := (dataFrames ir).flatMap PlainData.records

theorem nodeMap_records (frame : PlainData) :
    frame.nodeMap.map (·.nodeRef) = frame.records.map (·.id) := by
  cases frame with
  | xref frame => rfl
  | nodes sectionId kind records =>
    rw [PlainData.nodeMap, List.map_map]
    rfl

theorem nodeRefs_eq (ir : FrameIr) :
    (nodeMap ir).map (·.nodeRef) = (framedNodes ir).map (·.id) := by
  rw [nodeMap, framedNodes, List.map_flatMap, List.map_flatMap]
  exact List.flatMap_congr fun frame _ => nodeMap_records frame

theorem records_xrefs (ir : FrameIr) (ordinal : ℕ) (judgmentId : Option String) :
    (xrefs ir ordinal judgmentId).flatMap PlainData.records = [] := by
  rw [List.flatMap_eq_nil_iff]
  intro frame hframe
  obtain ⟨c, -, rfl⟩ := List.mem_map.mp hframe
  rfl

theorem records_volumeFrames (ir : FrameIr) :
    (volumeFrames ir).flatMap PlainData.records = volumeNodes ir := by
  rw [volumeFrames, List.flatMap_map, List.flatMap_def]
  exact (congrArg List.flatten (List.zipIdx_map_fst 0 _)).trans (flatten_chunks (by omega) _)

/-- The topics hold the nodes of their judgments, and the volumes the nodes of none. -/
theorem framedNodes_eq (ir : FrameIr) : framedNodes ir =
    (ir.catalog.zipIdx.flatMap fun item =>
      ir.nodes.filter fun n => n.ownerJudgmentId = some item.1.judgmentId) ++ volumeNodes ir := by
  rw [framedNodes, dataFrames, List.flatMap_append, List.flatMap_append, records_xrefs,
    records_volumeFrames, List.nil_append, List.flatMap_assoc]
  congr 1
  apply List.flatMap_congr
  intro item _
  rw [topicFrames, List.flatMap_cons, records_xrefs, List.append_nil]
  rfl

theorem mem_volumeNodes {n : ReadNode} :
    n ∈ volumeNodes ir ↔ n ∈ ir.nodes ∧ n.ownerJudgmentId = none := by
  rw [volumeNodes, (sortByUtf8_perm _ _).mem_iff, List.mem_filter, decide_eq_true_eq]

/-- The frames hold each node once. -/
theorem TablesOf.framedNodes_perm (h : TablesOf ir rows t) : (framedNodes ir).Perm ir.nodes := by
  have hnodup : (framedNodes ir).Nodup := by
    have hrefs := h.nodeRefs_nodup
    rw [nodeRefs_eq] at hrefs
    exact hrefs.of_map _
  have hsubset : framedNodes ir ⊆ ir.nodes := by
    intro n hn
    rw [framedNodes_eq] at hn
    rcases List.mem_append.mp hn with hn | hn
    · obtain ⟨item, -, hn⟩ := List.mem_flatMap.mp hn
      exact (List.mem_filter.mp hn).1
    · exact (mem_volumeNodes.mp hn).1
  have hlength : (framedNodes ir).length = ir.nodes.length := by
    rw [← List.length_map (f := (·.id)), ← nodeRefs_eq, List.length_map, h.nodes_length]
  exact (List.subperm_of_subset hnodup hsubset).perm_of_length_le (le_of_eq hlength.symm)

theorem TablesOf.nodeRefs_perm (h : TablesOf ir rows t) :
    ((nodeMap ir).map (·.nodeRef)).Perm (ir.nodes.map (·.id)) := by
  rw [nodeRefs_eq]
  exact h.framedNodes_perm.map _

theorem TablesOf.nodeIds_nodup (h : TablesOf ir rows t) : (ir.nodes.map (·.id)).Nodup :=
  h.nodeRefs_perm.nodup_iff.mp h.nodeRefs_nodup

/-- A node of the IR has a section. -/
theorem TablesOf.nodeSection_isSome (h : TablesOf ir rows t) {id : String}
    (hid : id ∈ ir.nodes.map (·.id)) : (t.nodeSection id).isSome := by
  obtain ⟨r, hr, rfl⟩ := List.mem_map.mp (h.nodeRefs_perm.mem_iff.mpr hid)
  rw [h.nodeSection_eq_some hr]
  rfl

end Nodes

section Order

/-- The rows that a test picks from the table stand in the order in which they were written. -/
theorem TablesOf.byPackOrdinal_filter (h : TablesOf ir rows t) {p : SectionRow → Bool}
    {xs : List SectionRow} (hsub : xs.Sublist rows)
    (hmem : ∀ row ∈ rows, p row = true ↔ row ∈ xs) : byPackOrdinal (t.sections.filter p) = xs := by
  have hpairwise : rows.Pairwise fun a b => a.packOrdinal < b.packOrdinal := by
    have hrange := List.pairwise_lt_range (n := rows.length)
    rwa [← h.ordinals, List.pairwise_map] at hrange
  have hnodup : rows.Nodup := h.sectionIds_nodup.of_map _
  have hperm : (t.sections.filter p).Perm xs := by
    refine (h.sections.filter p).trans ?_
    rw [List.perm_ext_iff_of_nodup (hnodup.filter _) (hsub.nodup hnodup)]
    intro row
    rw [List.mem_filter]
    constructor
    · rintro ⟨hrow, hp⟩
      exact (hmem row hrow).mp hp
    · intro hrow
      exact ⟨hsub.subset hrow, (hmem row (hsub.subset hrow)).mpr hrow⟩
  have hkey : ∀ a ∈ t.sections.filter p, ∀ b ∈ t.sections.filter p,
      a.packOrdinal = b.packOrdinal → a = b := by
    intro a ha b hb hordinal
    have hinj : (rows.map (·.packOrdinal)).Nodup := by
      rw [h.ordinals]
      exact List.nodup_range
    exact List.inj_on_of_nodup_map hinj (hsub.subset (hperm.mem_iff.mp ha))
      (hsub.subset (hperm.mem_iff.mp hb)) hordinal
  rw [byPackOrdinal, insertionSort_eq_of_perm hkey hperm]
  exact ((hpairwise.sublist hsub).imp fun hlt => Nat.le_of_lt hlt).insertionSort_eq

/-- The rows of a chunked list of frames, one by one. -/
theorem describe_getElem {xs : List SectionRow} {frames : List PlainData}
    (hxs : xs.map SectionRow.describe = frames.map PlainData.describe) {p : SectionRow × ℕ}
    (hp : p ∈ xs.zipIdx) : ∃ frame, frames[p.2]? = some frame ∧ p.1.describe = frame.describe := by
  have hget := congrArg (·[p.2]?) hxs
  simp only [List.getElem?_map, List.mem_zipIdx_iff_getElem?.mp hp, Option.map_some] at hget
  obtain ⟨frame, hframe, hdescribe⟩ := Option.map_eq_some_iff.mp hget.symm
  exact ⟨frame, hframe, hdescribe.symm⟩

/-- A chunk of references. -/
theorem getElem?_xrefs {ordinal i : ℕ} {judgmentId : Option String} {frame : PlainData}
    (h : (xrefs ir ordinal judgmentId)[i]? = some frame) : ∃ records,
      (chunks 1024 (ir.expansionTargets.filter (anchoredAt judgmentId)))[i]? = some records ∧
        frame = .xref ⟨xrefId ordinal i, records⟩ := by
  rw [xrefs, List.getElem?_map, Option.map_eq_some_iff] at h
  obtain ⟨⟨records, j⟩, hrecords, rfl⟩ := h
  rw [List.getElem?_zipIdx, Option.map_eq_some_iff] at hrecords
  obtain ⟨records', hget, heq⟩ := hrecords
  obtain ⟨rfl, rfl⟩ := Prod.mk.inj heq
  refine ⟨records', hget, ?_⟩
  rw [Nat.zero_add]

/-- The references behind some topics are found in their order. -/
theorem TablesOf.anchor_eq (h : TablesOf ir rows t) {ordinal : ℕ} {judgmentId : Option String}
    {xs : List SectionRow} (hsub : xs.Sublist rows)
    (hmem : ∀ row ∈ rows, startsWith row.sectionId (xrefPrefix ordinal) = true → row ∈ xs)
    (hxs : xs.map SectionRow.describe = (xrefs ir ordinal judgmentId).map PlainData.describe) :
    anchor t ordinal = .ok xs := by
  have hframe {p : SectionRow × ℕ} (hp : p ∈ xs.zipIdx) : p.1.kind = .xref ∧
      p.1.sectionId = xrefId ordinal p.2 ∧ (p.2 + 1 = xs.length ∨ p.1.entryCount = 1024) := by
    obtain ⟨frame, hframe, hdescribe⟩ := describe_getElem hxs hp
    obtain ⟨records, hrecords, rfl⟩ := getElem?_xrefs hframe
    obtain ⟨hid, hrest⟩ := Prod.mk.inj hdescribe
    obtain ⟨hkind, hcount⟩ := Prod.mk.inj hrest
    refine ⟨hkind, hid, ?_⟩
    have hlength : xs.length = (chunks 1024 (ir.expansionTargets.filter
        (anchoredAt judgmentId))).length := by
      have hlengths := congrArg List.length hxs
      rwa [List.length_map, List.length_map, xrefs, List.length_map, List.length_zipIdx] at hlengths
    rw [hlength, hcount]
    exact (length_chunk (by omega) hrecords).2
  have hpick : byPackOrdinal (t.sections.filter fun s =>
      startsWith s.sectionId (xrefPrefix ordinal)) = xs := by
    apply h.byPackOrdinal_filter hsub
    intro row hrow
    refine ⟨hmem row hrow, fun hx => ?_⟩
    obtain ⟨i, hi, rfl⟩ := List.getElem_of_mem hx
    have hentry : (xs[i], i) ∈ xs.zipIdx :=
      List.mem_zipIdx_iff_getElem?.mpr (List.getElem?_eq_getElem hi)
    rw [(hframe hentry).2.1]
    exact (startsWith_xrefId _ _ _).mpr rfl
  rw [xrefPrefix] at hpick
  simp only [anchor, hpick]
  exact require_bind_of_pos (fun p hp => hframe hp) _

end Order

section Layout

/-- What the rows of a part of the frames are called. -/
theorem describe_mem {xs : List SectionRow} {frames : List PlainData}
    (hxs : xs.map SectionRow.describe = frames.map PlainData.describe) {row : SectionRow}
    (hrow : row ∈ xs) : ∃ frame ∈ frames, row.describe = frame.describe := by
  have hmem : row.describe ∈ frames.map PlainData.describe := by
    rw [← hxs]
    exact List.mem_map.mpr ⟨row, hrow, rfl⟩
  obtain ⟨frame, hframe, hdescribe⟩ := List.mem_map.mp hmem
  exact ⟨frame, hframe, hdescribe.symm⟩

theorem mem_xrefs {ordinal : ℕ} {judgmentId : Option String} {frame : PlainData}
    (h : frame ∈ xrefs ir ordinal judgmentId) :
    ∃ c records, frame = .xref ⟨xrefId ordinal c, records⟩ := by
  obtain ⟨c, -, rfl⟩ := List.mem_map.mp h
  exact ⟨_, _, rfl⟩

theorem mem_volumeFrames {frame : PlainData} (h : frame ∈ volumeFrames ir) :
    ∃ (c : ℕ) (records : List ReadNode), frame = .nodes ("volume:" ++ toString c) .volume records := by
  obtain ⟨c, -, rfl⟩ := List.mem_map.mp h
  exact ⟨_, _, rfl⟩

/-- The rows of the references of an anchor start with its number. -/
theorem startsWith_of_xrefs {n ordinal : ℕ} {judgmentId : Option String} {xs : List SectionRow}
    (hxs : xs.map SectionRow.describe = (xrefs ir ordinal judgmentId).map PlainData.describe)
    {row : SectionRow} (hrow : row ∈ xs) :
    row.kind = .xref ∧ (startsWith row.sectionId (xrefPrefix n) = true ↔ ordinal = n) := by
  obtain ⟨frame, hframe, hdescribe⟩ := describe_mem hxs hrow
  obtain ⟨c, records, rfl⟩ := mem_xrefs hframe
  obtain ⟨hid, hrest⟩ := Prod.mk.inj hdescribe
  refine ⟨(Prod.mk.inj hrest).1, ?_⟩
  rw [hid]
  exact startsWith_xrefId _ _ _

/-- The rows of the frames, taken apart: the references from the asset, each topic with the
references from it, and the volumes. -/
structure Segments (ir : FrameIr) (rows first : List SectionRow) (topics : List (List SectionRow))
    (volumes : List SectionRow) : Prop where
  rows : rows = first ++ topics.flatten ++ volumes
  first : first.map SectionRow.describe = (xrefs ir 0 none).map PlainData.describe
  topics : List.Forall₂ (fun item m => m.map SectionRow.describe =
    (topicFrames ir item).map PlainData.describe) ir.catalog.zipIdx topics
  volumes : volumes.map SectionRow.describe = (volumeFrames ir).map PlainData.describe

theorem TablesOf.segments (h : TablesOf ir rows t) :
    ∃ first topics volumes, Segments ir rows first topics volumes := by
  have hdescribe := h.describe
  rw [dataFrames, List.map_append, List.map_append, List.map_flatMap] at hdescribe
  obtain ⟨front, volumes, rfl, hfront, hvolumes⟩ := List.map_eq_append_iff.mp hdescribe
  obtain ⟨first, middle, rfl, hfirst, hmiddle⟩ := List.map_eq_append_iff.mp hfront
  obtain ⟨topics, rfl, htopics⟩ := exists_segments hmiddle
  exact ⟨first, topics, volumes, rfl, hfirst, htopics, hvolumes⟩

variable {first volumes : List SectionRow} {topics : List (List SectionRow)}

/-- The rows of a topic: its own, and those of the references from it. -/
theorem topic_rows {item : CatalogItem × ℕ} {m : List SectionRow}
    (hm : m.map SectionRow.describe = (topicFrames ir item).map PlainData.describe) :
    ∃ row xs, m = row :: xs ∧ row.sectionId = "topic:" ++ item.1.judgmentId ∧ row.kind = .topic ∧
      xs.map SectionRow.describe =
        (xrefs ir (item.2 + 1) (some item.1.judgmentId)).map PlainData.describe := by
  rw [topicFrames, List.map_cons] at hm
  obtain ⟨row, xs, rfl, hrow, hxs⟩ := List.map_eq_cons_iff.mp hm
  obtain ⟨hid, hrest⟩ := Prod.mk.inj hrow
  exact ⟨row, xs, rfl, hid, (Prod.mk.inj hrest).1, hxs⟩

/-- The segment of a row: which prefix it has, and which kind it is of. -/
theorem Segments.cases (h : Segments ir rows first topics volumes) {row : SectionRow}
    (hrow : row ∈ rows) {n : ℕ} :
    (row ∈ first ∧ row.kind = .xref ∧ (startsWith row.sectionId (xrefPrefix n) = true ↔ 0 = n)) ∨
      (∃ item ∈ ir.catalog.zipIdx, ∃ m ∈ topics, m.map SectionRow.describe =
        (topicFrames ir item).map PlainData.describe ∧ ∃ head xs, m = head :: xs ∧
          ((row = head ∧ row.kind = .topic ∧ startsWith row.sectionId (xrefPrefix n) = false) ∨
            row ∈ xs ∧ row.kind = .xref ∧
              (startsWith row.sectionId (xrefPrefix n) = true ↔ item.2 + 1 = n))) ∨
      (row ∈ volumes ∧ row.kind = .volume ∧ startsWith row.sectionId (xrefPrefix n) = false) := by
  rw [h.rows, List.mem_append, List.mem_append] at hrow
  rcases hrow with (hrow | hrow) | hrow
  · exact Or.inl ⟨hrow, startsWith_of_xrefs h.first hrow⟩
  · obtain ⟨m, hm, hrow⟩ := List.mem_flatten.mp hrow
    obtain ⟨item, hitem, hdescribe⟩ := exists_of_mem_forall₂ h.topics hm
    obtain ⟨head, xs, rfl, hid, hkind, hxs⟩ := topic_rows hdescribe
    refine Or.inr (Or.inl ⟨item, hitem, _, hm, hdescribe, head, xs, rfl, ?_⟩)
    rcases List.mem_cons.mp hrow with rfl | hrow
    · exact Or.inl ⟨rfl, hkind, by rw [hid]; exact startsWith_topic _ _⟩
    · exact Or.inr ⟨hrow, startsWith_of_xrefs hxs hrow⟩
  · refine Or.inr (Or.inr ⟨hrow, ?_⟩)
    obtain ⟨frame, hframe, hdescribe⟩ := describe_mem h.volumes hrow
    obtain ⟨c, records, rfl⟩ := mem_volumeFrames hframe
    obtain ⟨hid, hrest⟩ := Prod.mk.inj hdescribe
    refine ⟨(Prod.mk.inj hrest).1, ?_⟩
    rw [hid]
    exact startsWith_volume _ _

/-- Rows that are described alike are the same. -/
theorem TablesOf.mem_of_describe (h : TablesOf ir rows t) {xs xs' : List SectionRow}
    (hxs : xs ⊆ rows) (hxs' : xs' ⊆ rows)
    (hdescribe : xs'.map SectionRow.describe = xs.map SectionRow.describe) {row : SectionRow}
    (hrow : row ∈ xs') : row ∈ xs := by
  have hmem : row.describe ∈ xs.map SectionRow.describe := by
    rw [← hdescribe]
    exact List.mem_map.mpr ⟨row, hrow, rfl⟩
  obtain ⟨row', hrow', heq⟩ := List.mem_map.mp hmem
  have hid : row'.sectionId = row.sectionId := (Prod.mk.inj heq).1
  rwa [← List.inj_on_of_nodup_map h.sectionIds_nodup (hxs hrow') (hxs' hrow) hid]

theorem Segments.topic_sublist (h : Segments ir rows first topics volumes) {m : List SectionRow}
    (hm : m ∈ topics) : m.Sublist rows := by
  rw [h.rows, List.append_assoc]
  exact ((List.sublist_flatten_of_mem hm).trans (List.sublist_append_left _ _)).trans
    (List.sublist_append_right _ _)

theorem TablesOf.anchor_first (h : TablesOf ir rows t)
    (hseg : Segments ir rows first topics volumes) : anchor t 0 = .ok first := by
  apply h.anchor_eq _ _ hseg.first
  · rw [hseg.rows, List.append_assoc]
    exact List.sublist_append_left _ _
  · intro row hrow hstart
    rcases hseg.cases hrow (n := 0) with ⟨hfirst, -⟩ | ⟨item, -, m, -, -, head, xs, -, hcase⟩ |
      ⟨-, -, hvolume⟩
    · exact hfirst
    · rcases hcase with ⟨-, -, htopic⟩ | ⟨-, -, hxref⟩
      · exact absurd hstart (by rw [htopic]; exact Bool.false_ne_true)
      · exact absurd (hxref.mp hstart) (Nat.succ_ne_zero _)
    · exact absurd hstart (by rw [hvolume]; exact Bool.false_ne_true)

/-- A topic is found with the references from it. -/
theorem TablesOf.orderedTopic_eq (h : TablesOf ir rows t)
    (hseg : Segments ir rows first topics volumes) {item : CatalogItem × ℕ} {m : List SectionRow}
    (hitem : item ∈ ir.catalog.zipIdx) (hm : m ∈ topics)
    (hdescribe : m.map SectionRow.describe = (topicFrames ir item).map PlainData.describe) :
    orderedTopic t item = .ok m := by
  obtain ⟨head, xs, rfl, hid, -, hxs⟩ := topic_rows hdescribe
  have hsub := hseg.topic_sublist hm
  have hrow : t.sectionOf ("topic:" ++ item.1.judgmentId) = some head :=
    h.sectionOf_eq_some_iff.mpr ⟨hsub.subset List.mem_cons_self, hid⟩
  have hanchor : anchor t (item.2 + 1) = .ok xs := by
    apply h.anchor_eq ((List.sublist_cons_self _ _).trans hsub) _ hxs
    intro row hrow hstart
    rcases hseg.cases hrow (n := item.2 + 1) with ⟨-, -, hfirst⟩ |
      ⟨item', hitem', m', hm', hdescribe', head', xs', rfl, hcase⟩ | ⟨-, -, hvolume⟩
    · exact absurd (hfirst.mp hstart) (Nat.succ_ne_zero _).symm
    · rcases hcase with ⟨-, -, htopic⟩ | ⟨hxs', -, hxref⟩
      · exact absurd hstart (by rw [htopic]; exact Bool.false_ne_true)
      · -- the frames of one number are those of one catalog item
        have hindex : item'.2 = item.2 := Nat.succ.inj (hxref.mp hstart)
        have hsame : item' = item := by
          rw [List.mem_zipIdx_iff_getElem?] at hitem hitem'
          rw [hindex, hitem, Option.some.injEq] at hitem'
          exact Prod.ext hitem'.symm hindex
        rw [hsame, ← hdescribe, List.map_cons, List.map_cons, List.cons.injEq] at hdescribe'
        exact h.mem_of_describe (((List.sublist_cons_self _ _).trans hsub).subset)
          (((List.sublist_cons_self _ _).trans (hseg.topic_sublist hm')).subset) hdescribe'.2 hxs'
    · exact absurd hstart (by rw [hvolume]; exact Bool.false_ne_true)
  rw [orderedTopic, hrow]
  simp only [orFail, ok_bind, hanchor]
  rfl

theorem TablesOf.topics_eq (h : TablesOf ir rows t)
    (hseg : Segments ir rows first topics volumes) :
    t.catalog.zipIdx.mapM (orderedTopic t) = .ok topics := by
  rw [h.catalog, mapM_eq_ok_iff, List.forall₂_iff_zip]
  obtain ⟨hlength, hzip⟩ := List.forall₂_iff_zip.mp hseg.topics
  refine ⟨hlength, fun {item m} hmem => ?_⟩
  obtain ⟨hitem, hm⟩ := List.of_mem_zip hmem
  exact h.orderedTopic_eq hseg hitem hm (hzip hmem)

/-- A volume and the number of its chunk. -/
theorem getElem?_volumeFrames {i : ℕ} {frame : PlainData} (h : (volumeFrames ir)[i]? = some frame) :
    ∃ records, (chunks 512 (volumeNodes ir))[i]? = some records ∧
      frame = .nodes ("volume:" ++ toString i) .volume records := by
  rw [volumeFrames, List.getElem?_map, Option.map_eq_some_iff] at h
  obtain ⟨⟨records, j⟩, hrecords, rfl⟩ := h
  rw [List.getElem?_zipIdx, Option.map_eq_some_iff] at hrecords
  obtain ⟨records', hget, heq⟩ := hrecords
  obtain ⟨rfl, rfl⟩ := Prod.mk.inj heq
  refine ⟨records', hget, ?_⟩
  rw [Nat.zero_add]

theorem Segments.kind_volume_iff (h : Segments ir rows first topics volumes) {row : SectionRow}
    (hrow : row ∈ rows) : row.kind = .volume ↔ row ∈ volumes := by
  constructor
  · intro hkind
    rcases h.cases hrow (n := 0) with ⟨-, hxref, -⟩ | ⟨item, -, m, -, -, head, xs, -, hcase⟩ |
      ⟨hvolume, -⟩
    · rw [hxref] at hkind
      cases hkind
    · rcases hcase with ⟨-, htopic, -⟩ | ⟨-, hxref, -⟩
      · rw [htopic] at hkind
        cases hkind
      · rw [hxref] at hkind
        cases hkind
    · exact hvolume
  · intro hvolume
    obtain ⟨frame, hframe, hdescribe⟩ := describe_mem h.volumes hvolume
    obtain ⟨c, records, rfl⟩ := mem_volumeFrames hframe
    exact (Prod.mk.inj (Prod.mk.inj hdescribe).2).1

theorem TablesOf.volumes_eq (h : TablesOf ir rows t)
    (hseg : Segments ir rows first topics volumes) : orderedVolumes t = .ok volumes := by
  have hpick : byPackOrdinal (t.sections.filter fun s => s.kind = .volume) = volumes := by
    apply h.byPackOrdinal_filter
    · rw [hseg.rows]
      exact List.sublist_append_right _ _
    · intro row hrow
      rw [decide_eq_true_eq]
      exact hseg.kind_volume_iff hrow
  have hids : ∀ p ∈ volumes.zipIdx, p.1.sectionId = "volume:" ++ toString p.2 := by
    intro p hp
    obtain ⟨frame, hframe, hdescribe⟩ := describe_getElem hseg.volumes hp
    obtain ⟨records, -, rfl⟩ := getElem?_volumeFrames hframe
    exact (Prod.mk.inj hdescribe).1
  simp only [orderedVolumes, hpick]
  exact require_bind_of_pos hids _

end Layout

section Checks

/-- The frames of nodes. -/
theorem nodes_mem_dataFrames {id : String} {kind : SectionKind} {records : List ReadNode} :
    .nodes id kind records ∈ dataFrames ir ↔
      (∃ c ∈ ir.catalog, id = "topic:" ++ c.judgmentId ∧ kind = .topic ∧
        records = ir.nodes.filter fun n => n.ownerJudgmentId = some c.judgmentId) ∨
      ∃ i : ℕ, (chunks 512 (volumeNodes ir))[i]? = some records ∧ id = "volume:" ++ toString i ∧
        kind = .volume := by
  rw [dataFrames, List.mem_append, List.mem_append]
  constructor
  · rintro ((h | h) | h)
    · obtain ⟨c, records', heq⟩ := mem_xrefs h
      cases heq
    · obtain ⟨item, hitem, h⟩ := List.mem_flatMap.mp h
      rcases List.mem_cons.mp h with heq | h
      · cases heq
        have hc : item.1 ∈ ir.catalog :=
          List.mem_of_getElem? (List.mem_zipIdx_iff_getElem?.mp hitem)
        exact Or.inl ⟨item.1, hc, rfl, rfl, rfl⟩
      · obtain ⟨c, records', heq⟩ := mem_xrefs h
        cases heq
    · obtain ⟨i, hi, hget⟩ := List.getElem_of_mem h
      obtain ⟨records', hrecords, heq⟩ :=
        getElem?_volumeFrames (List.getElem?_eq_some_iff.mpr ⟨hi, hget⟩)
      cases heq
      exact Or.inr ⟨i, hrecords, rfl, rfl⟩
  · rintro (⟨c, hc, rfl, rfl, rfl⟩ | ⟨i, hi, rfl, rfl⟩)
    · obtain ⟨i, hi, rfl⟩ := List.getElem_of_mem hc
      have hitem : (ir.catalog[i], i) ∈ ir.catalog.zipIdx :=
        List.mem_zipIdx_iff_getElem?.mpr (List.getElem?_eq_getElem hi)
      exact Or.inl (Or.inr (List.mem_flatMap.mpr ⟨_, hitem, List.mem_cons_self⟩))
    · have hentry : (records, i) ∈ (chunks 512 (volumeNodes ir)).zipIdx :=
        List.mem_zipIdx_iff_getElem?.mpr hi
      exact Or.inr (List.mem_map.mpr ⟨_, hentry, rfl⟩)

theorem mem_nodeMap {r : NodeSectionRow} : r ∈ nodeMap ir ↔ ∃ id kind records,
    .nodes id kind records ∈ dataFrames ir ∧ ∃ n ∈ records, r = ⟨n.id, id⟩ := by
  rw [nodeMap, List.mem_flatMap]
  constructor
  · rintro ⟨frame, hframe, hr⟩
    cases frame with
    | xref frame => exact absurd hr List.not_mem_nil
    | nodes id kind records =>
      obtain ⟨n, hn, rfl⟩ := List.mem_map.mp hr
      exact ⟨id, kind, records, hframe, n, hn, rfl⟩
  · rintro ⟨id, kind, records, hframe, n, hn, rfl⟩
    exact ⟨_, hframe, List.mem_map.mpr ⟨n, hn, rfl⟩⟩

/-- The section of a frame. -/
theorem TablesOf.kind_of_frame (h : TablesOf ir rows t) {id : String} {kind : SectionKind}
    {records : List ReadNode} (hframe : .nodes id kind records ∈ dataFrames ir) :
    (t.sectionOf id).map (·.kind) = some kind := by
  have hmem : (id, kind, 0) ∈ rows.map SectionRow.describe := by
    rw [h.describe]
    exact List.mem_map.mpr ⟨_, hframe, rfl⟩
  obtain ⟨row, hrow, hdescribe⟩ := List.mem_map.mp hmem
  obtain ⟨hid, hrest⟩ := Prod.mk.inj hdescribe
  rw [h.sectionOf_eq_some_iff.mpr ⟨hrow, hid⟩, Option.map_some, (Prod.mk.inj hrest).1]

/-- The nodes that the tables say are in volumes. -/
theorem TablesOf.volumeIds_eq (h : TablesOf ir rows t) :
    sortByUtf8 id ((t.nodeSections.filter fun r =>
      (t.sectionOf r.sectionId).map (·.kind) = some .volume).map (·.nodeRef)) =
        (volumeNodes ir).map (·.id) := by
  have hsorted : SortedUnique (((volumeNodes ir).map (·.id)).map id) := by
    rw [List.map_id, volumeNodes]
    exact sortedUnique_sortByUtf8 (h.nodeIds_nodup.sublist (List.filter_sublist.map _))
  have hvolume {r : NodeSectionRow} (hr : r ∈ nodeMap ir) :
      (t.sectionOf r.sectionId).map (·.kind) = some .volume ↔
        r.nodeRef ∈ (volumeNodes ir).map (·.id) := by
    obtain ⟨id, kind, records, hframe, n, hn, rfl⟩ := mem_nodeMap.mp hr
    rw [h.kind_of_frame hframe, Option.some.injEq]
    rcases nodes_mem_dataFrames.mp hframe with ⟨c, -, rfl, rfl, rfl⟩ | ⟨i, hi, rfl, rfl⟩
    · constructor
      · intro hkind
        cases hkind
      · intro hmem
        obtain ⟨n', hn', hid⟩ := List.mem_map.mp hmem
        obtain ⟨hnode', hnone⟩ := mem_volumeNodes.mp hn'
        obtain ⟨hnode, howner⟩ := List.mem_filter.mp hn
        rw [List.inj_on_of_nodup_map h.nodeIds_nodup hnode' hnode hid,
          of_decide_eq_true howner] at hnone
        cases hnone
    · refine iff_of_true rfl (List.mem_map.mpr ⟨n, ?_, rfl⟩)
      rw [← flatten_chunks (by omega : 0 < 512) (volumeNodes ir)]
      exact List.mem_flatten.mpr ⟨_, List.mem_of_getElem? hi, hn⟩
  have hrefs := h.nodeRefs_nodup
  have hperm : ((t.nodeSections.filter fun r =>
      (t.sectionOf r.sectionId).map (·.kind) = some .volume).map (·.nodeRef)).Perm
        ((volumeNodes ir).map (·.id)) := by
    refine ((h.nodeSections.filter _).map _).trans ?_
    rw [List.perm_ext_iff_of_nodup (hrefs.sublist (List.filter_sublist.map _))
      (by simpa using hsorted.nodup)]
    intro name
    rw [List.mem_map]
    constructor
    · rintro ⟨r, hr, rfl⟩
      obtain ⟨hr, hkind⟩ := List.mem_filter.mp hr
      exact (hvolume hr).mp (of_decide_eq_true hkind)
    · intro hname
      have hnode : name ∈ ir.nodes.map (·.id) := by
        obtain ⟨n, hn, rfl⟩ := List.mem_map.mp hname
        exact List.mem_map.mpr ⟨n, (mem_volumeNodes.mp hn).1, rfl⟩
      obtain ⟨r, hr, rfl⟩ := List.mem_map.mp (h.nodeRefs_perm.mem_iff.mpr hnode)
      exact ⟨r, List.mem_filter.mpr ⟨hr, decide_eq_true ((hvolume hr).mpr hname)⟩, rfl⟩
  rw [sortByUtf8_eq_of_perm (by simpa using hperm.nodup_iff.mpr (by simpa using hsorted.nodup)) hperm,
    sortByUtf8_eq_self hsorted]

theorem TablesOf.checkVolumeChunks_eq (h : TablesOf ir rows t)
    {first volumes : List SectionRow} {topics : List (List SectionRow)}
    (hseg : Segments ir rows first topics volumes) : checkVolumeChunks t volumes = .ok () := by
  have hlength : volumes.length = (((volumeNodes ir).map (·.id)).length + 511) / 512 := by
    have hlengths := congrArg List.length hseg.volumes
    rw [List.length_map, List.length_map, volumeFrames, List.length_map, List.length_zipIdx,
      length_chunks] at hlengths
    rw [hlengths, List.length_map]
  simp only [checkVolumeChunks, h.volumeIds_eq]
  rw [require_bind_of_pos hlength, require_eq_ok_iff]
  intro p hp
  have hget := List.mem_zipIdx_iff_getElem?.mp hp
  rw [List.getElem?_map, Option.map_eq_some_iff] at hget
  obtain ⟨n, hn, hid⟩ := hget
  obtain ⟨post, hchunk⟩ := chunk_split (by omega : 0 < 512) hn
  have hframe := nodes_mem_dataFrames.mpr (Or.inr ⟨p.2 / 512, hchunk, rfl, rfl⟩)
  have hr : (⟨n.id, "volume:" ++ toString (p.2 / 512)⟩ : NodeSectionRow) ∈ nodeMap ir :=
    mem_nodeMap.mpr ⟨_, _, _, hframe, n, List.mem_append_right _ List.mem_cons_self, rfl⟩
  rw [← hid]
  exact h.nodeSection_eq_some hr

/-- What the catalog and the closures of an IR refer to is there. -/
structure FrameIr.Closed (ir : FrameIr) : Prop where
  closures_length : ir.mandatoryClosures.length = ir.catalog.length
  closures : ∀ p ∈ ir.mandatoryClosures.zip ir.catalog, p.1.judgmentId = p.2.judgmentId ∧
    p.1.assetId = ir.assetId ∧ p.1.assetVersion = ir.assetVersion
  closureNodes : ∀ x ∈ ir.mandatoryClosures, ∀ id ∈ x.nodeIds, id ∈ ir.nodes.map (·.id)
  catalogNodes : ∀ c ∈ ir.catalog, ∃ n ∈ ir.nodes, n.id = c.nodeRef ∧
    n.ownerJudgmentId = some c.judgmentId

theorem TablesOf.topicFits (h : TablesOf ir rows t) (hclosed : ir.Closed) {c : CatalogItem}
    (hc : c ∈ ir.catalog) : TopicFits t c := by
  have hframe : .nodes ("topic:" ++ c.judgmentId) .topic
      (ir.nodes.filter fun n => n.ownerJudgmentId = some c.judgmentId) ∈ dataFrames ir :=
    nodes_mem_dataFrames.mpr (Or.inl ⟨c, hc, rfl, rfl, rfl⟩)
  refine ⟨h.topicSection_eq hc, h.kind_of_frame hframe, ?_⟩
  obtain ⟨n, hn, hid, howner⟩ := hclosed.catalogNodes c hc
  have hrecord : n ∈ ir.nodes.filter fun n => n.ownerJudgmentId = some c.judgmentId :=
    List.mem_filter.mpr ⟨hn, decide_eq_true howner⟩
  rw [← hid]
  exact h.nodeSection_eq_some (mem_nodeMap.mpr ⟨_, _, _, hframe, n, hrecord, rfl⟩)

theorem TablesOf.nodeTarget (h : TablesOf ir rows t) {r : NodeSectionRow}
    (hr : r ∈ t.nodeSections) : (t.sectionOf r.sectionId).any (·.kind ≠ .xref) := by
  obtain ⟨id, kind, records, hframe, n, -, rfl⟩ := mem_nodeMap.mp (h.nodeSections.mem_iff.mp hr)
  obtain ⟨row, hrow, hkind⟩ := Option.map_eq_some_iff.mp (h.kind_of_frame hframe)
  have hne : kind ≠ .xref := by
    rcases nodes_mem_dataFrames.mp hframe with ⟨-, -, -, rfl, -⟩ | ⟨-, -, -, rfl⟩
    · intro heq
      cases heq
    · intro heq
      cases heq
  simp [hrow, hkind, hne]

/-- The reader finds the order in which the frames were written. -/
theorem TablesOf.readSectionLayout_eq (h : TablesOf ir rows t) (hclosed : ir.Closed) :
    readSectionLayout t = .ok rows := by
  obtain ⟨first, topics, volumes, hseg⟩ := h.segments
  have hcatalog : (t.catalog.map (·.judgmentId)).Nodup := by
    rw [h.catalog]
    exact h.judgmentIds_nodup
  have hclosures : ∀ p ∈ t.mandatoryClosures.zip t.catalog, p.1.judgmentId = p.2.judgmentId ∧
      p.1.assetId = t.assetId ∧ p.1.assetVersion = t.assetVersion := by
    rw [h.mandatoryClosures, h.catalog, h.assetId, h.assetVersion]
    exact hclosed.closures
  have hcoverage : t.nodeSections.length = t.nodeOrder.length ∧
      ∀ node ∈ t.nodeOrder, (t.nodeSection node).isSome := by
    rw [h.nodeOrder, h.nodeSections.length_eq, h.nodes_length, List.length_map]
    exact ⟨rfl, fun node hnode => h.nodeSection_isSome hnode⟩
  have htopics : t.topics.length = t.catalog.length := by
    rw [h.topics.length_eq, topicRows, List.length_map, h.catalog]
  have hordered : first ++ topics.flatten ++ volumes = rows := hseg.rows.symm
  have hall : (first ++ topics.flatten ++ volumes).length = t.sections.length ∧
      (((first ++ topics.flatten ++ volumes).map (·.sectionId)).dedup).length =
        t.sections.length := by
    rw [hordered, List.dedup_eq_self.mpr h.sectionIds_nodup, List.length_map,
      h.sections.length_eq]
    exact ⟨rfl, rfl⟩
  simp only [readSectionLayout]
  rw [require_bind_of_pos hcatalog,
    require_bind_of_pos (by rw [h.mandatoryClosures, h.catalog]; exact hclosed.closures_length),
    require_bind_of_pos hclosures, require_bind_of_pos h.sectionKeys,
    require_bind_of_pos h.topicKeys, require_bind_of_pos h.nodeKeys,
    require_bind_of_pos hcoverage, require_bind_of_pos fun r hr => h.nodeTarget hr,
    require_bind_of_pos htopics,
    require_bind_of_pos (by rw [h.catalog]; exact fun c hc => h.topicFits hclosed hc),
    require_bind_of_pos (by
      rw [h.mandatoryClosures]
      exact fun x hx id hid => h.nodeSection_isSome (hclosed.closureNodes x hx id hid)),
    h.anchor_first hseg, ok_bind, h.topics_eq hseg, ok_bind, h.volumes_eq hseg, ok_bind,
    h.checkVolumeChunks_eq hseg, ok_bind, require_bind_of_pos hall, hordered]
  rfl

end Checks

end Kdna.Sections

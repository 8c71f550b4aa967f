import Kdna.Data.Fallible
import Kdna.Data.Utf8Order
import Mathlib.Data.List.Dedup

/-!
# The layout of a section asset

`readSectionLayout` ties the three tables of a section asset to its catalog and puts its sections
into their order: each topic between the references before and behind it, then the volumes. This is
the part of it that works on the tables; the ranges of the packs only say where the frames are.
-/

namespace Kdna.Sections

/-- `kind` of a data section. -/
inductive SectionKind
  | xref
  | topic
  | volume
  deriving DecidableEq, Repr

/-- A row of the table `sections`. -/
structure SectionRow where
  sectionId : String
  kind : SectionKind
  member : String
  offsetBytes : ℕ
  lengthBytes : ℕ
  entryCount : ℕ
  packOrdinal : ℕ
  digest : String
  deriving DecidableEq

/-- A row of the table `topics`. -/
structure TopicRow where
  judgmentId : String
  sectionId : String
  deriving DecidableEq

/-- A row of the table `node_sections`. -/
structure NodeSectionRow where
  nodeRef : String
  sectionId : String
  deriving DecidableEq

/-- An item of the catalog. -/
structure CatalogItem where
  judgmentId : String
  nodeRef : String
  deriving DecidableEq

/-- An item of `mandatory_closures`. -/
structure MandatoryClosure where
  assetId : String
  assetVersion : String
  judgmentId : String
  nodeIds : List String
  deriving DecidableEq

/-- What the layout reads: the asset, the catalog, the closures and the node order of the metadata,
and the three tables. -/
structure Tables where
  assetId : String
  assetVersion : String
  catalog : List CatalogItem
  mandatoryClosures : List MandatoryClosure
  nodeOrder : List String
  sections : List SectionRow
  topics : List TopicRow
  nodeSections : List NodeSectionRow

/-- The checks of `readSectionLayout`. -/
inductive LayoutFailure
  | catalogDuplicate
  | closureCoverage
  | closureBinding
  | keyOrderOrDuplicate
  | nodeMapCoverage
  | nodeMapTarget
  | topicCoverage
  | topicMap
  | closureNodeMissing
  | xrefChunk
  | volumeSequence
  | volumeFixedChunks
  | sectionCoverage
  deriving DecidableEq, Repr

namespace Tables

variable (t : Tables)

/-- `sectionMap.get(id)` -/
def sectionOf (id : String) : Option SectionRow := t.sections.find? (·.sectionId = id)

/-- `nodeMap.get(node)` -/
def nodeSection (node : String) : Option String :=
  (t.nodeSections.find? (·.nodeRef = node)).map (·.sectionId)

/-- `byJudgment.get(id)` -/
def topicSection (id : String) : Option String :=
  (t.topics.find? (·.judgmentId = id)).map (·.sectionId)

end Tables

/-- `xs.sort((a,b) => a.pack_ordinal - b.pack_ordinal)` -/
def byPackOrdinal (rows : List SectionRow) : List SectionRow :=
  rows.insertionSort fun a b => a.packOrdinal ≤ b.packOrdinal

/-- `id.startsWith(prefix)` -/
def startsWith (id text : String) : Bool := text.toList.isPrefixOf id.toList

/-- The references behind `ordinal` topics. -/
def anchor (t : Tables) (ordinal : ℕ) : Except LayoutFailure (List SectionRow) := do
  let start := "xref:" ++ toString ordinal ++ ":"
  let xs := byPackOrdinal (t.sections.filter fun s => startsWith s.sectionId start)
  require (∀ p ∈ xs.zipIdx, p.1.kind = .xref ∧ p.1.sectionId = start ++ toString p.2 ∧
    (p.2 + 1 = xs.length ∨ p.1.entryCount = 1024)) .xrefChunk
  return xs

/-- What the catalog item `c` and its topic must be to each other. -/
def TopicFits (t : Tables) (c : CatalogItem) : Prop :=
  t.topicSection c.judgmentId = some ("topic:" ++ c.judgmentId) ∧
    (t.sectionOf ("topic:" ++ c.judgmentId)).map (·.kind) = some .topic ∧
    t.nodeSection c.nodeRef = some ("topic:" ++ c.judgmentId)

instance (t : Tables) (c : CatalogItem) : Decidable (TopicFits t c) := by
  unfold TopicFits
  infer_instance

/-- `ordered.push(sectionMap.get('topic:'+jid)); anchor(i+1)` -/
def orderedTopic (t : Tables) (item : CatalogItem × ℕ) : Except LayoutFailure (List SectionRow) := do
  let row ← orFail .topicMap (t.sectionOf ("topic:" ++ item.1.judgmentId))
  let references ← anchor t (item.2 + 1)
  return row :: references

/-- The volumes in their order. -/
def orderedVolumes (t : Tables) : Except LayoutFailure (List SectionRow) := do
  let volumes := byPackOrdinal (t.sections.filter (·.kind = .volume))
  require (∀ p ∈ volumes.zipIdx, p.1.sectionId = "volume:" ++ toString p.2) .volumeSequence
  return volumes

/-- Every 512 nodes of the volumes, in the order of their ids, have a volume of their own. -/
def checkVolumeChunks (t : Tables) (volumes : List SectionRow) : Except LayoutFailure Unit := do
  let ids := sortByUtf8 id ((t.nodeSections.filter fun r =>
    (t.sectionOf r.sectionId).map (·.kind) = some .volume).map (·.nodeRef))
  require (volumes.length = (ids.length + 511) / 512) .volumeFixedChunks
  require (∀ p ∈ ids.zipIdx, t.nodeSection p.1 = some ("volume:" ++ toString (p.2 / 512)))
    .volumeFixedChunks

/-- `readSectionLayout(capture, publicManifest)`: the sections in their order. -/
def readSectionLayout (t : Tables) : Except LayoutFailure (List SectionRow) := do
  require (t.catalog.map (·.judgmentId)).Nodup .catalogDuplicate
  require (t.mandatoryClosures.length = t.catalog.length) .closureCoverage
  require (∀ p ∈ t.mandatoryClosures.zip t.catalog, p.1.judgmentId = p.2.judgmentId ∧
    p.1.assetId = t.assetId ∧ p.1.assetVersion = t.assetVersion) .closureBinding
  require (SortedUnique (t.sections.map (·.sectionId))) .keyOrderOrDuplicate
  require (SortedUnique (t.topics.map (·.judgmentId))) .keyOrderOrDuplicate
  require (SortedUnique (t.nodeSections.map (·.nodeRef))) .keyOrderOrDuplicate
  require (t.nodeSections.length = t.nodeOrder.length ∧
    ∀ node ∈ t.nodeOrder, (t.nodeSection node).isSome) .nodeMapCoverage
  require (∀ r ∈ t.nodeSections, (t.sectionOf r.sectionId).any (·.kind ≠ .xref)) .nodeMapTarget
  require (t.topics.length = t.catalog.length) .topicCoverage
  require (∀ c ∈ t.catalog, TopicFits t c) .topicMap
  require (∀ x ∈ t.mandatoryClosures, ∀ node ∈ x.nodeIds, (t.nodeSection node).isSome)
    .closureNodeMissing
  let first ← anchor t 0
  let topics ← t.catalog.zipIdx.mapM (orderedTopic t)
  let volumes ← orderedVolumes t
  checkVolumeChunks t volumes
  let ordered := first ++ topics.flatten ++ volumes
  require (ordered.length = t.sections.length ∧
    ((ordered.map (·.sectionId)).dedup).length = t.sections.length) .sectionCoverage
  return ordered

/-- What a layout makes sure of about its topics. -/
structure LaidOut (t : Tables) (ordered : List SectionRow) : Prop where
  topics_nodup : (t.topics.map (·.judgmentId)).Nodup
  sectionIds_nodup : (ordered.map (·.sectionId)).Nodup
  /-- A topic has the section that is named after its judgment. -/
  topic_row : ∀ id ∈ t.topics.map (·.judgmentId), ∃ row ∈ ordered,
    t.topicSection id = some row.sectionId ∧ t.sectionOf row.sectionId = some row ∧
      row.sectionId = "topic:" ++ id ∧ row.kind = .topic

variable {t : Tables} {ordered : List SectionRow}

theorem mem_topics_of_topicSection {id sid : String} (h : t.topicSection id = some sid) :
    id ∈ t.topics.map (·.judgmentId) := by
  rw [Tables.topicSection, Option.map_eq_some_iff] at h
  obtain ⟨row, hrow, -⟩ := h
  have hid := List.find?_some hrow
  rw [decide_eq_true_eq] at hid
  exact List.mem_map.mpr ⟨row, List.mem_of_find?_eq_some hrow, hid⟩

/-- The catalog lists the judgments of all topics. -/
theorem mem_catalog_of_mem_topics (hcatalog : (t.catalog.map (·.judgmentId)).Nodup)
    (hlength : t.topics.length = t.catalog.length) (hfits : ∀ c ∈ t.catalog, TopicFits t c)
    {id : String} (hid : id ∈ t.topics.map (·.judgmentId)) : ∃ c ∈ t.catalog, c.judgmentId = id := by
  have hsubset : t.catalog.map (·.judgmentId) ⊆ t.topics.map (·.judgmentId) := by
    intro name hname
    obtain ⟨c, hc, rfl⟩ := List.mem_map.mp hname
    exact mem_topics_of_topicSection (hfits c hc).1
  have hperm : (t.catalog.map (·.judgmentId)).Perm (t.topics.map (·.judgmentId)) := by
    refine (List.subperm_of_subset hcatalog hsubset).perm_of_length_le ?_
    rw [List.length_map, List.length_map, hlength]
  exact List.mem_map.mp (hperm.mem_iff.mpr hid)

/-- The section of a catalog item stands in the order. -/
theorem mem_flatten_orderedTopic {topics : List (List SectionRow)}
    (htopics : t.catalog.zipIdx.mapM (orderedTopic t) = .ok topics) {c : CatalogItem}
    (hc : c ∈ t.catalog) {row : SectionRow}
    (hrow : t.sectionOf ("topic:" ++ c.judgmentId) = some row) : row ∈ topics.flatten := by
  obtain ⟨i, hi, rfl⟩ := List.getElem_of_mem hc
  have hitem : (t.catalog[i], i) ∈ t.catalog.zipIdx :=
    List.mem_zipIdx_iff_getElem?.mpr (List.getElem?_eq_getElem hi)
  obtain ⟨rows, hrows, hstep⟩ := exists_mem_forall₂ (mapM_eq_ok_iff.mp htopics) hitem
  rw [orderedTopic, hrow, bind_eq_ok_iff] at hstep
  obtain ⟨_, hfirst, hstep⟩ := hstep
  obtain rfl := Except.ok.inj hfirst
  obtain ⟨references, -, hpure⟩ := bind_eq_ok_iff.mp hstep
  obtain rfl := Except.ok.inj hpure
  exact List.mem_flatten.mpr ⟨_, hrows, List.mem_cons_self⟩

/-- Ids as many as there are without repetitions do not repeat. -/
theorem nodup_of_length_dedup {ids : List String} (h : ids.dedup.length = ids.length) :
    ids.Nodup := by
  have heq : ids.dedup = ids := (List.dedup_sublist ids).eq_of_length h
  exact List.dedup_eq_self.mp heq

theorem laidOut_of_readSectionLayout (h : readSectionLayout t = .ok ordered) :
    LaidOut t ordered := by
  simp only [readSectionLayout] at h
  obtain ⟨hcatalog, h⟩ := require_bind_eq_ok_iff.mp h
  obtain ⟨-, h⟩ := require_bind_eq_ok_iff.mp h
  obtain ⟨-, h⟩ := require_bind_eq_ok_iff.mp h
  obtain ⟨-, h⟩ := require_bind_eq_ok_iff.mp h
  obtain ⟨htopicKeys, h⟩ := require_bind_eq_ok_iff.mp h
  obtain ⟨-, h⟩ := require_bind_eq_ok_iff.mp h
  obtain ⟨-, h⟩ := require_bind_eq_ok_iff.mp h
  obtain ⟨-, h⟩ := require_bind_eq_ok_iff.mp h
  obtain ⟨hlength, h⟩ := require_bind_eq_ok_iff.mp h
  obtain ⟨hfits, h⟩ := require_bind_eq_ok_iff.mp h
  obtain ⟨-, h⟩ := require_bind_eq_ok_iff.mp h
  obtain ⟨first, -, h⟩ := bind_eq_ok_iff.mp h
  obtain ⟨topics, htopics, h⟩ := bind_eq_ok_iff.mp h
  obtain ⟨volumes, -, h⟩ := bind_eq_ok_iff.mp h
  obtain ⟨_, -, h⟩ := bind_eq_ok_iff.mp h
  obtain ⟨⟨hordered, hdistinct⟩, h⟩ := require_bind_eq_ok_iff.mp h
  obtain rfl := Except.ok.inj h
  refine ⟨htopicKeys.nodup, nodup_of_length_dedup ?_, ?_⟩
  · rw [hdistinct, List.length_map, hordered]
  · intro id hid
    obtain ⟨c, hc, rfl⟩ := mem_catalog_of_mem_topics hcatalog hlength hfits hid
    obtain ⟨htopic, hkind, -⟩ := hfits c hc
    obtain ⟨row, hrow, hrowKind⟩ := Option.map_eq_some_iff.mp hkind
    have hname : row.sectionId = "topic:" ++ c.judgmentId := by
      simpa [Tables.sectionOf] using List.find?_some hrow
    have hmem := mem_flatten_orderedTopic htopics hc hrow
    refine ⟨row, ?_, ?_, ?_, hname, hrowKind⟩
    · exact List.mem_append_left _ (List.mem_append_right _ hmem)
    · rw [hname, htopic]
    · rw [hname, hrow]

namespace LaidOut

/-- There are no more topics than sections. -/
theorem topics_length_le (h : LaidOut t ordered) : t.topics.length ≤ ordered.length := by
  have hinj : Function.Injective fun id : String => "topic:" ++ id := by
    intro s s' heq
    exact String.append_right_inj "topic:" |>.mp heq
  have hsubset : (t.topics.map (·.judgmentId)).map ("topic:" ++ ·) ⊆
      ordered.map (·.sectionId) := by
    intro name hname
    obtain ⟨id, hid, rfl⟩ := List.mem_map.mp hname
    obtain ⟨row, hrow, -, -, hrowId, -⟩ := h.topic_row id hid
    exact List.mem_map.mpr ⟨row, hrow, hrowId⟩
  have hsubperm := List.subperm_of_subset (h.topics_nodup.map hinj) hsubset
  simpa using hsubperm.length_le

end LaidOut

end Kdna.Sections

import Kdna.Sections.Packs
import Kdna.Sections.ScopeCodec

/-!
# The frames of a section asset

`buildFrames` puts the nodes and the references of an IR into frames, the frames into packs and
their places into the three tables, which are frames themselves. `restoreWholeFrames` reads the
tables, the order of the sections and the frames, and returns the nodes and the references.
-/

namespace Kdna.Sections

/-- `IRReadNode`: its id, the judgment that owns it, and the whole node. -/
structure ReadNode where
  id : String
  ownerJudgmentId : Option String
  json : Json

/-- What the frames hold of an IR, and what they refer to. -/
structure FrameIr where
  assetId : String
  assetVersion : String
  nodes : List ReadNode
  catalog : List CatalogItem
  mandatoryClosures : List MandatoryClosure
  expansionTargets : List Target

/-- `Object.keys(C.tableKeys)` -/
inductive TableName
  | sections
  | topics
  | nodeSections
  deriving DecidableEq, Repr

/-- The text of a table's name. -/
def TableName.text : TableName → String
  | .sections => "sections"
  | .topics => "topics"
  | .nodeSections => "node_sections"

/-- A row of one of the tables. -/
inductive TableRow
  | ofSection (row : SectionRow)
  | ofTopic (row : TopicRow)
  | ofNode (row : NodeSectionRow)
  deriving DecidableEq

namespace TableRow

/-- The table of a row. -/
def table : TableRow → TableName
  | ofSection _ => .sections
  | ofTopic _ => .topics
  | ofNode _ => .nodeSections

/-- `row[C.tableKeys[table]]` -/
def key : TableRow → String
  | ofSection row => row.sectionId
  | ofTopic row => row.judgmentId
  | ofNode row => row.nodeRef

def section? : TableRow → Option SectionRow
  | ofSection row => some row
  | _ => none

def topic? : TableRow → Option TopicRow
  | ofTopic row => some row
  | _ => none

def node? : TableRow → Option NodeSectionRow
  | ofNode row => some row
  | _ => none

end TableRow

/-- A data frame as it is stored. -/
inductive StoredData
  | xref (frame : StoredFrame)
  | nodes (sectionId : String) (kind : SectionKind) (records : List ReadNode)

namespace StoredData

def sectionId : StoredData → String
  | xref frame => frame.sectionId
  | nodes sectionId _ _ => sectionId

def kind : StoredData → SectionKind
  | xref _ => .xref
  | nodes _ kind _ => kind

/-- `frame.kind === 'xref' ? frame.records.length : 0` -/
def entryCount : StoredData → ℕ
  | xref frame => frame.records.length
  | nodes _ _ _ => 0

def xref? : StoredData → Option StoredFrame
  | xref frame => some frame
  | nodes _ _ _ => none

end StoredData

/-- The value of a frame: a data frame, or a part of a table. -/
inductive Stored
  | data (frame : StoredData)
  | rows (rows : List TableRow)

/-- `Representation06TableDirectoryRow` -/
structure DirectoryRow where
  location : Location
  table : TableName
  part : ℕ
  rows : ℕ
  firstKey : Option String
  lastKey : Option String

/-- The codec of frames, and the shapes of rows and nodes. -/
structure FrameCore where
  codec : FrameCodec Stored
  /-- `C.shape(C.rowNames[table], row)` -/
  rowShape : TableRow → Bool
  /-- `C.shape('Representation06TableDirectoryRow', row)` -/
  directoryShape : DirectoryRow → Bool
  /-- `C.validate('IRReadNode', node)` -/
  nodeShape : ReadNode → Bool

/-- The checks of the writer and the reader. -/
inductive GraphFailure
  | layout (e : LayoutFailure)
  | pack (e : PackFailure)
  | scope (e : FrameFailure)
  | inconsistent
  | typedShape
  | xrefOrderInput
  | keyOrderOrDuplicate
  | tablePartSequence
  | tableUniqueCut
  | emptyPart
  | tableRows
  | tableKeys
  | missingTable
  | tableDirectoryOrder
  | unknownOrMissingField
  | frameShape
  | xrefEntryCount
  | xrefScope
  | xrefAnchor
  | frameNodeCoverage
  | volumeChunk
  | duplicateRecord
  | nodeOwner
  | requiredNodeMissing

section Writer

/-- A data frame before it is stored. -/
inductive PlainData
  | xref (frame : Frame)
  | nodes (sectionId : String) (kind : SectionKind) (records : List ReadNode)

/-- `xref:${ordinal}:${i/1024}` -/
def xrefId (ordinal chunk : ℕ) : String := "xref:" ++ toString ordinal ++ ":" ++ toString chunk

/-- The references from the asset, or from one judgment. -/
def anchoredAt (judgmentId : Option String) (x : Target) : Bool :=
  match judgmentId with
  | none => x.anchor.propIs "kind" "asset"
  | some id => x.anchor.propIs "kind" "judgment" &&
      (x.anchor.prop "selection").any (·.propIs "judgment_id" id)

/-- `xrefs(ordinal, jid)` -/
def xrefs (ir : FrameIr) (ordinal : ℕ) (judgmentId : Option String) : List PlainData :=
  (chunks 1024 (ir.expansionTargets.filter (anchoredAt judgmentId))).zipIdx.map fun c =>
    .xref ⟨xrefId ordinal c.2, c.1⟩

/-- The topic of a judgment, and the references from it. -/
def topicFrames (ir : FrameIr) (item : CatalogItem × ℕ) : List PlainData :=
  .nodes ("topic:" ++ item.1.judgmentId) .topic
      (ir.nodes.filter fun n => n.ownerJudgmentId = some item.1.judgmentId) ::
    xrefs ir (item.2 + 1) (some item.1.judgmentId)

/-- The nodes that no judgment owns, in the order of their ids. -/
def volumeNodes (ir : FrameIr) : List ReadNode :=
  sortByUtf8 (·.id) (ir.nodes.filter fun n => n.ownerJudgmentId = none)

def volumeFrames (ir : FrameIr) : List PlainData :=
  (chunks 512 (volumeNodes ir)).zipIdx.map fun c => .nodes ("volume:" ++ toString c.2) .volume c.1

/-- The data frames in their order. -/
def dataFrames (ir : FrameIr) : List PlainData :=
  xrefs ir 0 none ++ ir.catalog.zipIdx.flatMap (topicFrames ir) ++ volumeFrames ir

/-- The rows that `add` pushes to `nodeMap`. -/
def PlainData.nodeMap : PlainData → List NodeSectionRow
  | .xref _ => []
  | .nodes sectionId _ records => records.map fun n => ⟨n.id, sectionId⟩

/-- `kind === 'xref' ? Codec.encodeFrame(frame) : frame` -/
def PlainData.store : PlainData → Except FrameFailure StoredData
  | .xref frame => do return .xref (← encodeFrame frame)
  | .nodes sectionId kind records => .ok (.nodes sectionId kind records)

/-- `JSON.stringify(targets)` -/
def targetsText (targets : List Target) : List Char := stringify (.arr (targets.map Target.json))

/-- The row of a data frame. -/
def StoredData.row (frame : StoredData) (l : Location) : SectionRow :=
  ⟨l.sectionId, frame.kind, l.member, l.offsetBytes, l.lengthBytes, frame.entryCount,
    l.packOrdinal, l.digest⟩

variable (core : FrameCore)

/-- What a loop appends for an element: the id and the value of a frame, whose place makes a row
that must pass a test. -/
structure Appender (α ρ : Type) where
  id : α → String
  value : α → Stored
  row : α → Location → ρ
  shape : ρ → Bool

/-- A loop that appends a frame for each element. -/
def appendEach {α ρ : Type} (w : Appender α ρ) :
    Packs → List α → Except GraphFailure (List ρ × Packs)
  | s, [] => .ok ([], s)
  | s, a :: rest => do
    let (l, s) ← (s.append core.codec (w.id a) (w.value a)).mapError .pack
    require (w.shape (w.row a l)) GraphFailure.typedShape
    let (rows, s) ← appendEach w s rest
    return (w.row a l :: rows, s)

/-- The data frames. -/
def dataAppender : Appender StoredData SectionRow :=
  ⟨StoredData.sectionId, .data, StoredData.row, fun row => core.rowShape (.ofSection row)⟩

/-- The parts of a table: at least one. -/
def tableParts (rows : List TableRow) : List (List TableRow) :=
  match rows with
  | [] => [[]]
  | rows => chunks 4096 rows

/-- The directory row of a part. -/
def directoryRow (table : TableName) (group : List TableRow) (part : ℕ) (l : Location) :
    DirectoryRow :=
  ⟨l, table, part, group.length, group.head?.map TableRow.key, group.getLast?.map TableRow.key⟩

/-- `table:${table}:${part}` -/
def partId (table : TableName) (part : ℕ) : String := "table:" ++ table.text ++ ":" ++ toString part

/-- The parts of a table. -/
def partAppender (table : TableName) : Appender (List TableRow × ℕ) DirectoryRow :=
  ⟨fun g => partId table g.2, fun g => .rows g.1, fun g => directoryRow table g.1 g.2,
    core.directoryShape⟩

/-- A table, sorted and appended. -/
def appendTable (table : TableName) (s : Packs) (rows : List TableRow) :
    Except GraphFailure (List DirectoryRow × Packs) := do
  let sorted := sortByUtf8 TableRow.key rows
  require (SortedUnique (sorted.map TableRow.key)) GraphFailure.keyOrderOrDuplicate
  require (sorted.all core.rowShape) GraphFailure.typedShape
  appendEach core (partAppender core table) s (tableParts sorted).zipIdx

/-- The rows of the table `topics`. -/
def topicRows (ir : FrameIr) : List TopicRow :=
  ir.catalog.map fun c => ⟨c.judgmentId, "topic:" ++ c.judgmentId⟩

/-- The rows of the table `node_sections`. -/
def nodeMap (ir : FrameIr) : List NodeSectionRow := (dataFrames ir).flatMap PlainData.nodeMap

/-- What `buildFrames` returns. -/
structure Built where
  tables : List DirectoryRow
  packs : Packs

/-- `buildFrames(ir)` -/
def buildFrames (ir : FrameIr) : Except GraphFailure Built := do
  let data ← ((dataFrames ir).mapM PlainData.store).mapError .scope
  require ((nodeMap ir).length = ir.nodes.length ∧
    ((nodeMap ir).map (·.nodeRef)).dedup.length = ir.nodes.length) GraphFailure.inconsistent
  let decoded ← ((data.filterMap StoredData.xref?).mapM decodeFrame).mapError .scope
  require (targetsText (decoded.flatMap (·.records)) = targetsText ir.expansionTargets)
    GraphFailure.xrefOrderInput
  let (sections, s) ← appendEach core (dataAppender core) ⟨[], 0⟩ data
  let (sectionParts, s) ← appendTable core .sections s (sections.map .ofSection)
  let (topicParts, s) ← appendTable core .topics s ((topicRows ir).map .ofTopic)
  let (nodeParts, s) ← appendTable core .nodeSections s ((nodeMap ir).map .ofNode)
  return ⟨sectionParts ++ topicParts ++ nodeParts, s⟩

end Writer

section Reader

/-- What the reader takes from the manifest: the metadata, and the directory of the tables. -/
structure FrameManifest where
  assetId : String
  assetVersion : String
  catalog : List CatalogItem
  mandatoryClosures : List MandatoryClosure
  nodeOrder : List String
  tables : List DirectoryRow

variable (core : FrameCore) (members : Members) (manifest : FrameManifest)

/-- The loop over the parts of a table: how many there are, their rows, and the rest of the
directory. -/
def readParts (table : TableName) : ℕ → List TableRow → List DirectoryRow →
    Except GraphFailure (ℕ × List TableRow × List DirectoryRow)
  | part, rows, [] => .ok (part, rows, [])
  | part, rows, d :: rest =>
    if d.table = table then do
      require (core.directoryShape d) GraphFailure.typedShape
      require (d.part = part ∧ d.location.sectionId = partId table part)
        GraphFailure.tablePartSequence
      require (part = 0 ∨ rows.length = 4096 * part) GraphFailure.tableUniqueCut
      require (d.rows ≠ 0 ∨ part = 0) GraphFailure.emptyPart
      let stored ← (readFrame core.codec members d.location).mapError .pack
      let items ← orFail GraphFailure.tableRows (match stored with
        | .rows items => some items
        | .data _ => none)
      require (items.length = d.rows) GraphFailure.tableRows
      require (∀ r ∈ items, r.table = table ∧ core.rowShape r) GraphFailure.typedShape
      require (d.firstKey = items.head?.map TableRow.key ∧
        d.lastKey = items.getLast?.map TableRow.key) GraphFailure.tableKeys
      readParts table (part + 1) (rows ++ items) rest
    else .ok (part, rows, d :: rest)

/-- A table, and the rest of the directory. -/
def readTable (table : TableName) (directory : List DirectoryRow) :
    Except GraphFailure (List TableRow × List DirectoryRow) := do
  let (parts, rows, rest) ← readParts core members table 0 [] directory
  require (0 < parts) GraphFailure.missingTable
  require (SortedUnique (rows.map TableRow.key)) GraphFailure.keyOrderOrDuplicate
  return (rows, rest)

/-- The checks of the catalog and its closures that come before the tables. -/
def checkCatalog : Except LayoutFailure Unit := do
  require (manifest.catalog.map (·.judgmentId)).Nodup .catalogDuplicate
  require (manifest.mandatoryClosures.length = manifest.catalog.length) .closureCoverage
  require (∀ p ∈ manifest.mandatoryClosures.zip manifest.catalog, p.1.judgmentId = p.2.judgmentId ∧
    p.1.assetId = manifest.assetId ∧ p.1.assetVersion = manifest.assetVersion) .closureBinding

/-- The tables that the layout reads. -/
def layoutTables (sections topics nodes : List TableRow) : Tables where
  assetId := manifest.assetId
  assetVersion := manifest.assetVersion
  catalog := manifest.catalog
  mandatoryClosures := manifest.mandatoryClosures
  nodeOrder := manifest.nodeOrder
  sections := sections.filterMap TableRow.section?
  topics := topics.filterMap TableRow.topic?
  nodeSections := nodes.filterMap TableRow.node?

/-- The place of a data section. -/
def SectionRow.location (row : SectionRow) : Location :=
  ⟨row.sectionId, row.member, row.offsetBytes, row.lengthBytes, row.packOrdinal, row.digest⟩

/-- `Number(row.section_id.split(':')[1])` -/
def sectionOrdinal (id : String) : ℕ := decimalValue ((id.toList.splitOn ':').getD 1 [])

/-- Whether a reference is anchored where its frame says. -/
def anchorFits (ordinal : ℕ) (x : Target) : Bool :=
  if ordinal = 0 then x.anchor.propIs "kind" "asset"
  else x.anchor.propIs "kind" "judgment" && (x.anchor.prop "selection").any fun selection =>
    (manifest.catalog[ordinal - 1]?).any (fun c => selection.propIs "judgment_id" c.judgmentId) &&
      selection.propIs "asset_id" manifest.assetId &&
      selection.propIs "asset_version" manifest.assetVersion

/-- The checks of a reference. -/
def checkTarget (t : Tables) (ordinal : ℕ) (x : Target) : Except GraphFailure Unit := do
  (validateTarget x).mapError .scope
  require (∀ id ∈ x.scope, (t.nodeSection id).isSome) GraphFailure.xrefScope
  require (anchorFits manifest ordinal x) GraphFailure.xrefAnchor

/-- The references of a frame. -/
def restoreXref (t : Tables) (row : SectionRow) (stored : Stored) :
    Except GraphFailure (List Target) := do
  let frame ← orFail (.scope .dictionaryShape) (match stored with
    | .data (.xref frame) => some frame
    | _ => none)
  let value ← (decodeFrame frame).mapError .scope
  require (value.sectionId = row.sectionId) GraphFailure.frameShape
  require (value.records.length = row.entryCount ∧ value.records.length ≤ 1024)
    GraphFailure.xrefEntryCount
  let _ ← value.records.mapM (checkTarget manifest t (sectionOrdinal row.sectionId))
  return value.records

/-- `nodes.set(n.id, n)` behind the checks of a node. -/
def addNode (row : SectionRow) (nodes : List ReadNode) (n : ReadNode) :
    Except GraphFailure (List ReadNode) := do
  require (core.nodeShape n) GraphFailure.typedShape
  require (n.id ∉ nodes.map (·.id)) GraphFailure.duplicateRecord
  require (if row.kind = .volume then n.ownerJudgmentId = none
    else "topic:" ++ n.ownerJudgmentId.getD "null" = row.sectionId) GraphFailure.nodeOwner
  return nodes ++ [n]

/-- The nodes with those of a frame. -/
def restoreNodes (t : Tables) (row : SectionRow) (stored : Stored) (nodes : List ReadNode) :
    Except GraphFailure (List ReadNode) := do
  let (id, kind, records) ← orFail GraphFailure.unknownOrMissingField (match stored with
    | .data (.nodes id kind records) => some (id, kind, records)
    | _ => none)
  require (id = row.sectionId ∧ kind = row.kind) GraphFailure.frameShape
  let expected := sortByUtf8 (fun id => id)
    ((t.nodeSections.filter fun r => r.sectionId = row.sectionId).map (·.nodeRef))
  let actual := sortByUtf8 (fun id => id) (records.map (·.id))
  require (expected = actual) GraphFailure.frameNodeCoverage
  require (row.kind = .volume → records.length ≤ 512) GraphFailure.volumeChunk
  require (row.kind = .volume → SortedUnique (records.map (·.id))) GraphFailure.keyOrderOrDuplicate
  records.foldlM (addNode core row) nodes

/-- What the loop over the sections collects. -/
structure Restoring where
  nodes : List ReadNode
  expansions : List Target

/-- One section. -/
def restoreRow (t : Tables) (s : Restoring) (row : SectionRow) :
    Except GraphFailure Restoring := do
  let stored ← (readFrame core.codec members row.location).mapError .pack
  if row.kind = .xref then
    let records ← restoreXref manifest t row stored
    return { s with expansions := s.expansions ++ records }
  else
    let nodes ← restoreNodes core t row stored s.nodes
    return { s with nodes := nodes }

/-- What `restoreWholeFrames` returns of the frames. -/
structure Whole where
  nodes : List ReadNode
  expansionTargets : List Target
  checkedSections : List Location
  packNames : List String

/-- `restoreWholeFrames(entries, publicManifest)` -/
def restoreWholeFrames : Except GraphFailure Whole := do
  (checkCatalog manifest).mapError .layout
  let (sections, rest) ← readTable core members .sections manifest.tables
  let (topics, rest) ← readTable core members .topics rest
  let (nodes, rest) ← readTable core members .nodeSections rest
  require (rest.isEmpty) GraphFailure.tableDirectoryOrder
  let t := layoutTables manifest sections topics nodes
  let ordered ← (readSectionLayout t).mapError .layout
  let all := ordered.map SectionRow.location ++ manifest.tables.map (·.location)
  let ends ← (checkPacks all members).mapError .pack
  let s ← ordered.foldlM (restoreRow core members manifest t) ⟨[], []⟩
  let nodes ← manifest.nodeOrder.mapM fun id =>
    orFail GraphFailure.requiredNodeMissing (s.nodes.find? (·.id = id))
  return ⟨nodes, s.expansions, all, ends.map Prod.fst⟩

end Reader

end Kdna.Sections

import Kdna.Container.Parse
import Kdna.Data.Loop

/-!
# The seekable capture of a section container

`openOwnedSectionCapture` of `section-capture-bytes.js` lists a container from the ranges
it asks for: the last 22 octets, the directory records, the local headers and the octets
of `mimetype` and `kdna.json`. When the file does not end with an end record without a
comment, `locateCommentFooter` of `section-comment-locator.js` walks forward over the local
records and the directory to find it.
-/

namespace Kdna.Container

/-- `range(offset, count, purpose)` -/
def range (bytes : Bytes) (offset count : ℕ) : Except Failure Bytes := do
  require (offset + count ≤ bytes.length) Failure.coreInvalid
  return Bytes.slice bytes offset count

/-- A row of the listing. -/
structure Row where
  name : String
  flags : ℕ
  method : ℕ
  crc : ℕ
  size : ℕ
  compressed : ℕ
  localAt : ℕ
  start : ℕ
  endAt : ℕ
  deriving DecidableEq, Repr

/-- What the loops of the capture and of the locator ask of a directory record, its name
and the records before it. -/
def CentralHeader.Allowed (h : CentralHeader) (name : String) (names : List String) (total : ℕ) :
    Prop :=
  (entryName name ∧ name ∉ names ∧ h.flags &&& 0xF7FF = 0 ∧ h.disk = 0 ∧
    (h.mode &&& 0o170000 = 0 ∨ h.mode &&& 0o170000 = 0o100000)) ∧
  sectionProfile.allowed name ∧ (startsWith name "sections/" → h.method = 0) ∧
  sizesAllowed h total

instance (h : CentralHeader) (name : String) (names : List String) (total : ℕ) :
    Decidable (h.Allowed name names total) := by
  unfold CentralHeader.Allowed
  infer_instance

/-- The fields of a local header that repeat the directory record. -/
def CentralHeader.RepeatedBy (h : CentralHeader) (header : Bytes) : Prop :=
  u16 header 6 = h.flags ∧ u16 header 8 = h.method ∧ u32 header 14 = h.crc ∧
    u32 header 18 = h.compressed ∧ u32 header 22 = h.size ∧ u16 header 26 = h.length

instance (h : CentralHeader) (header : Bytes) : Decidable (h.RepeatedBy header) := by
  unfold CentralHeader.RepeatedBy
  infer_instance

/-- What is asked of the first directory record. -/
def CentralHeader.First (h : CentralHeader) (name : String) : Prop :=
  name = "mimetype" ∧ h.localAt = 0 ∧ h.method = 0

instance (h : CentralHeader) (name : String) : Decidable (h.First name) := by
  unfold CentralHeader.First
  infer_instance

section Locator

/-- An entry of the map `locals`, under its key. -/
structure LocalRecord where
  key : ℕ
  header : Bytes
  start : ℕ
  endAt : ℕ

/-- A round of the walk over the local records, behind its four octets of signature. -/
def readLocal (bytes : Bytes) (cursor : ℕ) (signature : Bytes) (locals : List LocalRecord) :
    Except Failure LocalRecord := do
  require (u32 signature 0 = 0x04034b50 ∧ locals.length < limitEntries ∧
    cursor + 30 ≤ bytes.length - 22) Failure.coreInvalid
  let header := signature ++ (← range bytes (cursor + 4) 26)
  let start := cursor + 30 + u16 header 26 + u16 header 28
  let compressed := u32 header 18
  require (0 < u16 header 26 ∧ u16 header 26 ≤ 4096 ∧ start + compressed ≤ bytes.length - 22)
    Failure.coreInvalid
  return ⟨cursor, header, start, start + compressed⟩

/-- The walk over the local records up to the first signature of a directory record. The
map holds at most `LIMITS.entries`, so that the loop is entered at most once more. -/
def walkLocals (bytes : Bytes) : ℕ → ℕ → List LocalRecord → Except Failure (ℕ × List LocalRecord)
  | 0, _, _ => .error .coreInvalid
  | rounds + 1, cursor, locals => do
    require (cursor + 4 ≤ bytes.length - 22) Failure.coreInvalid
    let signature ← range bytes cursor 4
    if u32 signature 0 = 0x02014b50 then return (cursor, locals)
    else do
      let entry ← readLocal bytes cursor signature locals
      walkLocals bytes rounds entry.endAt (locals ++ [entry])

/-- The state of the walk over the directory. -/
structure DirectoryWalk where
  cursor : ℕ
  count : ℕ
  total : ℕ
  names : List String
  seen : List ℕ

/-- A round of the walk over the directory, behind its four octets of signature. -/
def walkRecord (bytes : Bytes) (locals : List LocalRecord) (cdStart : ℕ) (signature : Bytes)
    (w : DirectoryWalk) : Except Failure DirectoryWalk := do
  require (u32 signature 0 = 0x02014b50 ∧ w.count < limitEntries ∧
    w.cursor + 46 ≤ bytes.length - 22) Failure.coreInvalid
  let row := signature ++ (← range bytes (w.cursor + 4) 42)
  let h := centralHeader row 0
  require (w.cursor + h.span ≤ bytes.length - 22 ∧ 0 < h.length ∧ h.length ≤ 4096)
    Failure.coreInvalid
  let nb ← range bytes (w.cursor + 46) h.length
  let name ← orFail Failure.malformedText (decodeText nb)
  require (h.Allowed name w.names w.total) Failure.coreInvalid
  let physical ← orFail Failure.coreInvalid (locals.find? fun entry => entry.key = h.localAt)
  require (h.localAt ∉ w.seen ∧ physical.endAt ≤ cdStart) Failure.coreInvalid
  require (h.RepeatedBy physical.header) Failure.coreInvalid
  require (nb = (← range bytes (h.localAt + 30) h.length)) Failure.coreInvalid
  require (w.count = 0 → h.First name) Failure.coreInvalid
  return { cursor := w.cursor + h.span
           count := w.count + 1
           total := w.total + h.size
           names := w.names ++ [name]
           seen := w.seen ++ [h.localAt] }

/-- The walk over the directory up to the signature of the end record. -/
def walkDirectory (bytes : Bytes) (locals : List LocalRecord) (cdStart : ℕ) :
    ℕ → DirectoryWalk → Except Failure DirectoryWalk
  | 0, _ => .error .coreInvalid
  | rounds + 1, w => do
    require (w.cursor + 4 ≤ bytes.length) Failure.coreInvalid
    let signature ← range bytes w.cursor 4
    if u32 signature 0 = 0x06054b50 then return w
    else do
      let w' ← walkRecord bytes locals cdStart signature w
      walkDirectory bytes locals cdStart rounds w'

/-- `selected`: the last offset of the footer at which an end record ends with it. -/
def selectFooter (footer : Bytes) : Option ℕ :=
  ((List.range (footer.length - 22 + 1)).map (footer.length - 22 - ·)).find? fun i =>
    u32 footer i = 0x06054b50 ∧ i + 22 + u16 footer (i + 20) = footer.length

/-- The comment of an end record. -/
def readComment (bytes : Bytes) (end' commentLength : ℕ) : Except Failure Bytes :=
  if commentLength ≠ 0 then range bytes (end' + 22) commentLength else .ok []

/-- `locateCommentFooter(length, range)`: where the end record starts, and its octets. -/
def locateCommentFooter (bytes : Bytes) : Except Failure (ℕ × Bytes) := do
  let (cdStart, locals) ← walkLocals bytes (limitEntries + 1) 0 []
  let w ← walkDirectory bytes locals cdStart (limitEntries + 1) ⟨cdStart, 0, 0, [], []⟩
  require (0 < w.count ∧ w.count = locals.length ∧ w.seen.length = locals.length ∧
    "mimetype" ∈ w.names ∧ "kdna.json" ∈ w.names ∧ w.cursor + 22 ≤ bytes.length)
    Failure.coreInvalid
  let end' := w.cursor
  let endBytes ← range bytes end' 22
  let commentLength := u16 endBytes 20
  require (u32 endBytes 0 = 0x06054b50 ∧ u16 endBytes 4 = 0 ∧ u16 endBytes 6 = 0 ∧
    u16 endBytes 8 = w.count ∧ u16 endBytes 10 = w.count ∧ u32 endBytes 12 = end' - cdStart ∧
    u32 endBytes 16 = cdStart ∧ end' + 22 + commentLength = bytes.length) Failure.coreInvalid
  let comment ← readComment bytes end' commentLength
  require (selectFooter (endBytes ++ comment) = some 0) Failure.coreInvalid
  return (end', endBytes)

end Locator

/-- The loop state of the capture. -/
structure CaptureScan where
  at' : ℕ
  total : ℕ
  rows : List Row

/-- One round of the directory loop of the capture. -/
def captureRow (bytes : Bytes) (cdStart cdSize : ℕ) (s : CaptureScan) :
    Except Failure CaptureScan := do
  require (s.at' + 46 ≤ cdSize) Failure.coreInvalid
  let record ← range bytes (cdStart + s.at') 46
  let h := centralHeader record 0
  require (h.signature = 0x02014b50) Failure.coreInvalid
  require (s.at' + h.span ≤ cdSize ∧ 0 < h.length ∧ h.length ≤ 4096) Failure.coreInvalid
  let nb ← range bytes (cdStart + s.at' + 46) h.length
  let name ← orFail Failure.malformedText (decodeText nb)
  require (h.Allowed name (s.rows.map Row.name) s.total) Failure.coreInvalid
  require (h.localAt + 30 ≤ cdStart) Failure.coreInvalid
  let header ← range bytes h.localAt 30
  require (u32 header 0 = 0x04034b50 ∧ h.RepeatedBy header) Failure.coreInvalid
  require (h.localAt + 30 + h.length ≤ cdStart) Failure.coreInvalid
  require (nb = (← range bytes (h.localAt + 30) h.length)) Failure.coreInvalid
  let start := h.localAt + 30 + h.length + u16 header 28
  require (start + h.compressed ≤ cdStart) Failure.coreInvalid
  require (s.rows = [] → h.First name) Failure.coreInvalid
  return { at' := s.at' + h.span
           total := s.total + h.size
           rows := s.rows ++ [⟨name, h.flags, h.method, h.crc, h.size, h.compressed, h.localAt,
             start, start + h.compressed⟩] }

/-- Where the end record starts, and its octets: the last 22 octets when they are an end
record without a comment. -/
def findFooter (bytes : Bytes) : Except Failure (ℕ × Bytes) := do
  let endBytes ← range bytes (bytes.length - 22) 22
  if u32 endBytes 0 ≠ 0x06054b50 ∨ u16 endBytes 20 ≠ 0 then locateCommentFooter bytes
  else return (bytes.length - 22, endBytes)

/-- `member(row, purpose)` -/
def captureMember (inflate : Inflate) (bytes : Bytes) (row : Row) : Except Failure Bytes := do
  let raw ← range bytes row.start row.compressed
  let b ← decodeEntry inflate row.method raw
  require (b.length = row.size ∧ crc32 b = row.crc) Failure.coreInvalid
  return b

/-- What the capture holds: the listing, and the octets that were read for its identity. -/
structure Capture where
  inputByteLength : ℕ
  rows : List Row
  directory : Bytes
  manifestBytes : Bytes
  deriving DecidableEq, Repr

/-- `rows.find(row => row.name === name)` -/
def rowOf (rows : List Row) (name : String) : Option Row := rows.find? fun row => row.name = name

/-- `openOwnedSectionCapture(owned, io)` -/
def openOwnedSectionCapture (inflate : Inflate) (bytes : Bytes) : Except Failure Capture := do
  require (22 ≤ bytes.length ∧ bytes.length ≤ limitContainer) Failure.coreInvalid
  let (end', eocd) ← findFooter bytes
  require (u16 eocd 4 = 0 ∧ u16 eocd 6 = 0 ∧ u16 eocd 8 = u16 eocd 10) Failure.coreInvalid
  let count := u16 eocd 10
  let cdSize := u32 eocd 12
  let cdStart := u32 eocd 16
  require (0 < count ∧ count ≤ limitEntries ∧ cdStart + cdSize = end') Failure.coreInvalid
  let s ← repeatM (captureRow bytes cdStart cdSize) count ⟨0, 0, []⟩
  require (s.at' = cdSize) Failure.coreInvalid
  let position ← sweep 0 (sortRanges (s.rows.map fun row => (row.localAt, row.endAt)))
  require (position = cdStart) Failure.coreInvalid
  let directory ← range bytes cdStart cdSize
  let manifestRow ← orFail Failure.coreInvalid (rowOf s.rows "kdna.json")
  let mimeRow ← orFail Failure.coreInvalid (rowOf s.rows "mimetype")
  let mime ← captureMember inflate bytes mimeRow
  let text ← orFail Failure.malformedText (decodeText mime)
  require (text = mimetypeText) Failure.coreInvalid
  let manifestBytes ← captureMember inflate bytes manifestRow
  return { inputByteLength := bytes.length
           rows := s.rows
           directory := directory
           manifestBytes := manifestBytes }

end Kdna.Container

import Kdna.StrictInput
import Kdna.Data.Fallible
import Kdna.Data.Tiling

/-!
# The container parsers

`parseContainer` of `container.js` and `parseSectionContainer` of
`section-container.js` are one algorithm over two lists of permitted members.
It finds the end record, walks the central directory, checks each record against
the local header it points to, and last requires that the local records follow
one another from offset zero to the directory.

The `inflate` argument is the caller's decompressor, absent when the source
receives no function.
-/

namespace Kdna.Container

/-- The decompressor, called with the encoded octets and the entry bound. -/
abbrev Inflate := Option (Bytes → ℕ → Except Failure Bytes)

/-- `LIMITS.container` -/
def limitContainer : ℕ := 25 * 1024 * 1024

/-- `LIMITS.entries` -/
def limitEntries : ℕ := 128

/-- `LIMITS.entry` -/
def limitEntry : ℕ := 8 * 1024 * 1024

/-- `LIMITS.total` -/
def limitTotal : ℕ := 12 * 1024 * 1024

/-- `LIMITS.ratio` -/
def limitRatio : ℕ := 100

/-- One shift of the CRC-32 register. -/
def crcShift (n : UInt32) : UInt32 :=
  if n &&& 1 = 1 then (0xEDB88320 : UInt32) ^^^ (n >>> 1) else n >>> 1

/-- `CRC_TABLE[n]` -/
def crcTable (n : UInt32) : UInt32 :=
  crcShift (crcShift (crcShift (crcShift (crcShift (crcShift (crcShift (crcShift n)))))))

/-- `crc32(bytes)` -/
def crc32 (bytes : Bytes) : ℕ :=
  ((bytes.foldl (fun n b => crcTable ((n ^^^ b.toUInt32) &&& 255) ^^^ (n >>> 8)) 0xFFFFFFFF) ^^^
    0xFFFFFFFF).toNat

/-- `view.getUint16(at, true)`. The parser reads only inside ranges it has checked. -/
def u16 (bytes : Bytes) (at' : ℕ) : ℕ := Bytes.leValue (Bytes.slice bytes at' 2)

/-- `view.getUint32(at, true)` -/
def u32 (bytes : Bytes) (at' : ℕ) : ℕ := Bytes.leValue (Bytes.slice bytes at' 4)

/-- The fixed fields of a central directory record. -/
structure CentralHeader where
  signature : ℕ
  flags : ℕ
  method : ℕ
  crc : ℕ
  compressed : ℕ
  size : ℕ
  length : ℕ
  extra : ℕ
  comment : ℕ
  disk : ℕ
  mode : ℕ
  localAt : ℕ
  deriving DecidableEq, Repr

/-- The central directory record at `offset`. -/
def centralHeader (bytes : Bytes) (offset : ℕ) : CentralHeader where
  signature := u32 bytes offset
  flags := u16 bytes (offset + 8)
  method := u16 bytes (offset + 10)
  crc := u32 bytes (offset + 16)
  compressed := u32 bytes (offset + 20)
  size := u32 bytes (offset + 24)
  length := u16 bytes (offset + 28)
  extra := u16 bytes (offset + 30)
  comment := u16 bytes (offset + 32)
  disk := u16 bytes (offset + 34)
  mode := u32 bytes (offset + 38) / 65536
  localAt := u32 bytes (offset + 42)

/-- The length of a central directory record with its variable fields. -/
def CentralHeader.span (h : CentralHeader) : ℕ := 46 + h.length + h.extra + h.comment

/-- The local header at `local` repeats what the directory record says. -/
def CentralHeader.matchesLocal (h : CentralHeader) (bytes : Bytes) : Prop :=
  u32 bytes h.localAt = 0x04034b50 ∧ u16 bytes (h.localAt + 6) = h.flags ∧
    u16 bytes (h.localAt + 8) = h.method ∧ u32 bytes (h.localAt + 14) = h.crc ∧
    u32 bytes (h.localAt + 18) = h.compressed ∧ u32 bytes (h.localAt + 22) = h.size ∧
    u16 bytes (h.localAt + 26) = h.length

instance (h : CentralHeader) (bytes : Bytes) : Decidable (h.matchesLocal bytes) := by
  unfold CentralHeader.matchesLocal
  infer_instance

/-- `start`: where the member's stored octets begin. -/
def CentralHeader.dataAt (h : CentralHeader) (bytes : Bytes) : ℕ :=
  h.localAt + 30 + h.length + u16 bytes (h.localAt + 28)

/-- The end record, as its offset and the three fields the parser uses. -/
structure EndRecord where
  at' : ℕ
  count : ℕ
  centralSize : ℕ
  centralStart : ℕ
  deriving DecidableEq, Repr

/-- The backward search: the last offset whose signature and comment length end
the file exactly. -/
def findEnd (bytes : Bytes) : Option ℕ :=
  ((List.range (min (bytes.length - 22) 65535 + 1)).map (bytes.length - 22 - ·)).find? fun i =>
    u32 bytes i = 0x06054b50 ∧ i + 22 + u16 bytes (i + 20) = bytes.length

/-- The end record and the checks made on it. -/
def readEnd (bytes : Bytes) : Except Failure EndRecord := do
  let i ← orFail Failure.coreInvalid (findEnd bytes)
  require (u16 bytes (i + 4) = 0 ∧ u16 bytes (i + 6) = 0 ∧
    u16 bytes (i + 8) = u16 bytes (i + 10)) Failure.coreInvalid
  let e : EndRecord := ⟨i, u16 bytes (i + 10), u32 bytes (i + 12), u32 bytes (i + 16)⟩
  require (e.count ≠ 0 ∧ e.count ≤ limitEntries ∧ e.centralStart + e.centralSize = i)
    Failure.coreInvalid
  return e

/-- A member as the parser reports it: a row of `metadata` with its entry. Every
row has the type `file`. -/
structure Member where
  name : String
  mode : ℕ
  bytes : Bytes
  deriving DecidableEq, Repr

/-- What differs between the two parsers. -/
structure Profile where
  /-- The member names the container may hold. -/
  allowed : String → Bool
  /-- The names that may not be compressed. -/
  storedOnly : String → Bool
  /-- The members that must be there beside `mimetype`. -/
  required : List String

/-- The loop state: the directory offset, the sum of sizes, the members read so
far in directory order, and the spans of their local records. -/
structure Scan where
  offset : ℕ
  total : ℕ
  members : List Member
  ranges : List Span
  deriving DecidableEq, Repr

/-- The octets of a member: stored, or decompressed when a decompressor is there. -/
def decodeEntry (inflate : Inflate) (method : ℕ) (encoded : Bytes) : Except Failure Bytes :=
  if method = 0 then .ok encoded
  else if method = 8 then
    match inflate with
    | some f => f encoded limitEntry
    | none => .error .coreCapabilityUnavailable
  else .error .coreCapabilityUnavailable

/-- A stored member is its own octets. -/
@[simp] theorem decodeEntry_stored (inflate : Inflate) (encoded : Bytes) :
    decodeEntry inflate 0 encoded = .ok encoded := rfl

/-- The bounds on one member's sizes and on their sum. The source compares
`size / compressed` with the ratio; both are integers below 2^32, so the quotient
exceeds 100 exactly when `size` exceeds `100 * compressed`. -/
def sizesAllowed (h : CentralHeader) (total : ℕ) : Prop :=
  h.size ≤ limitEntry ∧ ¬(h.compressed = 0 ∧ h.size ≠ 0) ∧
    ¬(h.compressed ≠ 0 ∧ limitRatio * h.compressed < h.size) ∧ total + h.size ≤ limitTotal

instance (h : CentralHeader) (total : ℕ) : Decidable (sizesAllowed h total) := by
  unfold sizesAllowed
  infer_instance

/-- One round of the directory loop. The source tests `i === 0`; the members read
so far number `i`. -/
def readMember (profile : Profile) (inflate : Inflate) (bytes : Bytes) (centralStart : ℕ)
    (s : Scan) : Except Failure Scan := do
  require (s.offset + 46 ≤ bytes.length) Failure.coreInvalid
  let h := centralHeader bytes s.offset
  require (h.signature = 0x02014b50) Failure.coreInvalid
  require (s.offset + h.span ≤ bytes.length) Failure.coreInvalid
  let nameBytes := Bytes.slice bytes (s.offset + 46) h.length
  let name ← orFail Failure.malformedText (decodeText nameBytes)
  require (entryName name ∧ (∀ m ∈ s.members, m.name ≠ name) ∧ h.flags &&& 0xF7FF = 0 ∧
    h.disk = 0) Failure.coreInvalid
  let type := h.mode &&& 0o170000
  require (type = 0 ∨ type = 0o100000) Failure.coreInvalid
  require (profile.allowed name) Failure.coreInvalid
  require (profile.storedOnly name → h.method = 0) Failure.coreInvalid
  require (sizesAllowed h s.total) Failure.coreInvalid
  require (h.localAt + 30 ≤ bytes.length) Failure.coreInvalid
  require (h.matchesLocal bytes) Failure.coreInvalid
  let start := h.dataAt bytes
  require (h.localAt + 30 + h.length ≤ bytes.length) Failure.coreInvalid
  require (start + h.compressed ≤ bytes.length) Failure.coreInvalid
  require (start + h.compressed ≤ centralStart ∧
    ∀ r ∈ s.ranges, ¬(h.localAt < r.2 ∧ r.1 < start + h.compressed)) Failure.coreInvalid
  require (Bytes.slice bytes (h.localAt + 30) h.length = nameBytes) Failure.coreInvalid
  let decoded ← decodeEntry inflate h.method (Bytes.slice bytes start h.compressed)
  require (decoded.length = h.size ∧ crc32 decoded = h.crc) Failure.coreInvalid
  require (s.members = [] → name = "mimetype" ∧ h.localAt = 0 ∧ h.method = 0)
    Failure.coreInvalid
  return { offset := s.offset + h.span
           total := s.total + h.size
           members := s.members ++ [⟨name, h.mode, decoded⟩]
           ranges := s.ranges ++ [(h.localAt, start + h.compressed)] }

/-- The directory loop over the remaining records. -/
def readMembers (profile : Profile) (inflate : Inflate) (bytes : Bytes) (centralStart : ℕ) :
    ℕ → Scan → Except Failure Scan
  | 0, s => .ok s
  | remaining + 1, s => do
    let s' ← readMember profile inflate bytes centralStart s
    readMembers profile inflate bytes centralStart remaining s'

/-- The sweep over the sorted spans: each starts where the one before it ended.
The result is `physicalEnd`. -/
def sweep : ℕ → List Span → Except Failure ℕ
  | physicalEnd, [] => .ok physicalEnd
  | physicalEnd, r :: rs => do
    require (r.1 = physicalEnd) Failure.coreInvalid
    sweep r.2 rs

/-- `ranges.sort((a, b) => a[0] - b[0])` -/
def sortRanges (ranges : List Span) : List Span := ranges.mergeSort fun a b => a.1 ≤ b.1

/-- The sweep accepts the chains of spans and nothing else. -/
theorem sweep_eq_ok_iff {physicalEnd last : ℕ} {rs : List Span} (hrs : ∀ r ∈ rs, r.1 ≤ r.2) :
    sweep physicalEnd rs = .ok last ↔ SpanChain physicalEnd rs last := by
  induction rs generalizing physicalEnd with
  | nil => simp [sweep, SpanChain]
  | cons r rs ih =>
    rw [sweep, require_bind_eq_ok_iff, SpanChain, ih fun r' hr' => hrs r' (.tail _ hr')]
    simp [hrs r List.mem_cons_self]

theorem sortRanges_perm (ranges : List Span) : (sortRanges ranges).Perm ranges :=
  List.mergeSort_perm _ _

/-- Spans that are already a chain keep their order. -/
theorem sortRanges_of_chain {lo hi : ℕ} {ranges : List Span} (h : SpanChain lo ranges hi) :
    sortRanges ranges = ranges := by
  refine List.mergeSort_of_pairwise ?_
  induction ranges generalizing lo with
  | nil => exact List.Pairwise.nil
  | cons r rs ih =>
    obtain ⟨-, hle, htail⟩ := h
    refine List.pairwise_cons.mpr ⟨fun t ht => ?_, ih htail⟩
    exact decide_eq_true (hle.trans (htail.mem_bounds ht).1)

/-- The text the `mimetype` member must decode to. -/
def mimetypeText : String := "application/vnd.kdna.asset"

/-- The octets of the member named `name`, as `entries[name]`. -/
def entry (members : List Member) (name : String) : Option Bytes :=
  (members.find? fun m => m.name = name).map Member.bytes

/-- The common algorithm of the two parsers. -/
def parse (profile : Profile) (inflate : Inflate) (bytes : Bytes) :
    Except Failure (List Member) := do
  require (22 ≤ bytes.length ∧ bytes.length ≤ limitContainer) Failure.coreInvalid
  let e ← readEnd bytes
  let s ← readMembers profile inflate bytes e.centralStart e.count ⟨e.centralStart, 0, [], []⟩
  let physicalEnd ← sweep 0 (sortRanges s.ranges)
  require (physicalEnd = e.centralStart) Failure.coreInvalid
  require (s.offset = e.at') Failure.coreInvalid
  let mimetype ← orFail Failure.coreInvalid (entry s.members "mimetype")
  let text ← orFail Failure.malformedText (decodeText mimetype)
  require (text = mimetypeText) Failure.coreInvalid
  require (∀ name ∈ profile.required, (entry s.members name).isSome) Failure.coreInvalid
  return s.members

/-- The members of an ordinary container. -/
def ordinaryProfile : Profile where
  allowed name :=
    ["mimetype", "kdna.json", "payload.kdnab", "checksums.json", "signature.kdsig"].contains name ||
      startsWith name "attachments/"
  storedOnly _ := false
  required := ["kdna.json", "payload.kdnab"]

/-- `/^sections\/pack-(0|[1-9][0-9]*)\.kdnab$/`. An accepted name has no line
break, so `$` matches only at its end. -/
def isPackName (name : String) : Bool :=
  let cs := name.toList
  let lead := "sections/pack-".toList
  let tail := ".kdnab".toList
  lead.isPrefixOf cs && tail.isSuffixOf cs && lead.length + tail.length ≤ cs.length &&
    isCanonicalNumber ((cs.drop lead.length).take (cs.length - lead.length - tail.length))

/-- The members of a section container. -/
def sectionProfile : Profile where
  allowed name :=
    ["mimetype", "kdna.json", "checksums.json", "signature.kdsig"].contains name ||
      isPackName name || startsWith name "attachments/"
  storedOnly name := startsWith name "sections/"
  required := ["kdna.json"]

/-- `parseContainer(bytes, inflate, metadata)` -/
def parseContainer (inflate : Inflate) (bytes : Bytes) : Except Failure (List Member) :=
  parse ordinaryProfile inflate bytes

/-- `parseSectionContainer(bytes, inflate, metadata)` -/
def parseSectionContainer (inflate : Inflate) (bytes : Bytes) : Except Failure (List Member) :=
  parse sectionProfile inflate bytes

end Kdna.Container

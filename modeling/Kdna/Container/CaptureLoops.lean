import Kdna.Container.Capture
import Kdna.Container.Listing

/-!
# The loops over the directory

The loops of the section parser, of the capture and of the locator ask the same of a
directory record (`Fits`) and differ in the room they leave for it. Each round of each
loop is stated through the records read so far.
-/

namespace Kdna.Container

section Ranges

variable {bytes : Bytes} {offset count at' : ℕ}

theorem range_eq_ok_iff {b : Bytes} :
    range bytes offset count = .ok b ↔
      offset + count ≤ bytes.length ∧ b = Bytes.slice bytes offset count := by
  rw [range, require_bind_eq_ok_iff, pure_eq_ok, Except.ok.injEq, eq_comm (a := b)]

/-- A word of a range is the word of the file. -/
theorem u16_slice (h : at' + 2 ≤ count) :
    u16 (Bytes.slice bytes offset count) at' = u16 bytes (offset + at') := by
  rw [u16, u16, Bytes.slice_slice h]

theorem u32_slice (h : at' + 4 ≤ count) :
    u32 (Bytes.slice bytes offset count) at' = u32 bytes (offset + at') := by
  rw [u32, u32, Bytes.slice_slice h]

/-- The fields of a directory record that was read as a range. -/
theorem centralHeader_slice : centralHeader (Bytes.slice bytes offset 46) 0 =
    centralHeader bytes offset := by
  simp (disch := decide) only [centralHeader, u16_slice, u32_slice, Nat.add_zero, Nat.zero_add]

/-- Two adjacent ranges are one. -/
theorem slice_append_slice (first second : ℕ) :
    Bytes.slice bytes offset first ++ Bytes.slice bytes (offset + first) second =
      Bytes.slice bytes offset (first + second) := by
  rw [Bytes.slice, Bytes.slice, Bytes.slice, ← List.drop_drop, List.take_add]

/-- A local header that was read as a range repeats what the file repeats. -/
theorem repeatedBy_slice_iff {h : CentralHeader} :
    (u32 (Bytes.slice bytes h.localAt 30) 0 = 0x04034b50 ∧
      h.RepeatedBy (Bytes.slice bytes h.localAt 30)) ↔ h.matchesLocal bytes := by
  simp (disch := decide) only [CentralHeader.RepeatedBy, CentralHeader.matchesLocal, u16_slice,
    u32_slice, Nat.add_zero]

end Ranges

namespace NamedRecord

/-- The row of a record in the listing of the capture. -/
def row (bytes : Bytes) (r : NamedRecord) : Row where
  name := r.name
  flags := r.header.flags
  method := r.header.method
  crc := r.header.crc
  size := r.header.size
  compressed := r.header.compressed
  localAt := r.header.localAt
  start := r.header.dataAt bytes
  endAt := r.header.dataAt bytes + r.header.compressed

end NamedRecord

/-- The octets of the directory that some records take. -/
def spanSum (records : List NamedRecord) : ℕ := (records.map fun r => r.header.span).sum

/-- The octets that the members of some records have. -/
def sizeSum (records : List NamedRecord) : ℕ := (records.map fun r => r.header.size).sum

@[simp] theorem spanSum_append (records : List NamedRecord) (r : NamedRecord) :
    spanSum (records ++ [r]) = spanSum records + r.header.span := by
  simp [spanSum]

@[simp] theorem sizeSum_append (records : List NamedRecord) (r : NamedRecord) :
    sizeSum (records ++ [r]) = sizeSum records + r.header.size := by
  simp [sizeSum]

/-- What every reader asks of a record behind the records before it. -/
structure Fits (bytes : Bytes) (centralStart : ℕ) (before : List NamedRecord) (r : NamedRecord) :
    Prop where
  centralAt : r.centralAt = centralStart + spanSum before
  header : r.header = centralHeader bytes r.centralAt
  signature : r.header.signature = 0x02014b50
  name : decodeText (r.centralName bytes) = some r.name
  allowed : r.header.Allowed r.name (before.map NamedRecord.name) (sizeSum before)
  matchesLocal : r.header.matchesLocal bytes
  localName : r.localName bytes = r.centralName bytes
  first : before = [] → r.header.First r.name

/-- A record that fits has a name field. -/
theorem Fits.named {bytes : Bytes} {centralStart : ℕ} {before : List NamedRecord} {r : NamedRecord}
    (h : Fits bytes centralStart before r) : 0 < r.header.length := by
  by_contra hzero
  have hlength : r.header.length = 0 := by omega
  have hname := h.name
  have hentry := h.allowed.1.1
  rw [Record.centralName, hlength, Bytes.slice, List.take_zero] at hname
  have hempty : decodeText [] = some "" := by decide
  rw [hempty, Option.some.injEq] at hname
  rw [← hname] at hentry
  exact absurd hentry (by decide)

section Loops

variable {bytes : Bytes} {centralStart : ℕ}

/-- The state of the parser behind some records. -/
def listAfter (bytes : Bytes) (centralStart : ℕ) (before : List NamedRecord) : ListScan where
  offset := centralStart + spanSum before
  total := sizeSum before
  records := before
  ranges := before.map fun r => r.localSpan bytes

@[simp] theorem listAfter_append (before : List NamedRecord) (r : NamedRecord) :
    listAfter bytes centralStart (before ++ [r]) =
      ⟨centralStart + spanSum before + r.header.span, sizeSum before + r.header.size, before ++ [r],
        (before.map fun r => r.localSpan bytes) ++ [r.localSpan bytes]⟩ := by
  simp [listAfter, Nat.add_assoc]

/-- The room that the parser leaves for a record. -/
structure ListRoom (bytes : Bytes) (centralStart : ℕ) (before : List NamedRecord)
    (r : NamedRecord) : Prop where
  central : r.centralAt + r.header.span ≤ bytes.length
  data : (r.localSpan bytes).2 ≤ bytes.length
  locals : (r.localSpan bytes).2 ≤ centralStart
  apart : ∀ r' ∈ before, ¬((r.localSpan bytes).1 < (r'.localSpan bytes).2 ∧
    (r'.localSpan bytes).1 < (r.localSpan bytes).2)

/-- A round of the parser adds a record that fits and has room. -/
theorem listRecord_eq_ok_iff (before : List NamedRecord) (s' : ListScan) :
    listRecord bytes centralStart (listAfter bytes centralStart before) = .ok s' ↔
      ∃ r, (Fits bytes centralStart before r ∧ ListRoom bytes centralStart before r) ∧
        s' = listAfter bytes centralStart (before ++ [r]) := by
  simp only [listAfter_append]
  rw [listAfter]
  simp only [listRecord, bind_eq_ok_iff, require_eq_ok_iff, orFail_eq_ok_iff, pure_eq_ok,
    Except.ok.injEq, exists_const]
  constructor
  · rintro ⟨-, hsignature, hspan, name, hname, ⟨hentry, hfresh, hflags, hdisk⟩, htype, hallowed,
      hstored, hsizes, -, hmatches, -, hdata, ⟨hends, hapart⟩, hsame, hfirst, rfl⟩
    refine ⟨⟨⟨centralStart + spanSum before, _⟩, name⟩, ⟨⟨rfl, rfl, hsignature, hname,
      ⟨⟨hentry, ?_, hflags, hdisk, htype⟩, hallowed, hstored, hsizes⟩, hmatches, hsame, hfirst⟩,
      hspan, hdata, hends, ?_⟩, rfl⟩
    · rintro hmem
      obtain ⟨r, hr, hrname⟩ := List.mem_map.mp hmem
      exact hfresh r hr hrname
    · exact fun r hr => hapart _ (List.mem_map_of_mem hr)
  · rintro ⟨⟨⟨centralAt, header⟩, name⟩, ⟨⟨rfl, hheader, hsignature,
      hname, ⟨⟨hentry, hfresh, hflags, hdisk, htype⟩, hallowed, hstored, hsizes⟩, hmatches, hsame,
      hfirst⟩, hspan, hdata, hends, hapart⟩, rfl⟩
    obtain rfl : header = centralHeader bytes (centralStart + spanSum before) := hheader
    have hroom := hspan
    have hlocal := hdata
    simp only [CentralHeader.span, Record.localSpan, CentralHeader.dataAt] at hroom hlocal
    refine ⟨by omega, hsignature, hspan, name, hname, ⟨hentry, fun r hr heq => hfresh
      (List.mem_map.mpr ⟨r, hr, heq⟩), hflags, hdisk⟩, htype, hallowed, hstored, hsizes, by omega,
      hmatches, by omega, hdata, ⟨hends, ?_⟩, hsame, hfirst, rfl⟩
    intro span hspan
    obtain ⟨r, hr, rfl⟩ := List.mem_map.mp hspan
    exact hapart r hr

/-- The state of the capture behind some records. -/
def captureAfter (bytes : Bytes) (before : List NamedRecord) : CaptureScan where
  at' := spanSum before
  total := sizeSum before
  rows := before.map (NamedRecord.row bytes)

@[simp] theorem captureAfter_append (before : List NamedRecord) (r : NamedRecord) :
    captureAfter bytes (before ++ [r]) =
      ⟨spanSum before + r.header.span, sizeSum before + r.header.size,
        before.map (NamedRecord.row bytes) ++ [r.row bytes]⟩ := by
  simp [captureAfter]

/-- The room that the capture leaves for a record. -/
structure CaptureRoom (bytes : Bytes) (centralStart cdSize : ℕ) (before : List NamedRecord)
    (r : NamedRecord) : Prop where
  central : spanSum before + r.header.span ≤ cdSize
  named : 0 < r.header.length
  short : r.header.length ≤ 4096
  locals : (r.localSpan bytes).2 ≤ centralStart

theorem map_row_name (before : List NamedRecord) :
    (before.map (NamedRecord.row bytes)).map Row.name = before.map NamedRecord.name := by
  rw [List.map_map]
  rfl

/-- A round of the capture adds a record that fits and has room. -/
theorem captureRow_eq_ok_iff {cdSize : ℕ} (hlength : centralStart + cdSize ≤ bytes.length)
    (before : List NamedRecord) (s' : CaptureScan) :
    captureRow bytes centralStart cdSize (captureAfter bytes before) = .ok s' ↔
      ∃ r, (Fits bytes centralStart before r ∧ CaptureRoom bytes centralStart cdSize before r) ∧
        s' = captureAfter bytes (before ++ [r]) := by
  simp only [captureAfter_append]
  rw [captureAfter]
  simp only [captureRow, bind_eq_ok_iff, require_eq_ok_iff, orFail_eq_ok_iff, range_eq_ok_iff,
    pure_eq_ok, Except.ok.injEq, exists_const, map_row_name, List.map_eq_nil_iff]
  constructor
  · rintro ⟨-, record, ⟨-, rfl⟩, hsignature, ⟨hspan, hpos, hshort⟩, nb, ⟨-, rfl⟩, name, hname,
      hallowed, -, header, ⟨-, rfl⟩, hheader, -, localName, ⟨-, rfl⟩, hsame, hends, hfirst, rfl⟩
    rw [centralHeader_slice] at *
    rw [u16_slice (by decide)] at *
    exact ⟨⟨⟨centralStart + spanSum before, _⟩, name⟩, ⟨⟨rfl, rfl, hsignature, hname, hallowed,
      repeatedBy_slice_iff.mp hheader, hsame.symm, hfirst⟩, hspan, hpos, hshort, hends⟩, rfl⟩
  · rintro ⟨⟨⟨centralAt, header⟩, name⟩, ⟨⟨rfl, hheader, hsignature, hname, hallowed, hmatches, hsame,
      hfirst⟩, hspan, hpos, hshort, hends⟩, rfl⟩
    obtain rfl : header = centralHeader bytes (centralStart + spanSum before) := hheader
    have hroom := hspan
    have hlocal := hends
    simp only [CentralHeader.span, Record.localSpan, CentralHeader.dataAt] at hroom hlocal
    refine ⟨by omega, _, ⟨by omega, rfl⟩, ?_⟩
    rw [centralHeader_slice]
    refine ⟨hsignature, ⟨hspan, hpos, hshort⟩, _, ⟨by omega, rfl⟩, name, hname, hallowed, by omega, _,
      ⟨by omega, rfl⟩, repeatedBy_slice_iff.mpr hmatches, by omega, _, ⟨by omega, rfl⟩, hsame.symm, ?_⟩
    rw [u16_slice (by decide)]
    exact ⟨hends, hfirst, rfl⟩

/-- The state of the locator behind some records. -/
def walkAfter (centralStart : ℕ) (before : List NamedRecord) : DirectoryWalk where
  cursor := centralStart + spanSum before
  count := before.length
  total := sizeSum before
  names := before.map NamedRecord.name
  seen := before.map fun r => r.header.localAt

@[simp] theorem walkAfter_append (before : List NamedRecord) (r : NamedRecord) :
    walkAfter centralStart (before ++ [r]) =
      ⟨centralStart + spanSum before + r.header.span, before.length + 1,
        sizeSum before + r.header.size, before.map NamedRecord.name ++ [r.name],
        (before.map fun r => r.header.localAt) ++ [r.header.localAt]⟩ := by
  simp [walkAfter, Nat.add_assoc]

/-- The entry of the map for a local record. -/
def localOf (bytes : Bytes) (span : Span) : LocalRecord where
  key := span.1
  header := Bytes.slice bytes span.1 30
  start := span.1 + 30 + u16 bytes (span.1 + 26) + u16 bytes (span.1 + 28)
  endAt := span.2

/-- The room that the locator leaves for a record, and the local record it knows. -/
structure WalkRoom (bytes : Bytes) (centralStart : ℕ) (locals : List LocalRecord)
    (before : List NamedRecord) (r : NamedRecord) : Prop where
  central : r.centralAt + r.header.span ≤ bytes.length - 22
  named : 0 < r.header.length
  short : r.header.length ≤ 4096
  counted : before.length < limitEntries
  found : (locals.find? fun entry => entry.key = r.header.localAt) =
    some (localOf bytes (r.localSpan bytes))
  fresh : r.header.localAt ∉ before.map fun r => r.header.localAt
  locals : (r.localSpan bytes).2 ≤ centralStart

/-- A round of the locator goes past a record that fits and has room. -/
theorem walkRecord_of_fits {locals : List LocalRecord} {before : List NamedRecord} {r : NamedRecord}
    (hlength : centralStart ≤ bytes.length) (hfits : Fits bytes centralStart before r)
    (hroom : WalkRoom bytes centralStart locals before r) :
    walkRecord bytes locals centralStart (Bytes.slice bytes r.centralAt 4)
      (walkAfter centralStart before) = .ok (walkAfter centralStart (before ++ [r])) := by
  obtain ⟨⟨centralAt, header⟩, name⟩ := r
  obtain ⟨rfl, hheader, hsignature, hname, hallowed, hmatches, hsame, hfirst⟩ := hfits
  obtain rfl : header = centralHeader bytes (centralStart + spanSum before) := hheader
  obtain ⟨hspan, hpos, hshort, hcount, hfound, hfresh, hends⟩ := hroom
  have hcentral := hspan
  have hlocal := hends
  simp only [CentralHeader.span, Record.localSpan, CentralHeader.dataAt] at hcentral hlocal
  rw [walkAfter_append, walkAfter]
  simp only [walkRecord, bind_eq_ok_iff, require_eq_ok_iff, orFail_eq_ok_iff, range_eq_ok_iff,
    pure_eq_ok, Except.ok.injEq, exists_const]
  refine ⟨⟨?_, hcount, by omega⟩, _, ⟨by omega, rfl⟩, ?_⟩
  · rw [u32_slice (by decide)]
    exact hsignature
  rw [slice_append_slice, centralHeader_slice]
  refine ⟨⟨hspan, hpos, hshort⟩, _, ⟨by omega, rfl⟩, name, hname, hallowed, _, hfound, ⟨hfresh, hends⟩,
    (repeatedBy_slice_iff.mpr hmatches).2, _, ⟨by omega, rfl⟩, hsame.symm, ?_, rfl⟩
  rw [List.length_eq_zero_iff]
  exact hfirst

/-- The locator walks over records that fit and have room, up to the end record. -/
theorem walkDirectory_of_steps {locals : List LocalRecord} {before rest : List NamedRecord}
    {rounds : ℕ} (hlength : centralStart ≤ bytes.length)
    (hsteps : Steps (fun before r => Fits bytes centralStart before r ∧
      WalkRoom bytes centralStart locals before r) before rest)
    (hrounds : rest.length < rounds)
    (hend : centralStart + spanSum (before ++ rest) + 4 ≤ bytes.length)
    (hsignature : u32 bytes (centralStart + spanSum (before ++ rest)) = 0x06054b50) :
    walkDirectory bytes locals centralStart rounds (walkAfter centralStart before) =
      .ok (walkAfter centralStart (before ++ rest)) := by
  induction rest generalizing before rounds with
  | nil =>
    obtain ⟨rounds, rfl⟩ := Nat.exists_eq_succ_of_ne_zero (by omega : rounds ≠ 0)
    rw [List.append_nil] at hend hsignature ⊢
    have hcursor : (walkAfter centralStart before).cursor = centralStart + spanSum before := rfl
    rw [walkDirectory, hcursor, require_bind_of_pos hend, range_eq_ok_iff.mpr ⟨hend, rfl⟩, ok_bind,
      if_pos]
    · rfl
    · rw [u32_slice (by decide)]
      exact hsignature
  | cons r rest ih =>
    obtain ⟨rounds, rfl⟩ := Nat.exists_eq_succ_of_ne_zero (by omega : rounds ≠ 0)
    obtain ⟨⟨hfits, hroom⟩, hsteps⟩ := hsteps
    have hcursor : (walkAfter centralStart before).cursor = r.centralAt := hfits.centralAt.symm
    have hcentral := hroom.central
    simp only [CentralHeader.span] at hcentral
    have hread : r.centralAt + 4 ≤ bytes.length := by omega
    have hsig : u32 (Bytes.slice bytes r.centralAt 4) 0 = 0x02014b50 := by
      rw [u32_slice (by decide), Nat.add_zero, ← hfits.signature, hfits.header]
      rfl
    rw [walkDirectory, hcursor, require_bind_of_pos hread, range_eq_ok_iff.mpr ⟨hread, rfl⟩, ok_bind,
      if_neg (by rw [hsig]; decide), walkRecord_of_fits hlength hfits hroom, ok_bind,
      List.append_cons before r rest]
    rw [List.append_cons] at hend hsignature
    refine ih hsteps ?_ hend hsignature
    rw [List.length_cons] at hrounds
    omega

/-- A local record as the locator walks over it. -/
structure LocalRoom (bytes : Bytes) (span : Span) : Prop where
  signature : u32 bytes span.1 = 0x04034b50
  named : 0 < u16 bytes (span.1 + 26)
  short : u16 bytes (span.1 + 26) ≤ 4096
  ends : span.2 = span.1 + 30 + u16 bytes (span.1 + 26) + u16 bytes (span.1 + 28) +
    u32 bytes (span.1 + 18)

/-- The locator walks over a chain of local records, up to the directory. -/
theorem walkLocals_of_chain {lo hi rounds : ℕ} {spans : List Span} {locals : List LocalRecord}
    (hchain : SpanChain lo spans hi) (hspans : ∀ span ∈ spans, LocalRoom bytes span)
    (hrounds : spans.length < rounds) (hcount : locals.length + spans.length ≤ limitEntries)
    (hend : hi + 4 ≤ bytes.length - 22) (hsignature : u32 bytes hi = 0x02014b50) :
    walkLocals bytes rounds lo locals = .ok (hi, locals ++ spans.map (localOf bytes)) := by
  induction spans generalizing lo rounds locals with
  | nil =>
    obtain ⟨rounds, rfl⟩ := Nat.exists_eq_succ_of_ne_zero (by omega : rounds ≠ 0)
    obtain rfl : lo = hi := hchain
    rw [walkLocals, require_bind_of_pos hend, range_eq_ok_iff.mpr ⟨by omega, rfl⟩, ok_bind, if_pos]
    · rw [List.map_nil, List.append_nil]
      rfl
    · rw [u32_slice (by decide)]
      exact hsignature
  | cons span spans ih =>
    obtain ⟨rounds, rfl⟩ := Nat.exists_eq_succ_of_ne_zero (by omega : rounds ≠ 0)
    obtain ⟨rfl, hle, hchain⟩ := hchain
    obtain ⟨⟨hlocal, hpos, hshort, hspan⟩, hspans⟩ := List.forall_mem_cons.mp hspans
    have hbound := hchain.le
    rw [List.length_cons] at hrounds hcount
    have hread : readLocal bytes span.1 (Bytes.slice bytes span.1 4) locals =
        .ok (localOf bytes span) := by
      simp only [readLocal, bind_eq_ok_iff, require_eq_ok_iff, range_eq_ok_iff, pure_eq_ok,
        Except.ok.injEq, exists_const]
      refine ⟨⟨?_, by omega, by omega⟩, _, ⟨by omega, rfl⟩, ?_⟩
      · rw [u32_slice (by decide)]
        exact hlocal
      rw [slice_append_slice]
      simp (disch := decide) only [u16_slice, u32_slice]
      refine ⟨⟨hpos, hshort, by omega⟩, ?_⟩
      rw [← hspan]
      rfl
    rw [walkLocals, require_bind_of_pos (by omega), range_eq_ok_iff.mpr ⟨by omega, rfl⟩, ok_bind,
      if_neg, hread, ok_bind, localOf, ih hchain hspans (by omega)]
    · rw [List.map_cons, List.append_assoc, List.singleton_append, localOf]
    · rw [List.length_append, List.length_singleton]
      omega
    · rw [u32_slice (by decide), Nat.add_zero, hlocal]
      decide

end Loops

end Kdna.Container

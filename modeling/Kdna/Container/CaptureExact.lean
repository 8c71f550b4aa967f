import Kdna.Container.CaptureLoops
import Kdna.Container.RoundTrip

/-!
# The capture lists what the parser accepts

Behind an accepted container every loop has room for every record, and both readers find
the same end record. So the capture lists exactly the containers that pass the structural
checks of the parser and whose name fields have at most 4096 octets.
-/

namespace Kdna.Container

section End

variable {bytes : Bytes}

/-- An end record whose comment ends the file. -/
def EndsAt (bytes : Bytes) (i : ℕ) : Prop :=
  u32 bytes i = 0x06054b50 ∧ i + 22 + u16 bytes (i + 20) = bytes.length

instance (bytes : Bytes) (i : ℕ) : Decidable (EndsAt bytes i) := by
  unfold EndsAt
  infer_instance

/-- A search downwards finds the last position that has the property. -/
theorem find_down_eq_some_iff {p : ℕ → Prop} [DecidablePred p] {n k i : ℕ} (hk : k ≤ n) :
    ((List.range (k + 1)).map (n - ·)).find? (fun i => p i) = some i ↔
      n - k ≤ i ∧ i ≤ n ∧ p i ∧ ∀ j, i < j → j ≤ n → ¬ p j := by
  rw [List.find?_map, Option.map_eq_some_iff]
  simp only [List.find?_range_eq_some, Function.comp_apply, List.mem_range, decide_eq_true_eq,
    Bool.not_eq_true', decide_eq_false_iff_not]
  constructor
  · rintro ⟨j, ⟨hp, hj, hbefore⟩, rfl⟩
    refine ⟨by omega, by omega, hp, fun m hm hmn => ?_⟩
    have hnot := hbefore (n - m) (by omega)
    rwa [Nat.sub_sub_self hmn] at hnot
  · rintro ⟨hlow, hhigh, hp, hafter⟩
    refine ⟨n - i, ⟨?_, by omega, fun j hj => hafter (n - j) (by omega) (by omega)⟩, by omega⟩
    rwa [Nat.sub_sub_self hhigh]

/-- The parser takes the last end record whose comment ends the file. -/
theorem findEnd_eq_some_iff {i : ℕ} (hlength : 22 ≤ bytes.length) :
    findEnd bytes = some i ↔ EndsAt bytes i ∧ ∀ j, i < j → ¬ EndsAt bytes j := by
  have hword (i : ℕ) : u16 bytes i < 65536 := by
    have hlt := Bytes.leValue_lt (Bytes.slice bytes i 2)
    have hle := Nat.pow_le_pow_right (by decide : 0 < 256) (Bytes.length_slice_le bytes i 2)
    rw [u16]
    omega
  have hfind := find_down_eq_some_iff (p := EndsAt bytes) (i := i)
    (Nat.min_le_left (bytes.length - 22) 65535)
  rw [findEnd]
  refine hfind.trans ⟨?_, ?_⟩
  · rintro ⟨-, hle, hends, hafter⟩
    refine ⟨hends, fun j hj hends' => ?_⟩
    have hlast := hends'.2
    exact hafter j hj (by omega) hends'
  · rintro ⟨hends, hafter⟩
    have hlast := hends.2
    have hlt := hword (i + 20)
    exact ⟨by omega, by omega, hends, fun j hj _ => hafter j hj⟩

/-- What the end record says. -/
theorem readEnd_eq_ok_iff {e : EndRecord} :
    readEnd bytes = .ok e ↔ findEnd bytes = some e.at' ∧
      (u16 bytes (e.at' + 4) = 0 ∧ u16 bytes (e.at' + 6) = 0 ∧
        u16 bytes (e.at' + 8) = u16 bytes (e.at' + 10)) ∧
      e.count = u16 bytes (e.at' + 10) ∧ e.centralSize = u32 bytes (e.at' + 12) ∧
      e.centralStart = u32 bytes (e.at' + 16) ∧
      e.count ≠ 0 ∧ e.count ≤ limitEntries ∧ e.centralStart + e.centralSize = e.at' := by
  obtain ⟨i, count, centralSize, centralStart⟩ := e
  simp only [readEnd, bind_eq_ok_iff, require_eq_ok_iff, orFail_eq_ok_iff, pure_eq_ok,
    Except.ok.injEq, EndRecord.mk.injEq, exists_const]
  constructor
  · rintro ⟨_, hfind, hzero, hcount, rfl, rfl, rfl, rfl⟩
    exact ⟨hfind, hzero, rfl, rfl, rfl, hcount⟩
  · rintro ⟨hfind, hzero, rfl, rfl, rfl, hcount⟩
    exact ⟨_, hfind, hzero, hcount, rfl, rfl, rfl, rfl⟩

theorem slice_drop (start offset count : ℕ) :
    Bytes.slice (bytes.drop start) offset count = Bytes.slice bytes (start + offset) count := by
  rw [Bytes.slice, Bytes.slice, List.drop_drop]

/-- An end record of a footer is one of the file. -/
theorem endsAt_drop_iff {start i : ℕ} (hstart : start ≤ bytes.length) :
    EndsAt (bytes.drop start) i ↔ EndsAt bytes (start + i) := by
  have hcomment : start + (i + 20) = start + i + 20 := by omega
  rw [EndsAt, EndsAt, u32, u32, u16, u16, slice_drop, slice_drop, List.length_drop, hcomment]
  constructor
  · rintro ⟨hsignature, hlast⟩
    exact ⟨hsignature, by omega⟩
  · rintro ⟨hsignature, hlast⟩
    exact ⟨hsignature, by omega⟩

/-- The footer is selected at its start when no later end record ends with it. -/
theorem selectFooter_drop_iff {start : ℕ} (hstart : start + 22 ≤ bytes.length) :
    selectFooter (bytes.drop start) = some 0 ↔
      EndsAt bytes start ∧ ∀ j, start < j → ¬ EndsAt bytes j := by
  have hfind := find_down_eq_some_iff (p := EndsAt (bytes.drop start)) (i := 0)
    (Nat.le_refl ((bytes.drop start).length - 22))
  rw [selectFooter]
  refine hfind.trans ?_
  simp only [endsAt_drop_iff (by omega : start ≤ bytes.length), List.length_drop, Nat.add_zero]
  constructor
  · rintro ⟨-, -, hends, hafter⟩
    refine ⟨hends, fun j hj hends' => ?_⟩
    have hlast := hends'.2
    have heq : start + (j - start) = j := by omega
    exact hafter (j - start) (by omega) (by omega) (by rwa [heq])
  · rintro ⟨hends, hafter⟩
    exact ⟨by omega, by omega, hends, fun j hj _ => hafter _ (by omega)⟩

/-- The last octets of a file are its end record and the comment. -/
theorem footer_eq_drop {start commentLength : ℕ} {comment : Bytes}
    (hlast : start + 22 + commentLength = bytes.length)
    (hcomment : readComment bytes start commentLength = .ok comment) :
    Bytes.slice bytes start 22 ++ comment = bytes.drop start := by
  have hall : Bytes.slice bytes start (22 + commentLength) = bytes.drop start := by
    rw [Bytes.slice, List.take_of_length_le]
    rw [List.length_drop]
    omega
  rw [readComment] at hcomment
  by_cases hzero : commentLength = 0
  · subst hzero
    rw [if_neg (by simp), Except.ok.injEq] at hcomment
    rw [← hcomment, List.append_nil, ← hall]
  · rw [if_pos hzero, range_eq_ok_iff] at hcomment
    rw [hcomment.2, slice_append_slice, hall]

/-- Two readers that find the last end record find the same one. -/
theorem findFooter_spec {end' : ℕ} {eocd : Bytes} (hlength : 22 ≤ bytes.length)
    (h : findFooter bytes = .ok (end', eocd)) :
    findEnd bytes = some end' ∧ eocd = Bytes.slice bytes end' 22 := by
  simp only [findFooter, bind_eq_ok_iff, range_eq_ok_iff] at h
  obtain ⟨last, ⟨hroom, rfl⟩, h⟩ := h
  rw [u32_slice (by decide), u16_slice (by decide), Nat.add_zero] at h
  by_cases hcase : u32 bytes (bytes.length - 22) ≠ 0x06054b50 ∨ u16 bytes (bytes.length - 22 + 20) ≠ 0
  · rw [if_pos hcase] at h
    simp only [locateCommentFooter, bind_eq_ok_iff, require_eq_ok_iff, range_eq_ok_iff, pure_eq_ok,
      Except.ok.injEq, Prod.mk.injEq, exists_const] at h
    obtain ⟨⟨cdStart, locals⟩, -, w, -, ⟨-, -, -, -, -, hfits⟩, endBytes, ⟨-, rfl⟩, ⟨-, -, -, -, -, -,
      -, hlast⟩, comment, hcomment, hselect, rfl, rfl⟩ := h
    rw [footer_eq_drop hlast hcomment, selectFooter_drop_iff hfits] at hselect
    exact ⟨(findEnd_eq_some_iff hlength).mpr hselect, rfl⟩
  · rw [if_neg hcase, pure_eq_ok, Except.ok.injEq, Prod.mk.injEq] at h
    obtain ⟨rfl, rfl⟩ := h
    rw [not_or, not_not, not_not] at hcase
    refine ⟨(findEnd_eq_some_iff hlength).mpr ⟨⟨hcase.1, by omega⟩, fun j hj hends => ?_⟩, rfl⟩
    have hlast := hends.2
    omega

end End

/-- What the parser has established of the records of a container. -/
structure StructureAt (bytes : Bytes) (e : EndRecord) (records : List NamedRecord) : Prop where
  readEnd : readEnd bytes = .ok e
  count : records.length = e.count
  fits : Steps (Fits bytes e.centralStart) [] records
  ends : e.centralStart + spanSum records = e.at'
  chain : SpanChain 0 (sortRanges (records.map fun r => r.localSpan bytes)) e.centralStart

/-- The octets of the two members that every reader opens. -/
structure Opened (inflate : Inflate) (bytes : Bytes) (records : List NamedRecord)
    (manifestBytes : Bytes) : Prop where
  mimetype : ∃ r b, recordOf records "mimetype" = some r ∧ body inflate bytes r.toRecord = .ok b ∧
    decodeText b = some mimetypeText
  manifest : ∃ r, recordOf records "kdna.json" = some r ∧
    body inflate bytes r.toRecord = .ok manifestBytes

namespace StructureAt

variable {bytes : Bytes} {e : EndRecord} {records : List NamedRecord}

/-- The end record lies in the file. -/
theorem bounds (h : StructureAt bytes e records) (hlength : 22 ≤ bytes.length) :
    e.centralStart + e.centralSize = e.at' ∧ e.at' + 22 ≤ bytes.length := by
  obtain ⟨hfind, -, -, -, -, -, -, hsum⟩ := readEnd_eq_ok_iff.mp h.readEnd
  have hends := ((findEnd_eq_some_iff hlength).mp hfind).1.2
  exact ⟨hsum, by omega⟩

theorem spanSum_split (front back : List NamedRecord) (r : NamedRecord) :
    spanSum front + r.header.span ≤ spanSum (front ++ r :: back) := by
  simp only [spanSum, List.map_append, List.map_cons, List.sum_append, List.sum_cons]
  omega

/-- The local records tile the octets before the directory. -/
theorem tiles (h : StructureAt bytes e records) :
    Tiles (records.map fun r => r.localSpan bytes) 0 e.centralStart :=
  h.chain.tiles.perm (sortRanges_perm _)

theorem localSpan_mem_bounds (h : StructureAt bytes e records) {r : NamedRecord}
    (hr : r ∈ records) : (r.localSpan bytes).2 ≤ e.centralStart := by
  have hmem : r.localSpan bytes ∈ sortRanges (records.map fun r => r.localSpan bytes) :=
    (sortRanges_perm _).mem_iff.mpr (List.mem_map_of_mem hr)
  exact (h.chain.mem_bounds hmem).2.2

/-- A local record is apart from the ones before it. -/
theorem apart (h : StructureAt bytes e records) {front back : List NamedRecord} {r : NamedRecord}
    (hsplit : records = front ++ r :: back) :
    ∀ r' ∈ front, (r'.localSpan bytes).Apart (r.localSpan bytes) := by
  have hapart := h.tiles.apart
  rw [hsplit, List.map_append, List.map_cons, List.pairwise_append] at hapart
  intro r' hr'
  exact hapart.2.2 _ (List.mem_map_of_mem hr') _ List.mem_cons_self

/-- The parser has room for every record. -/
theorem listRoom (h : StructureAt bytes e records) (hlength : 22 ≤ bytes.length)
    {front back : List NamedRecord} {r : NamedRecord} (hsplit : records = front ++ r :: back)
    (hr : Fits bytes e.centralStart front r) : ListRoom bytes e.centralStart front r := by
  obtain ⟨hsum, hbound⟩ := h.bounds hlength
  have hspan := spanSum_split front back r
  rw [← hsplit] at hspan
  have hends := h.ends
  have hcentral := hr.centralAt
  have hlocal := h.localSpan_mem_bounds (hsplit ▸ List.mem_append_right _ List.mem_cons_self : r ∈ records)
  refine ⟨by omega, by omega, hlocal, fun r' hr' hoverlap => ?_⟩
  rcases h.apart hsplit r' hr' with hle | hle
  · omega
  · omega

/-- So has the capture when the names are short. -/
theorem captureRoom (h : StructureAt bytes e records) (hlength : 22 ≤ bytes.length)
    {front back : List NamedRecord} {r : NamedRecord} (hsplit : records = front ++ r :: back)
    (hr : Fits bytes e.centralStart front r) (hshort : r.header.length ≤ 4096) :
    CaptureRoom bytes e.centralStart e.centralSize front r := by
  obtain ⟨hsum, -⟩ := h.bounds hlength
  have hspan := spanSum_split front back r
  rw [← hsplit] at hspan
  have hends := h.ends
  refine ⟨by omega, hr.named, hshort, h.localSpan_mem_bounds ?_⟩
  rw [hsplit]
  exact List.mem_append_right _ List.mem_cons_self

/-- So has the locator, which knows every local record. -/
theorem walkRoom (h : StructureAt bytes e records) (hlength : 22 ≤ bytes.length)
    {front back : List NamedRecord} {r : NamedRecord} (hsplit : records = front ++ r :: back)
    (hr : Fits bytes e.centralStart front r) (hshort : r.header.length ≤ 4096)
    (hfound : (((sortRanges (records.map fun r => r.localSpan bytes)).map (localOf bytes)).find?
      fun entry => entry.key = r.header.localAt) = some (localOf bytes (r.localSpan bytes))) :
    WalkRoom bytes e.centralStart
      ((sortRanges (records.map fun r => r.localSpan bytes)).map (localOf bytes)) front r := by
  obtain ⟨hsum, hbound⟩ := h.bounds hlength
  obtain ⟨-, -, -, -, -, -, hcount, -⟩ := readEnd_eq_ok_iff.mp h.readEnd
  have hspan := spanSum_split front back r
  rw [← hsplit] at hspan
  have hends := h.ends
  have hcentral := hr.centralAt
  have hlengths := congrArg List.length hsplit
  rw [h.count, List.length_append, List.length_cons] at hlengths
  refine ⟨by omega, hr.named, hshort, by omega, hfound, fun hmem => ?_, h.localSpan_mem_bounds ?_⟩
  · obtain ⟨r', hr', heq⟩ := List.mem_map.mp hmem
    have hapart := h.apart hsplit r' hr'
    simp only [Span.Apart, Record.localSpan, CentralHeader.dataAt] at hapart
    omega
  · rw [hsplit]
    exact List.mem_append_right _ List.mem_cons_self

/-- The local record of a record is one that the locator walks over. -/
theorem localRoom {before : List NamedRecord} {r : NamedRecord}
    (hr : Fits bytes e.centralStart before r) (hshort : r.header.length ≤ 4096) :
    LocalRoom bytes (r.localSpan bytes) := by
  obtain ⟨hsignature, -, -, -, hcompressed, -, hlength⟩ := hr.matchesLocal
  have hnamed := hr.named
  refine ⟨hsignature, ?_, ?_, ?_⟩
  · rwa [Record.localSpan, hlength]
  · rwa [Record.localSpan, hlength]
  · rw [Record.localSpan, hlength, hcompressed]
    rfl

/-- Every local record of the container is one that the locator walks over. -/
theorem localRooms (h : StructureAt bytes e records)
    (hshort : ∀ r ∈ records, r.header.length ≤ 4096) :
    ∀ span ∈ sortRanges (records.map fun r => r.localSpan bytes), LocalRoom bytes span := by
  intro span hspan
  rw [(sortRanges_perm _).mem_iff, List.mem_map] at hspan
  obtain ⟨r, hr, rfl⟩ := hspan
  obtain ⟨front, back, -, hfits⟩ := h.fits.exists_of_mem hr
  exact localRoom hfits (hshort r hr)

/-- The locator finds the local record of every record under its key: two local records
with one offset have one extent. -/
theorem find_localOf (h : StructureAt bytes e records)
    (hshort : ∀ r ∈ records, r.header.length ≤ 4096) {r : NamedRecord} (hr : r ∈ records) :
    (((sortRanges (records.map fun r => r.localSpan bytes)).map (localOf bytes)).find?
      fun entry => entry.key = r.header.localAt) = some (localOf bytes (r.localSpan bytes)) := by
  have hrooms := h.localRooms hshort
  have hmem : r.localSpan bytes ∈ sortRanges (records.map fun r => r.localSpan bytes) :=
    (sortRanges_perm _).mem_iff.mpr (List.mem_map_of_mem hr)
  obtain ⟨entry, hentry⟩ : ∃ entry,
      (((sortRanges (records.map fun r => r.localSpan bytes)).map (localOf bytes)).find?
        fun entry => entry.key = r.header.localAt) = some entry := by
    rw [← Option.isSome_iff_exists, List.find?_isSome]
    exact ⟨_, List.mem_map_of_mem hmem, by simp [localOf, Record.localSpan]⟩
  obtain ⟨span, hspan, rfl⟩ := List.mem_map.mp (List.mem_of_find?_eq_some hentry)
  have hkey : (localOf bytes span).key = r.header.localAt := by simpa using List.find?_some hentry
  have hends : span.2 = (r.localSpan bytes).2 := by
    have hstart : span.1 = (r.localSpan bytes).1 := hkey
    rw [(hrooms span hspan).ends, (hrooms _ hmem).ends, hstart]
  rw [hentry, Prod.ext (y := r.localSpan bytes) hkey hends]

/-- The locator finds the end record of a container with short names. -/
theorem locateCommentFooter_eq (h : StructureAt bytes e records) (hlength : 22 ≤ bytes.length)
    (hshort : ∀ r ∈ records, r.header.length ≤ 4096)
    (hnames : "mimetype" ∈ records.map NamedRecord.name ∧
      "kdna.json" ∈ records.map NamedRecord.name) :
    locateCommentFooter bytes = .ok (e.at', Bytes.slice bytes e.at' 22) := by
  obtain ⟨hsum, hbound⟩ := h.bounds hlength
  obtain ⟨hfind, ⟨hdisk, hdisk', hboth⟩, hcount, hsize, hstart, hpos, hlimit, -⟩ :=
    readEnd_eq_ok_iff.mp h.readEnd
  have hselect := (findEnd_eq_some_iff hlength).mp hfind
  obtain ⟨⟨hsignature, hlast⟩, -⟩ := id hselect
  have hlengths := h.count
  have hends := h.ends
  -- the first record stands where the local records end
  obtain ⟨r, rest, hcons⟩ : ∃ r rest, records = r :: rest :=
    List.exists_cons_of_length_pos (by omega)
  have hfits := h.fits
  rw [hcons] at hfits
  have hcentral : r.centralAt = e.centralStart := hfits.1.centralAt
  have hfirst : u32 bytes e.centralStart = 0x02014b50 := by
    rw [← hfits.1.signature, hfits.1.header, hcentral]
    rfl
  have hspan := spanSum_split [] rest r
  rw [List.nil_append, ← hcons] at hspan
  simp only [CentralHeader.span] at hspan
  have hsorted : (sortRanges (records.map fun r => r.localSpan bytes)).length = records.length := by
    rw [(sortRanges_perm _).length_eq, List.length_map]
  have hwalk : walkLocals bytes (limitEntries + 1) 0 [] = .ok (e.centralStart,
      [] ++ (sortRanges (records.map fun r => r.localSpan bytes)).map (localOf bytes)) :=
    walkLocals_of_chain h.chain (h.localRooms hshort) (by omega)
      (by simp only [List.length_nil]; omega) (by omega) hfirst
  have hsteps : Steps (fun before r => Fits bytes e.centralStart before r ∧
      WalkRoom bytes e.centralStart
        ((sortRanges (records.map fun r => r.localSpan bytes)).map (localOf bytes)) before r)
      [] records := by
    refine h.fits.imp fun front r back hsplit hr => ⟨hr, ?_⟩
    have hmem : r ∈ records := hsplit ▸ List.mem_append_right _ List.mem_cons_self
    exact h.walkRoom hlength hsplit hr (hshort r hmem) (h.find_localOf hshort hmem)
  have hrounds : records.length < limitEntries + 1 := by omega
  have hdirectory := walkDirectory_of_steps (by omega) hsteps hrounds
    (by rw [List.nil_append]; omega) (by rw [List.nil_append, hends]; exact hsignature)
  have hcursor : walkAfter e.centralStart [] = ⟨e.centralStart, 0, 0, [], []⟩ := rfl
  obtain ⟨comment, hcomment⟩ : ∃ comment,
      readComment bytes e.at' (u16 bytes (e.at' + 20)) = .ok comment := by
    rw [readComment]
    split
    · exact ⟨_, range_eq_ok_iff.mpr ⟨by omega, rfl⟩⟩
    · exact ⟨_, rfl⟩
  simp only [locateCommentFooter, bind_eq_ok_iff, require_eq_ok_iff, range_eq_ok_iff, pure_eq_ok,
    Except.ok.injEq, exists_const]
  refine ⟨_, hwalk, walkAfter e.centralStart records, ?_, ?_, _, ⟨?_, rfl⟩, ?_⟩
  · rw [List.nil_append, ← hcursor]
    exact hdirectory
  · simp only [walkAfter, List.length_map, List.nil_append, hsorted, hends]
    exact ⟨by omega, trivial, trivial, hnames.1, hnames.2, by omega⟩
  · simp only [walkAfter, hends]
    omega
  · simp (disch := decide) only [walkAfter, hends, u16_slice, u32_slice, Nat.add_zero]
    refine ⟨⟨hsignature, hdisk, hdisk', by omega, by omega, by omega, hstart.symm, hlast⟩, comment,
      hcomment, ?_⟩
    rw [footer_eq_drop hlast hcomment, selectFooter_drop_iff (by omega)]
    exact ⟨hselect, trivial⟩

end StructureAt

section Readers

variable {inflate : Inflate} {bytes : Bytes} {records : List NamedRecord}

theorem sweep_localSpans_iff {start last : ℕ} :
    sweep start (sortRanges (records.map fun r => r.localSpan bytes)) = .ok last ↔
      SpanChain start (sortRanges (records.map fun r => r.localSpan bytes)) last := by
  refine sweep_eq_ok_iff fun span hspan => ?_
  rw [(sortRanges_perm _).mem_iff, List.mem_map] at hspan
  obtain ⟨r, -, rfl⟩ := hspan
  exact r.localSpan_le bytes

/-- The structural checks accept exactly the containers with that structure. -/
theorem listSections_eq_ok_iff :
    listSections inflate bytes = .ok records ↔
      (22 ≤ bytes.length ∧ bytes.length ≤ limitContainer) ∧ ∃ e manifestBytes,
        StructureAt bytes e records ∧ Opened inflate bytes records manifestBytes := by
  simp only [listSections, bind_eq_ok_iff, require_eq_ok_iff, orFail_eq_ok_iff, pure_eq_ok,
    Except.ok.injEq, exists_const]
  have hstart (e : EndRecord) : (⟨e.centralStart, 0, [], []⟩ : ListScan) =
      listAfter bytes e.centralStart [] := rfl
  simp only [hstart, repeatM_eq_ok_iff listRecord_eq_ok_iff, List.nil_append]
  constructor
  · rintro ⟨hlength, e, hend, s, ⟨records, hcount, hsteps, rfl⟩, last, hsweep, rfl, hoffset, r, hr, b,
      hb, text, htext, rfl, r', hr', c, hc, rfl⟩
    refine ⟨hlength, e, c, ⟨hend, hcount, ?_, hoffset, sweep_localSpans_iff.mp hsweep⟩,
      ⟨r, b, hr, hb, htext⟩, r', hr', hc⟩
    exact hsteps.imp fun _ _ _ _ h => h.1
  · rintro ⟨hlength, e, c, hstructure, ⟨r, b, hr, hb, htext⟩, r', hr', hc⟩
    refine ⟨hlength, e, hstructure.readEnd, _, ⟨records, hstructure.count, ?_, rfl⟩, _,
      sweep_localSpans_iff.mpr hstructure.chain, rfl, hstructure.ends, r, hr, b, hb, _, htext, rfl, r',
      hr', c, hc, rfl⟩
    exact hstructure.fits.imp fun _ _ _ hsplit h => ⟨h, hstructure.listRoom hlength.1 hsplit h⟩

/-- The row of a name is the one of its record. -/
theorem rowOf_map (name : String) :
    rowOf (records.map (NamedRecord.row bytes)) name =
      (recordOf records name).map (NamedRecord.row bytes) := by
  rw [rowOf, recordOf, List.find?_map]
  rfl

/-- A member is read from its row as from its record. -/
theorem captureMember_row {r : NamedRecord} (hroom : (r.localSpan bytes).2 ≤ bytes.length) :
    captureMember inflate bytes (r.row bytes) = body inflate bytes r.toRecord := by
  have hread : range bytes (r.row bytes).start (r.row bytes).compressed =
      .ok (r.stored bytes) := range_eq_ok_iff.mpr ⟨hroom, rfl⟩
  rw [captureMember, hread, ok_bind]
  rfl

theorem mem_names_of_recordOf {name : String} {r : NamedRecord}
    (h : recordOf records name = some r) : r ∈ records ∧ name ∈ records.map NamedRecord.name := by
  have hname : r.name = name := by simpa using List.find?_some h
  exact ⟨List.mem_of_find?_eq_some h, List.mem_map.mpr ⟨r, List.mem_of_find?_eq_some h, hname⟩⟩

/-- Both readers look for the end record in the same place. -/
theorem findFooter_eq {e : EndRecord} (hlength : 22 ≤ bytes.length)
    (hstructure : StructureAt bytes e records) (hshort : ∀ r ∈ records, r.header.length ≤ 4096)
    (hnames : "mimetype" ∈ records.map NamedRecord.name ∧
      "kdna.json" ∈ records.map NamedRecord.name) :
    findFooter bytes = .ok (e.at', Bytes.slice bytes e.at' 22) := by
  have hread : range bytes (bytes.length - 22) 22 =
      .ok (Bytes.slice bytes (bytes.length - 22) 22) := range_eq_ok_iff.mpr ⟨by omega, rfl⟩
  rw [findFooter, hread, ok_bind]
  by_cases hcase : u32 (Bytes.slice bytes (bytes.length - 22) 22) 0 ≠ 0x06054b50 ∨
      u16 (Bytes.slice bytes (bytes.length - 22) 22) 20 ≠ 0
  · rw [if_pos hcase, hstructure.locateCommentFooter_eq hlength hshort hnames]
  · rw [if_neg hcase, pure_eq_ok]
    have hdirect : findFooter bytes =
        .ok (bytes.length - 22, Bytes.slice bytes (bytes.length - 22) 22) := by
      rw [findFooter, hread, ok_bind, if_neg hcase, pure_eq_ok]
    have hlast := (findFooter_spec hlength hdirect).1
    rw [(readEnd_eq_ok_iff.mp hstructure.readEnd).1, Option.some.injEq] at hlast
    rw [hlast]

/-- The capture accepts exactly the containers with that structure and short names. -/
theorem openOwnedSectionCapture_eq_ok_iff {capture : Capture} :
    openOwnedSectionCapture inflate bytes = .ok capture ↔
      (22 ≤ bytes.length ∧ bytes.length ≤ limitContainer) ∧ ∃ e records,
        StructureAt bytes e records ∧ (∀ r ∈ records, r.header.length ≤ 4096) ∧
        Opened inflate bytes records capture.manifestBytes ∧
        capture.inputByteLength = bytes.length ∧
        capture.rows = records.map (NamedRecord.row bytes) ∧
        capture.directory = Bytes.slice bytes e.centralStart e.centralSize := by
  obtain ⟨inputByteLength, rows, directory, manifestBytes⟩ := capture
  simp only [openOwnedSectionCapture, bind_eq_ok_iff, require_eq_ok_iff, orFail_eq_ok_iff,
    range_eq_ok_iff, pure_eq_ok, Except.ok.injEq, Capture.mk.injEq, exists_const, Prod.exists]
  have hstart : (⟨0, 0, []⟩ : CaptureScan) = captureAfter bytes [] := rfl
  have hspans (records : List NamedRecord) : ((records.map (NamedRecord.row bytes)).map
      fun row => (row.localAt, row.endAt)) = records.map fun r => r.localSpan bytes := by
    rw [List.map_map]
    rfl
  refine and_congr_right fun hlength => ?_
  constructor
  · rintro ⟨end', eocd, hfooter, ⟨hzero, hzero', hboth⟩, ⟨hpos, hlimit, hsum⟩, s, hrun, hat, last,
      hsweep, rfl, _, ⟨hroom, rfl⟩, manifestRow, hmanifest, mimeRow, hmime, b, hb, text, htext, rfl,
      c, hc, rfl, rfl, rfl, rfl⟩
    obtain ⟨hfind, rfl⟩ := findFooter_spec hlength.1 hfooter
    simp (disch := decide) only [u16_slice, u32_slice] at hzero hzero' hboth hpos hlimit hsum hroom
    simp (disch := decide) only [u16_slice, u32_slice] at hrun hsweep hat ⊢
    rw [hstart, repeatM_eq_ok_iff (captureRow_eq_ok_iff hroom)] at hrun
    obtain ⟨records, hcount, hsteps, rfl⟩ := hrun
    simp only [captureAfter, List.nil_append, hspans] at hat hsweep
    simp only [captureAfter, List.nil_append, rowOf_map, Option.map_eq_some_iff] at hmanifest hmime
    have hstructure : StructureAt bytes ⟨end', u16 bytes (end' + 10), u32 bytes (end' + 12),
        u32 bytes (end' + 16)⟩ records := by
      refine ⟨readEnd_eq_ok_iff.mpr ⟨hfind, ⟨hzero, hzero', hboth⟩, rfl, rfl, rfl, ?_, hlimit, hsum⟩,
        hcount, hsteps.imp fun _ _ _ _ h => h.1, ?_, sweep_localSpans_iff.mp hsweep⟩
      · simp only
        omega
      · simp only
        omega
    obtain ⟨r, hr, rfl⟩ := hmanifest
    obtain ⟨r', hr', rfl⟩ := hmime
    have hin {r : NamedRecord} (hr : r ∈ records) : (r.localSpan bytes).2 ≤ bytes.length := by
      have hle := hstructure.localSpan_mem_bounds hr
      simp only at hle
      omega
    rw [captureMember_row (hin (mem_names_of_recordOf hr).1)] at hc
    rw [captureMember_row (hin (mem_names_of_recordOf hr').1)] at hb
    refine ⟨_, records, hstructure, fun r hr => ?_, ⟨⟨r', b, hr', hb, htext⟩, r, hr, hc⟩, trivial,
      rfl, rfl⟩
    obtain ⟨front, back, -, -, hrow⟩ := hsteps.exists_of_mem hr
    exact hrow.short
  · rintro ⟨e, records, hstructure, hshort, ⟨⟨r, b, hr, hb, htext⟩, r', hr', hc⟩, rfl, rfl, rfl⟩
    obtain ⟨hsum, hbound⟩ := hstructure.bounds hlength.1
    obtain ⟨-, ⟨hzero, hzero', hboth⟩, hcount, hsize, hcentral, hpos, hlimit, -⟩ :=
      readEnd_eq_ok_iff.mp hstructure.readEnd
    have hnames := (mem_names_of_recordOf hr).2
    have hnames' := (mem_names_of_recordOf hr').2
    have hroom : e.centralStart + e.centralSize ≤ bytes.length := by omega
    have hin {r : NamedRecord} (hr : r ∈ records) : (r.localSpan bytes).2 ≤ bytes.length := by
      have hle := hstructure.localSpan_mem_bounds hr
      omega
    refine ⟨e.at', _, findFooter_eq hlength.1 hstructure hshort ⟨hnames, hnames'⟩, ?_⟩
    simp (disch := decide) only [u16_slice, u32_slice, ← hcount, ← hsize, ← hcentral]
    refine ⟨⟨hzero, hzero', by omega⟩, ⟨by omega, hlimit, hsum⟩, captureAfter bytes records, ?_, ?_, _,
      ?_, rfl, _, ⟨hroom, rfl⟩, r'.row bytes, ?_, r.row bytes, ?_, b, ?_, _, htext, rfl,
      manifestBytes, ?_, ?_⟩
    · rw [hstart, repeatM_eq_ok_iff (captureRow_eq_ok_iff hroom)]
      refine ⟨records, hstructure.count, hstructure.fits.imp fun front r back hsplit h => ⟨h, ?_⟩, rfl⟩
      refine hstructure.captureRoom hlength.1 hsplit h (hshort r ?_)
      rw [hsplit]
      exact List.mem_append_right _ List.mem_cons_self
    · have hends := hstructure.ends
      simp only [captureAfter]
      omega
    · rw [captureAfter, hspans]
      exact sweep_localSpans_iff.mpr hstructure.chain
    · rw [captureAfter, rowOf_map, hr']
      rfl
    · rw [captureAfter, rowOf_map, hr]
      rfl
    · rw [captureMember_row (hin (mem_names_of_recordOf hr).1), hb]
    · rw [captureMember_row (hin (mem_names_of_recordOf hr').1), hc]
    · exact ⟨trivial, rfl, rfl, rfl⟩

end Readers

/-- The name of an attachment, of 12 octets and the given number of octets. -/
def attachmentName (n : ℕ) : String := String.ofList ("attachments/".toList ++ List.replicate n 'a')

theorem length_encode_attachmentName (n : ℕ) : (Utf8.encode (attachmentName n)).length = 12 + n := by
  have hlead : (Utf8.encodeChars "attachments/".toList).length = 12 := by decide
  have htail : (Utf8.encodeChars (List.replicate n 'a')).length = n := by
    rw [Utf8.encodeChars, List.length_flatMap, List.map_replicate, List.sum_replicate_nat]
    exact Nat.mul_one n
  have htoList : (attachmentName n).toList = "attachments/".toList ++ List.replicate n 'a' :=
    String.toList_ofList
  rw [Utf8.encode, htoList, Utf8.encodeChars_append, List.length_append, htail]
  exact congrArg (· + n) hlead

theorem encode_marked (name : String) :
    Utf8.encode ("\uFEFF" ++ name) = Utf8.bom ++ Utf8.encode name := by
  have hmark : Utf8.encodeChars "\uFEFF".toList = Utf8.bom := by decide
  rw [Utf8.encode, String.toList_append, Utf8.encodeChars_append, hmark, Utf8.encode]

/-- The text decoder drops the mark in front of a name. -/
theorem decodeText_marked (name : String) :
    decodeText (Utf8.encode ("\uFEFF" ++ name)) = some name := by
  refine decodeText_eq_some_iff.mpr ⟨_, rfl, ?_⟩
  have hmark : "\uFEFF".toList = ['\uFEFF'] := by decide
  rw [Utf8.stripBom, String.toList_append, hmark]
  exact String.ofList_toList

/-- The name of an attachment is permitted up to 4096 octets. -/
theorem attachmentName_allowed {n : ℕ} (hpos : n ≠ 0) (hle : n ≤ 4084) :
    MemberAllowed sectionProfile ⟨attachmentName n, 0, []⟩ := by
  have htoList : (attachmentName n).toList = "attachments/".toList ++ List.replicate n 'a' :=
    String.toList_ofList
  have hmem {c : Char} : c ∈ (attachmentName n).toList ↔ c ∈ "attachments/".toList ∨ c = 'a' := by
    rw [htoList, List.mem_append, List.mem_replicate]
    exact or_congr_right (and_iff_right hpos)
  have hlead : "attachments/".toList = "attachments".toList ++ ['/'] := by decide
  have hsplit : (attachmentName n).toList.splitOn '/' =
      ["attachments".toList, List.replicate n 'a'] := by
    rw [htoList, hlead, List.append_assoc, List.singleton_append,
      List.splitOn_append_cons_self_of_not_mem (by decide), List.splitOn_eq_singleton]
    exact fun h => absurd (List.eq_of_mem_replicate h) (by decide)
  have htail : List.replicate n 'a' ≠ [] ∧ List.replicate n 'a' ≠ ['.'] ∧
      List.replicate n 'a' ≠ ['.', '.'] := by
    obtain ⟨n, rfl⟩ := Nat.exists_eq_succ_of_ne_zero hpos
    rw [List.replicate_succ]
    simp
  have hcontrols : ∀ c ∈ (attachmentName n).toList, isControl c = false := by
    intro c hc
    have hplain : ("attachments/".toList.all fun c => !isControl c) = true := by decide
    rcases hmem.mp hc with hc | rfl
    · simpa using List.all_eq_true.mp hplain c hc
    · decide
  have hcons : ∃ cs, (attachmentName n).toList = 'a' :: 't' :: cs := ⟨_, htoList⟩
  have hlength := length_encode_attachmentName n
  refine ⟨?_, ?_, by simp, .inl (by simp), by simp⟩
  · obtain ⟨cs, hcs⟩ := hcons
    have hslash : (attachmentName n).toList.contains '\\' = false := by
      rw [List.contains_eq_mem, decide_eq_false_iff_not, hmem]
      decide
    simp only [entryName, scalarString, Bool.false_or, Bool.and_eq_true, hsplit, hslash]
    refine ⟨⟨⟨⟨⟨by rw [hcs]; rfl, ?_, ?_⟩, rfl⟩, by rw [hcs]; rfl⟩, by rw [hcs]; rfl⟩, ?_⟩
    · rw [List.all_eq_true]
      exact fun c hc => by rw [hcontrols c hc]; rfl
    · rw [decide_eq_true_eq]
      omega
    · simp [htail]
  · have hstarts : startsWith (attachmentName n) "attachments/" = true := by
      rw [startsWith, htoList, List.isPrefixOf_iff_prefix]
      exact List.prefix_append _ _
    simp only [sectionProfile, hstarts, Bool.or_true]

/-- The first member of every container. -/
def mimetypeMember : Member := ⟨"mimetype", 0, Utf8.encode mimetypeText⟩

/-- The members of a container with an attachment. -/
def attachedMembers (name : String) : List Member :=
  [mimetypeMember, ⟨"kdna.json", 0, []⟩, ⟨name, 0, []⟩]

section Attached

variable {name raw : String}

/-- The spans of the local records of that container. -/
theorem localSpans_attached : localSpans 0 (attachedMembers raw) =
    [(0, 64), (64, 103), (103, 133 + (Utf8.encode raw).length)] := by
  have hmimetype : (Utf8.encode "mimetype").length = 8 := by decide
  have hmanifest : (Utf8.encode "kdna.json").length = 9 := by decide
  have htext : (Utf8.encode mimetypeText).length = 26 := by decide
  simp only [attachedMembers, mimetypeMember, localSpans, length_localRecord, hmimetype, hmanifest, htext,
    List.length_nil, List.cons.injEq, Prod.mk.injEq, and_true, true_and]
  omega

theorem length_localRecords_attached (raw : String) :
    (localRecords (attachedMembers raw)).length = 133 + (Utf8.encode raw).length := by
  have hchain := localSpans_chain 0 (attachedMembers raw)
  rw [localSpans_attached] at hchain
  obtain ⟨-, -, -, -, -, -, hlast⟩ := hchain
  have hends : 133 + (Utf8.encode raw).length = 0 + (localRecords (attachedMembers raw)).length :=
    hlast
  omega

theorem length_directory_attached (raw : String) :
    (directory 0 (attachedMembers raw)).length = 155 + (Utf8.encode raw).length := by
  have hmimetype : (Utf8.encode "mimetype").length = 8 := by decide
  have hmanifest : (Utf8.encode "kdna.json").length = 9 := by decide
  simp only [attachedMembers, mimetypeMember, directory, List.length_append, length_centralRecord, hmimetype,
    hmanifest, List.length_nil]
  omega

/-- The section parser returns an attachment under the name that its name field decodes to,
which may be shorter than the field. -/
theorem parseSectionContainer_attached (hlength : (Utf8.encode raw).length < 2 ^ 16)
    (hname : decodeText (Utf8.encode raw) = some name)
    (hallowed : MemberAllowed sectionProfile ⟨name, 0, []⟩)
    (hfresh : name ≠ "mimetype" ∧ name ≠ "kdna.json") (inflate : Inflate) :
    parseSectionContainer inflate (written (attachedMembers raw)) = .ok (attachedMembers name) := by
  have hlocals := length_localRecords_attached raw
  have hdirectory := length_directory_attached raw
  have hbytes : (written (attachedMembers raw)).length = 310 + 2 * (Utf8.encode raw).length := by
    rw [written, List.length_append, List.length_append, length_endFixed]
    omega
  have hbound : (localRecords (attachedMembers raw)).length < 2 ^ 32 := by omega
  have hscan : readMembers sectionProfile inflate (written (attachedMembers raw))
      (localRecords (attachedMembers raw)).length 3
      (scanAfter (localRecords (attachedMembers raw)).length []) =
        .ok { scanAfter (localRecords (attachedMembers raw)).length (attachedMembers raw) with
          members := attachedMembers name } := by
    let start := (localRecords (attachedMembers raw)).length
    have hfirst : readMember sectionProfile inflate (written (attachedMembers raw)) start
        (scanAfter start []) = .ok (scanAfter start [mimetypeMember]) :=
      readMember_scanAfter inflate [] [⟨"kdna.json", 0, []⟩, ⟨raw, 0, []⟩] hbound (by decide)
        (decodeText_encode (by decide)) (by decide) (by simp) (by decide) (fun _ => rfl)
    have hsecond : readMember sectionProfile inflate (written (attachedMembers raw)) start
        (scanAfter start [mimetypeMember]) =
          .ok (scanAfter start [mimetypeMember, ⟨"kdna.json", 0, []⟩]) :=
      readMember_scanAfter inflate [mimetypeMember] [⟨raw, 0, []⟩] hbound (by decide)
        (decodeText_encode (by decide)) (by decide) (by decide) (by decide) (by simp)
    have hthird : readMember sectionProfile inflate (written (attachedMembers raw)) start
        (scanAfter start [mimetypeMember, ⟨"kdna.json", 0, []⟩]) =
          .ok { scanAfter start (attachedMembers raw) with members := attachedMembers name } :=
      readMember_scanAfter inflate [mimetypeMember, ⟨"kdna.json", 0, []⟩] [] hbound hlength hname
        hallowed (by simp [mimetypeMember, hfresh.1.symm, hfresh.2.symm]) (by simp; decide) (by simp)
    rw [readMembers, hfirst, ok_bind, readMembers, hsecond, ok_bind, readMembers, hthird, ok_bind,
      readMembers]
  have hentry : entry (attachedMembers name) "mimetype" = some (Utf8.encode mimetypeText) := by
    simp [entry, attachedMembers, mimetypeMember]
  have htext : decodeText (Utf8.encode mimetypeText) = some mimetypeText := by decide
  have hrequired : ∀ name' ∈ sectionProfile.required, (entry (attachedMembers name) name').isSome := by
    simp [sectionProfile, entry_isSome_iff, attachedMembers]
  have hchain := localSpans_chain 0 (attachedMembers raw)
  have hsweep : sweep 0 (localSpans 0 (attachedMembers raw)) =
      .ok (0 + (localRecords (attachedMembers raw)).length) :=
    (sweep_eq_ok_iff fun r hr => (hchain.mem_bounds hr).2.1).mpr hchain
  have hlimit : 22 ≤ (written (attachedMembers raw)).length ∧
      (written (attachedMembers raw)).length ≤ limitContainer := by
    rw [limitContainer]
    omega
  rw [parseSectionContainer, parse, require_bind_of_pos hlimit,
    readEnd_written (by simp [attachedMembers]) (by simp [attachedMembers]) hbound (by omega), ok_bind]
  have hcount : (attachedMembers raw).length = 3 := rfl
  have hstart : (⟨(localRecords (attachedMembers raw)).length, 0, [], []⟩ : Scan) =
      scanAfter (localRecords (attachedMembers raw)).length [] := by
    simp [scanAfter, directory, localSpans]
  simp only [hcount, hstart]
  rw [hscan, ok_bind]
  simp only [scanAfter]
  rw [sortRanges_of_chain hchain, hsweep, ok_bind, require_bind_of_pos (Nat.zero_add _),
    require_bind_of_pos trivial, hentry, orFail, ok_bind, htext, orFail, ok_bind,
    require_bind_of_pos rfl, require_bind_of_pos hrequired]
  rfl

end Attached

/-- A record behind the written ones is the next written one. -/
theorem fits_written (done todo : List Member) {m : Member} {before : List NamedRecord}
    {r : NamedRecord} (hbound : (localRecords (done ++ m :: todo)).length < 2 ^ 32)
    (hn : (Utf8.encode m.name).length < 2 ^ 16) (hsize : m.bytes.length < 2 ^ 32)
    (hmode : m.mode < 2 ^ 16)
    (hfits : Fits (written (done ++ m :: todo)) (localRecords (done ++ m :: todo)).length before r)
    (hspan : spanSum before = (directory 0 done).length) :
    r.header.length = (Utf8.encode m.name).length ∧
      spanSum (before ++ [r]) = (directory 0 (done ++ [m])).length := by
  obtain ⟨-, d, hcentral⟩ := written_split done todo m
  have hoffset : (localRecords done).length < 2 ^ 32 := by
    rw [localRecords_append, List.length_append] at hbound
    omega
  have hheader := centralHeader_written hcentral hn hsize hmode hoffset
  rw [List.length_append, ← hspan, ← hfits.centralAt, ← hfits.header] at hheader
  constructor
  · rw [hheader]
  · have hrecord : r.header.span = 46 + (Utf8.encode m.name).length := by
      rw [hheader]
      rfl
    rw [spanSum_append, hspan, directory_append, List.length_append, hrecord, directory, directory,
      List.append_nil, length_centralRecord]

/-- The structural checks of the parser list a container whose attachment has a name field
longer than its name. -/
theorem listSections_attached {name raw : String} (hlength : (Utf8.encode raw).length < 2 ^ 16)
    (hname : decodeText (Utf8.encode raw) = some name)
    (hallowed : MemberAllowed sectionProfile ⟨name, 0, []⟩)
    (hfresh : name ≠ "mimetype" ∧ name ≠ "kdna.json") (inflate : Inflate) :
    ∃ records, listSections inflate (written (attachedMembers raw)) = .ok records ∧
      ∃ r ∈ records, r.header.length = (Utf8.encode raw).length := by
  have hlocals := length_localRecords_attached raw
  have hdirectory := length_directory_attached raw
  have hbound : (localRecords (attachedMembers raw)).length < 2 ^ 32 := by omega
  have hcount : (attachedMembers raw).length = 3 := rfl
  have hend := readEnd_written (by omega) (by omega) hbound (by omega)
  obtain ⟨records, hlist, -⟩ := parseSectionContainer_eq_ok_iff.mp
    (parseSectionContainer_attached hlength hname hallowed hfresh inflate)
  obtain ⟨-, e, -, hstructure, -⟩ := listSections_eq_ok_iff.mp hlist
  obtain rfl := Except.ok.inj (hend.symm.trans hstructure.readEnd)
  have hcount : records.length = 3 := hstructure.count
  obtain ⟨first, second, third, rfl⟩ := List.length_eq_three.mp hcount
  obtain ⟨hfirst, hsecond, hthird, -⟩ := hstructure.fits
  obtain ⟨-, hspan⟩ := fits_written [] [⟨"kdna.json", 0, []⟩, ⟨raw, 0, []⟩] (m := mimetypeMember)
    hbound (by decide) (by decide) (by decide) hfirst rfl
  obtain ⟨-, hspan⟩ := fits_written [mimetypeMember] [⟨raw, 0, []⟩] (m := ⟨"kdna.json", 0, []⟩)
    hbound (by decide) (by decide) (by decide) hsecond hspan
  obtain ⟨hheader, -⟩ := fits_written [mimetypeMember, ⟨"kdna.json", 0, []⟩] [] (m := ⟨raw, 0, []⟩)
    hbound hlength (by simp) (by simp) hthird hspan
  exact ⟨_, hlist, third, by simp, hheader⟩

end Kdna.Container

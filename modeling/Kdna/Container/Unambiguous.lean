import Kdna.Container.Writer
import Mathlib.Data.List.Permutation

/-!
# What an accepted container determines

The directory of a container is a chain of records, each as long as its own
fields say. An accepted container returns one member for each record, in order;
its local records tile the octets before the directory and the directory records
the octets up to the end record. The names and the `mimetype` octets are the ones
stored exactly when none of these fields starts with a byte order mark, which the
text decoder drops.
-/

namespace Kdna.Container

/-- A directory record: its offset and its fixed fields. -/
structure Record where
  centralAt : ℕ
  header : CentralHeader

/-- The records that follow one another from an offset. -/
def recordsFrom (bytes : Bytes) : ℕ → ℕ → List Record
  | 0, _ => []
  | count + 1, offset =>
    ⟨offset, centralHeader bytes offset⟩ ::
      recordsFrom bytes count (offset + (centralHeader bytes offset).span)

namespace Record

/-- The extent of the directory record. -/
def centralSpan (r : Record) : Span := (r.centralAt, r.centralAt + r.header.span)

/-- The extent of the local record: header, name, extra field and stored octets. -/
def localSpan (bytes : Bytes) (r : Record) : Span :=
  (r.header.localAt, r.header.dataAt bytes + r.header.compressed)

/-- The name field of the directory record. -/
def centralName (bytes : Bytes) (r : Record) : Bytes :=
  Bytes.slice bytes (r.centralAt + 46) r.header.length

/-- The name field of the local record. -/
def localName (bytes : Bytes) (r : Record) : Bytes :=
  Bytes.slice bytes (r.header.localAt + 30) r.header.length

/-- The stored octets. -/
def stored (bytes : Bytes) (r : Record) : Bytes :=
  Bytes.slice bytes (r.header.dataAt bytes) r.header.compressed

end Record

/-- The records of a container whose end record is `e`. -/
def EndRecord.records (e : EndRecord) (bytes : Bytes) : List Record :=
  recordsFrom bytes e.count e.centralStart

/-- The octets determine the members, and the members the octets that name them. -/
structure UnambiguousAt (bytes : Bytes) (e : EndRecord) (members : List Member) : Prop where
  local_tiles : Tiles ((e.records bytes).map (Record.localSpan bytes)) 0 e.centralStart
  central_tiles : Tiles ((e.records bytes).map Record.centralSpan) e.centralStart e.at'
  names : List.Forall₂ (fun r m => r.centralName bytes = Utf8.encode m.name ∧
    r.localName bytes = Utf8.encode m.name) (e.records bytes) members
  nodup : (members.map Member.name).Nodup
  mimetype : entry members "mimetype" = some (Utf8.encode mimetypeText)

/-- No name field and not the content of the first record starts with a byte
order mark. -/
def UnmarkedAt (bytes : Bytes) (e : EndRecord) : Prop :=
  (∀ r ∈ e.records bytes, ¬ Utf8.bom <+: r.centralName bytes) ∧
    ∀ r ∈ (e.records bytes).head?, ¬ Utf8.bom <+: r.stored bytes

/-- The member `m` was read at the record `r`. -/
structure ReadFrom (bytes : Bytes) (r : Record) (m : Member) : Prop where
  name : decodeText (r.centralName bytes) = some m.name
  localName : r.localName bytes = r.centralName bytes

/-- What one round of the directory loop does. -/
structure ReadStep (bytes : Bytes) (s : Scan) (m : Member) (s' : Scan) : Prop where
  offset : s'.offset = s.offset + (centralHeader bytes s.offset).span
  members : s'.members = s.members ++ [m]
  ranges : s'.ranges =
    s.ranges ++ [Record.localSpan bytes ⟨s.offset, centralHeader bytes s.offset⟩]
  read : ReadFrom bytes ⟨s.offset, centralHeader bytes s.offset⟩ m
  fresh : ∀ m' ∈ s.members, m'.name ≠ m.name
  first : s.members = [] → m.name = "mimetype" ∧
    m.bytes = Record.stored bytes ⟨s.offset, centralHeader bytes s.offset⟩

/-- A round that succeeds reads one member at the record it stands at. -/
theorem readMember_step {profile : Profile} {inflate : Inflate} {bytes : Bytes}
    {centralStart : ℕ} {s s' : Scan}
    (h : readMember profile inflate bytes centralStart s = .ok s') :
    ∃ m, ReadStep bytes s m s' := by
  simp only [readMember, bind_eq_ok_iff, require_eq_ok_iff, orFail_eq_ok_iff, pure, Except.pure,
    Except.ok.injEq, exists_const] at h
  obtain ⟨-, -, -, name, hname, ⟨-, hfresh, -, -⟩, -, -, -, -, -, -, -, -, -, hlocal, decoded,
    hdecode, -, hfirst, rfl⟩ := h
  refine ⟨⟨name, (centralHeader bytes s.offset).mode, decoded⟩, rfl, rfl, rfl, ⟨hname, hlocal⟩,
    hfresh, fun hnil => ?_⟩
  obtain ⟨hmimetype, -, hmethod⟩ := hfirst hnil
  rw [hmethod, decodeEntry_stored, Except.ok.injEq] at hdecode
  exact ⟨hmimetype, hdecode.symm⟩

/-- What the directory loop does: one member for each of its records, in order. -/
structure ReadRun (bytes : Bytes) (records : List Record) (s : Scan) (read : List Member)
    (s' : Scan) : Prop where
  chain : SpanChain s.offset (records.map Record.centralSpan) s'.offset
  members : s'.members = s.members ++ read
  ranges : s'.ranges = s.ranges ++ records.map (Record.localSpan bytes)
  reads : List.Forall₂ (ReadFrom bytes) records read
  nodup : (s.members.map Member.name).Nodup → (s'.members.map Member.name).Nodup

/-- A run of the loop reads the records that follow one another from its offset. -/
theorem readMembers_run {profile : Profile} {inflate : Inflate} {bytes : Bytes}
    {centralStart count : ℕ} {s s' : Scan}
    (h : readMembers profile inflate bytes centralStart count s = .ok s') :
    ∃ read, ReadRun bytes (recordsFrom bytes count s.offset) s read s' := by
  induction count generalizing s with
  | zero =>
    cases h
    exact ⟨[], rfl, by simp, by simp [recordsFrom], .nil, id⟩
  | succ count ih =>
    rw [readMembers, bind_eq_ok_iff] at h
    obtain ⟨s₁, hstep, hrest⟩ := h
    obtain ⟨m, hm⟩ := readMember_step hstep
    obtain ⟨read, hread⟩ := ih hrest
    rw [hm.offset] at hread
    refine ⟨m :: read, ⟨rfl, Nat.le_add_right _ _, ?_⟩, ?_, ?_, .cons hm.read hread.reads, ?_⟩
    · simpa [Record.centralSpan, hm.offset] using hread.chain
    · simp [hread.members, hm.members]
    · simp [hread.ranges, hm.ranges, recordsFrom]
    · intro hnodup
      refine hread.nodup ?_
      rw [hm.members, List.map_append, List.nodup_append]
      refine ⟨hnodup, by simp, ?_⟩
      rintro _ ha _ hb rfl
      obtain ⟨m', hm', hname⟩ := List.mem_map.mp ha
      rw [List.map_singleton, List.mem_singleton] at hb
      exact hm.fresh m' hm' (hname.trans hb)

/-- What a parser has established when it returns. -/
structure Accepted (bytes : Bytes) (e : EndRecord) (members : List Member) : Prop where
  readEnd : readEnd bytes = .ok e
  local_tiles : Tiles ((e.records bytes).map (Record.localSpan bytes)) 0 e.centralStart
  central_tiles : Tiles ((e.records bytes).map Record.centralSpan) e.centralStart e.at'
  reads : List.Forall₂ (ReadFrom bytes) (e.records bytes) members
  nodup : (members.map Member.name).Nodup
  first : ∃ r rs m ms, e.records bytes = r :: rs ∧ members = m :: ms ∧ m.name = "mimetype" ∧
    m.bytes = r.stored bytes
  mimetype : ∃ b, entry members "mimetype" = some b ∧ decodeText b = some mimetypeText

/-- The first record of a non-empty run is `mimetype`, stored. -/
theorem readMembers_first {profile : Profile} {inflate : Inflate} {bytes : Bytes}
    {centralStart count offset : ℕ} {s' : Scan} (hcount : count ≠ 0)
    (h : readMembers profile inflate bytes centralStart count ⟨offset, 0, [], []⟩ = .ok s') :
    ∃ r rs m ms, recordsFrom bytes count offset = r :: rs ∧ s'.members = m :: ms ∧
      m.name = "mimetype" ∧ m.bytes = r.stored bytes := by
  obtain ⟨count, rfl⟩ := Nat.exists_eq_succ_of_ne_zero hcount
  rw [readMembers, bind_eq_ok_iff] at h
  obtain ⟨s₁, hstep, hrest⟩ := h
  obtain ⟨m, hm⟩ := readMember_step hstep
  obtain ⟨read, hread⟩ := readMembers_run hrest
  obtain ⟨hname, hbytes⟩ := hm.first rfl
  refine ⟨_, _, m, read, rfl, ?_, hname, hbytes⟩
  rw [hread.members, hm.members]
  rfl

/-- An end record that passes its checks announces at least one member. -/
theorem readEnd_count_ne_zero {bytes : Bytes} {e : EndRecord} (h : readEnd bytes = .ok e) :
    e.count ≠ 0 := by
  simp only [readEnd, bind_eq_ok_iff, require_eq_ok_iff, orFail_eq_ok_iff, exists_const, pure,
    Except.pure, Except.ok.injEq] at h
  obtain ⟨i, -, -, ⟨hcount, -, -⟩, rfl⟩ := h
  exact hcount

/-- A local record ends no earlier than it starts. -/
theorem Record.localSpan_le (bytes : Bytes) (r : Record) :
    (r.localSpan bytes).1 ≤ (r.localSpan bytes).2 := by
  simp only [Record.localSpan, CentralHeader.dataAt]
  omega

/-- A parser that returns has established all of `Accepted`. -/
theorem accepted_of_parse {profile : Profile} {inflate : Inflate} {bytes : Bytes}
    {ms : List Member} (h : parse profile inflate bytes = .ok ms) :
    ∃ e, Accepted bytes e ms := by
  simp only [parse, bind_eq_ok_iff, require_eq_ok_iff, orFail_eq_ok_iff, exists_const, pure,
    Except.pure, Except.ok.injEq] at h
  obtain ⟨-, e, hend, s, hscan, last, hsweep, hlast, hoffset, b, hentry, text, htext, rfl, -,
    rfl⟩ := h
  obtain ⟨read, hrun⟩ := readMembers_run hscan
  have hmembers : s.members = read := hrun.members
  have hranges : s.ranges = (e.records bytes).map (Record.localSpan bytes) := hrun.ranges
  have hsorted := sortRanges_perm s.ranges
  have hwidth : ∀ r ∈ sortRanges s.ranges, r.1 ≤ r.2 := by
    intro r hr
    rw [hsorted.mem_iff, hranges, List.mem_map] at hr
    obtain ⟨record, -, rfl⟩ := hr
    exact record.localSpan_le bytes
  have hlocal : Tiles s.ranges 0 last := ((sweep_eq_ok_iff hwidth).mp hsweep).tiles.perm hsorted
  have hcentral := hrun.chain.tiles
  have hfirst := readMembers_first (readEnd_count_ne_zero hend) hscan
  refine ⟨e, hend, ?_, ?_, ?_, hrun.nodup List.nodup_nil, hfirst, b, hentry, htext⟩
  · rw [← hranges, ← hlast]
    exact hlocal
  · rw [← hoffset]
    exact hcentral
  · rw [hmembers]
    exact hrun.reads

/-- The names are the stored ones exactly when no name field starts with the mark. -/
theorem Accepted.names_iff {bytes : Bytes} {e : EndRecord} {ms : List Member}
    (h : Accepted bytes e ms) :
    List.Forall₂ (fun r m => r.centralName bytes = Utf8.encode m.name ∧
      r.localName bytes = Utf8.encode m.name) (e.records bytes) ms ↔
        ∀ r ∈ e.records bytes, ¬ Utf8.bom <+: r.centralName bytes := by
  have hreads := h.reads
  clear h
  generalize e.records bytes = records at hreads
  induction hreads with
  | nil => simp
  | @cons r m rs ms hread hreads ih =>
    have hname := encode_decodeText_iff hread.name
    have ih : List.Forall₂ _ rs ms ↔ _ := ih
    rw [List.forall₂_cons, List.forall_mem_cons, ih, hread.localName, and_self, ← hname, eq_comm]

/-- The `mimetype` octets are the constant exactly when the stored octets of the
first record do not start with the mark. -/
theorem Accepted.mimetype_iff {bytes : Bytes} {e : EndRecord} {ms : List Member}
    (h : Accepted bytes e ms) :
    entry ms "mimetype" = some (Utf8.encode mimetypeText) ↔
      ∀ r ∈ (e.records bytes).head?, ¬ Utf8.bom <+: r.stored bytes := by
  obtain ⟨r, rs, m, ms, hrecords, rfl, hname, hbytes⟩ := h.first
  obtain ⟨b, hentry, htext⟩ := h.mimetype
  have hb : b = r.stored bytes := by
    simpa [entry, hname, hbytes, eq_comm] using hentry
  subst hb
  rw [hrecords, hentry, Option.some.injEq, eq_comm, encode_decodeText_iff htext]
  simp

/-- An accepted container is unambiguous exactly when it is unmarked. -/
theorem Accepted.unambiguous_iff {bytes : Bytes} {e : EndRecord} {ms : List Member}
    (h : Accepted bytes e ms) : UnambiguousAt bytes e ms ↔ UnmarkedAt bytes e := by
  constructor
  · intro hu
    exact ⟨h.names_iff.mp hu.names, h.mimetype_iff.mp hu.mimetype⟩
  · rintro ⟨hnames, hstored⟩
    exact ⟨h.local_tiles, h.central_tiles, h.names_iff.mpr hnames, h.nodup,
      h.mimetype_iff.mpr hstored⟩

/-- The container is unambiguous at its end record. -/
def Unambiguous (bytes : Bytes) (members : List Member) : Prop :=
  ∃ e, readEnd bytes = .ok e ∧ UnambiguousAt bytes e members

/-- No name field and not the content of the first member starts with the mark. -/
def Unmarked (bytes : Bytes) : Prop := ∀ e, readEnd bytes = .ok e → UnmarkedAt bytes e

/-- What either parser accepts is unambiguous exactly when no name field and not
the content of `mimetype` starts with a byte order mark. -/
theorem parse_unambiguous_iff (inflate : Inflate) (bytes : Bytes) (ms : List Member)
    (h : parseContainer inflate bytes = .ok ms ∨ parseSectionContainer inflate bytes = .ok ms) :
    Unambiguous bytes ms ↔ Unmarked bytes := by
  obtain ⟨e, he⟩ : ∃ e, Accepted bytes e ms := h.elim accepted_of_parse accepted_of_parse
  have hend : ∀ e', readEnd bytes = .ok e' → e' = e := by
    intro e' he'
    rw [he.readEnd, Except.ok.injEq] at he'
    exact he'.symm
  constructor
  · rintro ⟨e', he', hu⟩ e'' he''
    rw [hend e' he'] at hu
    rw [hend e'' he'']
    exact he.unambiguous_iff.mp hu
  · intro hfree
    exact ⟨e, he.readEnd, he.unambiguous_iff.mpr (hfree e he.readEnd)⟩

/-- The members of a container whose second name field is U+FEFF and `kdna.json`,
as written and as returned. -/
def markedMembers (name : String) : List Member :=
  [⟨"mimetype", 0, Utf8.encode mimetypeText⟩, ⟨name, 0, []⟩]

/-- The container with the marked name. -/
def markedBytes : Bytes :=
  localRecords (markedMembers "\uFEFFkdna.json") ++
    (directory 0 (markedMembers "\uFEFFkdna.json") ++ endFixed 2 112 106)

theorem readEnd_markedBytes : readEnd markedBytes = .ok ⟨218, 2, 112, 106⟩ := by decide_cbv

theorem readMembers_markedBytes :
    readMembers sectionProfile none markedBytes 106 2 ⟨106, 0, [], []⟩ =
      .ok ⟨218, 26, markedMembers "kdna.json", [(0, 64), (64, 106)]⟩ := by
  decide +kernel

/-- The section parser accepts it and returns the name without the mark. -/
theorem parseSectionContainer_markedBytes :
    parseSectionContainer none markedBytes = .ok (markedMembers "kdna.json") := by
  have hchain : SpanChain 0 [(0, 64), (64, 106)] 106 := by simp [SpanChain]
  have hentry : entry (markedMembers "kdna.json") "mimetype" =
      some (Utf8.encode mimetypeText) := by decide
  have htext : decodeText (Utf8.encode mimetypeText) = some mimetypeText := by decide
  have hrequired : ∀ name ∈ sectionProfile.required,
      (entry (markedMembers "kdna.json") name).isSome := by decide
  have hlength : 22 ≤ markedBytes.length ∧ markedBytes.length ≤ limitContainer := by
    decide_cbv
  have hsweep : sweep 0 [(0, 64), (64, 106)] = .ok 106 := by decide
  rw [parseSectionContainer, parse, require_bind_of_pos hlength, readEnd_markedBytes, ok_bind]
  simp only [readMembers_markedBytes, ok_bind]
  rw [sortRanges_of_chain hchain, hsweep, ok_bind, require_bind_of_pos rfl,
    require_bind_of_pos trivial, hentry, orFail, ok_bind, htext, orFail, ok_bind,
    require_bind_of_pos rfl, require_bind_of_pos hrequired]
  rfl

/-- Not every accepted container is unambiguous. -/
theorem parse_ambiguous :
    ¬ ∀ (inflate : Inflate) (bytes : Bytes) (ms : List Member),
      parseContainer inflate bytes = .ok ms ∨ parseSectionContainer inflate bytes = .ok ms →
        Unambiguous bytes ms := by
  intro hall
  obtain ⟨e, he, hu⟩ := hall none markedBytes _ (.inr parseSectionContainer_markedBytes)
  rw [readEnd_markedBytes, Except.ok.injEq] at he
  subst he
  rcases hu.names with _ | ⟨-, _ | ⟨⟨hname, -⟩, -⟩⟩
  revert hname
  decide

/-- The equivalence at that container: it is marked and its stored name is not the
returned one. -/
theorem parse_unambiguous_iff_markedBytes :
    Unambiguous markedBytes (markedMembers "kdna.json") ↔ Unmarked markedBytes :=
  parse_unambiguous_iff none _ _ (.inr parseSectionContainer_markedBytes)

end Kdna.Container

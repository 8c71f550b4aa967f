import Kdna.Container.Unambiguous
import Kdna.Data.Loop

/-!
# The structural checks of the section parser

What `parseSectionContainer` checks of a container without the octets of its members:
the end record, the directory records with their local headers, and the tiling of both
areas. The octets of `mimetype` and `kdna.json` are looked at, as every reader of a
section container does; those of the other members are left for later.
-/

namespace Kdna.Container

/-- A directory record with the name it decodes to. -/
structure NamedRecord extends Record where
  name : String

/-- The loop state of `readMember` with records in the place of members. -/
structure ListScan where
  offset : ℕ
  total : ℕ
  records : List NamedRecord
  ranges : List Span

/-- One round of the directory loop of the section parser, less what it does with the
octets of the member. -/
def listRecord (bytes : Bytes) (centralStart : ℕ) (s : ListScan) : Except Failure ListScan := do
  require (s.offset + 46 ≤ bytes.length) Failure.coreInvalid
  let h := centralHeader bytes s.offset
  require (h.signature = 0x02014b50) Failure.coreInvalid
  require (s.offset + h.span ≤ bytes.length) Failure.coreInvalid
  let nameBytes := Bytes.slice bytes (s.offset + 46) h.length
  let name ← orFail Failure.malformedText (decodeText nameBytes)
  require (entryName name ∧ (∀ r ∈ s.records, r.name ≠ name) ∧ h.flags &&& 0xF7FF = 0 ∧
    h.disk = 0) Failure.coreInvalid
  let type := h.mode &&& 0o170000
  require (type = 0 ∨ type = 0o100000) Failure.coreInvalid
  require (sectionProfile.allowed name) Failure.coreInvalid
  require (sectionProfile.storedOnly name → h.method = 0) Failure.coreInvalid
  require (sizesAllowed h s.total) Failure.coreInvalid
  require (h.localAt + 30 ≤ bytes.length) Failure.coreInvalid
  require (h.matchesLocal bytes) Failure.coreInvalid
  let start := h.dataAt bytes
  require (h.localAt + 30 + h.length ≤ bytes.length) Failure.coreInvalid
  require (start + h.compressed ≤ bytes.length) Failure.coreInvalid
  require (start + h.compressed ≤ centralStart ∧
    ∀ r ∈ s.ranges, ¬(h.localAt < r.2 ∧ r.1 < start + h.compressed)) Failure.coreInvalid
  require (Bytes.slice bytes (h.localAt + 30) h.length = nameBytes) Failure.coreInvalid
  require (s.records = [] → name = "mimetype" ∧ h.localAt = 0 ∧ h.method = 0)
    Failure.coreInvalid
  return { offset := s.offset + h.span
           total := s.total + h.size
           records := s.records ++ [⟨⟨s.offset, h⟩, name⟩]
           ranges := s.ranges ++ [(h.localAt, start + h.compressed)] }

/-- The octets of a member behind their checks. -/
def body (inflate : Inflate) (bytes : Bytes) (r : Record) : Except Failure Bytes := do
  let decoded ← decodeEntry inflate r.header.method (r.stored bytes)
  require (decoded.length = r.header.size ∧ crc32 decoded = r.header.crc) Failure.coreInvalid
  return decoded

/-- The record of a name. -/
def recordOf (records : List NamedRecord) (name : String) : Option NamedRecord :=
  records.find? fun r => r.name = name

/-- The structural checks of `parseSectionContainer`. -/
def listSections (inflate : Inflate) (bytes : Bytes) : Except Failure (List NamedRecord) := do
  require (22 ≤ bytes.length ∧ bytes.length ≤ limitContainer) Failure.coreInvalid
  let e ← readEnd bytes
  let s ← repeatM (listRecord bytes e.centralStart) e.count ⟨e.centralStart, 0, [], []⟩
  let physicalEnd ← sweep 0 (sortRanges s.ranges)
  require (physicalEnd = e.centralStart) Failure.coreInvalid
  require (s.offset = e.at') Failure.coreInvalid
  let mimetype ← orFail Failure.coreInvalid (recordOf s.records "mimetype")
  let text ← orFail Failure.malformedText (decodeText (← body inflate bytes mimetype.toRecord))
  require (text = mimetypeText) Failure.coreInvalid
  let manifest ← orFail Failure.coreInvalid (recordOf s.records "kdna.json")
  let _ ← body inflate bytes manifest.toRecord
  return s.records

section Parse

variable {inflate : Inflate} {bytes : Bytes} {centralStart : ℕ}

/-- The member that the parser reports for a record. -/
def IsMember (inflate : Inflate) (bytes : Bytes) (r : NamedRecord) (m : Member) : Prop :=
  m.name = r.name ∧ m.mode = r.header.mode ∧ body inflate bytes r.toRecord = .ok m.bytes

/-- The parser and its structural part stand at the same record. -/
structure SameScan (inflate : Inflate) (bytes : Bytes) (s : Scan) (t : ListScan) : Prop where
  offset : s.offset = t.offset
  total : s.total = t.total
  ranges : s.ranges = t.ranges
  members : List.Forall₂ (IsMember inflate bytes) t.records s.members

/-- The names of members are those of their records. -/
theorem forall_member_iff {records : List NamedRecord} {members : List Member}
    (h : List.Forall₂ (IsMember inflate bytes) records members) (p : String → Prop) :
    (∀ m ∈ members, p m.name) ↔ ∀ r ∈ records, p r.name := by
  induction h with
  | nil => simp
  | cons hm _ ih => rw [List.forall_mem_cons, List.forall_mem_cons, ih, hm.1]

theorem eq_nil_iff_of_forall₂ {records : List NamedRecord} {members : List Member}
    (h : List.Forall₂ (IsMember inflate bytes) records members) : members = [] ↔ records = [] := by
  cases h <;> simp

/-- A round of the parser is a round of its structural part and a member with good octets. -/
theorem readMember_eq_ok_iff {s s' : Scan} {t : ListScan} (h : SameScan inflate bytes s t) :
    readMember sectionProfile inflate bytes centralStart s = .ok s' ↔
      ∃ t' r m, listRecord bytes centralStart t = .ok t' ∧ t'.records = t.records ++ [r] ∧
        IsMember inflate bytes r m ∧ s' = ⟨t'.offset, t'.total, s.members ++ [m], t'.ranges⟩ := by
  obtain ⟨offset, total, members, ranges⟩ := s
  obtain ⟨_, _, records, _⟩ := t
  obtain ⟨rfl, rfl, rfl, hmembers⟩ := h
  dsimp only at hmembers ⊢
  have hfresh (name : String) := forall_member_iff hmembers (· ≠ name)
  have hnil := eq_nil_iff_of_forall₂ hmembers
  simp only [readMember, listRecord, bind_eq_ok_iff, require_eq_ok_iff, orFail_eq_ok_iff,
    pure_eq_ok, Except.ok.injEq, exists_const, hfresh, hnil]
  constructor
  · rintro ⟨hroom, hsignature, hspan, name, hname, hrow, htype, hallowed, hstored, hsizes, hlocal,
      hmatches, hlocalName, hdata, hends, hsame, decoded, hdecoded, hbody, hfirst, rfl⟩
    refine ⟨_, _, ⟨name, _, decoded⟩, ⟨hroom, hsignature, hspan, name, hname, hrow, htype, hallowed,
      hstored, hsizes, hlocal, hmatches, hlocalName, hdata, hends, hsame, hfirst, rfl⟩, rfl,
      ⟨rfl, rfl, ?_⟩, rfl⟩
    simp only [body, bind_eq_ok_iff, require_eq_ok_iff, pure_eq_ok, Except.ok.injEq, exists_const]
    exact ⟨decoded, hdecoded, hbody, rfl⟩
  · rintro ⟨t', r, ⟨name', mode, decoded⟩, ⟨hroom, hsignature, hspan, name, hname, hrow, htype,
      hallowed, hstored, hsizes, hlocal, hmatches, hlocalName, hdata, hends, hsame, hfirst, rfl⟩,
      hrecord, ⟨hmember, hmode, hbody⟩, rfl⟩
    obtain rfl := List.singleton_inj.mp (List.append_cancel_left hrecord)
    obtain rfl : name' = name := hmember
    obtain rfl : mode = (centralHeader bytes offset).mode := hmode
    simp only [body, bind_eq_ok_iff, require_eq_ok_iff, pure_eq_ok, Except.ok.injEq,
      exists_const] at hbody
    obtain ⟨_, hdecoded, hbody, rfl⟩ := hbody
    exact ⟨hroom, hsignature, hspan, name', hname, hrow, htype, hallowed, hstored, hsizes, hlocal,
      hmatches, hlocalName, hdata, hends, hsame, _, hdecoded, hbody, hfirst, rfl⟩

/-- A round of the structural part adds one record. -/
theorem listRecord_records {t t' : ListScan} (h : listRecord bytes centralStart t = .ok t') :
    ∃ r, t'.records = t.records ++ [r] := by
  simp only [listRecord, bind_eq_ok_iff, require_eq_ok_iff, orFail_eq_ok_iff, pure_eq_ok,
    Except.ok.injEq, exists_const] at h
  obtain ⟨-, -, -, name, -, -, -, -, -, -, -, -, -, -, -, -, -, rfl⟩ := h
  exact ⟨_, rfl⟩

/-- A run of the structural part extends its records. -/
theorem listRecords_prefix {t t' : ListScan} {count : ℕ}
    (h : repeatM (listRecord bytes centralStart) count t = .ok t') : t.records <+: t'.records := by
  refine repeatM_rel (R := fun t t' => t.records <+: t'.records) (fun t => List.prefix_rfl)
    (fun _ _ _ => List.IsPrefix.trans) (fun t t' hstep => ?_) h
  obtain ⟨r, hr⟩ := listRecord_records hstep
  exact ⟨[r], hr.symm⟩

/-- A run of the parser is a run of its structural part and members with good octets. -/
theorem readMembers_eq_ok_iff {s s' : Scan} {t : ListScan} {count : ℕ}
    (h : SameScan inflate bytes s t) :
    readMembers sectionProfile inflate bytes centralStart count s = .ok s' ↔
      ∃ t' records members, repeatM (listRecord bytes centralStart) count t = .ok t' ∧
        t'.records = t.records ++ records ∧
        List.Forall₂ (IsMember inflate bytes) records members ∧
        s' = ⟨t'.offset, t'.total, s.members ++ members, t'.ranges⟩ := by
  induction count generalizing s t with
  | zero =>
    rw [readMembers, repeatM]
    simp only [Except.ok.injEq]
    obtain ⟨hoffset, htotal, hranges, -⟩ := h
    constructor
    · rintro rfl
      exact ⟨t, [], [], rfl, by rw [List.append_nil], .nil, by
        rw [List.append_nil, ← hoffset, ← htotal, ← hranges]⟩
    · rintro ⟨t', records, members, rfl, hrecords, hmembers, rfl⟩
      obtain rfl := List.self_eq_append_right.mp hrecords
      cases hmembers
      rw [List.append_nil, ← hoffset, ← htotal, ← hranges]
  | succ count ih =>
    rw [readMembers, repeatM]
    simp only [bind_eq_ok_iff, readMember_eq_ok_iff h]
    have hscan {t₁ : ListScan} {r : NamedRecord} {m : Member} (hr : t₁.records = t.records ++ [r])
        (hm : IsMember inflate bytes r m) :
        SameScan inflate bytes ⟨t₁.offset, t₁.total, s.members ++ [m], t₁.ranges⟩ t₁ :=
      ⟨rfl, rfl, rfl, hr ▸ List.rel_append h.members (.cons hm .nil)⟩
    constructor
    · rintro ⟨s₁, ⟨t₁, r, m, hfirst, hr, hm, rfl⟩, hrest⟩
      obtain ⟨t', records, members, hrun, hrecords, hmembers, rfl⟩ := (ih (hscan hr hm)).mp hrest
      exact ⟨t', r :: records, m :: members, ⟨t₁, hfirst, hrun⟩, by
        rw [hrecords, hr, List.append_assoc, List.singleton_append], .cons hm hmembers, by
        rw [List.append_assoc, List.singleton_append]⟩
    · rintro ⟨t', records, members, ⟨t₁, hfirst, hrun⟩, hrecords, hmembers, rfl⟩
      obtain ⟨r, hr⟩ := listRecord_records hfirst
      obtain ⟨rest, hrest⟩ := listRecords_prefix hrun
      have hsplit : records = r :: rest := by
        rw [hrecords, hr, List.append_assoc] at hrest
        exact (List.append_cancel_left hrest).symm
      subst hsplit
      cases hmembers with
      | @cons _ m _ members hm hmembers =>
        refine ⟨_, ⟨t₁, r, m, hfirst, hr, hm, rfl⟩, (ih (hscan hr hm)).mpr ⟨t', rest, members, hrun,
          hrest.symm, hmembers, ?_⟩⟩
        rw [List.append_assoc, List.singleton_append]

/-- The record of a name is the one of its member. -/
theorem entry_eq_some_iff {records : List NamedRecord} {members : List Member}
    (h : List.Forall₂ (IsMember inflate bytes) records members) {name : String} {b : Bytes} :
    entry members name = some b ↔
      ∃ r, recordOf records name = some r ∧ body inflate bytes r.toRecord = .ok b := by
  rw [entry, recordOf]
  induction h with
  | nil => simp
  | @cons r m _ _ hm _ ih =>
    obtain ⟨hname, -, hbody⟩ := hm
    by_cases heq : r.name = name
    · rw [List.find?_cons_of_pos (by simpa [hname] using heq),
        List.find?_cons_of_pos (by simpa using heq)]
      simp [hbody]
    · rw [List.find?_cons_of_neg (by simpa [hname] using heq),
        List.find?_cons_of_neg (by simpa using heq), ih]

/-- The parser accepts what its structural part lists with good octets under every record. -/
theorem parseSectionContainer_eq_ok_iff {members : List Member} :
    parseSectionContainer inflate bytes = .ok members ↔
      ∃ records, listSections inflate bytes = .ok records ∧
        List.Forall₂ (IsMember inflate bytes) records members := by
  have hstart (start : ℕ) : SameScan inflate bytes ⟨start, 0, [], []⟩ ⟨start, 0, [], []⟩ :=
    ⟨rfl, rfl, rfl, .nil⟩
  have hrequired : ∀ name, name ∈ sectionProfile.required ↔ name = "kdna.json" := by
    simp [sectionProfile]
  simp only [parseSectionContainer, parse, listSections, bind_eq_ok_iff, require_eq_ok_iff,
    orFail_eq_ok_iff, pure_eq_ok, Except.ok.injEq, exists_const, readMembers_eq_ok_iff (hstart _),
    hrequired, forall_eq]
  constructor
  · rintro ⟨hlength, e, hend, s, ⟨t, records, members, hrun, hrecords, hmembers, rfl⟩, last, hsweep,
      hlast, hoffset, b, hentry, text, htext, hmimetype, hmanifest, rfl⟩
    obtain rfl : t.records = records := hrecords
    obtain ⟨r, hr, hbody⟩ := (entry_eq_some_iff hmembers).mp hentry
    obtain ⟨c, hc⟩ := Option.isSome_iff_exists.mp hmanifest
    obtain ⟨r', hr', hbody'⟩ := (entry_eq_some_iff hmembers).mp hc
    exact ⟨_, ⟨hlength, e, hend, t, hrun, last, hsweep, hlast, hoffset, r, hr, b, hbody, text, htext,
      hmimetype, r', hr', c, hbody', rfl⟩, hmembers⟩
  · rintro ⟨_, ⟨hlength, e, hend, t, hrun, last, hsweep, hlast, hoffset, r, hr, b, hbody, text, htext,
      hmimetype, r', hr', c, hbody', rfl⟩, hmembers⟩
    have hmanifest := (entry_eq_some_iff hmembers).mpr ⟨r', hr', hbody'⟩
    exact ⟨hlength, e, hend, _, ⟨t, _, members, hrun, rfl, hmembers, rfl⟩, last, hsweep, hlast,
      hoffset, b, (entry_eq_some_iff hmembers).mpr ⟨r, hr, hbody⟩, text, htext, hmimetype,
      Option.isSome_iff_exists.mpr ⟨c, hmanifest⟩, rfl⟩

end Parse

end Kdna.Container

import Kdna.Container.Writer

/-!
# The writer and the readers round trip

The writer's output is the local records, the directory and the end record. The
loop of the parser keeps the invariant that, after reading `done`, it stands at
the directory record of the next member with the state `scanAfter done`.
-/

namespace Kdna.Container

/-- A two-octet field of a block. -/
theorem u16_block (a b : Bytes) {fields : List (ℕ × ℕ)} {i v offset : ℕ}
    (hfield : fields[i]? = some (2, v)) (hv : v < 2 ^ 16)
    (hoffset : offset = a.length + ((fields.take i).map Prod.fst).sum) :
    u16 (a ++ (block fields ++ b)) offset = v := by
  obtain ⟨hi, hget⟩ := List.getElem?_eq_some_iff.mp hfield
  have hread := leValue_slice_block a b fields i hi
  rw [hget, ← hoffset] at hread
  dsimp only at hread
  rw [u16, hread, Nat.mod_eq_of_lt (by omega)]

/-- A four-octet field of a block. -/
theorem u32_block (a b : Bytes) {fields : List (ℕ × ℕ)} {i v offset : ℕ}
    (hfield : fields[i]? = some (4, v)) (hv : v < 2 ^ 32)
    (hoffset : offset = a.length + ((fields.take i).map Prod.fst).sum) :
    u32 (a ++ (block fields ++ b)) offset = v := by
  obtain ⟨hi, hget⟩ := List.getElem?_eq_some_iff.mp hfield
  have hread := leValue_slice_block a b fields i hi
  rw [hget, ← hoffset] at hread
  dsimp only at hread
  rw [u32, hread, Nat.mod_eq_of_lt (by omega)]

/-- The CRC is a 32-bit value. -/
theorem crc32_lt (bytes : Bytes) : crc32 bytes < 2 ^ 32 := by
  unfold crc32
  exact UInt32.toNat_lt _

/-- What the parser reads at a directory record the writer wrote. -/
theorem centralHeader_written {bytes c d : Bytes} {m : Member} {offset : ℕ}
    (hcentral : bytes = c ++ (centralRecord m offset ++ d))
    (hn : (Utf8.encode m.name).length < 2 ^ 16) (hsize : m.bytes.length < 2 ^ 32)
    (hmode : m.mode < 2 ^ 16) (hoffset : offset < 2 ^ 32) :
    centralHeader bytes c.length =
      { signature := 0x02014b50, flags := 0x800, method := 0, crc := crc32 m.bytes
        compressed := m.bytes.length, size := m.bytes.length
        length := (Utf8.encode m.name).length, extra := 0, comment := 0, disk := 0, mode := m.mode
        localAt := offset } := by
  subst hcentral
  have hcrc := crc32_lt m.bytes
  obtain ⟨w, hw, hlt, hshift⟩ :
      ∃ w, m.mode * 65536 % 2 ^ 32 = w ∧ w < 2 ^ 32 ∧ w / 65536 = m.mode :=
    ⟨_, rfl, by omega, by omega⟩
  simp only [centralHeader, centralRecord, List.append_assoc, centralFixed,
    CentralHeader.mk.injEq, hw]
  generalize Utf8.encode m.name ++ d = b
  have h38 {fields : List (ℕ × ℕ)} (hfield : fields[14]? = some (4, w))
      (hsum : c.length + 38 = c.length + ((fields.take 14).map Prod.fst).sum) :
      u32 (c ++ (block fields ++ b)) (c.length + 38) / 65536 = m.mode := by
    rw [u32_block c b hfield hlt hsum, hshift]
  exact ⟨u32_block c b (i := 0) rfl (by omega) (by simp),
    u16_block c b (i := 3) rfl (by omega) (by simp), u16_block c b (i := 4) rfl (by omega) (by simp),
    u32_block c b (i := 6) rfl hcrc (by simp), u32_block c b (i := 7) rfl hsize (by simp),
    u32_block c b (i := 8) rfl hsize (by simp), u16_block c b (i := 9) rfl hn (by simp),
    u16_block c b (i := 10) rfl (by omega) (by simp),
    u16_block c b (i := 11) rfl (by omega) (by simp),
    u16_block c b (i := 12) rfl (by omega) (by simp), h38 rfl (by simp),
    u32_block c b (i := 15) rfl hoffset (by simp)⟩

/-- What the parser reads at a local header the writer wrote. -/
theorem localHeader_written {bytes a b : Bytes} {m : Member} {h : CentralHeader}
    (hlocal : bytes = a ++ (localRecord m ++ b))
    (hn : (Utf8.encode m.name).length < 2 ^ 16) (hsize : m.bytes.length < 2 ^ 32)
    (hh : h.localAt = a.length ∧ h.flags = 0x800 ∧ h.method = 0 ∧ h.crc = crc32 m.bytes ∧
      h.compressed = m.bytes.length ∧ h.size = m.bytes.length ∧
      h.length = (Utf8.encode m.name).length) :
    h.matchesLocal bytes ∧
      h.dataAt bytes = a.length + 30 + (Utf8.encode m.name).length := by
  subst hlocal
  obtain ⟨hat, hflags, hmethod, hcrc, hcompressed, hsize', hlength⟩ := hh
  simp only [CentralHeader.matchesLocal, CentralHeader.dataAt, localRecord, List.append_assoc,
    localFixed, hat, hflags, hmethod, hcrc, hcompressed, hsize', hlength]
  generalize Utf8.encode m.name ++ (m.bytes ++ b) = b
  refine ⟨⟨u32_block a b (i := 0) rfl (by omega) (by simp),
    u16_block a b (i := 2) rfl (by omega) (by simp), u16_block a b (i := 3) rfl (by omega) (by simp),
    u32_block a b (i := 5) rfl (crc32_lt _) (by simp), u32_block a b (i := 6) rfl hsize (by simp),
    u32_block a b (i := 7) rfl hsize (by simp), u16_block a b (i := 8) rfl hn (by simp)⟩, ?_⟩
  rw [u16_block a b (i := 9) rfl (by omega) (by simp), Nat.add_zero]

/-- The name field of a directory record the writer wrote. -/
theorem slice_centralName {bytes c d : Bytes} {m : Member} {offset : ℕ}
    (hcentral : bytes = c ++ (centralRecord m offset ++ d)) :
    Bytes.slice bytes (c.length + 46)
      (Utf8.encode m.name).length = Utf8.encode m.name := by
  rw [hcentral, centralRecord, List.append_assoc, Bytes.slice_append_right]
  simpa using Bytes.slice_append_mid (centralFixed (Utf8.encode m.name).length (crc32 m.bytes)
    m.bytes.length m.mode offset) (Utf8.encode m.name) d

/-- The name field of a local header the writer wrote. -/
theorem slice_localName {bytes a b : Bytes} {m : Member}
    (hlocal : bytes = a ++ (localRecord m ++ b)) :
    Bytes.slice bytes (a.length + 30) (Utf8.encode m.name).length =
      Utf8.encode m.name := by
  rw [hlocal, localRecord, List.append_assoc, List.append_assoc, Bytes.slice_append_right]
  simpa using Bytes.slice_append_mid (localFixed (Utf8.encode m.name).length (crc32 m.bytes)
    m.bytes.length) (Utf8.encode m.name) (m.bytes ++ b)

/-- The octets after a local header the writer wrote. -/
theorem slice_localData {bytes a b : Bytes} {m : Member}
    (hlocal : bytes = a ++ (localRecord m ++ b)) :
    Bytes.slice bytes (a.length + 30 + (Utf8.encode m.name).length)
      m.bytes.length = m.bytes := by
  have h := Bytes.slice_append_mid (a ++ (localFixed (Utf8.encode m.name).length
    (crc32 m.bytes) m.bytes.length ++ Utf8.encode m.name)) m.bytes b
  simp only [List.append_assoc, List.length_append, length_localFixed, ← Nat.add_assoc] at h
  simpa only [hlocal, localRecord, List.append_assoc] using h

/-- The name, the mode and the size a parser asks of a member. -/
structure MemberAllowed (profile : Profile) (m : Member) : Prop where
  entryName : entryName m.name = true
  allowed : profile.allowed m.name = true
  mode_lt : m.mode < 2 ^ 16
  mode_type : m.mode &&& 0o170000 = 0 ∨ m.mode &&& 0o170000 = 0o100000
  size_le : m.bytes.length ≤ limitEntry

instance (profile : Profile) (m : Member) : Decidable (MemberAllowed profile m) :=
  decidable_of_iff (entryName m.name = true ∧ profile.allowed m.name = true ∧ m.mode < 2 ^ 16 ∧
    (m.mode &&& 0o170000 = 0 ∨ m.mode &&& 0o170000 = 0o100000) ∧ m.bytes.length ≤ limitEntry)
    ⟨fun ⟨hn, ha, hlt, ht, hs⟩ => ⟨hn, ha, hlt, ht, hs⟩,
      fun ⟨hn, ha, hlt, ht, hs⟩ => ⟨hn, ha, hlt, ht, hs⟩⟩

/-- One round of the directory loop at records the writer wrote, under the name that the
name field decodes to. -/
theorem readMember_written {profile : Profile} (inflate : Inflate) {bytes a b c d : Bytes}
    {m : Member} {name : String} {total centralStart : ℕ} {members : List Member} {ranges : List Span}
    (hlocal : bytes = a ++ (localRecord m ++ b))
    (hcentral : bytes = c ++ (centralRecord m a.length ++ d))
    (hstart : a.length + (localRecord m).length ≤ centralStart) (ha : a.length < 2 ^ 32)
    (hn : (Utf8.encode m.name).length < 2 ^ 16)
    (hname : decodeText (Utf8.encode m.name) = some name)
    (hm : MemberAllowed profile { m with name := name })
    (hfresh : ∀ m' ∈ members, m'.name ≠ name) (htotal : total + m.bytes.length ≤ limitTotal)
    (hranges : ∀ r ∈ ranges, r.2 ≤ a.length)
    (hfirst : members = [] → name = "mimetype" ∧ a.length = 0) :
    readMember profile inflate bytes centralStart ⟨c.length, total, members, ranges⟩ =
      .ok ⟨c.length + (centralRecord m a.length).length, total + m.bytes.length,
        members ++ [{ m with name := name }],
        ranges ++ [(a.length, a.length + (localRecord m).length)]⟩ := by
  have hsize : m.bytes.length ≤ 8388608 := hm.size_le
  have hheader := centralHeader_written hcentral (by omega) (by omega) hm.mode_lt ha
  obtain ⟨hmatches, hdataAt⟩ := localHeader_written hlocal (by omega) (by omega)
    (h := centralHeader bytes c.length) (by simp [hheader])
  have hspan : (centralHeader bytes c.length).span = 46 + (Utf8.encode m.name).length := by
    rw [hheader]
    rfl
  have hsizes : sizesAllowed (centralHeader bytes c.length) total := by
    rw [hheader]
    refine ⟨hm.size_le, by simp, fun hratio => ?_, htotal⟩
    have := hratio.2
    simp only [limitRatio] at this
    omega
  have hlen : bytes.length = c.length + (46 + (Utf8.encode m.name).length + d.length) := by
    simp [hcentral]
  have hlen' : bytes.length =
      a.length + (30 + ((Utf8.encode m.name).length + m.bytes.length) + b.length) := by
    simp [hlocal]
  have happart : ∀ r ∈ ranges, ¬(a.length < r.2 ∧
      r.1 < a.length + 30 + (Utf8.encode m.name).length + m.bytes.length) := by
    intro r hr hoverlap
    exact absurd (hranges r hr) (by omega)
  rw [length_localRecord] at hstart
  unfold readMember
  rw [require_bind_of_pos (by simp only; omega)]
  simp only [hspan, hdataAt]
  rw [hheader] at hmatches hsizes ⊢
  simp only [slice_centralName hcentral, hname, slice_localName hlocal,
    slice_localData hlocal]
  -- every check of the source holds at these records, in the source's order
  rw [require_bind_of_pos trivial, require_bind_of_pos (by omega), orFail, ok_bind,
    require_bind_of_pos ⟨hm.entryName, hfresh, rfl, trivial⟩, require_bind_of_pos hm.mode_type,
    require_bind_of_pos hm.allowed, require_bind_of_pos fun _ => trivial,
    require_bind_of_pos hsizes, require_bind_of_pos (by omega), require_bind_of_pos hmatches,
    require_bind_of_pos (by omega), require_bind_of_pos (by omega),
    require_bind_of_pos ⟨by omega, happart⟩, require_bind_of_pos trivial, decodeEntry_stored,
    ok_bind, require_bind_of_pos ⟨rfl, rfl⟩,
    require_bind_of_pos fun hnil => ⟨(hfirst hnil).1, (hfirst hnil).2, trivial⟩]
  simp only [length_centralRecord, length_localRecord, ← Nat.add_assoc]
  rfl

/-- Member lists in the form the writer is for: `mimetype` first with its text,
distinct names, permitted members, and within the limits on count and sizes. -/
structure Listed (profile : Profile) (members : List Member) : Prop where
  first : ∃ mode rest, members = ⟨"mimetype", mode, Utf8.encode mimetypeText⟩ :: rest
  nodup : (members.map Member.name).Nodup
  allowed : ∀ m ∈ members, MemberAllowed profile m
  count_le : members.length ≤ limitEntries
  total_le : (members.map fun m => m.bytes.length).sum ≤ limitTotal

/-- A list in that form that also has the members the profile requires. -/
structure Admissible (profile : Profile) (members : List Member) : Prop
    extends Listed profile members where
  required : ∀ name ∈ profile.required, name ∈ members.map Member.name

/-- The spans of consecutive local records, the first at `offset`. -/
def localSpans : ℕ → List Member → List Span
  | _, [] => []
  | offset, m :: ms =>
    (offset, offset + (localRecord m).length) :: localSpans (offset + (localRecord m).length) ms

/-- The state of the directory loop after the records of `done`. -/
def scanAfter (centralStart : ℕ) (done : List Member) : Scan where
  offset := centralStart + (directory 0 done).length
  total := (done.map fun m => m.bytes.length).sum
  members := done
  ranges := localSpans 0 done

theorem localSpans_append (offset : ℕ) (ms ns : List Member) :
    localSpans offset (ms ++ ns) =
      localSpans offset ms ++ localSpans (offset + (localRecords ms).length) ns := by
  induction ms generalizing offset with
  | nil => rfl
  | cons m ms ih =>
    rw [List.cons_append, localSpans, localSpans, ih, List.cons_append, localRecords_cons,
      List.length_append, Nat.add_assoc]

/-- The local records lie end to end. -/
theorem localSpans_chain (offset : ℕ) (ms : List Member) :
    SpanChain offset (localSpans offset ms) (offset + (localRecords ms).length) := by
  induction ms generalizing offset with
  | nil => rfl
  | cons m ms ih =>
    refine ⟨rfl, Nat.le_add_right _ _, ?_⟩
    rw [localRecords_cons, List.length_append, ← Nat.add_assoc]
    exact ih _

/-- Appending the record of `m` to the records of `done`. -/
theorem scanAfter_concat (centralStart : ℕ) (done : List Member) (m : Member) :
    scanAfter centralStart (done ++ [m]) =
      ⟨centralStart + (directory 0 done).length +
          (centralRecord m (localRecords done).length).length,
        (done.map fun m => m.bytes.length).sum + m.bytes.length, done ++ [m],
        localSpans 0 done ++ [((localRecords done).length,
          (localRecords done).length + (localRecord m).length)]⟩ := by
  simp [scanAfter, directory_append, directory, localSpans_append, localSpans, Nat.add_assoc]

/-- The records of permitted members are bounded by their sizes and their count. -/
theorem length_localRecords_le {profile : Profile} {ms : List Member}
    (hms : ∀ m ∈ ms, MemberAllowed profile m) :
    (localRecords ms).length ≤ (ms.map fun m => m.bytes.length).sum + 4126 * ms.length := by
  induction ms with
  | nil => simp [localRecords]
  | cons m ms ih =>
    have hn := entryName.length_le (hms m List.mem_cons_self).entryName
    have hrest := ih fun m' hm' => hms m' (List.mem_cons_of_mem _ hm')
    simp only [localRecords_cons, List.length_append, length_localRecord, List.map_cons,
      List.sum_cons, List.length_cons]
    omega

/-- So is the directory. -/
theorem length_directory_le {profile : Profile} {ms : List Member} (offset : ℕ)
    (hms : ∀ m ∈ ms, MemberAllowed profile m) :
    (directory offset ms).length ≤ 4142 * ms.length := by
  induction ms generalizing offset with
  | nil => simp [directory]
  | cons m ms ih =>
    have hn := entryName.length_le (hms m List.mem_cons_self).entryName
    have hrest := ih (offset + (localRecord m).length)
      fun m' hm' => hms m' (List.mem_cons_of_mem _ hm')
    simp only [directory, List.length_append, length_centralRecord, List.length_cons]
    omega

/-- The container of a member list. -/
def written (ms : List Member) : Bytes :=
  localRecords ms ++ (directory 0 ms ++
    endFixed ms.length (directory 0 ms).length (localRecords ms).length)

/-- The writer's loop appends the records of every member that passes its checks. -/
theorem writeMembers_eq {profile : Profile} {ms : List Member} {w : Written}
    (hms : ∀ m ∈ ms, MemberAllowed profile m)
    (htotal : w.total + (ms.map fun m => m.bytes.length).sum ≤ limitTotal)
    (hoffset : w.offset + (localRecords ms).length < 2 ^ 32) :
    writeMembers ms w = .ok
      { parts := w.parts ++ localRecords ms
        centralParts := w.centralParts ++ directory w.offset ms
        offset := w.offset + (localRecords ms).length
        total := w.total + (ms.map fun m => m.bytes.length).sum } := by
  induction ms generalizing w with
  | nil => simp [writeMembers, localRecords, directory]
  | cons m ms ih =>
    have hm := hms m List.mem_cons_self
    have hn := entryName.length_le hm.entryName
    simp only [List.map_cons, List.sum_cons] at htotal
    simp only [localRecords_cons, List.length_append] at hoffset
    rw [writeMembers, writeMember, require_bind_of_pos ⟨hm.size_le, by omega⟩,
      require_bind_of_pos ⟨by omega, by omega⟩]
    simp only [pure, Except.pure, ok_bind]
    rw [ih (fun m' hm' => hms m' (.tail _ hm')) (by simp only; omega) (by simp only; omega)]
    simp [directory, Nat.add_assoc]

/-- The bounds that follow from the limits on a list. -/
theorem Listed.bounds {profile : Profile} {ms : List Member} (h : Listed profile ms) :
    (localRecords ms).length < 2 ^ 32 ∧ (directory 0 ms).length < 2 ^ 32 ∧
      (localRecords ms).length + (directory 0 ms).length + 22 ≤ limitContainer := by
  have hlocal := length_localRecords_le h.allowed
  have hcentral := length_directory_le 0 h.allowed
  have hcount := h.count_le
  have htotal := h.total_le
  simp only [limitEntries, limitTotal, limitContainer] at *
  omega

/-- The writer accepts every list of the form it is for. -/
theorem encodeStored_eq {profile : Profile} {ms : List Member} (h : Listed profile ms) :
    encodeStored ms = .ok (written ms) := by
  obtain ⟨hlocal, hcentral, hlimit⟩ := h.bounds
  have hcount : ms.length ≤ 128 := h.count_le
  have hloop := writeMembers_eq (w := ⟨[], [], 0, 0⟩) h.allowed
    (by simpa using h.total_le) (by simpa using hlocal)
  simp only [List.nil_append, Nat.zero_add] at hloop
  rw [encodeStored, hloop, ok_bind, require_bind_of_pos ⟨by omega, hcentral, hlocal⟩,
    require_bind_of_pos hlimit]
  rfl

/-- The backward search stops at an end record without comment at once. -/
theorem findEnd_append {bytes a : Bytes} {count size start : ℕ}
    (hend : bytes = a ++ (endFixed count size start ++ [])) : findEnd bytes = some a.length := by
  have hlen : bytes.length - 22 = a.length := by simp [hend]
  have hlen' : bytes.length = a.length + 22 := by simp [hend]
  have hsig : u32 bytes a.length = 0x06054b50 := by
    rw [hend]
    exact u32_block a [] (i := 0) rfl (by omega) (by simp)
  have hcomment : u16 bytes (a.length + 20) = 0 := by
    rw [hend]
    exact u16_block a [] (i := 7) rfl (by omega) (by simp)
  rw [findEnd, hlen, List.range_succ_eq_map, List.map_cons, Nat.sub_zero]
  exact List.find?_cons_of_pos (by simp [hsig, hcomment, hlen'])

/-- The end record of a written container is found and passes its checks. -/
theorem readEnd_written {ms : List Member} (hpos : ms.length ≠ 0) (hcount : ms.length ≤ 128)
    (hlocal : (localRecords ms).length < 2 ^ 32) (hcentral : (directory 0 ms).length < 2 ^ 32) :
    readEnd (written ms) = .ok
      { at' := (localRecords ms).length + (directory 0 ms).length, count := ms.length
        centralSize := (directory 0 ms).length, centralStart := (localRecords ms).length } := by
  have hend : written ms = (localRecords ms ++ directory 0 ms) ++
      (endFixed ms.length (directory 0 ms).length (localRecords ms).length ++ []) := by
    simp [written]
  rw [readEnd, findEnd_append hend, orFail, ok_bind, hend, endFixed,
    u16_block _ _ (i := 1) rfl (by omega) (by simp),
    u16_block _ _ (i := 2) rfl (by omega) (by simp),
    u16_block _ _ (i := 3) rfl (by omega) (by simp),
    u16_block _ _ (i := 4) rfl (by omega) (by simp),
    u32_block _ _ (i := 5) rfl hcentral (by simp),
    u32_block _ _ (i := 6) rfl hlocal (by simp), require_bind_of_pos ⟨rfl, rfl, rfl⟩]
  rw [require_bind_of_pos ⟨hpos, hcount, by simp⟩]
  simp
  rfl

/-- Where the two records of a member lie in a written container. -/
theorem written_split (done todo : List Member) (m : Member) :
    (∃ b, written (done ++ m :: todo) = localRecords done ++ (localRecord m ++ b)) ∧
      ∃ d, written (done ++ m :: todo) =
        (localRecords (done ++ m :: todo) ++ directory 0 done) ++
          (centralRecord m (localRecords done).length ++ d) := by
  constructor
  · rw [written]
    generalize directory 0 (done ++ m :: todo) ++ _ = tail
    exact ⟨localRecords todo ++ tail, by simp [localRecords_append]⟩
  · rw [written]
    generalize endFixed _ _ _ = tail
    exact ⟨directory ((localRecords done).length + (localRecord m).length) todo ++ tail, by
      simp [directory_append, directory]⟩

/-- One round of the directory loop at a written member, behind the rounds of the ones
before it. -/
theorem readMember_scanAfter {profile : Profile} (inflate : Inflate) (done todo : List Member)
    {m : Member} {name : String} (hbound : (localRecords (done ++ m :: todo)).length < 2 ^ 32)
    (hn : (Utf8.encode m.name).length < 2 ^ 16)
    (hname : decodeText (Utf8.encode m.name) = some name)
    (hm : MemberAllowed profile { m with name := name }) (hfresh : ∀ m' ∈ done, m'.name ≠ name)
    (htotal : (done.map fun m => m.bytes.length).sum + m.bytes.length ≤ limitTotal)
    (hfirst : done = [] → name = "mimetype") :
    readMember profile inflate (written (done ++ m :: todo))
        (localRecords (done ++ m :: todo)).length
        (scanAfter (localRecords (done ++ m :: todo)).length done) =
      .ok { scanAfter (localRecords (done ++ m :: todo)).length (done ++ [m]) with
        members := done ++ [{ m with name := name }] } := by
  obtain ⟨⟨b, hlocal⟩, d, hcentral⟩ := written_split done todo m
  have hstart : (localRecords done).length + (localRecord m).length ≤
      (localRecords (done ++ m :: todo)).length := by
    simp only [localRecords_append, localRecords_cons, List.length_append]
    omega
  have hranges : ∀ r ∈ localSpans 0 done, r.2 ≤ (localRecords done).length := by
    intro r hr
    simpa using ((localSpans_chain 0 done).mem_bounds hr).2.2
  have hfirst' : done = [] → name = "mimetype" ∧ (localRecords done).length = 0 := by
    intro hnil
    exact ⟨hfirst hnil, by rw [hnil]; rfl⟩
  have hstep := readMember_written inflate hlocal hcentral hstart (by omega) hn hname hm hfresh htotal
    hranges hfirst'
  rw [List.length_append] at hstep
  rw [scanAfter_concat, scanAfter, hstep]

/-- The directory loop reads the written members back, from any point on. -/
theorem readMembers_written {profile : Profile} (inflate : Inflate) {ms : List Member}
    (h : Listed profile ms) (hplain : ∀ m ∈ ms, ¬ Utf8.bom <+: Utf8.encode m.name)
    (done todo : List Member) (hms : done ++ todo = ms) :
    readMembers profile inflate (written ms) (localRecords ms).length todo.length
      (scanAfter (localRecords ms).length done) = .ok (scanAfter (localRecords ms).length ms) := by
  induction todo generalizing done with
  | nil =>
    rw [List.append_nil] at hms
    rw [hms, List.length_nil, readMembers]
  | cons m todo ih =>
    subst hms
    have hmem : m ∈ done ++ m :: todo := by simp
    have hfresh : ∀ m' ∈ done, m'.name ≠ m.name := by
      have hnodup := h.nodup
      rw [List.map_append, List.nodup_append, List.map_cons] at hnodup
      exact fun m' hm' =>
        hnodup.2.2 _ (List.mem_map_of_mem hm') _ List.mem_cons_self
    have htotal : (done.map fun m => m.bytes.length).sum + m.bytes.length ≤ limitTotal := by
      have htotal := h.total_le
      simp only [List.map_append, List.sum_append, List.map_cons, List.sum_cons] at htotal
      omega
    have hfirst : done = [] → m.name = "mimetype" := by
      rintro rfl
      obtain ⟨mode, rest, hcons⟩ := h.first
      rw [List.nil_append, List.cons.injEq] at hcons
      rw [hcons.1]
    have hlength := entryName.length_le (h.allowed m hmem).entryName
    have hstep := readMember_scanAfter inflate done todo h.bounds.1 (by omega)
      (decodeText_encode (hplain m hmem)) (h.allowed m hmem) hfresh htotal hfirst
    rw [List.length_cons, readMembers, hstep, ok_bind]
    exact ih (done ++ [m]) (by simp)

/-- `entries[name]` is there exactly for the names of the members. -/
theorem entry_isSome_iff (members : List Member) (name : String) :
    (entry members name).isSome ↔ name ∈ members.map Member.name := by
  simp [entry]

/-- Reading what the writer wrote gives the members back. -/
theorem parse_written {profile : Profile} {inflate : Inflate} {ms : List Member}
    (h : Admissible profile ms) (hplain : ∀ m ∈ ms, ¬ Utf8.bom <+: Utf8.encode m.name) :
    parse profile inflate (written ms) = .ok ms := by
  obtain ⟨hlocal, hcentral, hlimit⟩ := h.bounds
  obtain ⟨mode, rest, hfirst⟩ := h.first
  have hlen : (written ms).length =
      (localRecords ms).length + ((directory 0 ms).length + 22) := by
    simp [written]
  have hscan := readMembers_written inflate h.toListed hplain [] ms rfl
  have hchain := localSpans_chain 0 ms
  have hmimetype : entry ms "mimetype" = some (Utf8.encode mimetypeText) := by
    simp [entry, hfirst]
  have htext : decodeText (Utf8.encode mimetypeText) = some mimetypeText := by decide
  have hpos : ms.length ≠ 0 := by simp [hfirst]
  rw [parse, require_bind_of_pos (by omega), readEnd_written hpos h.count_le hlocal hcentral, ok_bind]
  simp only [scanAfter, directory, List.length_nil, Nat.add_zero, List.map_nil, List.sum_nil,
    localSpans] at hscan
  have hsweep : sweep 0 (localSpans 0 ms) = .ok (0 + (localRecords ms).length) :=
    (sweep_eq_ok_iff fun r hr => (hchain.mem_bounds hr).2.1).mpr hchain
  have hrequired : ∀ name ∈ profile.required, (entry ms name).isSome :=
    fun name hname => (entry_isSome_iff ms name).mpr (h.required name hname)
  rw [hscan, ok_bind]
  simp only
  rw [sortRanges_of_chain hchain, hsweep, ok_bind, require_bind_of_pos (Nat.zero_add _),
    require_bind_of_pos trivial, hmimetype, orFail, ok_bind, htext, orFail, ok_bind,
    require_bind_of_pos rfl, require_bind_of_pos hrequired]
  rfl

/-- A text whose first character is another one does not start with U+FEFF. -/
theorem plain_of_startsWith {name : String} (lead : String) {c : Char} {cs : List Char}
    (hlead : lead.toList = c :: cs) (hc : c ≠ '\uFEFF') (h : startsWith name lead = true) :
    ¬ Utf8.bom <+: Utf8.encode name := by
  rw [Utf8.bom_isPrefix_encode_iff]
  rintro ⟨ds, hds⟩
  rw [startsWith, hlead, hds, List.isPrefixOf_iff_prefix, List.cons_prefix_cons] at h
  exact hc h.1

/-- No permitted name of the ordinary container starts with U+FEFF. -/
theorem ordinaryProfile_plain {name : String} (h : ordinaryProfile.allowed name = true) :
    ¬ Utf8.bom <+: Utf8.encode name := by
  simp only [ordinaryProfile, Bool.or_eq_true, List.contains_iff_mem, List.mem_cons,
    List.not_mem_nil, or_false] at h
  rcases h with (rfl | rfl | rfl | rfl | rfl) | hlead
  · decide
  · decide
  · decide
  · decide
  · decide
  · exact plain_of_startsWith "attachments/" rfl (by decide) hlead

/-- No permitted name of the section container starts with U+FEFF. -/
theorem sectionProfile_plain {name : String} (h : sectionProfile.allowed name = true) :
    ¬ Utf8.bom <+: Utf8.encode name := by
  simp only [sectionProfile, Bool.or_eq_true, List.contains_iff_mem, List.mem_cons,
    List.not_mem_nil, or_false] at h
  rcases h with ((rfl | rfl | rfl | rfl) | hpack) | hlead
  · decide
  · decide
  · decide
  · decide
  · simp only [isPackName, Bool.and_eq_true] at hpack
    exact plain_of_startsWith "sections/pack-" rfl (by decide) hpack.1.1.1
  · exact plain_of_startsWith "attachments/" rfl (by decide) hlead

/-- Both parsers give back the members the writer wrote, whatever the decompressor. -/
theorem parse_encodeStored (inflate : Inflate) (ms : List Member) :
    (Admissible ordinaryProfile ms → ∃ bytes, encodeStored ms = .ok bytes ∧
      parseContainer inflate bytes = .ok ms) ∧
    (Admissible sectionProfile ms → ∃ bytes, encodeStored ms = .ok bytes ∧
      parseSectionContainer inflate bytes = .ok ms) :=
  ⟨fun h => ⟨written ms, encodeStored_eq h.toListed, parse_written h fun m hm =>
      ordinaryProfile_plain (h.allowed m hm).allowed⟩,
    fun h => ⟨written ms, encodeStored_eq h.toListed, parse_written h fun m hm =>
      sectionProfile_plain (h.allowed m hm).allowed⟩⟩

/-- A member as small as its name allows. -/
def plainMember (name : String) (bytes : Bytes) : Member := ⟨name, 0o100644, bytes⟩

/-- The members both example containers start with. -/
def sampleCore : List Member :=
  [plainMember "mimetype" (Utf8.encode mimetypeText), plainMember "kdna.json" []]

/-- Two lists with a non-ASCII name, one for each parser. -/
theorem parse_encodeStored_sample :
    (∃ bytes, encodeStored (sampleCore ++ [plainMember "payload.kdnab" [],
        plainMember "attachments/é" [1]]) = .ok bytes ∧
      parseContainer none bytes = .ok (sampleCore ++ [plainMember "payload.kdnab" [],
        plainMember "attachments/é" [1]])) ∧
    (∃ bytes, encodeStored (sampleCore ++ [plainMember "sections/pack-10.kdnab" [],
        plainMember "attachments/é" [1]]) = .ok bytes ∧
      parseSectionContainer none bytes = .ok (sampleCore ++
        [plainMember "sections/pack-10.kdnab" [], plainMember "attachments/é" [1]])) := by
  refine ⟨(parse_encodeStored none _).1 ⟨⟨⟨_, _, rfl⟩, ?_, ?_, ?_, ?_⟩, ?_⟩,
    (parse_encodeStored none _).2 ⟨⟨⟨_, _, rfl⟩, ?_, ?_, ?_, ?_⟩, ?_⟩⟩ <;> decide

/-- A parser that accepts has found every member its profile requires. -/
theorem required_of_parse {profile : Profile} {inflate : Inflate} {bytes : Bytes}
    {ms : List Member} (h : parse profile inflate bytes = .ok ms) :
    ∀ name ∈ profile.required, name ∈ ms.map Member.name := by
  simp only [parse, bind_eq_ok_iff, require_eq_ok_iff, pure, Except.pure] at h
  obtain ⟨-, -, e, -, s, -, _, -, -, -, -, -, _, -, _, -, -, -, -, hrequired, hms⟩ := h
  cases hms
  exact fun name hname => (entry_isSome_iff s.members name).mp (hrequired name hname)

/-- The form alone is not enough: `mimetype` on its own is written, and both
parsers reject the result for want of `kdna.json`. -/
theorem parse_encodeStored_mimetype_alone :
    (¬ ∀ (inflate : Inflate) (ms : List Member), Listed ordinaryProfile ms →
      ∃ bytes, encodeStored ms = .ok bytes ∧ parseContainer inflate bytes = .ok ms) ∧
    ¬ ∀ (inflate : Inflate) (ms : List Member), Listed sectionProfile ms →
      ∃ bytes, encodeStored ms = .ok bytes ∧ parseSectionContainer inflate bytes = .ok ms := by
  constructor
  · intro hall
    obtain ⟨bytes, -, hparse⟩ := hall none [plainMember "mimetype" (Utf8.encode mimetypeText)]
      ⟨⟨_, _, rfl⟩, by decide, by decide, by decide, by decide⟩
    exact absurd (required_of_parse hparse "kdna.json" (by decide)) (by decide)
  · intro hall
    obtain ⟨bytes, -, hparse⟩ := hall none [plainMember "mimetype" (Utf8.encode mimetypeText)]
      ⟨⟨_, _, rfl⟩, by decide, by decide, by decide, by decide⟩
    exact absurd (required_of_parse hparse "kdna.json" (by decide)) (by decide)

end Kdna.Container

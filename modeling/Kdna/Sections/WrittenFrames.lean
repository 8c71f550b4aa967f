import Kdna.Sections.Frames

/-!
# What the writer of frames writes

Every value that is appended stands at its place in the packs. The rows of the tables name these
places, and the parts of a table are read back as the table.
-/

namespace Kdna.Sections

theorem of_mapError {ε ε' α : Type} {f : ε → ε'} {x : Except ε α} {a : α}
    (h : x.mapError f = .ok a) : x = .ok a := by
  cases x with
  | ok b =>
    cases h
    rfl
  | error e => cases h

theorem mapError_of_ok {ε ε' α : Type} {f : ε → ε'} {x : Except ε α} {a : α} (h : x = .ok a) :
    x.mapError f = .ok a := by
  rw [h]
  rfl

variable {core : FrameCore} {s s' : Packs} {written : List Bytes}

/-- The value `v` stands at the place `l` under its own id. -/
structure Kept (core : FrameCore) (written : List Bytes) (id : String) (v : Stored) (l : Location) :
    Prop where
  sectionId : l.sectionId = id
  decoded : core.codec.decode (core.codec.encode v) = .ok v
  stands : Stands core.codec written l (core.codec.encode v)

theorem Kept.mono {id : String} {v : Stored} {l : Location} (h : Kept core written id v l)
    (more : List Bytes) : Kept core (written ++ more) id v l :=
  ⟨h.sectionId, h.decoded, h.stands.mono more⟩

variable {α ρ : Type} {w : Appender α ρ} {elements : List α} {ls : List Location} {start : ℕ}

/-- The elements stand at the places `ls`, which are numbered from `start` on. -/
structure Appended (core : FrameCore) (w : Appender α ρ) (written : List Bytes) (elements : List α)
    (ls : List Location) (start : ℕ) : Prop where
  kept : List.Forall₂ (fun a l => Kept core written (w.id a) (w.value a) l) elements ls
  ordinals : ls.map (·.packOrdinal) = List.range' start ls.length
  shapes : ∀ row ∈ List.zipWith w.row elements ls, w.shape row

theorem Appended.mono (h : Appended core w written elements ls start) (more : List Bytes) :
    Appended core w (written ++ more) elements ls start :=
  ⟨h.kept.imp fun _ _ hkept => hkept.mono more, h.ordinals, h.shapes⟩

/-- The octets of the elements. -/
def bytesOf (core : FrameCore) (w : Appender α ρ) (elements : List α) : List Bytes :=
  elements.map fun a => core.codec.encode (w.value a)

/-- What a loop appends. -/
theorem appendEach_spec {rows : List ρ} (hs : s.Holds written)
    (h : appendEach core w s elements = .ok (rows, s')) :
    s'.Holds (written ++ bytesOf core w elements) ∧
      ∃ ls, rows = List.zipWith w.row elements ls ∧
        Appended core w (written ++ bytesOf core w elements) elements ls written.length := by
  induction elements generalizing s written rows with
  | nil =>
    cases h
    rw [bytesOf, List.map_nil, List.append_nil]
    exact ⟨hs, [], rfl, .nil, rfl, List.forall_mem_nil _⟩
  | cons a elements ih =>
    rw [appendEach] at h
    obtain ⟨⟨l, s₁⟩, happend, h⟩ := bind_eq_ok_iff.mp h
    obtain ⟨hshape, h⟩ := require_bind_eq_ok_iff.mp h
    obtain ⟨⟨rest, s₂⟩, hrest, h⟩ := bind_eq_ok_iff.mp h
    obtain ⟨rfl, rfl⟩ := Prod.mk.inj (Except.ok.inj h)
    obtain ⟨hs₁, hid, hordinal, hdecode, hstands⟩ := hs.append (of_mapError happend)
    obtain ⟨hs₂, ls, rfl, hwritten⟩ := ih hs₁ hrest
    have hassoc : written ++ [core.codec.encode (w.value a)] ++ bytesOf core w elements =
        written ++ bytesOf core w (a :: elements) := by
      rw [List.append_assoc]
      rfl
    rw [hassoc] at hs₂ hwritten
    refine ⟨hs₂, l :: ls, rfl, .cons ⟨hid, hdecode, ?_⟩ hwritten.kept, ?_,
      List.forall_mem_cons.mpr ⟨hshape, hwritten.shapes⟩⟩
    · have hmono := hstands.mono (bytesOf core w elements)
      rwa [hassoc] at hmono
    · rw [List.map_cons, hwritten.ordinals, List.length_append, List.length_singleton,
        List.length_cons, List.range'_succ]
      exact congrArg (· :: _) hordinal

/-- What a place that was written is read as. -/
theorem Kept.read {members : Members} {id : String} {v : Stored} {l : Location}
    (h : Kept core written id v l) (hs : s.Holds written) (hpacks : members.packs.Perm s.entries) :
    readFrame core.codec members l = .ok v :=
  readFrame_of_stands hs hpacks h.stands h.decoded

section Parts

variable {table : TableName} {rows : List TableRow} {groups : List (List TableRow)}
  {directory rest : List DirectoryRow}

/-- The groups are parts of a table from the part `part` on, behind `count` rows. -/
def PartsFrom : ℕ → ℕ → List (List TableRow) → Prop
  | _, _, [] => True
  | part, count, group :: groups =>
    (part = 0 ∨ count = 4096 * part) ∧ (group ≠ [] ∨ part = 0) ∧
      PartsFrom (part + 1) (count + group.length) groups

theorem partsFrom_chunks (part : ℕ) (rows : List TableRow) :
    PartsFrom part (4096 * part) (chunks 4096 rows) := by
  induction hlen : rows.length using Nat.strongRecOn generalizing rows part with
  | ind n ih =>
    have hpos : 0 < 4096 := by omega
    by_cases hrows : rows = []
    · rw [hrows, chunks_nil hpos]
      trivial
    · have hlength : 0 < rows.length := List.length_pos_of_ne_nil hrows
      have hlt : (rows.drop 4096).length < n := by
        rw [List.length_drop]
        omega
      have hrest := ih _ hlt (part + 1) (rows.drop 4096) rfl
      rw [chunks_of_ne_nil hpos hrows]
      refine ⟨Or.inr rfl, Or.inl ?_, ?_⟩
      · apply List.ne_nil_of_length_pos
        rw [List.length_take]
        omega
      · by_cases hdrop : rows.drop 4096 = []
        · rw [hdrop, chunks_nil hpos]
          trivial
        · have hlong : 4096 < rows.length := by
            by_contra hshort
            exact hdrop (List.drop_eq_nil_of_le (by omega))
          rw [List.length_take, Nat.min_eq_left (by omega)]
          exact hrest

theorem partsFrom_tableParts (rows : List TableRow) : PartsFrom 0 0 (tableParts rows) := by
  cases rows with
  | nil => exact ⟨Or.inl rfl, Or.inr rfl, trivial⟩
  | cons row rows => exact partsFrom_chunks 0 (row :: rows)

theorem flatten_tableParts (rows : List TableRow) : (tableParts rows).flatten = rows := by
  cases rows with
  | nil => rfl
  | cons row rows => exact flatten_chunks (by omega) _

theorem length_tableParts_pos (rows : List TableRow) : 0 < (tableParts rows).length := by
  cases rows with
  | nil => exact Nat.one_pos
  | cons row rows =>
    rw [tableParts, length_chunks, List.length_cons]
    · omega
    · exact fun h => List.cons_ne_nil _ _ h

/-- The loop over a table stops before the rows of another one. -/
theorem readParts_rest {members : Members} {part : ℕ} (hrest : ∀ d ∈ rest.head?, d.table ≠ table) :
    readParts core members table part rows rest = .ok (part, rows, rest) := by
  cases rest with
  | nil => rfl
  | cons d rest => rw [readParts, if_neg (hrest d rfl)]

/-- One part of a table. -/
theorem readParts_cons {members : Members} {part : ℕ} {d : DirectoryRow} {group : List TableRow}
    (hshape : core.directoryShape d) (htable : d.table = table)
    (hpart : d.part = part ∧ d.location.sectionId = partId table part)
    (hcut : part = 0 ∨ rows.length = 4096 * part) (hempty : d.rows ≠ 0 ∨ part = 0)
    (hread : readFrame core.codec members d.location = .ok (.rows group))
    (hlength : group.length = d.rows) (hgroup : ∀ r ∈ group, r.table = table ∧ core.rowShape r)
    (hkeys : d.firstKey = group.head?.map TableRow.key ∧ d.lastKey = group.getLast?.map TableRow.key) :
    readParts core members table part rows (d :: rest) =
      readParts core members table (part + 1) (rows ++ group) rest := by
  rw [readParts, if_pos htable, require_bind_of_pos hshape, require_bind_of_pos hpart,
    require_bind_of_pos hcut, require_bind_of_pos hempty, hread]
  simp only [Except.mapError, ok_bind, orFail]
  rw [require_bind_of_pos hlength, require_bind_of_pos hgroup, require_bind_of_pos hkeys]

/-- The parts that were appended are read back. -/
theorem readParts_appended {members : Members} {part : ℕ} {ls : List Location}
    (hs : s.Holds written) (hpacks : members.packs.Perm s.entries)
    (happended : Appended core (partAppender core table) written (groups.zipIdx part) ls start)
    (hgroups : ∀ group ∈ groups, ∀ r ∈ group, r.table = table ∧ core.rowShape r)
    (hparts : PartsFrom part rows.length groups) (hrest : ∀ d ∈ rest.head?, d.table ≠ table) :
    readParts core members table part rows
        (List.zipWith (partAppender core table).row (groups.zipIdx part) ls ++ rest) =
      .ok (part + groups.length, rows ++ groups.flatten, rest) := by
  induction groups generalizing part rows ls start with
  | nil =>
    rw [List.zipIdx_nil, List.zipWith_nil_left, List.nil_append, List.flatten_nil, List.append_nil]
    exact readParts_rest hrest
  | cons group groups ih =>
    obtain ⟨hkept, hordinals, hshapes⟩ := happended
    rw [List.zipIdx_cons] at hkept hshapes
    cases hkept with
    | @cons _ l _ ls hl hkept =>
      rw [List.forall_mem_cons] at hgroups
      rw [List.zipWith_cons_cons, List.forall_mem_cons] at hshapes
      obtain ⟨hcut, hempty, hparts⟩ := hparts
      rw [List.length_cons, List.map_cons, List.range'_succ, List.cons.injEq] at hordinals
      have hrows : group.length ≠ 0 ∨ part = 0 := by
        refine hempty.imp_left fun hne => ?_
        have hpos := List.length_pos_of_ne_nil hne
        omega
      have htail := ih (⟨hkept, hordinals.2, hshapes.2⟩ : Appended core (partAppender core table)
        written (groups.zipIdx (part + 1)) ls (start + 1)) hgroups.2
        (by rwa [List.length_append] : PartsFrom (part + 1) (rows ++ group).length groups)
      have hhead {rest' : List DirectoryRow} : readParts core members table part rows
          ((partAppender core table).row (group, part) l :: rest') =
            readParts core members table (part + 1) (rows ++ group) rest' :=
        readParts_cons hshapes.1 rfl ⟨rfl, hl.sectionId⟩ hcut hrows (hl.read hs hpacks) rfl hgroups.1
          ⟨rfl, rfl⟩
      rw [List.zipIdx_cons, List.zipWith_cons_cons, List.cons_append, hhead, htail, List.length_cons,
        List.flatten_cons, ← List.append_assoc, Nat.add_comm groups.length, ← Nat.add_assoc]

/-- A table that was appended is read back in the order of its keys. -/
theorem readTable_appended {members : Members} {sorted : List TableRow} {ls : List Location}
    (hs : s.Holds written) (hpacks : members.packs.Perm s.entries)
    (happended : Appended core (partAppender core table) written (tableParts sorted).zipIdx ls start)
    (hsorted : SortedUnique (sorted.map TableRow.key))
    (hrows : ∀ r ∈ sorted, r.table = table ∧ core.rowShape r)
    (hrest : ∀ d ∈ rest.head?, d.table ≠ table) :
    readTable core members table
        (List.zipWith (partAppender core table).row (tableParts sorted).zipIdx ls ++ rest) =
      .ok (sorted, rest) := by
  have hgroups : ∀ group ∈ tableParts sorted, ∀ r ∈ group, r.table = table ∧ core.rowShape r := by
    intro group hgroup r hr
    apply hrows
    rw [← flatten_tableParts sorted]
    exact List.mem_flatten.mpr ⟨group, hgroup, hr⟩
  have hread : readParts core members table 0 []
      (List.zipWith (partAppender core table).row (tableParts sorted).zipIdx ls ++ rest) =
        .ok (0 + (tableParts sorted).length, [] ++ (tableParts sorted).flatten, rest) :=
    readParts_appended hs hpacks happended hgroups (partsFrom_tableParts sorted) hrest
  rw [readTable, hread, ok_bind]
  dsimp only
  rw [List.nil_append, flatten_tableParts, Nat.zero_add,
    require_bind_of_pos (length_tableParts_pos sorted), require_bind_of_pos hsorted]
  rfl

/-- What appending a table writes. -/
theorem appendTable_spec (hs : s.Holds written)
    (h : appendTable core table s rows = .ok (directory, s')) :
    SortedUnique ((sortByUtf8 TableRow.key rows).map TableRow.key) ∧
      (∀ r ∈ sortByUtf8 TableRow.key rows, core.rowShape r) ∧
      ∃ more, s'.Holds (written ++ more) ∧ ∃ ls, more.length = ls.length ∧
        directory = List.zipWith (partAppender core table).row
          (tableParts (sortByUtf8 TableRow.key rows)).zipIdx ls ∧
        Appended core (partAppender core table) (written ++ more)
          (tableParts (sortByUtf8 TableRow.key rows)).zipIdx ls written.length := by
  simp only [appendTable] at h
  obtain ⟨hsorted, h⟩ := require_bind_eq_ok_iff.mp h
  obtain ⟨hshapes, h⟩ := require_bind_eq_ok_iff.mp h
  obtain ⟨hs', ls, hdirectory, happended⟩ := appendEach_spec hs h
  refine ⟨hsorted, List.all_eq_true.mp hshapes, _, hs', ls, ?_, hdirectory, happended⟩
  rw [bytesOf, List.length_map]
  exact happended.kept.length_eq

end Parts

section Building

variable {ir : FrameIr} {built : Built} {data : List StoredData} {places : TableName → List Location}

/-- The rows of the data frames. -/
def dataRows (data : List StoredData) (ls : List Location) : List SectionRow :=
  List.zipWith StoredData.row data ls

/-- The rows of a table in the order of their keys. -/
def sortedRows (ir : FrameIr) (rows : List SectionRow) : TableName → List TableRow
  | .sections => sortByUtf8 TableRow.key (rows.map .ofSection)
  | .topics => sortByUtf8 TableRow.key ((topicRows ir).map .ofTopic)
  | .nodeSections => sortByUtf8 TableRow.key ((nodeMap ir).map .ofNode)

/-- The directory of a table. -/
def directoryOf (core : FrameCore) (ir : FrameIr) (rows : List SectionRow) (table : TableName)
    (ls : List Location) : List DirectoryRow :=
  List.zipWith (partAppender core table).row (tableParts (sortedRows ir rows table)).zipIdx ls

/-- What was written for an IR: the data frames at the places `ls`, and the parts of the tables at
the places `places`. -/
structure BuiltFrom (core : FrameCore) (ir : FrameIr) (built : Built) (data : List StoredData)
    (written : List Bytes) (ls : List Location) (places : TableName → List Location) : Prop where
  stored : (dataFrames ir).mapM PlainData.store = .ok data
  nodes_length : (nodeMap ir).length = ir.nodes.length
  targets : ∀ decoded, (data.filterMap StoredData.xref?).mapM decodeFrame = .ok decoded →
    targetsText (decoded.flatMap (·.records)) = targetsText ir.expansionTargets
  holds : built.packs.Holds written
  frames : Appended core (dataAppender core) written data ls 0
  sorted : ∀ table, SortedUnique ((sortedRows ir (dataRows data ls) table).map TableRow.key)
  shapes : ∀ table, ∀ r ∈ sortedRows ir (dataRows data ls) table, core.rowShape r
  parts : ∀ table, ∃ start, Appended core (partAppender core table) written
    (tableParts (sortedRows ir (dataRows data ls) table)).zipIdx (places table) start
  tables : built.tables = directoryOf core ir (dataRows data ls) .sections (places .sections) ++
    directoryOf core ir (dataRows data ls) .topics (places .topics) ++
      directoryOf core ir (dataRows data ls) .nodeSections (places .nodeSections)
  ordinals : (ls ++ (places .sections ++ places .topics ++ places .nodeSections)).map
    (·.packOrdinal) = List.range written.length

theorem buildFrames_spec (h : buildFrames core ir = .ok built) :
    ∃ data written ls places, BuiltFrom core ir built data written ls places := by
  simp only [buildFrames] at h
  obtain ⟨data, hdata, h⟩ := bind_eq_ok_iff.mp h
  obtain ⟨⟨hlength, -⟩, h⟩ := require_bind_eq_ok_iff.mp h
  obtain ⟨decoded, hdecoded, h⟩ := bind_eq_ok_iff.mp h
  obtain ⟨htext, h⟩ := require_bind_eq_ok_iff.mp h
  obtain ⟨⟨rows, s₁⟩, hrows, h⟩ := bind_eq_ok_iff.mp h
  obtain ⟨⟨parts₁, s₂⟩, hparts₁, h⟩ := bind_eq_ok_iff.mp h
  obtain ⟨⟨parts₂, s₃⟩, hparts₂, h⟩ := bind_eq_ok_iff.mp h
  obtain ⟨⟨parts₃, s₄⟩, hparts₃, h⟩ := bind_eq_ok_iff.mp h
  obtain rfl := Except.ok.inj h
  have hempty : Packs.Holds ⟨[], 0⟩ [] := ⟨(chunks_nil (by decide)).symm, rfl, List.forall_mem_nil _⟩
  obtain ⟨hs₁, ls, rfl, happended⟩ := appendEach_spec hempty hrows
  rw [List.nil_append] at hs₁ happended
  obtain ⟨hsorted₁, hshapes₁, more₁, hs₂, ls₁, hlength₁, hdirectory₁, happended₁⟩ :=
    appendTable_spec hs₁ hparts₁
  obtain ⟨hsorted₂, hshapes₂, more₂, hs₃, ls₂, hlength₂, hdirectory₂, happended₂⟩ :=
    appendTable_spec hs₂ hparts₂
  obtain ⟨hsorted₃, hshapes₃, more₃, hs₄, ls₃, hlength₃, hdirectory₃, happended₃⟩ :=
    appendTable_spec hs₃ hparts₃
  subst hdirectory₁ hdirectory₂ hdirectory₃
  refine ⟨data, _, ls, (fun table => match table with
    | .sections => ls₁
    | .topics => ls₂
    | .nodeSections => ls₃), of_mapError hdata, hlength, ?_, hs₄, ?_, ?_, ?_, ?_, rfl, ?_⟩
  · intro decoded' hdecoded'
    obtain rfl := Except.ok.inj (hdecoded'.symm.trans (of_mapError hdecoded))
    exact htext
  · exact ((happended.mono more₁).mono more₂).mono more₃
  · intro table
    cases table with
    | sections => exact hsorted₁
    | topics => exact hsorted₂
    | nodeSections => exact hsorted₃
  · intro table
    cases table with
    | sections => exact hshapes₁
    | topics => exact hshapes₂
    | nodeSections => exact hshapes₃
  · intro table
    cases table with
    | sections => exact ⟨_, (happended₁.mono more₂).mono more₃⟩
    | topics => exact ⟨_, happended₂.mono more₃⟩
    | nodeSections => exact ⟨_, happended₃⟩
  · have hcount : (bytesOf core (dataAppender core) data).length = ls.length := by
      rw [bytesOf, List.length_map]
      exact happended.kept.length_eq
    have hmeet {m n : ℕ} : List.range' 0 m ++ List.range' m n = List.range' 0 (m + n) := by
      have happend := List.range'_append_1 (s := 0) (m := m) (n := n)
      rwa [Nat.zero_add] at happend
    simp only [List.map_append, happended.ordinals, happended₁.ordinals, happended₂.ordinals,
      happended₃.ordinals, List.length_append, hcount, hlength₁, hlength₂, hlength₃,
      List.length_nil]
    rw [List.range_eq_range']
    simp only [← List.append_assoc]
    rw [hmeet, hmeet, hmeet]

end Building

end Kdna.Sections

import Kdna.Cbor.Decode
import Kdna.Data.Chunks
import Kdna.Data.Tiling
import Kdna.Data.Upsert
import Kdna.Sections.Layout

/-!
# Packs of frames

The frames of a section asset stand in packs of eight, one behind the other, each pack a member of
the container. The writer gives every frame its place, and the reader takes the places only if they
leave no octet of a pack out and use none twice.
-/

namespace Kdna.Sections

/-- The place of a frame: its pack, its range there, its number and its digest. -/
structure Location where
  sectionId : String
  member : String
  offsetBytes : ℕ
  lengthBytes : ℕ
  packOrdinal : ℕ
  digest : String
  deriving DecidableEq

/-- The checks of frames and packs. -/
inductive PackFailure
  | decoding (e : Failure)
  | frameRange
  | sectionDigest
  | framePackOrderOrOverlap
  | packCoverage
  | packSpanCoverage

/-- The members of a container by their names. -/
structure Members where
  entries : List (String × Bytes)
  nodup : (entries.map Prod.fst).Nodup

/-- The encoder of frames, their decoder, which takes frames of a bounded length only and returns
what was encoded, and their digest. -/
structure FrameCodec (α : Type) where
  encode : α → Bytes
  decode : Bytes → Except Failure α
  sha : Bytes → String
  bounded : ∀ {b v}, decode b = .ok v → b.length ≤ maxPayloadBytes
  exact : ∀ {v w}, decode (encode v) = .ok w → w = v

/-- `sections/pack-${p}.kdnab` -/
def packName (p : ℕ) : String := "sections/pack-" ++ toString p ++ ".kdnab"

section Model

variable {α : Type} (codec : FrameCodec α)

/-- The chunks of each pack, and how many frames there are. -/
structure Packs where
  packs : List (List Bytes)
  frames : ℕ

/-- `append(id, value)`: the place of the frame, and the packs behind it. -/
def Packs.append (s : Packs) (id : String) (value : α) : Except PackFailure (Location × Packs) := do
  let bytes := codec.encode value
  let _ ← (codec.decode bytes).mapError .decoding
  let p := s.frames / 8
  let offset := ((s.packs.getD p []).map List.length).sum
  let row : Location :=
    ⟨id, packName p, offset, bytes.length, s.frames, codec.sha bytes⟩
  return (row, ⟨pushAt bytes p s.packs, s.frames + 1⟩)

/-- The packs as members: `Buffer.concat(chunks)` of each. -/
def Packs.entries (s : Packs) : List (String × Bytes) :=
  s.packs.zipIdx.map fun c => (packName c.2, c.1.flatten)

/-- `frame(row)`: the value of the frame at a place. -/
def readFrame (members : Members) (row : Location) : Except PackFailure α := do
  let m ← orFail .frameRange (getKey row.member members.entries)
  require (row.offsetBytes + row.lengthBytes < 2 ^ 53 ∧
    row.offsetBytes + row.lengthBytes ≤ m.length) PackFailure.frameRange
  let b := (m.drop row.offsetBytes).take row.lengthBytes
  require (codec.sha b = row.digest) PackFailure.sectionDigest
  (codec.decode b).mapError .decoding

/-- The loop over the places, in their order: the end of each pack. -/
def packEnds : ℕ → List (String × ℕ) → List Location → Except PackFailure (List (String × ℕ))
  | _, ends, [] => .ok ends
  | i, ends, row :: rows => do
    require (row.packOrdinal = i ∧ row.member = packName (i / 8) ∧
      row.offsetBytes = (getKey (packName (i / 8)) ends).getD 0) PackFailure.framePackOrderOrOverlap
    packEnds (i + 1)
      (upsert (packName (i / 8)) (fun _ => row.offsetBytes + row.lengthBytes) ends) rows

/-- The members below `sections/`. -/
def Members.packs (members : Members) : List (String × Bytes) :=
  members.entries.filter fun e => startsWith e.1 "sections/"

/-- The check of the places against the members: the end of each pack. -/
def checkPacks (rows : List Location) (members : Members) :
    Except PackFailure (List (String × ℕ)) := do
  let ends ← packEnds 0 [] rows
  require (ends.length = members.packs.length) PackFailure.packCoverage
  require (∀ e ∈ ends, (getKey e.1 members.entries).map List.length = some e.2)
    PackFailure.packSpanCoverage
  return ends

end Model

section Names

theorem toString_injective : Function.Injective fun n : ℕ => toString n := by
  intro m n h
  have hdigits : Nat.toDigits 10 m = Nat.toDigits 10 n := by
    rw [← Nat.toList_repr, ← Nat.toList_repr]
    exact congrArg String.toList h
  have hvalue := congrArg (fun ds => Nat.ofDigitChars 10 ds 0) hdigits
  simpa only [Nat.ofDigitChars_ten_toDigits] using hvalue

theorem packName_injective : Function.Injective packName := by
  intro p q h
  rw [packName, packName, String.append_left_inj, String.append_right_inj] at h
  exact toString_injective h

theorem startsWith_append (text rest : String) : startsWith (text ++ rest) text = true := by
  rw [startsWith, String.toList_append]
  exact List.isPrefixOf_iff_prefix.mpr (List.prefix_append _ _)

theorem startsWith_packName (p : ℕ) : startsWith (packName p) "sections/" = true := by
  have hname : packName p = "sections/" ++ ("pack-" ++ toString p ++ ".kdnab") := by
    simp only [packName, ← String.append_assoc]
    rfl
  rw [hname]
  exact startsWith_append _ _

end Names

/-- The octets of the frames in the pack `name`. -/
def lengthIn (rows : List Location) (name : String) : ℕ :=
  ((rows.filter (·.member = name)).map (·.lengthBytes)).sum

/-- The ranges of the frames in the pack `name`. -/
def spansIn (rows : List Location) (name : String) : List Span :=
  (rows.filter (·.member = name)).map fun row =>
    (row.offsetBytes, row.offsetBytes + row.lengthBytes)

/-- The place of a frame behind the frames `done`. -/
structure Placed (done : List Location) (row : Location) : Prop where
  ordinal : row.packOrdinal = done.length
  member : row.member = packName (done.length / 8)
  offset : row.offsetBytes = lengthIn done row.member

/-- Each frame has its place behind the frames before it. -/
inductive Ordered : List Location → Prop
  | nil : Ordered []
  | snoc {done : List Location} {row : Location} : Ordered done → Placed done row →
      Ordered (done ++ [row])

/-- The end of each pack. -/
def endsOf (rows : List Location) : List (String × ℕ) :=
  (List.range ((rows.length + 7) / 8)).map fun p => (packName p, lengthIn rows (packName p))

variable {rows done : List Location} {row : Location}

theorem lengthIn_append (rows rows' : List Location) (name : String) :
    lengthIn (rows ++ rows') name = lengthIn rows name + lengthIn rows' name := by
  simp only [lengthIn, List.filter_append, List.map_append, List.sum_append]

theorem lengthIn_singleton (row : Location) (name : String) :
    lengthIn [row] name = if row.member = name then row.lengthBytes else 0 := by
  by_cases h : row.member = name <;> simp [lengthIn, h]

theorem Ordered.of_snoc (h : Ordered (done ++ [row])) : Ordered done ∧ Placed done row := by
  generalize hl : done ++ [row] = l at h
  cases h with
  | nil => exact absurd hl (List.append_ne_nil_of_right_ne_nil _ (List.cons_ne_nil _ _))
  | snoc h hrow =>
    obtain ⟨rfl, hlast⟩ := List.append_inj' hl rfl
    cases hlast
    exact ⟨h, hrow⟩

/-- The frames before a frame have their places, too. -/
theorem Ordered.of_append (h : Ordered (done ++ rows)) : Ordered done := by
  induction rows using List.reverseRecOn with
  | nil => rwa [List.append_nil] at h
  | append_singleton rows row ih =>
    rw [← List.append_assoc] at h
    exact ih h.of_snoc.1

/-- The frames of a pack. -/
theorem Ordered.filter_eq (h : Ordered rows) (p : ℕ) :
    rows.filter (·.member = packName p) = (rows.drop (8 * p)).take 8 := by
  induction h with
  | nil => simp
  | @snoc done row _ hrow ih =>
    rw [List.filter_append, ih, List.drop_append, List.take_append, List.length_drop]
    by_cases hp : done.length / 8 = p
    · have hmember : row.member = packName p := by rw [hrow.member, hp]
      have hdrop : 8 * p - done.length = 0 := by omega
      have hroom : 8 - (done.length - 8 * p) ≠ 0 := by omega
      obtain ⟨room, hroom⟩ := Nat.exists_eq_succ_of_ne_zero hroom
      simp [hmember, hdrop, hroom]
    · have hmember : row.member ≠ packName p := by
        rw [hrow.member]
        exact fun heq => hp (packName_injective heq)
      have hnone : 8 - (done.length - 8 * p) = 0 ∨ 1 ≤ 8 * p - done.length := by omega
      simpa [hmember] using hnone

/-- How many frames a pack has. -/
theorem Ordered.length_filter (h : Ordered rows) (p : ℕ) :
    (rows.filter (·.member = packName p)).length = min 8 (rows.length - 8 * p) := by
  rw [h.filter_eq, List.length_take, List.length_drop]

/-- The ranges in a pack follow each other. -/
theorem Ordered.chain (h : Ordered rows) (name : String) :
    SpanChain 0 (spansIn rows name) (lengthIn rows name) := by
  induction h with
  | nil => exact rfl
  | @snoc done row _ hrow ih =>
    rw [lengthIn_append, lengthIn_singleton, spansIn, List.filter_append, List.map_append]
    apply ih.append
    by_cases hname : row.member = name
    · have hoffset := hrow.offset
      rw [hname] at hoffset
      simp only [List.filter_singleton, hname, decide_true, cond_true, List.map_singleton, if_true]
      exact ⟨hoffset, Nat.le_add_right _ _, by rw [hoffset]; exact rfl⟩
    · simp only [List.filter_singleton, hname, decide_false, cond_false, List.map_nil, if_false]
      exact rfl

theorem Ordered.ordinals (h : Ordered rows) :
    rows.map (·.packOrdinal) = List.range rows.length := by
  induction h with
  | nil => rfl
  | snoc _ hrow ih =>
    rw [List.map_append, ih, List.length_append, List.length_singleton, List.range_succ,
      List.map_singleton, hrow.ordinal]

/-- A pack that no frame stands in has no octets. -/
theorem Ordered.lengthIn_eq_zero (h : Ordered rows) {p : ℕ} (hp : rows.length ≤ 8 * p) :
    lengthIn rows (packName p) = 0 := by
  have hlength := h.length_filter p
  have hnil : rows.filter (·.member = packName p) = [] := by
    apply List.eq_nil_of_length_eq_zero
    omega
  rw [lengthIn, hnil]
  rfl

theorem names_endsOf (rows : List Location) :
    (endsOf rows).map Prod.fst = (List.range ((rows.length + 7) / 8)).map packName := by
  rw [endsOf, List.map_map]
  rfl

theorem nodup_names_endsOf (rows : List Location) : ((endsOf rows).map Prod.fst).Nodup := by
  rw [names_endsOf]
  exact List.nodup_range.map packName_injective

/-- The packs of the frames have ends. -/
theorem Ordered.mem_names (h : Ordered rows) (hrow : row ∈ rows) :
    row.member ∈ (endsOf rows).map Prod.fst := by
  rw [names_endsOf]
  obtain ⟨front, back, rfl⟩ := List.append_of_mem hrow
  rw [List.append_cons] at h
  refine List.mem_map.mpr ⟨front.length / 8, ?_, h.of_append.of_snoc.2.member.symm⟩
  rw [List.mem_range, List.length_append, List.length_cons]
  omega

theorem getKey_endsOf (h : Ordered rows) (p : ℕ) :
    (getKey (packName p) (endsOf rows)).getD 0 = lengthIn rows (packName p) := by
  by_cases hp : p < (rows.length + 7) / 8
  · have hmem : (packName p, lengthIn rows (packName p)) ∈ endsOf rows :=
      List.mem_map.mpr ⟨p, List.mem_range.mpr hp, rfl⟩
    rw [(getKey_eq_some_iff (nodup_names_endsOf rows)).mpr hmem]
    rfl
  · have hnone : getKey (packName p) (endsOf rows) = none := by
      by_contra hsome
      obtain ⟨e, he⟩ := Option.ne_none_iff_exists'.mp hsome
      obtain ⟨q, hq, heq⟩ := List.mem_map.mp (mem_of_getKey he)
      have hpq : q = p := packName_injective (Prod.mk.inj heq).1
      rw [List.mem_range] at hq
      omega
    rw [hnone, h.lengthIn_eq_zero (by omega)]
    rfl

/-- The ends behind one more frame. -/
theorem upsert_endsOf (hrow : Placed done row) :
    upsert (packName (done.length / 8)) (fun _ => row.offsetBytes + row.lengthBytes)
      (endsOf done) = endsOf (done ++ [row]) := by
  have hlast : row.offsetBytes + row.lengthBytes =
      lengthIn (done ++ [row]) (packName (done.length / 8)) := by
    rw [lengthIn_append, lengthIn_singleton, if_pos hrow.member, hrow.offset, hrow.member]
  -- the packs before the last one keep their ends
  have hbefore : (List.range (done.length / 8)).map (fun p => (packName p, lengthIn done (packName p)))
      = (List.range (done.length / 8)).map
        fun p => (packName p, lengthIn (done ++ [row]) (packName p)) := by
    apply List.map_congr_left
    intro p hp
    rw [List.mem_range] at hp
    have hne : row.member ≠ packName p := by
      rw [hrow.member]
      exact fun heq => absurd (packName_injective heq) (by omega)
    rw [lengthIn_append, lengthIn_singleton, if_neg hne, Nat.add_zero]
  have hnot : packName (done.length / 8) ∉ ((List.range (done.length / 8)).map
      (fun p => (packName p, lengthIn done (packName p)))).map Prod.fst := by
    rw [List.map_map]
    intro hmem
    obtain ⟨p, hp, heq⟩ := List.mem_map.mp hmem
    rw [List.mem_range] at hp
    exact absurd (packName_injective heq) (by omega)
  have hcount : (done.length + 8) / 8 = done.length / 8 + 1 := by omega
  rw [endsOf, endsOf, List.length_append, List.length_singleton]
  change _ = (List.range ((done.length + 8) / 8)).map _
  rw [hcount, List.range_succ, List.map_append, ← hbefore]
  by_cases hfull : done.length % 8 = 0
  · have hcount' : (done.length + 7) / 8 = done.length / 8 := by omega
    rw [hcount', ← List.append_nil (List.map _ (List.range (done.length / 8))), upsert_append hnot,
      List.append_nil, hlast]
    rfl
  · have hcount' : (done.length + 7) / 8 = done.length / 8 + 1 := by omega
    rw [hcount', List.range_succ, List.map_append, upsert_append hnot, hlast]
    simp [upsert]

/-- The loop passes exactly on frames that have their places, and returns the end of each pack. -/
theorem packEnds_eq_ok_iff (h : Ordered done) {ends : List (String × ℕ)} :
    packEnds done.length (endsOf done) rows = .ok ends ↔
      Ordered (done ++ rows) ∧ ends = endsOf (done ++ rows) := by
  induction rows generalizing done with
  | nil =>
    rw [List.append_nil, packEnds, Except.ok.injEq, eq_comm]
    exact (and_iff_right h).symm
  | cons row rows ih =>
    have hplaced : (row.packOrdinal = done.length ∧ row.member = packName (done.length / 8) ∧
        row.offsetBytes = (getKey (packName (done.length / 8)) (endsOf done)).getD 0) ↔
          Placed done row := by
      rw [getKey_endsOf h]
      constructor
      · rintro ⟨hordinal, hmember, hoffset⟩
        exact ⟨hordinal, hmember, by rw [hmember]; exact hoffset⟩
      · rintro ⟨hordinal, hmember, hoffset⟩
        exact ⟨hordinal, hmember, by rw [← hmember]; exact hoffset⟩
    rw [packEnds, require_bind_eq_ok_iff, hplaced, List.append_cons]
    constructor
    · rintro ⟨hrow, hrest⟩
      have hsnoc := h.snoc hrow
      have hlength : (done ++ [row]).length = done.length + 1 := by simp
      rw [upsert_endsOf hrow, ← hlength] at hrest
      exact (ih hsnoc).mp hrest
    · rintro ⟨hordered, rfl⟩
      have hrow : Placed done row := hordered.of_append.of_snoc.2
      have hsnoc := h.snoc hrow
      have hlength : (done ++ [row]).length = done.length + 1 := by simp
      refine ⟨hrow, ?_⟩
      rw [upsert_endsOf hrow, ← hlength]
      exact (ih hsnoc).mpr ⟨hordered, rfl⟩

/-- The check passes exactly on frames that have their places in packs which are the members below
`sections/`, each as long as its frames together. -/
theorem checkPacks_eq_ok_iff {members : Members} {ends : List (String × ℕ)} :
    checkPacks rows members = .ok ends ↔
      Ordered rows ∧ ends = endsOf rows ∧ (endsOf rows).length = members.packs.length ∧
        ∀ e ∈ endsOf rows, (getKey e.1 members.entries).map List.length = some e.2 := by
  have hloop {ends : List (String × ℕ)} : packEnds 0 [] rows = .ok ends ↔
      Ordered rows ∧ ends = endsOf rows := packEnds_eq_ok_iff Ordered.nil
  rw [checkPacks, bind_eq_ok_iff]
  constructor
  · rintro ⟨ends', hends, h⟩
    obtain ⟨hordered, rfl⟩ := hloop.mp hends
    obtain ⟨hlength, h⟩ := require_bind_eq_ok_iff.mp h
    obtain ⟨hspans, h⟩ := require_bind_eq_ok_iff.mp h
    exact ⟨hordered, (Except.ok.inj h).symm, hlength, hspans⟩
  · rintro ⟨hordered, rfl, hlength, hspans⟩
    refine ⟨endsOf rows, hloop.mpr ⟨hordered, rfl⟩, ?_⟩
    rw [require_bind_of_pos hlength, require_bind_of_pos hspans]
    rfl

/-- The members below `sections/` are the packs that have ends. -/
theorem mem_names_endsOf_iff {members : Members}
    (hlength : (endsOf rows).length = members.packs.length)
    (hspans : ∀ e ∈ endsOf rows, (getKey e.1 members.entries).map List.length = some e.2)
    {name : String} :
    name ∈ (endsOf rows).map Prod.fst ↔ name ∈ members.packs.map Prod.fst := by
  have hsubset : (endsOf rows).map Prod.fst ⊆ members.packs.map Prod.fst := by
    intro name hname
    obtain ⟨e, he, rfl⟩ := List.mem_map.mp hname
    obtain ⟨b, hb, -⟩ := Option.map_eq_some_iff.mp (hspans e he)
    refine List.mem_map.mpr ⟨(e.1, b), List.mem_filter.mpr ⟨mem_of_getKey hb, ?_⟩, rfl⟩
    obtain ⟨p, -, rfl⟩ := List.mem_map.mp he
    exact startsWith_packName p
  have hperm := (List.subperm_of_subset (nodup_names_endsOf rows) hsubset).perm_of_length_le
    (by simp [hlength])
  exact hperm.mem_iff

/-- Frames that pass are numbered in their order, each stands in a member below `sections/`, and
each such member is tiled by the ranges of at most eight frames. -/
theorem packs_tiled {members : Members} {ends : List (String × ℕ)}
    (h : checkPacks rows members = .ok ends) :
    rows.map (·.packOrdinal) = List.range rows.length ∧
      (∀ row ∈ rows, row.member ∈ members.packs.map Prod.fst) ∧
      ∀ e ∈ members.packs, (spansIn rows e.1).length ≤ 8 ∧
        Tiles (spansIn rows e.1) 0 e.2.length := by
  obtain ⟨hordered, -, hlength, hspans⟩ := checkPacks_eq_ok_iff.mp h
  have hnames {name : String} :
      name ∈ (endsOf rows).map Prod.fst ↔ name ∈ members.packs.map Prod.fst :=
    mem_names_endsOf_iff hlength hspans
  refine ⟨hordered.ordinals, fun row hrow => hnames.mp (hordered.mem_names hrow), ?_⟩
  rintro ⟨name, b⟩ he
  obtain ⟨e, hends, rfl⟩ := List.mem_map.mp (hnames.mpr (List.mem_map.mpr ⟨_, he, rfl⟩))
  have hb : getKey e.1 members.entries = some b :=
    (getKey_eq_some_iff members.nodup).mpr (List.mem_filter.mp he).1
  have hend : b.length = e.2 := by
    have := hspans e hends
    rw [hb] at this
    exact Option.some.inj this
  obtain ⟨p, -, rfl⟩ := List.mem_map.mp hends
  constructor
  · rw [spansIn, List.length_map, hordered.length_filter]
    exact Nat.min_le_left _ _
  · rw [hend]
    exact (hordered.chain _).tiles

section Written

variable {α : Type} {codec : FrameCodec α} {s s' : Packs} {written : List Bytes} {b : Bytes}

/-- The packs hold the frames `written`. -/
structure Packs.Holds (s : Packs) (written : List Bytes) : Prop where
  packs : s.packs = chunks 8 written
  frames : s.frames = written.length
  bounded : ∀ b ∈ written, b.length ≤ maxPayloadBytes

/-- The place of the frame `b` among the frames `written`. -/
structure Stands (codec : FrameCodec α) (written : List Bytes) (row : Location) (b : Bytes) :
    Prop where
  bytes : written[row.packOrdinal]? = some b
  member : row.member = packName (row.packOrdinal / 8)
  offset : row.offsetBytes =
    (((written.take row.packOrdinal).drop (8 * (row.packOrdinal / 8))).map List.length).sum
  length : row.lengthBytes = b.length
  digest : row.digest = codec.sha b

/-- A frame keeps its place when more are written. -/
theorem Stands.mono (h : Stands codec written row b) (more : List Bytes) :
    Stands codec (written ++ more) row b := by
  obtain ⟨hlt, -⟩ := List.getElem?_eq_some_iff.mp h.bytes
  refine ⟨?_, h.member, ?_, h.length, h.digest⟩
  · rw [List.getElem?_append_left hlt]
    exact h.bytes
  · rw [List.take_append_of_le_length (Nat.le_of_lt hlt)]
    exact h.offset

/-- The chunk to which the next frame is pushed. -/
theorem getD_chunks (written : List Bytes) :
    (chunks 8 written).getD (written.length / 8) [] = written.drop (8 * (written.length / 8)) := by
  rw [List.getD_eq_getElem?_getD, getElem?_chunks]
  split_ifs with hlt
  · rw [Option.getD_some, List.take_of_length_le]
    rw [List.length_drop]
    omega
  · rw [Option.getD_none, List.drop_eq_nil_of_le]
    omega

/-- A frame that is appended stands behind the others. -/
theorem Packs.Holds.append (hs : s.Holds written) {id : String} {v : α}
    (h : s.append codec id v = .ok (row, s')) :
    s'.Holds (written ++ [codec.encode v]) ∧ row.sectionId = id ∧
      row.packOrdinal = written.length ∧ codec.decode (codec.encode v) = .ok v ∧
      Stands codec (written ++ [codec.encode v]) row (codec.encode v) := by
  obtain ⟨w, hw, h⟩ := bind_eq_ok_iff.mp h
  have hdecode : codec.decode (codec.encode v) = .ok w := by
    cases hd : codec.decode (codec.encode v) with
    | ok u =>
      rw [hd] at hw
      cases hw
      rfl
    | error e =>
      rw [hd] at hw
      cases hw
  obtain rfl := codec.exact hdecode
  obtain ⟨rfl, rfl⟩ := Prod.mk.inj (Except.ok.inj h)
  refine ⟨⟨?_, ?_, ?_⟩, rfl, hs.frames, hdecode, ?_, ?_, ?_, rfl, rfl⟩
  · rw [hs.packs, hs.frames]
    exact pushAt_chunks (by decide) _ _
  · rw [List.length_append, List.length_singleton, hs.frames]
  · intro b hb
    rcases List.mem_append.mp hb with hb | hb
    · exact hs.bounded b hb
    · rw [List.mem_singleton.mp hb]
      exact codec.bounded hdecode
  · simp only [hs.frames, List.getElem?_concat_length]
  · rfl
  · simp only [hs.packs, hs.frames, getD_chunks, List.take_left']

/-- A frame is read back at its place. -/
theorem readFrame_of_stands {members : Members} {v : α} (hs : s.Holds written)
    (hpacks : members.packs.Perm s.entries) (hrow : Stands codec written row (codec.encode v))
    (hdecode : codec.decode (codec.encode v) = .ok v) : readFrame codec members row = .ok v := by
  obtain ⟨post, hchunk⟩ := chunk_split (by decide : 0 < 8) hrow.bytes
  set before := (written.take row.packOrdinal).drop (8 * (row.packOrdinal / 8)) with hbefore
  have hentry : (row.member, (before ++ codec.encode v :: post).flatten) ∈ s.entries := by
    rw [Packs.entries, hs.packs, hrow.member]
    exact List.mem_map.mpr ⟨(_, row.packOrdinal / 8),
      List.mem_zipIdx_iff_getElem?.mpr hchunk, rfl⟩
  have hmember : getKey row.member members.entries =
      some (before.flatten ++ (codec.encode v ++ post.flatten)) := by
    rw [getKey_eq_some_iff members.nodup, ← List.flatten_cons, ← List.flatten_append]
    exact (List.mem_filter.mp (hpacks.mem_iff.mpr hentry)).1
  have hoffset : row.offsetBytes = before.flatten.length := by
    rw [hrow.offset, List.length_flatten, hbefore]
  have hlt : row.packOrdinal < written.length := (List.getElem?_eq_some_iff.mp hrow.bytes).1
  have hcount : before.length ≤ 7 := by
    rw [hbefore, List.length_drop, List.length_take]
    omega
  have hsum : before.flatten.length ≤ before.length * maxPayloadBytes :=
    length_flatten_le fun b hb => hs.bounded b (List.mem_of_mem_take (List.mem_of_mem_drop hb))
  have hlength := codec.bounded hdecode
  have hmax : 8 * maxPayloadBytes < 2 ^ 53 := by decide
  have hrange : row.offsetBytes + row.lengthBytes < 2 ^ 53 := by
    have := Nat.mul_le_mul_right maxPayloadBytes hcount
    rw [hoffset, hrow.length]
    omega
  have hwithin : row.offsetBytes + row.lengthBytes ≤
      (before.flatten ++ (codec.encode v ++ post.flatten)).length := by
    rw [hoffset, hrow.length, List.length_append, List.length_append]
    omega
  rw [readFrame, hmember]
  simp only [orFail, ok_bind]
  rw [require_bind_of_pos ⟨hrange, hwithin⟩, hoffset, hrow.length, List.drop_left', List.take_left',
    require_bind_of_pos hrow.digest.symm, hdecode]
  · rfl
  · rfl
  · rfl

/-- The lengths in the places are those of the frames. -/
theorem lengths_of_stands (hordinals : rows.map (·.packOrdinal) = List.range rows.length)
    (hlength : rows.length = written.length)
    (hrows : ∀ row ∈ rows, ∃ b, Stands codec written row b) :
    rows.map (·.lengthBytes) = written.map List.length := by
  apply List.ext_getElem (by simp [hlength])
  intro i hi hi'
  rw [List.length_map] at hi hi'
  have hordinal : rows[i].packOrdinal = i := by
    have := List.getElem_of_eq hordinals (by simpa using hi)
    simpa using this
  obtain ⟨b, hb⟩ := hrows rows[i] (List.getElem_mem hi)
  have hbytes := hb.bytes
  rw [hordinal, List.getElem?_eq_getElem hi', Option.some.injEq] at hbytes
  rw [List.getElem_map, List.getElem_map, hb.length, hbytes]

theorem ordered_of_stands (hordinals : rows.map (·.packOrdinal) = List.range rows.length)
    (hlength : rows.length = written.length)
    (hrows : ∀ row ∈ rows, ∃ b, Stands codec written row b) {k : ℕ} (hk : k ≤ rows.length) :
    Ordered (rows.take k) := by
  induction k with
  | zero => exact Ordered.nil
  | succ k ih =>
    have hlt : k < rows.length := hk
    have hbefore := ih (Nat.le_of_lt hlt)
    have hcount : (rows.take k).length = k := List.length_take_of_le (Nat.le_of_lt hlt)
    have hordinal : rows[k].packOrdinal = k := by
      have := List.getElem_of_eq hordinals (by simpa using hlt)
      simpa using this
    obtain ⟨b, hb⟩ := hrows rows[k] (List.getElem_mem hlt)
    have hmember := hb.member
    have hoffset := hb.offset
    rw [hordinal] at hmember hoffset
    rw [List.take_succ_eq_append_getElem hlt]
    refine hbefore.snoc ⟨by rw [hcount, hordinal], by rw [hcount, hmember], ?_⟩
    have hpack : ((rows.take k).drop (8 * (k / 8))).take 8 = (rows.take k).drop (8 * (k / 8)) := by
      apply List.take_of_length_le
      rw [List.length_drop, hcount]
      omega
    rw [hoffset, hmember, lengthIn, hbefore.filter_eq, hpack, List.map_drop, List.map_take,
      List.map_drop, List.map_take, lengths_of_stands hordinals hlength hrows]

/-- The places of all frames pass the check. -/
theorem checkPacks_of_stands {members : Members} (hs : s.Holds written)
    (hpacks : members.packs.Perm s.entries)
    (hordinals : rows.map (·.packOrdinal) = List.range rows.length)
    (hlength : rows.length = written.length)
    (hrows : ∀ row ∈ rows, ∃ b, Stands codec written row b) :
    checkPacks rows members = .ok (endsOf rows) := by
  have hordered : Ordered rows := by
    have := ordered_of_stands hordinals hlength hrows le_rfl
    rwa [List.take_length] at this
  refine checkPacks_eq_ok_iff.mpr ⟨hordered, rfl, ?_, ?_⟩
  · rw [hpacks.length_eq, Packs.entries, hs.packs, List.length_map, List.length_zipIdx,
      length_chunks, endsOf, List.length_map, List.length_range, hlength]
  · intro e he
    obtain ⟨p, hp, rfl⟩ := List.mem_map.mp he
    rw [List.mem_range, hlength] at hp
    have hchunk : (chunks 8 written)[p]? = some ((written.drop (8 * p)).take 8) := by
      rw [getElem?_chunks, if_pos hp]
    have hentry : (packName p, ((written.drop (8 * p)).take 8).flatten) ∈ s.entries := by
      rw [Packs.entries, hs.packs]
      exact List.mem_map.mpr ⟨(_, p), List.mem_zipIdx_iff_getElem?.mpr hchunk, rfl⟩
    have hmember := (getKey_eq_some_iff members.nodup).mpr
      (List.mem_filter.mp (hpacks.mem_iff.mpr hentry)).1
    rw [hmember, Option.map_some, Option.some.injEq, lengthIn, hordered.filter_eq,
      List.length_flatten, List.map_take, List.map_drop, List.map_take, List.map_drop,
      lengths_of_stands hordinals hlength hrows]

end Written

section Samples

/-- One frame of two octets. -/
def sampleLocation : Location := ⟨"volume:0", packName 0, 0, 2, 0, ""⟩

/-- The pack of the frame, and another member. -/
def sampleMembers : Members where
  entries := [("kdna.json", [7]), (packName 0, [1, 2])]
  nodup := by decide

theorem packs_tiled_sample : Tiles (spansIn [sampleLocation] (packName 0)) 0 2 :=
  ((packs_tiled (by rfl : checkPacks [sampleLocation] sampleMembers =
    .ok [(packName 0, 2)])).2.2 (packName 0, [1, 2]) (by decide)).2

end Samples

end Kdna.Sections

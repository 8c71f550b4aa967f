import Kdna.Container.Parse

/-!
# The container writer

`encodeStored` of `container-writer.js`. Every member is stored. The three kinds
of record have fixed fields followed by the name and the octets, so each is a
`block` of little-endian words; `leValue_slice_block` reads one field back.
-/

namespace Kdna.Container

/-- What makes the writer stop: its rejection, or the `RangeError` of a buffer
write whose value does not fit the field. -/
inductive WriteFailure
  | coreInvalid
  | outOfRange
  deriving DecidableEq, Repr

/-- Consecutive little-endian words, as pairs of width and value. -/
def block (fields : List (ℕ × ℕ)) : Bytes := fields.flatMap fun f => Bytes.leWord f.1 f.2

/-- The fixed fields of a local header. -/
def localFixed (n : ℕ) (crc size : ℕ) : Bytes :=
  block [(4, 0x04034b50), (2, 20), (2, 0x800), (2, 0), (4, 0), (4, crc), (4, size), (4, size),
    (2, n), (2, 0)]

/-- The fixed fields of a central directory record. -/
def centralFixed (n : ℕ) (crc size mode offset : ℕ) : Bytes :=
  block [(4, 0x02014b50), (2, 0x0314), (2, 20), (2, 0x800), (2, 0), (4, 0), (4, crc), (4, size),
    (4, size), (2, n), (2, 0), (2, 0), (2, 0), (2, 0), (4, mode * 65536 % 2 ^ 32), (4, offset)]

/-- The end record. -/
def endFixed (count centralSize offset : ℕ) : Bytes :=
  block [(4, 0x06054b50), (2, 0), (2, 0), (2, count), (2, count), (4, centralSize), (4, offset),
    (2, 0)]

/-- The local header, name and octets of a member. -/
def localRecord (m : Member) : Bytes :=
  localFixed (Utf8.encode m.name).length (crc32 m.bytes) m.bytes.length ++
    (Utf8.encode m.name ++ m.bytes)

/-- The directory record and name of a member whose local header is at `offset`. -/
def centralRecord (m : Member) (offset : ℕ) : Bytes :=
  centralFixed (Utf8.encode m.name).length (crc32 m.bytes) m.bytes.length m.mode offset ++
    Utf8.encode m.name

/-- The loop state of the writer: `parts` and `centralParts` joined, `offset` and `total`. -/
structure Written where
  parts : Bytes
  centralParts : Bytes
  offset : ℕ
  total : ℕ

/-- One round of the writer's loop. -/
def writeMember (w : Written) (m : Member) : Except WriteFailure Written := do
  require (m.bytes.length ≤ limitEntry ∧ w.total + m.bytes.length ≤ limitTotal)
    WriteFailure.coreInvalid
  require ((Utf8.encode m.name).length < 2 ^ 16 ∧ w.offset < 2 ^ 32) WriteFailure.outOfRange
  return { parts := w.parts ++ localRecord m
           centralParts := w.centralParts ++ centralRecord m w.offset
           offset := w.offset + (localRecord m).length
           total := w.total + m.bytes.length }

/-- The writer's loop. -/
def writeMembers : List Member → Written → Except WriteFailure Written
  | [], w => .ok w
  | m :: ms, w => do
    let w' ← writeMember w m
    writeMembers ms w'

/-- `encodeStored(members)` -/
def encodeStored (members : List Member) : Except WriteFailure Bytes := do
  let w ← writeMembers members ⟨[], [], 0, 0⟩
  require (members.length < 2 ^ 16 ∧ w.centralParts.length < 2 ^ 32 ∧ w.offset < 2 ^ 32)
    WriteFailure.outOfRange
  require (w.offset + w.centralParts.length + 22 ≤ limitContainer) WriteFailure.coreInvalid
  return w.parts ++ (w.centralParts ++ endFixed members.length w.centralParts.length w.offset)

/-- The local records of a member list, one after the other. -/
def localRecords (members : List Member) : Bytes := members.flatMap localRecord

/-- The directory of a member list whose first local header is at `offset`. -/
def directory : ℕ → List Member → Bytes
  | _, [] => []
  | offset, m :: ms => centralRecord m offset ++ directory (offset + (localRecord m).length) ms

@[simp] theorem block_nil : block [] = [] := rfl

@[simp] theorem block_cons (f : ℕ × ℕ) (fs : List (ℕ × ℕ)) :
    block (f :: fs) = Bytes.leWord f.1 f.2 ++ block fs := rfl

theorem block_append (fs gs : List (ℕ × ℕ)) : block (fs ++ gs) = block fs ++ block gs := by
  simp [block]

/-- A block is as long as its widths add up to. -/
theorem length_block (fs : List (ℕ × ℕ)) : (block fs).length = (fs.map Prod.fst).sum := by
  induction fs with
  | nil => rfl
  | cons f fs ih => simp [ih]

@[simp] theorem length_localFixed (n crc size : ℕ) : (localFixed n crc size).length = 30 := by
  simp [localFixed]

@[simp] theorem length_centralFixed (n crc size mode offset : ℕ) :
    (centralFixed n crc size mode offset).length = 46 := by
  simp [centralFixed]

@[simp] theorem length_endFixed (count centralSize offset : ℕ) :
    (endFixed count centralSize offset).length = 22 := by
  simp [endFixed]

@[simp] theorem length_localRecord (m : Member) :
    (localRecord m).length = 30 + ((Utf8.encode m.name).length + m.bytes.length) := by
  simp [localRecord]

@[simp] theorem length_centralRecord (m : Member) (offset : ℕ) :
    (centralRecord m offset).length = 46 + (Utf8.encode m.name).length := by
  simp [centralRecord]

@[simp] theorem localRecords_cons (m : Member) (ms : List Member) :
    localRecords (m :: ms) = localRecord m ++ localRecords ms := rfl

theorem localRecords_append (ms ns : List Member) :
    localRecords (ms ++ ns) = localRecords ms ++ localRecords ns := by
  simp [localRecords]

/-- The directory of a concatenation continues at the end of the first part's records. -/
theorem directory_append (offset : ℕ) (ms ns : List Member) :
    directory offset (ms ++ ns) =
      directory offset ms ++ directory (offset + (localRecords ms).length) ns := by
  induction ms generalizing offset with
  | nil => rfl
  | cons m ms ih =>
    rw [List.cons_append, directory, directory, ih, List.append_assoc, localRecords_cons,
      List.length_append, Nat.add_assoc]

/-- The `i`-th field of a block that lies anywhere in a byte string is read back,
reduced to its width. -/
theorem leValue_slice_block (a b : Bytes) (fields : List (ℕ × ℕ)) (i : ℕ)
    (hi : i < fields.length) :
    Bytes.leValue (Bytes.slice (a ++ (block fields ++ b))
      (a.length + ((fields.take i).map Prod.fst).sum) fields[i].1) =
        fields[i].2 % 256 ^ fields[i].1 := by
  have hsplit : block fields = block (fields.take i) ++
      (Bytes.leWord fields[i].1 fields[i].2 ++ block (fields.drop (i + 1))) := by
    rw [← block_cons, ← block_append, List.getElem_cons_drop, List.take_append_drop]
  have hmid := Bytes.slice_append_mid (block (fields.take i))
    (Bytes.leWord fields[i].1 fields[i].2) (block (fields.drop (i + 1)) ++ b)
  rw [Bytes.length_leWord, length_block] at hmid
  rw [Bytes.slice_append_right, hsplit, List.append_assoc, List.append_assoc, hmid,
    Bytes.leValue_leWord]

end Kdna.Container

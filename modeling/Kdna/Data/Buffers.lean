import Kdna.Data.Bytes

/-!
# Buffers and views

A memory of buffers that keep their lengths. A view is a place in a buffer; two views can share
octets, and what is written through one of them is read through the other.
-/

namespace Kdna

/-- Buffers, each under its index. -/
structure Buffers where
  contents : List Bytes

namespace Buffers

/-- The octets of a buffer from an offset on. -/
structure View where
  buffer : ℕ
  offset : ℕ
  deriving DecidableEq

/-- The octets of a buffer. -/
def bytes (m : Buffers) (place : ℕ) : Bytes := m.contents.getD place []

/-- The number of buffers. -/
def size (m : Buffers) : ℕ := m.contents.length

/-- The first octets of a view. -/
def read (m : Buffers) (v : View) (count : ℕ) : Bytes := (m.bytes v.buffer).slice v.offset count

/-- A further buffer, under the index `m.size`. -/
def alloc (m : Buffers) (b : Bytes) : Buffers := ⟨m.contents ++ [b]⟩

/-- The octets of a view replaced by what `f` makes of them. -/
def update (m : Buffers) (v : View) (count : ℕ) (f : Bytes → Bytes) : Buffers :=
  ⟨m.contents.modify v.buffer fun b =>
    b.take v.offset ++ f (b.slice v.offset count) ++ b.drop (v.offset + count)⟩

variable {m : Buffers} {v w : View} {b : Bytes} {count : ℕ} {f : Bytes → Bytes} {place : ℕ}

/-- A view with `count` octets. -/
def Covers (m : Buffers) (v : View) (count : ℕ) : Prop :=
  v.offset + count ≤ (m.bytes v.buffer).length

theorem Covers.length_read (h : m.Covers v count) : (m.read v count).length = count :=
  Bytes.length_slice h

/-- A buffer with octets is one of the memory. -/
theorem Covers.lt_size (h : m.Covers v count) (hpos : 0 < count) : v.buffer < m.size := by
  by_contra hge
  have hnil : m.bytes v.buffer = [] := by
    rw [bytes, List.getD_eq_default _ _ (not_lt.mp hge)]
  rw [Covers, hnil, List.length_nil] at h
  omega

@[simp] theorem size_alloc : (m.alloc b).size = m.size + 1 := List.length_append

@[simp] theorem size_update : (m.update v count f).size = m.size := List.length_modify ..

/-- A new buffer changes no other one. -/
theorem bytes_alloc_of_lt (h : place < m.size) : (m.alloc b).bytes place = m.bytes place :=
  List.getD_append _ _ _ _ h

theorem bytes_alloc_self : (m.alloc b).bytes m.size = b := by
  rw [bytes, alloc, size]
  dsimp only
  rw [List.getD_append_right _ _ _ _ le_rfl, Nat.sub_self]
  rfl

theorem read_alloc_of_lt (h : v.buffer < m.size) : (m.alloc b).read v count = m.read v count := by
  rw [read, read, bytes_alloc_of_lt h]

theorem bytes_update_of_ne (h : v.buffer ≠ place) :
    (m.update v count f).bytes place = m.bytes place := by
  rw [bytes, bytes, update]
  dsimp only
  rw [List.getD_eq_getElem?_getD, List.getD_eq_getElem?_getD, List.getElem?_modify_ne _ _ h]

theorem bytes_update_self (h : v.buffer < m.size) :
    (m.update v count f).bytes v.buffer = (m.bytes v.buffer).take v.offset ++
      f (m.read v count) ++ (m.bytes v.buffer).drop (v.offset + count) := by
  have hget : m.contents[v.buffer]? = some (m.bytes v.buffer) := by
    rw [bytes, List.getD_eq_getElem _ _ h]
    exact List.getElem?_eq_getElem h
  rw [bytes, update]
  dsimp only
  rw [List.getD_eq_getElem?_getD, List.getElem?_modify_eq, hget]
  rfl

/-- What is written is read through the same view. -/
theorem read_update_self (h : m.Covers v count) (hpos : 0 < count)
    (hf : ∀ b : Bytes, b.length = count → (f b).length = count) :
    (m.update v count f).read v count = f (m.read v count) := by
  have hoffset : ((m.bytes v.buffer).take v.offset).length = v.offset := by
    rw [Covers] at h
    rw [List.length_take]
    omega
  have hlength := hf _ h.length_read
  have hmid := Bytes.slice_append_mid ((m.bytes v.buffer).take v.offset) (f (m.read v count))
    ((m.bytes v.buffer).drop (v.offset + count))
  rw [hoffset, hlength] at hmid
  rw [read, bytes_update_self (h.lt_size hpos), List.append_assoc, hmid]

/-- What stands behind the written octets is not changed. -/
theorem read_update_of_apart (h : m.Covers v count) (hpos : 0 < count)
    (hf : ∀ b : Bytes, b.length = count → (f b).length = count)
    (hapart : v.buffer ≠ w.buffer ∨ v.offset + count ≤ w.offset) {n : ℕ} :
    (m.update v count f).read w n = m.read w n := by
  by_cases hsame : v.buffer = w.buffer
  · have hle := hapart.resolve_left fun hne => hne hsame
    have hlength : ((m.bytes v.buffer).take v.offset ++ f (m.read v count)).length =
        v.offset + count := by
      have hread := hf _ h.length_read
      rw [Covers] at h
      rw [List.length_append, hread, List.length_take]
      omega
    rw [read, read, ← hsame, bytes_update_self (h.lt_size hpos), Bytes.slice, Bytes.slice,
      List.drop_append, hlength, List.drop_of_length_le (by rw [hlength]; exact hle),
      List.nil_append, List.drop_drop, Nat.add_sub_cancel' hle]
  · rw [read, read, bytes_update_of_ne hsame]

/-- Writing keeps the length of every buffer. -/
theorem length_bytes_update (h : m.Covers v count) (hpos : 0 < count)
    (hf : ∀ b : Bytes, b.length = count → (f b).length = count) :
    ((m.update v count f).bytes place).length = (m.bytes place).length := by
  by_cases hsame : v.buffer = place
  · subst hsame
    have hlength := hf _ h.length_read
    rw [Covers] at h
    rw [bytes_update_self (Covers.lt_size h hpos), List.length_append, List.length_append, hlength,
      List.length_take, List.length_drop]
    omega
  · rw [bytes_update_of_ne hsame]

end Buffers

end Kdna

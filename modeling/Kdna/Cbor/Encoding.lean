import Kdna.Data.Bytes
import Kdna.Json.Copy

/-!
# Definite-length CBOR encodings of JSON-domain values

An item starts with a head: three bits of major type and an argument in one of
five widths. A value has many encodings, since every argument may be written
wider than it needs and a number may be an integer or a float of any width that
represents it. The members of an object are encoded in the order they are listed.
-/

namespace Kdna.Cbor

/-- The widths of an argument. -/
inductive Width
  | direct
  | one
  | two
  | four
  | eight
  deriving DecidableEq, Repr

namespace Width

/-- The additional information of the head, for the argument `n`. -/
def info : Width → ℕ → ℕ
  | .direct, n => n
  | .one, _ => 24
  | .two, _ => 25
  | .four, _ => 26
  | .eight, _ => 27

/-- The octets that follow the initial one. -/
def size : Width → ℕ
  | .direct => 0
  | .one => 1
  | .two => 2
  | .four => 4
  | .eight => 8

/-- The arguments of a width lie below its bound. -/
def bound : Width → ℕ
  | .direct => 24
  | w => 256 ^ w.size

end Width

/-- The initial octet of a head. -/
def initial (major info : ℕ) : UInt8 := UInt8.ofNat (32 * major + info)

/-- The head of a major type with an argument of a width. -/
def head (major : ℕ) (w : Width) (n : ℕ) : Bytes :=
  initial major (w.info n) :: Bytes.beWord w.size n

/-- `b` is a head of the major type with the argument `n`. -/
def Head (major n : ℕ) (b : Bytes) : Prop := ∃ w : Width, n < w.bound ∧ b = head major w n

/-- A float format of major type 7. -/
structure FloatFormat where
  info : ℕ
  size : ℕ
  format : Binary64.Format

/-- The three float formats. -/
def floatFormats : List FloatFormat :=
  [⟨25, 2, Binary64.half⟩, ⟨26, 4, Binary64.single⟩, ⟨27, 8, Binary64.double⟩]

/-- `b` encodes the number `x`: as an integer it is equal to, or as a float. -/
inductive NumberEncoding (x : Binary64) : Bytes → Prop
  | unsigned (n : ℕ) (h : Bytes) : Binary64.exactInteger n = some x → Head 0 n h →
      NumberEncoding x h
  | negative (n : ℕ) (h : Bytes) : Binary64.exactInteger (-1 - n) = some x → Head 1 n h →
      NumberEncoding x h
  | float (f : FloatFormat) (word : ℕ) : f ∈ floatFormats → word < 256 ^ f.size →
      f.format.decode word = some x →
      NumberEncoding x (initial 7 f.info :: Bytes.beWord f.size word)

/-- `b` encodes the text `s`. -/
def TextEncoding (s : String) (b : Bytes) : Prop :=
  ∃ h, Head 3 (Utf8.encode s).length h ∧ b = h ++ Utf8.encode s

/-- `b` is a concatenation of octets in each of the given languages. -/
def Concat : List (Bytes → Prop) → Bytes → Prop
  | [], b => b = []
  | p :: ps, b => ∃ c d, p c ∧ Concat ps d ∧ b = c ++ d

/-- `b` encodes a key and the value that follows it. -/
def Pair (key : String) (value : Bytes → Prop) (b : Bytes) : Prop :=
  ∃ c d, TextEncoding key c ∧ value d ∧ b = c ++ d

/-- `Encodes v b`: the octets `b` are a definite-length encoding of `v`. -/
def Encodes : Json → Bytes → Prop :=
  Value.fold
    { null := (· = [initial 7 22])
      bool := fun v b => b = [initial 7 (if v then 21 else 20)]
      num := NumberEncoding
      str := TextEncoding
      arr := fun items b => ∃ h body, Head 4 items.length h ∧ Concat items body ∧ b = h ++ body
      obj := fun props b => ∃ h body, Head 5 props.length h ∧
        Concat (props.map fun p => Pair p.1 p.2) body ∧ b = h ++ body }

@[simp] theorem encodes_null (b : Bytes) : Encodes .null b ↔ b = [initial 7 22] := Iff.rfl

@[simp] theorem encodes_bool (v : Bool) (b : Bytes) :
    Encodes (.bool v) b ↔ b = [initial 7 (if v then 21 else 20)] := Iff.rfl

@[simp] theorem encodes_num (x : Binary64) (b : Bytes) :
    Encodes (.num x) b ↔ NumberEncoding x b := Iff.rfl

@[simp] theorem encodes_str (t : String) (b : Bytes) :
    Encodes (.str t) b ↔ TextEncoding t b := Iff.rfl

@[simp] theorem encodes_arr (items : List Json) (b : Bytes) :
    Encodes (.arr items) b ↔
      ∃ h body, Head 4 items.length h ∧ Concat (items.map Encodes) body ∧ b = h ++ body := by
  simp [Encodes]

@[simp] theorem encodes_obj (props : List (String × Json)) (b : Bytes) :
    Encodes (.obj props) b ↔ ∃ h body, Head 5 props.length h ∧
      Concat (props.map fun p => Pair p.1 (Encodes p.2)) body ∧ b = h ++ body := by
  simp [Encodes, Function.comp_def]

/-- A head has at least one octet. -/
theorem Head.length_pos {major n : ℕ} {b : Bytes} (h : Head major n b) : 0 < b.length := by
  obtain ⟨w, -, rfl⟩ := h
  exact Nat.succ_pos _

/-- A bound on the parts of a concatenation is a bound on the whole. -/
theorem Concat.sum_le {α : Type} {l : List α} {p : α → Bytes → Prop} {f : α → ℕ} {b : Bytes}
    (hl : ∀ a ∈ l, ∀ c, p a c → f a ≤ 32 * c.length) (h : Concat (l.map p) b) :
    (l.map f).sum ≤ 32 * b.length := by
  induction l generalizing b with
  | nil => simp
  | cons a l ih =>
    obtain ⟨c, d, hc, hd, rfl⟩ := h
    have hhead := hl a List.mem_cons_self c hc
    have htail := ih (fun a' ha' => hl a' (.tail _ ha')) hd
    rw [List.map_cons, List.sum_cons, List.length_append]
    omega

/-- An encoding of a number is not empty. -/
theorem NumberEncoding.length_pos {x : Binary64} {b : Bytes} (h : NumberEncoding x b) :
    0 < b.length := by
  cases h with
  | unsigned n _ _ hhead => exact hhead.length_pos
  | negative n _ _ hhead => exact hhead.length_pos
  | float f word _ _ _ => exact Nat.succ_pos _

/-- Copying a value charges less than 32 octets for each octet of an encoding. -/
theorem Encodes.weight_lt {v : Json} {b : Bytes} (h : Encodes v b) :
    v.weight + 1 ≤ 32 * b.length := by
  induction v using Json.induction generalizing b with
  | null =>
    cases h
    decide
  | bool v =>
    cases h
    cases v <;> decide
  | num x =>
    have hpos := NumberEncoding.length_pos h
    have htext := length_encodeChars_numberText_le x
    rw [Value.weight_num, scalarBytes, stringify_num]
    omega
  | str t =>
    obtain ⟨h, hhead, rfl⟩ := h
    have hpos := hhead.length_pos
    have hquote := length_encodeChars_quote_le t
    rw [Value.weight_str, scalarBytes, stringify_str, List.length_append]
    omega
  | arr items ih =>
    obtain ⟨h, body, hhead, hbody, rfl⟩ := (encodes_arr _ _).mp h
    have hpos := hhead.length_pos
    have hitems : (items.map fun v => 1 + v.weight).sum ≤ 32 * body.length := by
      refine Concat.sum_le (fun v hv c hc => ?_) hbody
      rw [Nat.add_comm]
      exact ih v hv hc
    rw [Value.weight_arr, List.length_append]
    omega
  | obj props ih =>
    obtain ⟨h, body, hhead, hbody, rfl⟩ := (encodes_obj _ _).mp h
    have hpos := hhead.length_pos
    have hprops : (props.map fun p => scalarBytes (.str p.1) + 2 + p.2.weight).sum ≤
        32 * body.length := by
      refine Concat.sum_le (fun p hp c hc => ?_) hbody
      obtain ⟨_, d, ⟨h, hkey, rfl⟩, hvalue, rfl⟩ := hc
      have hpos := hkey.length_pos
      have hquote := length_encodeChars_quote_le p.1
      have hweight := ih p hp hvalue
      rw [scalarBytes, stringify_str, List.length_append, List.length_append]
      omega
    rw [Value.weight_obj, List.length_append]
    omega

end Kdna.Cbor

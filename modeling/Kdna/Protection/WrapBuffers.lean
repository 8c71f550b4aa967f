import Kdna.Data.Buffers
import Kdna.Protection.KeyWrap

/-!
# Key wrapping on buffers

`aesWrap` and `aesUnwrap` with the views that they keep. A register is first a view of the caller's
buffer and then one of the block that the cipher has returned; `r[0]` is written in place.
-/

namespace Kdna.KeyWrap

/-- The index of the buffer `KW_IV`. -/
def ivPlace : ℕ := 0

/-- A memory and the views that the registers are. -/
structure Machine where
  memory : Buffers
  r : Registers Buffers.View

/-- The octets of the registers. -/
def Machine.values (s : Machine) : Registers Bytes :=
  ⟨s.memory.read s.r.first 8, s.r.rest.map fun v => s.memory.read v 8⟩

section Model

variable (E : BlockCipher) (key : Bytes) (n : ℕ)

/-- One turn of the loops of `aesWrap`. -/
def wrapTurnAt (s : Machine) (turn : ℕ × ℕ) : Machine :=
  let input := s.memory.read s.r.first 8 ++
    s.memory.read (s.r.rest.getD (turn.2 - 1) ⟨ivPlace, 0⟩) 8
  let block := s.memory.size
  let memory := (s.memory.alloc (E.encrypt key input)).update ⟨block, 0⟩ 8 (xor · (counter n turn))
  ⟨memory, ⟨⟨block, 0⟩, s.r.rest.set (turn.2 - 1) ⟨block, 8⟩⟩⟩

/-- One turn of the loops of `aesUnwrap`. -/
def unwrapTurnAt (s : Machine) (turn : ℕ × ℕ) : Machine :=
  let memory := s.memory.update s.r.first 8 (xor · (counter n turn))
  let input := memory.read s.r.first 8 ++ memory.read (s.r.rest.getD (turn.2 - 1) ⟨ivPlace, 0⟩) 8
  ⟨memory.alloc (E.decrypt key input),
    ⟨⟨memory.size, 0⟩, s.r.rest.set (turn.2 - 1) ⟨memory.size, 8⟩⟩⟩

/-- `aesWrap(key, plaintext)`: the buffer of the result or an error, and the memory behind it. -/
def aesWrap (plaintext : ℕ) (m : Buffers) : Except String ℕ × Buffers :=
  if key.length ≠ 32 then (.error "AES-256-KW requires 32-byte key", m)
  else if (m.bytes plaintext).length ≠ 32 then
    (.error "AES-256-KW requires 32-byte plaintext", m)
  else
    let n := (m.bytes plaintext).length / 8
    let s := (wrapTurns n).foldl (wrapTurnAt E key n)
      ⟨m, ⟨⟨ivPlace, 0⟩, (List.range n).map fun i => ⟨plaintext, i * 8⟩⟩⟩
    (.ok s.memory.size, s.memory.alloc (join s.values))

/-- `aesUnwrap(key, ciphertext)`: the buffer of the result or an error, and the memory behind it. -/
def aesUnwrap (ciphertext : ℕ) (m : Buffers) : Except String ℕ × Buffers :=
  if key.length ≠ 32 then (.error "AES-256-KW requires 32-byte key", m)
  else if (m.bytes ciphertext).length ≠ 40 then
    (.error "AES-256-KW ciphertext must be 40 bytes", m)
  else
    let n := (m.bytes ciphertext).length / 8 - 1
    let s := (unwrapTurns n).foldl (unwrapTurnAt E key n)
      ⟨m, ⟨⟨ciphertext, 0⟩, (List.range n).map fun i => ⟨ciphertext, (i + 1) * 8⟩⟩⟩
    if s.values.first = s.memory.bytes ivPlace then
      (.ok s.memory.size, s.memory.alloc s.values.rest.flatten)
    else (.error "AES-256-KW unwrap: integrity check failed", s.memory)

end Model

/-- The octets that a call returns, or its error. -/
def returned (call : Except String ℕ × Buffers) : Except String Bytes := call.1.map call.2.bytes

section Turns

variable (E : BlockCipher) (key : Bytes) {n : ℕ} {s : Machine} {turn : ℕ × ℕ} {place : ℕ}

/-- All registers are views of eight octets. -/
structure InMemory (s : Machine) : Prop where
  first : s.memory.Covers s.r.first 8
  rest : ∀ v ∈ s.r.rest, s.memory.Covers v 8

/-- The first register is the start of a buffer, and the others stand behind its octets. -/
structure Apart (s : Machine) : Prop extends InMemory s where
  start : s.r.first.offset = 0
  behind : ∀ v ∈ s.r.rest, 8 ≤ v.offset

theorem InMemory.fits (hs : InMemory s) (hlength : s.r.rest.length = n) : Fits n s.values where
  first := hs.first.length_read
  length := by rw [Machine.values, List.length_map, hlength]
  rest := by
    intro w hw
    obtain ⟨v, hv, rfl⟩ := List.mem_map.mp hw
    exact (hs.rest v hv).length_read

/-- The register of a turn, as a view and as octets. -/
theorem register_spec (hlength : s.r.rest.length = n) (hturn : turn ∈ wrapTurns n) :
    s.r.rest.getD (turn.2 - 1) ⟨ivPlace, 0⟩ ∈ s.r.rest ∧
      s.memory.read (s.r.rest.getD (turn.2 - 1) ⟨ivPlace, 0⟩) 8 =
        s.values.rest.getD (turn.2 - 1) [] := by
  obtain ⟨-, hlow, hhigh⟩ := mem_wrapTurns.mp hturn
  have hlt : turn.2 - 1 < s.r.rest.length := by omega
  rw [List.getD_eq_getElem _ _ hlt]
  refine ⟨List.getElem_mem hlt, ?_⟩
  rw [Machine.values, List.getD_eq_getElem _ _ (by rwa [List.length_map]), List.getElem_map]

/-- What is written to a view of eight octets has eight octets. -/
theorem length_xor_counter (b : Bytes) (hb : b.length = 8) : (xor b (counter n turn)).length = 8 := by
  rw [length_xor (by rw [length_counter, hb]), hb]

/-- The registers of a machine whose views are set to the halves of a new block. -/
theorem values_set {m : Buffers} (memory : Buffers) {rest : List Buffers.View} {i : ℕ}
    {b first : Bytes} {block : ℕ} (hold : ∀ v ∈ rest, m.read v 8 = memory.read v 8)
    (hfirst : m.read ⟨block, 0⟩ 8 = first) (hsecond : m.read ⟨block, 8⟩ 8 = b) :
    Machine.values ⟨m, ⟨⟨block, 0⟩, rest.set i ⟨block, 8⟩⟩⟩ =
      ⟨first, (rest.map fun v => memory.read v 8).set i b⟩ := by
  rw [Machine.values]
  dsimp only
  rw [hfirst, List.map_set, hsecond, List.map_congr_left hold]

/-- The two halves of a new block. -/
theorem read_block {m : Buffers} {b : Bytes} (hb : b.length = 16) :
    (m.alloc b).Covers ⟨m.size, 0⟩ 8 ∧ (m.alloc b).Covers ⟨m.size, 8⟩ 8 ∧
      (m.alloc b).read ⟨m.size, 0⟩ 8 = b.take 8 ∧ (m.alloc b).read ⟨m.size, 8⟩ 8 = b.drop 8 := by
  have hself : (m.alloc b).bytes m.size = b := Buffers.bytes_alloc_self
  refine ⟨?_, ?_, ?_, ?_⟩
  · change 0 + 8 ≤ ((m.alloc b).bytes m.size).length
    rw [hself]
    omega
  · change 8 + 8 ≤ ((m.alloc b).bytes m.size).length
    rw [hself]
    omega
  · change ((m.alloc b).bytes m.size).slice 0 8 = _
    rw [hself, Bytes.slice, List.drop_zero]
  · change ((m.alloc b).bytes m.size).slice 8 8 = _
    rw [hself, Bytes.slice, List.take_of_length_le]
    rw [List.length_drop, hb]

theorem covers_alloc {m : Buffers} {b : Bytes} {v : Buffers.View} (h : m.Covers v 8) :
    (m.alloc b).Covers v 8 := by
  rw [Buffers.Covers, Buffers.bytes_alloc_of_lt (h.lt_size (by omega))]
  exact h

/-- A written counter keeps what a view covers. -/
theorem covers_update {m : Buffers} {v w : Buffers.View} (hv : m.Covers v 8) (h : m.Covers w 8) :
    (m.update v 8 (xor · (counter n turn))).Covers w 8 := by
  rw [Buffers.Covers, Buffers.length_bytes_update hv (by omega) length_xor_counter]
  exact h

/-- A turn of `aesWrap` is that on octets, and it changes no buffer that there was. -/
theorem wrapTurnAt_spec (hs : InMemory s) (hlength : s.r.rest.length = n)
    (hturn : turn ∈ wrapTurns n) :
    InMemory (wrapTurnAt E key n s turn) ∧ (wrapTurnAt E key n s turn).r.rest.length = n ∧
      (wrapTurnAt E key n s turn).values = wrapTurn E key n s.values turn ∧
      s.memory.size ≤ (wrapTurnAt E key n s turn).memory.size ∧
      ∀ place < s.memory.size, (wrapTurnAt E key n s turn).memory.bytes place =
        s.memory.bytes place := by
  obtain ⟨-, hregister⟩ := register_spec hlength hturn
  have hb := E.length_encrypt key _ ((hs.fits hlength).length_block hturn (hs.fits hlength).first)
  obtain ⟨hfirst, hsecond, hread₀, hread₈⟩ := read_block (m := s.memory) hb
  have hold : ∀ v ∈ s.r.rest, v.buffer < s.memory.size := fun v hv =>
    (hs.rest v hv).lt_size (by omega)
  have hvalue : s.memory.read s.r.first 8 = s.values.first := rfl
  unfold wrapTurnAt
  dsimp only
  rw [hregister, hvalue]
  refine ⟨⟨covers_update hfirst hfirst, fun v hv => ?_⟩, ?_, ?_, ?_, fun place hplace => ?_⟩
  · rcases List.mem_or_eq_of_mem_set hv with hv | rfl
    · exact covers_update hfirst (covers_alloc (hs.rest v hv))
    · exact covers_update hfirst hsecond
  · exact List.length_set.trans hlength
  · refine (values_set s.memory (fun v hv => ?_) ?_ ?_).trans rfl
    · rw [Buffers.read_update_of_apart hfirst (by omega) length_xor_counter
        (.inl (hold v hv).ne'), Buffers.read_alloc_of_lt (hold v hv)]
    · rw [Buffers.read_update_self hfirst (by omega) length_xor_counter, hread₀]
    · rw [Buffers.read_update_of_apart hfirst (by omega) length_xor_counter (.inr le_rfl), hread₈]
  · rw [Buffers.size_update, Buffers.size_alloc]
    omega
  · rw [Buffers.bytes_update_of_ne hplace.ne', Buffers.bytes_alloc_of_lt hplace]

/-- A turn of `aesUnwrap` is that on octets. It writes the counter over the octets of the first
register, and then the registers of the turn are views of a new buffer. -/
theorem unwrapTurnAt_spec (hs : Apart s) (hlength : s.r.rest.length = n)
    (hturn : turn ∈ wrapTurns n) :
    Apart (unwrapTurnAt E key n s turn) ∧ (unwrapTurnAt E key n s turn).r.rest.length = n ∧
      (unwrapTurnAt E key n s turn).values = unwrapTurn E key n s.values turn ∧
      (unwrapTurnAt E key n s turn).r.first.buffer = s.memory.size ∧
      (unwrapTurnAt E key n s turn).memory.size = s.memory.size + 1 ∧
      ∀ place < s.memory.size, (unwrapTurnAt E key n s turn).memory.bytes place =
        (s.memory.update s.r.first 8 (xor · (counter n turn))).bytes place := by
  obtain ⟨hmem, hregister⟩ := register_spec hlength hturn
  have hfits := hs.fits hlength
  have hread : (s.memory.update s.r.first 8 (xor · (counter n turn))).read s.r.first 8 =
      xor s.values.first (counter n turn) :=
    Buffers.read_update_self hs.first (by omega) length_xor_counter
  have hrest : ∀ v ∈ s.r.rest,
      (s.memory.update s.r.first 8 (xor · (counter n turn))).read v 8 = s.memory.read v 8 :=
    fun v hv => Buffers.read_update_of_apart hs.first (by omega) length_xor_counter
      (.inr (by rw [hs.start]; exact hs.behind v hv))
  have hb := E.length_decrypt key _ (hfits.length_block hturn (length_masked hfits turn))
  unfold unwrapTurnAt
  dsimp only
  rw [hread, hrest _ hmem, hregister]
  generalize hm : s.memory.update s.r.first 8 (xor · (counter n turn)) = m at *
  have hsize : m.size = s.memory.size := by rw [← hm, Buffers.size_update]
  have hcovers : ∀ v ∈ s.r.rest, m.Covers v 8 := fun v hv => by
    rw [← hm]
    exact covers_update hs.first (hs.rest v hv)
  obtain ⟨hfirst, hsecond, hread₀, hread₈⟩ := read_block (m := m) hb
  refine ⟨⟨⟨hfirst, fun v hv => ?_⟩, rfl, fun v hv => ?_⟩, ?_, ?_, hsize, ?_, fun place hplace => ?_⟩
  · rcases List.mem_or_eq_of_mem_set hv with hv | rfl
    · exact covers_alloc (hcovers v hv)
    · exact hsecond
  · rcases List.mem_or_eq_of_mem_set hv with hv | rfl
    · exact hs.behind v hv
    · exact le_rfl
  · exact List.length_set.trans hlength
  · refine (values_set s.memory (fun v hv => ?_) hread₀ hread₈).trans rfl
    rw [Buffers.read_alloc_of_lt ((hcovers v hv).lt_size (by omega)), hrest v hv]
  · rw [Buffers.size_alloc, hsize]
  · rw [Buffers.bytes_alloc_of_lt (hsize ▸ hplace)]

end Turns

section Runs

variable (E : BlockCipher) (key : Bytes) {n : ℕ} {s : Machine} {turns : List (ℕ × ℕ)} {m : Buffers}
  {c p place : ℕ}

/-- A run of `aesWrap` is that on octets, and it changes no buffer that there was. -/
theorem wrapRun_spec (hturns : ∀ turn ∈ turns, turn ∈ wrapTurns n) (hs : InMemory s)
    (hlength : s.r.rest.length = n) :
    (turns.foldl (wrapTurnAt E key n) s).values = turns.foldl (wrapTurn E key n) s.values ∧
      s.memory.size ≤ (turns.foldl (wrapTurnAt E key n) s).memory.size ∧
      ∀ place < s.memory.size, (turns.foldl (wrapTurnAt E key n) s).memory.bytes place =
        s.memory.bytes place := by
  induction turns generalizing s with
  | nil => exact ⟨rfl, le_rfl, fun _ _ => rfl⟩
  | cons turn turns ih =>
    obtain ⟨hturn, hturns⟩ := List.forall_mem_cons.mp hturns
    obtain ⟨hnext, hlength', hvalues, hsize, hbytes⟩ :=
      wrapTurnAt_spec E key hs hlength hturn
    obtain ⟨hend, hgrown, hkept⟩ := ih hturns hnext hlength'
    rw [List.foldl_cons, List.foldl_cons, hend, hvalues]
    refine ⟨rfl, hsize.trans hgrown, fun place hplace => ?_⟩
    rw [hkept place (hplace.trans_le hsize), hbytes place hplace]

/-- A run of `aesUnwrap` is that on octets, and it changes no buffer before that of its first
register. -/
theorem unwrapRun_spec (before : ℕ) (hturns : ∀ turn ∈ turns, turn ∈ wrapTurns n) (hs : Apart s)
    (hlength : s.r.rest.length = n) (hfirst : before ≤ s.r.first.buffer)
    (hsize : before ≤ s.memory.size) :
    (turns.foldl (unwrapTurnAt E key n) s).values = turns.foldl (unwrapTurn E key n) s.values ∧
      before ≤ (turns.foldl (unwrapTurnAt E key n) s).memory.size ∧
      ∀ place < before, (turns.foldl (unwrapTurnAt E key n) s).memory.bytes place =
        s.memory.bytes place := by
  induction turns generalizing s with
  | nil => exact ⟨rfl, hsize, fun _ _ => rfl⟩
  | cons turn turns ih =>
    obtain ⟨hturn, hturns⟩ := List.forall_mem_cons.mp hturns
    obtain ⟨hnext, hlength', hvalues, hbuffer, hgrown, hbytes⟩ :=
      unwrapTurnAt_spec E key hs hlength hturn
    obtain ⟨hend, hgrown', hkept⟩ := ih hturns hnext hlength' (hbuffer ▸ hsize) (by omega)
    rw [List.foldl_cons, List.foldl_cons, hend, hvalues]
    refine ⟨rfl, hgrown', fun place hplace => ?_⟩
    rw [hkept place hplace, hbytes place (hplace.trans_le hsize),
      Buffers.bytes_update_of_ne (hplace.trans_le hfirst).ne']

/-- A run of `aesUnwrap` writes, of the buffers that there were, the octets of the first register
in its first turn. -/
theorem unwrapRun_cons {turn : ℕ × ℕ} (hturns : ∀ t ∈ turn :: turns, t ∈ wrapTurns n) (hs : Apart s)
    (hlength : s.r.rest.length = n) :
    ((turn :: turns).foldl (unwrapTurnAt E key n) s).values =
        (turn :: turns).foldl (unwrapTurn E key n) s.values ∧
      s.memory.size ≤ ((turn :: turns).foldl (unwrapTurnAt E key n) s).memory.size ∧
      ∀ place < s.memory.size, ((turn :: turns).foldl (unwrapTurnAt E key n) s).memory.bytes place =
        (s.memory.update s.r.first 8 (xor · (counter n turn))).bytes place := by
  obtain ⟨hturn, hturns⟩ := List.forall_mem_cons.mp hturns
  obtain ⟨hnext, hlength', hstep, hbuffer, hgrown, hbytes⟩ :=
    unwrapTurnAt_spec E key hs hlength hturn
  obtain ⟨hend, hsize, hkept⟩ := unwrapRun_spec E key s.memory.size
    hturns hnext hlength' hbuffer.ge (by rw [hgrown]; exact Nat.le_succ _)
  rw [List.foldl_cons, List.foldl_cons, hend, hstep]
  exact ⟨rfl, hsize, fun place hplace => (hkept place hplace).trans (hbytes place hplace)⟩

variable {E key}

theorem split_eq (b : Bytes) (start n : ℕ) :
    split b start n = (List.range n).map fun i => b.slice (start + i * 8) 8 := by
  induction n generalizing start with
  | zero => rfl
  | succ n ih =>
    rw [split, ih, List.range_succ_eq_map, List.map_cons, List.map_map, Nat.zero_mul, Nat.add_zero]
    refine congrArg _ (List.map_congr_left fun i _ => ?_)
    rw [Function.comp_apply]
    congr 1
    omega

/-- What `aesWrap` returns is wrapped on octets, and it changes no buffer. -/
theorem aesWrap_spec (hiv : m.bytes ivPlace = kwIv) (hkey : key.length = 32)
    (hp : (m.bytes p).length = 32) :
    returned (aesWrap E key p m) = .ok (wrap E key 4 (m.bytes p)) ∧
      ∀ place < m.size, (aesWrap E key p m).2.bytes place = m.bytes place := by
  have hstart : InMemory ⟨m, ⟨⟨ivPlace, 0⟩, (List.range 4).map fun i => ⟨p, i * 8⟩⟩⟩ := by
    constructor
    · change 0 + 8 ≤ (m.bytes ivPlace).length
      rw [hiv, kwIv_length]
    · intro v hv
      obtain ⟨i, hi, rfl⟩ := List.mem_map.mp hv
      change i * 8 + 8 ≤ (m.bytes p).length
      have hi := List.mem_range.mp hi
      omega
  have hvalues : Machine.values ⟨m, ⟨⟨ivPlace, 0⟩, (List.range 4).map fun i => ⟨p, i * 8⟩⟩⟩ =
      ⟨kwIv, split (m.bytes p) 0 4⟩ := by
    rw [Machine.values, split_eq, ← hiv, List.map_map]
    dsimp only
    rw [Buffers.read, hiv]
    simp only [Nat.zero_add]
    rfl
  obtain ⟨hend, hsize, hkept⟩ := wrapRun_spec E key (fun _ h => h) hstart
    (by rw [List.length_map, List.length_range])
  rw [hvalues] at hend
  unfold aesWrap
  rw [if_neg (not_not.mpr hkey), if_neg (not_not.mpr hp), hp]
  dsimp only
  generalize (wrapTurns (32 / 8)).foldl (wrapTurnAt E key (32 / 8))
    ⟨m, ⟨⟨ivPlace, 0⟩, (List.range (32 / 8)).map fun i => ⟨p, i * 8⟩⟩⟩ = s at *
  constructor
  · change Except.ok ((s.memory.alloc (join s.values)).bytes s.memory.size) = _
    rw [Buffers.bytes_alloc_self, wrap]
    exact congrArg (fun r => Except.ok (join r)) hend
  · intro place hplace
    rw [Buffers.bytes_alloc_of_lt (hplace.trans_le hsize)]
    exact hkept place hplace

/-- The registers that `aesUnwrap` starts with. -/
def unwrapStart (c : ℕ) (m : Buffers) : Machine :=
  ⟨m, ⟨⟨c, 0⟩, (List.range 4).map fun i => ⟨c, (i + 1) * 8⟩⟩⟩

theorem unwrapStart_spec (hc : (m.bytes c).length = 40) : Apart (unwrapStart c m) ∧
    (unwrapStart c m).values = ⟨(m.bytes c).slice 0 8, split (m.bytes c) 8 4⟩ := by
  refine ⟨⟨⟨?_, fun v hv => ?_⟩, rfl, fun v hv => ?_⟩, ?_⟩
  · change 0 + 8 ≤ (m.bytes c).length
    omega
  · obtain ⟨i, hi, rfl⟩ := List.mem_map.mp hv
    change (i + 1) * 8 + 8 ≤ (m.bytes c).length
    have hi := List.mem_range.mp hi
    omega
  · obtain ⟨i, -, rfl⟩ := List.mem_map.mp hv
    change 8 ≤ (i + 1) * 8
    omega
  · rw [Machine.values, unwrapStart, split_eq, List.map_map]
    refine congrArg _ (List.map_congr_left fun i _ => ?_)
    change (m.bytes c).slice ((i + 1) * 8) 8 = _
    congr 1
    omega

theorem ivPlace_lt_size (hiv : m.bytes ivPlace = kwIv) : ivPlace < m.size := by
  have hcovers : m.Covers ⟨ivPlace, 0⟩ 8 := by
    change 0 + 8 ≤ (m.bytes ivPlace).length
    rw [hiv, kwIv_length]
  exact hcovers.lt_size (by omega)

/-- The first exclusive or of `aesUnwrap`. -/
def firstMask : Bytes := counter 4 (5, 4)

/-- What `aesUnwrap` returns is unwrapped on octets, and what it writes outside of its own blocks is
the first exclusive or, over the octets of its input. -/
theorem aesUnwrap_spec (hiv : m.bytes ivPlace = kwIv) (hne : c ≠ ivPlace) (hkey : key.length = 32)
    (hc : (m.bytes c).length = 40) :
    returned (aesUnwrap E key c m) = (match unwrap E key 4 (m.bytes c) with
        | some p => .ok p
        | none => .error "AES-256-KW unwrap: integrity check failed") ∧
      ∀ place < m.size, (aesUnwrap E key c m).2.bytes place =
        (m.update ⟨c, 0⟩ 8 (xor · firstMask)).bytes place := by
  obtain ⟨hstart, hvalues⟩ := unwrapStart_spec hc
  have hsplit : unwrapTurns 4 = (5, 4) :: (unwrapTurns 4).tail := by decide
  have hturns : ∀ turn ∈ (5, 4) :: (unwrapTurns 4).tail, turn ∈ wrapTurns 4 := by
    intro turn hturn
    rwa [← hsplit, unwrapTurns_eq, List.mem_reverse] at hturn
  obtain ⟨hend, hsize, hbytes⟩ := unwrapRun_cons E key hturns hstart rfl
  rw [← hsplit] at hend hsize hbytes
  rw [hvalues] at hend
  have hcall : aesUnwrap E key c m =
      if ((unwrapTurns 4).foldl (unwrapTurnAt E key 4) (unwrapStart c m)).values.first =
          ((unwrapTurns 4).foldl (unwrapTurnAt E key 4) (unwrapStart c m)).memory.bytes ivPlace then
        (.ok ((unwrapTurns 4).foldl (unwrapTurnAt E key 4) (unwrapStart c m)).memory.size,
          ((unwrapTurns 4).foldl (unwrapTurnAt E key 4) (unwrapStart c m)).memory.alloc
            ((unwrapTurns 4).foldl (unwrapTurnAt E key 4) (unwrapStart c m)).values.rest.flatten)
      else (.error "AES-256-KW unwrap: integrity check failed",
        ((unwrapTurns 4).foldl (unwrapTurnAt E key 4) (unwrapStart c m)).memory) := by
    rw [aesUnwrap, if_neg (not_not.mpr hkey), if_neg (not_not.mpr hc), hc]
    rfl
  have hintact := hbytes ivPlace (ivPlace_lt_size hiv)
  rw [Buffers.bytes_update_of_ne hne] at hintact
  change _ = m.bytes ivPlace at hintact
  rw [hcall]
  generalize (unwrapTurns 4).foldl (unwrapTurnAt E key 4) (unwrapStart c m) = s at *
  rw [hintact, hiv, unwrap, ← hend]
  split
  · constructor
    · change Except.ok ((s.memory.alloc s.values.rest.flatten).bytes s.memory.size) = _
      rw [Buffers.bytes_alloc_self]
    · intro place hplace
      rw [Buffers.bytes_alloc_of_lt (lt_of_lt_of_le hplace hsize)]
      exact hbytes place hplace
  · exact ⟨rfl, hbytes⟩

theorem ne_ivPlace (hiv : m.bytes ivPlace = kwIv) (hc : (m.bytes c).length ≠ 8) : c ≠ ivPlace := by
  rintro rfl
  rw [hiv] at hc
  exact hc kwIv_length

/-- A refused call returns no octets and changes no memory. -/
theorem aesUnwrap_refused (h : ¬(key.length = 32 ∧ (m.bytes c).length = 40)) :
    ∃ text, aesUnwrap E key c m = (.error text, m) := by
  unfold aesUnwrap
  by_cases hkey : key.length = 32
  · rw [if_neg (not_not.mpr hkey), if_pos fun hc => h ⟨hkey, hc⟩]
    exact ⟨_, rfl⟩
  · rw [if_pos hkey]
    exact ⟨_, rfl⟩

/-- The octets of a written wrapped key. -/
theorem bytes_written (hc : (m.bytes c).length = 40) :
    (m.update ⟨c, 0⟩ 8 (xor · firstMask)).bytes c =
      xor ((m.bytes c).take 8) firstMask ++ (m.bytes c).drop 8 := by
  have hcovers : m.Covers ⟨c, 0⟩ 8 := by
    change 0 + 8 ≤ (m.bytes c).length
    omega
  exact Buffers.bytes_update_self (v := ⟨c, 0⟩) (hcovers.lt_size (by omega))

/-- The first exclusive or changes the octets. -/
theorem written_ne (hc : (m.bytes c).length = 40) :
    xor ((m.bytes c).take 8) firstMask ++ (m.bytes c).drop 8 ≠ m.bytes c := by
  intro h
  have hlength : ((m.bytes c).take 8).length = 8 := by
    rw [List.length_take, hc]
    rfl
  have hxor : (xor ((m.bytes c).take 8) firstMask).length = ((m.bytes c).take 8).length := by
    apply length_xor
    rw [hlength]
    exact (length_counter (5, 4)).ge
  have hsame : xor ((m.bytes c).take 8) firstMask = (m.bytes c).take 8 := by
    apply List.append_inj_left _ hxor
    · exact (m.bytes c).drop 8
    · exact (m.bytes c).drop 8
    · rw [h, List.take_append_drop]
  have hzero := eq_zero_of_xor_eq hsame (hlength.trans (length_counter (5, 4)).symm) 24
    (by decide)
  exact absurd hzero (by decide)

/-- Unwrapping leaves the wrapped key and the initial value as they were, and a second call on the
same buffer returns what the first one did. -/
def Harmless (E : BlockCipher) (key : Bytes) (c : ℕ) (m : Buffers) : Prop :=
  ((aesUnwrap E key c m).2.bytes c = m.bytes c ∧
      (aesUnwrap E key c m).2.bytes ivPlace = m.bytes ivPlace) ∧
    returned (aesUnwrap E key c (aesUnwrap E key c m).2) = returned (aesUnwrap E key c m)

/-- A call that is not refused writes over the wrapped key, and over nothing else. -/
theorem bytes_aesUnwrap (hiv : m.bytes ivPlace = kwIv) (hkey : key.length = 32)
    (hc : (m.bytes c).length = 40) :
    (aesUnwrap E key c m).2.bytes c = xor ((m.bytes c).take 8) firstMask ++ (m.bytes c).drop 8 ∧
      ∀ place < m.size, place ≠ c → (aesUnwrap E key c m).2.bytes place = m.bytes place := by
  have hne : c ≠ ivPlace := ne_ivPlace hiv (by omega)
  obtain ⟨-, hbytes⟩ := aesUnwrap_spec (E := E) hiv hne hkey hc
  have hcovers : m.Covers ⟨c, 0⟩ 8 := by
    change 0 + 8 ≤ (m.bytes c).length
    omega
  constructor
  · rw [hbytes c (hcovers.lt_size (by omega)), bytes_written hc]
  · intro place hplace hother
    rw [hbytes place hplace, Buffers.bytes_update_of_ne hother.symm]

/-- The initial value is the same after every call. -/
theorem ivPlace_aesUnwrap (hiv : m.bytes ivPlace = kwIv) :
    (aesUnwrap E key c m).2.bytes ivPlace = kwIv := by
  by_cases h : key.length = 32 ∧ (m.bytes c).length = 40
  · have hne : c ≠ ivPlace := ne_ivPlace hiv (by omega)
    rw [(bytes_aesUnwrap hiv h.1 h.2).2 ivPlace (ivPlace_lt_size hiv) hne.symm, hiv]
  · obtain ⟨text, hrefused⟩ := aesUnwrap_refused (E := E) h
    rw [hrefused, hiv]

/-- The call leaves all as it was exactly where it is refused. -/
theorem harmless_iff (hiv : m.bytes ivPlace = kwIv) :
    Harmless E key c m ↔ ¬(key.length = 32 ∧ (m.bytes c).length = 40) := by
  constructor
  · rintro ⟨⟨hsame, -⟩, -⟩ ⟨hkey, hc⟩
    rw [(bytes_aesUnwrap hiv hkey hc).1] at hsame
    exact written_ne hc hsame
  · intro h
    obtain ⟨text, hrefused⟩ := aesUnwrap_refused (E := E) h
    rw [Harmless, hrefused, hrefused]
    exact ⟨⟨rfl, rfl⟩, rfl⟩

/-- A call that returns octets is not refused, and the octets are those unwrapped. -/
theorem aesUnwrap_ok (hiv : m.bytes ivPlace = kwIv) {w : Bytes}
    (h : returned (aesUnwrap E key c m) = .ok w) :
    key.length = 32 ∧ (m.bytes c).length = 40 ∧ unwrap E key 4 (m.bytes c) = some w := by
  have haccepted : key.length = 32 ∧ (m.bytes c).length = 40 := by
    by_contra hnot
    obtain ⟨text, hrefused⟩ := aesUnwrap_refused (E := E) hnot
    rw [hrefused] at h
    cases h
  obtain ⟨hkey, hc⟩ := haccepted
  obtain ⟨hreturned, -⟩ := aesUnwrap_spec (E := E) hiv (ne_ivPlace hiv (by omega)) hkey hc
  rw [hreturned] at h
  refine ⟨hkey, hc, ?_⟩
  split at h
  · next p hp => rw [hp, Except.ok.inj h]
  · cases h

/-- Unwrapping returns the plaintext that was wrapped. -/
theorem aesUnwrap_aesWrap (hiv : m.bytes ivPlace = kwIv) (hkey : key.length = 32)
    (hp : (m.bytes p).length = 32) : ∃ w m', aesWrap E key p m = (.ok w, m') ∧
      (∀ place < m.size, m'.bytes place = m.bytes place) ∧
      returned (aesUnwrap E key w m') = .ok (m.bytes p) := by
  obtain ⟨hreturned, hkept⟩ := aesWrap_spec (E := E) hiv hkey hp
  rcases hcall : aesWrap E key p m with ⟨result, m'⟩
  rw [hcall] at hreturned hkept
  cases result with
  | error text => cases hreturned
  | ok w =>
    have hw : m'.bytes w = wrap E key 4 (m.bytes p) := Except.ok.inj hreturned
    have hiv' : m'.bytes ivPlace = kwIv := (hkept ivPlace (ivPlace_lt_size hiv)).trans hiv
    have hlength : (m'.bytes w).length = 40 := by
      rw [hw]
      exact length_wrap hp
    obtain ⟨hagain, -⟩ :=
      aesUnwrap_spec (E := E) hiv' (ne_ivPlace hiv' (by omega)) hkey hlength
    refine ⟨w, m', rfl, hkept, ?_⟩
    rw [hagain, hw, unwrap_wrap hp]

/-- What unwrapping accepts is wrapped from what it returns. -/
theorem aesWrap_of_aesUnwrap (hiv : m.bytes ivPlace = kwIv) {m' : Buffers}
    (h : aesUnwrap E key c m = (.ok p, m')) :
    returned (aesWrap E key p m') = .ok (m.bytes c) := by
  have hreturned : returned (aesUnwrap E key c m) = .ok (m'.bytes p) := by rw [h]; rfl
  obtain ⟨hkey, hc, hunwrap⟩ := aesUnwrap_ok hiv hreturned
  obtain ⟨hlength, hwrap⟩ := wrap_of_unwrap hc hunwrap
  have hiv' : m'.bytes ivPlace = kwIv := by
    have hkept : (aesUnwrap E key c m).2.bytes ivPlace = kwIv := ivPlace_aesUnwrap hiv
    rwa [h] at hkept
  rw [(aesWrap_spec (E := E) hiv' hkey hlength).1, hwrap]

/-- A second call on a buffer that was accepted does not return the same octets. -/
theorem second_call_ne (hiv : m.bytes ivPlace = kwIv) {m' : Buffers}
    (h : aesUnwrap E key c m = (.ok p, m')) :
    returned (aesUnwrap E key c m') ≠ .ok (m'.bytes p) := by
  intro hsecond
  have hfirst : returned (aesUnwrap E key c m) = .ok (m'.bytes p) := by rw [h]; rfl
  have hkept : (aesUnwrap E key c m).2.bytes ivPlace = kwIv := ivPlace_aesUnwrap hiv
  obtain ⟨hkey, hc, hunwrap⟩ := aesUnwrap_ok hiv hfirst
  have hwritten := (bytes_aesUnwrap (E := E) hiv hkey hc).1
  rw [h] at hkept hwritten
  obtain ⟨-, hc', hunwrap'⟩ := aesUnwrap_ok hkept hsecond
  -- the same octets are wrapped to one wrapped key only
  have hsame := (wrap_of_unwrap hc' hunwrap').2.symm.trans (wrap_of_unwrap hc hunwrap).2
  rw [hwritten] at hsame
  exact written_ne hc hsame

/-- Unwrapping returns what was wrapped and accepts nothing else; but every call that is not refused
for its lengths changes the wrapped key that it is given, and where it has returned a key, a second
call on the same buffer does not return it. -/
theorem key_wrapping_exact (hiv : m.bytes ivPlace = kwIv) :
    (∀ p, key.length = 32 → (m.bytes p).length = 32 → ∃ w m', aesWrap E key p m = (.ok w, m') ∧
        (∀ place < m.size, m'.bytes place = m.bytes place) ∧
        returned (aesUnwrap E key w m') = .ok (m.bytes p)) ∧
      (∀ c p m', aesUnwrap E key c m = (.ok p, m') →
        returned (aesWrap E key p m') = .ok (m.bytes c) ∧
          returned (aesUnwrap E key c m') ≠ .ok (m'.bytes p)) ∧
      (∀ c, (aesUnwrap E key c m).2.bytes ivPlace = kwIv) ∧
      ∀ c, Harmless E key c m ↔ ¬(key.length = 32 ∧ (m.bytes c).length = 40) :=
  ⟨fun _ hkey hp => aesUnwrap_aesWrap hiv hkey hp,
    fun _ _ _ h => ⟨aesWrap_of_aesUnwrap hiv h, second_call_ne hiv h⟩,
    fun _ => ivPlace_aesUnwrap hiv, fun _ => harmless_iff hiv⟩

end Runs

/-- The cipher that changes no block. -/
def identityCipher : BlockCipher where
  encrypt _ b := b
  decrypt _ b := b
  length_encrypt _ _ h := h
  length_decrypt _ _ h := h
  decrypt_encrypt _ _ _ := rfl
  encrypt_decrypt _ _ _ := rfl

/-- The initial value, a plaintext and its wrapped key under `identityCipher`. -/
def sampleBuffers : Buffers :=
  ⟨[kwIv, List.replicate 32 0, List.replicate 7 0xa6 ++ [0xbe] ++ List.replicate 32 0]⟩

theorem key_wrapping_exact_sample : ¬Harmless identityCipher (List.replicate 32 0) 2 sampleBuffers :=
  fun h => ((@key_wrapping_exact identityCipher (List.replicate 32 0) sampleBuffers rfl).2.2.2 2).mp h
    ⟨rfl, rfl⟩

/-- The memory behind a first call on the wrapped key. -/
def unwrappedBuffers : Buffers :=
  (aesUnwrap identityCipher (List.replicate 32 0) 2 sampleBuffers).2

/-- A wrapped key is unwrapped, changed by that, and refused by the next call. -/
theorem unwrapped_once :
    returned (aesUnwrap identityCipher (List.replicate 32 0) 2 sampleBuffers) =
        .ok (List.replicate 32 0) ∧
      unwrappedBuffers.bytes 2 ≠ sampleBuffers.bytes 2 ∧
      returned (aesUnwrap identityCipher (List.replicate 32 0) 2 unwrappedBuffers) =
        .error "AES-256-KW unwrap: integrity check failed" := by
  decide +kernel

end Kdna.KeyWrap

import Kdna.Data.Bytes
import Kdna.Data.Loop

/-!
# Key wrapping

`aesWrap` and `aesUnwrap` of `crypto-profile.js` on byte strings: registers of eight octets are
mixed by a block cipher in six rounds. The cipher is a family of permutations of its blocks.
-/

namespace Kdna.KeyWrap

/-- A family of permutations of the blocks of sixteen octets. -/
structure BlockCipher where
  encrypt : Bytes → Bytes → Bytes
  decrypt : Bytes → Bytes → Bytes
  length_encrypt : ∀ key b, b.length = 16 → (encrypt key b).length = 16
  length_decrypt : ∀ key b, b.length = 16 → (decrypt key b).length = 16
  decrypt_encrypt : ∀ key b, b.length = 16 → decrypt key (encrypt key b) = b
  encrypt_decrypt : ∀ key b, b.length = 16 → encrypt key (decrypt key b) = b

/-- The exclusive or of two byte strings, octet by octet. -/
def xor (a b : Bytes) : Bytes := List.zipWith (· ^^^ ·) a b

/-- `r[0]`, and `r[1]` to `r[n]`. -/
structure Registers (α : Type) where
  first : α
  rest : List α

/-- `KW_IV` -/
def kwIv : Bytes := List.replicate 8 0xa6

/-- The rounds `j` and registers `i` of the two loops of `aesWrap`. -/
def wrapTurns (n : ℕ) : List (ℕ × ℕ) :=
  (List.range 6).flatMap fun j => (List.range' 1 n).map fun i => (j, i)

/-- The rounds `j` and registers `i` of the two loops of `aesUnwrap`. -/
def unwrapTurns (n : ℕ) : List (ℕ × ℕ) :=
  (List.range 6).reverse.flatMap fun j => (List.range' 1 n).reverse.map fun i => (j, i)

/-- `tBuf` in the round `j` at the register `i`. -/
def counter (n : ℕ) (turn : ℕ × ℕ) : Bytes := Bytes.beWord 8 (n * turn.1 + turn.2)

/-- The octets of registers, one register after the other. -/
def join (s : Registers Bytes) : Bytes := s.first ++ s.rest.flatten

/-- The registers of eight octets of a byte string, from an offset. -/
def split (b : Bytes) (start : ℕ) : ℕ → List Bytes
  | 0 => []
  | n + 1 => b.slice start 8 :: split b (start + 8) n

section Turns

variable (E : BlockCipher) (key : Bytes) (n : ℕ)

/-- One turn of the loops of `aesWrap`. -/
def wrapTurn (s : Registers Bytes) (turn : ℕ × ℕ) : Registers Bytes :=
  let b := E.encrypt key (s.first ++ s.rest.getD (turn.2 - 1) [])
  ⟨xor (b.take 8) (counter n turn), s.rest.set (turn.2 - 1) (b.drop 8)⟩

/-- One turn of the loops of `aesUnwrap`. -/
def unwrapTurn (s : Registers Bytes) (turn : ℕ × ℕ) : Registers Bytes :=
  let b := E.decrypt key (xor s.first (counter n turn) ++ s.rest.getD (turn.2 - 1) [])
  ⟨b.take 8, s.rest.set (turn.2 - 1) (b.drop 8)⟩

/-- The wrapped octets of a plaintext of `n` registers. -/
def wrap (plaintext : Bytes) : Bytes :=
  join ((wrapTurns n).foldl (wrapTurn E key n) ⟨kwIv, split plaintext 0 n⟩)

/-- The plaintext of wrapped octets of `n + 1` registers, where the check of their integrity
passes. -/
def unwrap (ciphertext : Bytes) : Option Bytes :=
  let s := (unwrapTurns n).foldl (unwrapTurn E key n) ⟨ciphertext.slice 0 8, split ciphertext 8 n⟩
  if s.first = kwIv then some s.rest.flatten else none

end Turns

section Octets

variable {a b mask : Bytes}

/-- An exclusive or is undone by itself. -/
theorem xor_xor (h : a.length ≤ mask.length) : xor (xor a mask) mask = a := by
  induction a generalizing mask with
  | nil => rfl
  | cons x a ih =>
    cases mask with
    | nil => simp at h
    | cons y mask =>
      have hrest := ih (Nat.le_of_succ_le_succ h)
      rw [xor, xor, List.zipWith_cons_cons, List.zipWith_cons_cons, UInt8.xor_assoc, UInt8.xor_self,
        UInt8.xor_zero]
      exact congrArg (x :: ·) hrest

theorem length_xor (h : a.length ≤ mask.length) : (xor a mask).length = a.length := by
  rw [xor, List.length_zipWith, Nat.min_eq_left h]

/-- A mask that changes nothing has zeros only. -/
theorem eq_zero_of_xor_eq (h : xor a mask = a) (hlength : a.length = mask.length) :
    ∀ x ∈ mask, x = 0 := by
  induction a generalizing mask with
  | nil =>
    rw [List.eq_nil_of_length_eq_zero hlength.symm]
    exact List.forall_mem_nil _
  | cons x a ih =>
    cases mask with
    | nil => cases hlength
    | cons y mask =>
      obtain ⟨hfirst, hrest⟩ := List.cons.inj h
      have hzero : y = 0 := by
        change x ^^^ y = x at hfirst
        rw [← UInt8.zero_xor (a := y), ← UInt8.xor_self (a := x), UInt8.xor_assoc, hfirst]
      exact List.forall_mem_cons.mpr ⟨hzero, ih hrest (Nat.succ.inj hlength)⟩

theorem length_counter {n : ℕ} (turn : ℕ × ℕ) : (counter n turn).length = 8 := Bytes.length_beWord 8 _

/-- The registers of a byte string have eight octets each, as many as asked for. -/
theorem split_spec {start n : ℕ} (h : start + 8 * n ≤ b.length) :
    (split b start n).length = n ∧ ∀ w ∈ split b start n, w.length = 8 := by
  induction n generalizing start with
  | zero => exact ⟨rfl, List.forall_mem_nil _⟩
  | succ n ih =>
    obtain ⟨hlength, hall⟩ := ih (show start + 8 + 8 * n ≤ b.length by omega)
    exact ⟨congrArg Nat.succ hlength,
      List.forall_mem_cons.mpr ⟨Bytes.length_slice (by omega), hall⟩⟩

/-- Registers that are joined give the octets that were split. -/
theorem flatten_split {start n : ℕ} (h : b.length = start + 8 * n) :
    (split b start n).flatten = b.drop start := by
  induction n generalizing start with
  | zero => rw [split, List.flatten_nil, List.drop_of_length_le (by omega)]
  | succ n ih =>
    rw [split, List.flatten_cons, ih (by omega), Bytes.slice, ← List.drop_drop,
      List.take_append_drop]

/-- Octets that are split behind a prefix give the registers that were joined. -/
theorem split_append_flatten (front : Bytes) {ws : List Bytes} (h : ∀ w ∈ ws, w.length = 8) :
    split (front ++ ws.flatten) front.length ws.length = ws := by
  induction ws generalizing front with
  | nil => rfl
  | cons w ws ih =>
    obtain ⟨hw, hws⟩ := List.forall_mem_cons.mp h
    have hrest := ih (front ++ w) hws
    rw [List.append_assoc, List.length_append, hw] at hrest
    rw [List.flatten_cons, List.length_cons, split, hrest, ← hw, Bytes.slice_append_mid]

end Octets

section Inverse

variable {E : BlockCipher} {key : Bytes} {n : ℕ} {s : Registers Bytes} {turn : ℕ × ℕ}

/-- A first register and `n` further ones, of eight octets each. -/
structure Fits (n : ℕ) (s : Registers Bytes) : Prop where
  first : s.first.length = 8
  length : s.rest.length = n
  rest : ∀ w ∈ s.rest, w.length = 8

theorem mem_wrapTurns : turn ∈ wrapTurns n ↔ turn.1 < 6 ∧ 1 ≤ turn.2 ∧ turn.2 ≤ n := by
  obtain ⟨j, i⟩ := turn
  simp only [wrapTurns, List.mem_flatMap, List.mem_range, List.mem_map, List.mem_range'_1,
    Prod.mk.injEq]
  constructor
  · rintro ⟨j, hj, i, hi, rfl, rfl⟩
    omega
  · rintro ⟨hj, hi⟩
    exact ⟨j, hj, i, by omega, rfl, rfl⟩

theorem unwrapTurns_eq : unwrapTurns n = (wrapTurns n).reverse := by
  rw [unwrapTurns, wrapTurns, List.reverse_flatMap]
  refine List.flatMap_congr fun j _ => ?_
  rw [Function.comp_apply, List.map_reverse]

/-- The register of a turn. -/
theorem Fits.length_register (hs : Fits n s) (hturn : turn ∈ wrapTurns n) :
    turn.2 - 1 < s.rest.length ∧ (s.rest.getD (turn.2 - 1) []).length = 8 := by
  obtain ⟨-, hlow, hhigh⟩ := mem_wrapTurns.mp hturn
  have hlt : turn.2 - 1 < s.rest.length := by
    rw [hs.length]
    omega
  refine ⟨hlt, ?_⟩
  rw [List.getD_eq_getElem _ _ hlt]
  exact hs.rest _ (List.getElem_mem hlt)

theorem Fits.length_flatten (hs : Fits n s) : s.rest.flatten.length = 8 * n := by
  rw [List.length_flatten, List.map_congr_left hs.rest, List.map_const', List.sum_replicate_nat,
    hs.length, Nat.mul_comm]

/-- A block of sixteen octets goes to the registers of its turn. -/
theorem Fits.set {b first : Bytes} (hs : Fits n s) (i : ℕ) (hfirst : first.length = 8)
    (hb : b.length = 16) : Fits n ⟨first, s.rest.set i (b.drop 8)⟩ := by
  refine ⟨hfirst, by rw [List.length_set, hs.length], fun w hw => ?_⟩
  rcases List.mem_or_eq_of_mem_set hw with hw | rfl
  · exact hs.rest w hw
  · rw [List.length_drop, hb]

/-- A register that is written twice. -/
theorem set_set_getD {ws : List Bytes} {i : ℕ} (b : Bytes) (hi : i < ws.length) :
    (ws.set i b).set i (ws.getD i []) = ws := by
  rw [List.set_set, List.getD_eq_getElem _ _ hi, List.set_getElem_self]

theorem getD_set {ws : List Bytes} {i : ℕ} (b : Bytes) (hi : i < ws.length) :
    (ws.set i b).getD i [] = b := by
  rw [List.getD_eq_getElem _ _ (by rwa [List.length_set]), List.getElem_set_self]

theorem Fits.length_block (hs : Fits n s) (hturn : turn ∈ wrapTurns n) {first : Bytes}
    (hfirst : first.length = 8) :
    (first ++ s.rest.getD (turn.2 - 1) []).length = 16 := by
  rw [List.length_append, hfirst, (hs.length_register hturn).2]

theorem fits_wrapTurn (hturn : turn ∈ wrapTurns n) (hs : Fits n s) :
    Fits n (wrapTurn E key n s turn) := by
  have hb := E.length_encrypt key _ (hs.length_block hturn hs.first)
  apply hs.set _ _ hb
  rw [length_xor (by rw [length_counter, List.length_take]; omega), List.length_take, hb]
  rfl

theorem length_masked (hs : Fits n s) (turn : ℕ × ℕ) : (xor s.first (counter n turn)).length = 8 := by
  rw [length_xor (by rw [length_counter, hs.first]), hs.first]

theorem fits_unwrapTurn (hturn : turn ∈ wrapTurns n) (hs : Fits n s) :
    Fits n (unwrapTurn E key n s turn) := by
  have hb := E.length_decrypt key _ (hs.length_block hturn (length_masked hs turn))
  apply hs.set _ _ hb
  rw [List.length_take, hb]
  rfl

/-- A turn of unwrapping undoes that of wrapping. -/
theorem unwrapTurn_wrapTurn (hturn : turn ∈ wrapTurns n) (hs : Fits n s) :
    unwrapTurn E key n (wrapTurn E key n s turn) turn = s := by
  obtain ⟨first, rest⟩ := s
  have hblock := hs.length_block hturn hs.first
  have hb := E.length_encrypt key _ hblock
  have hi := (hs.length_register hturn).1
  have hmask : ((E.encrypt key (first ++ rest.getD (turn.2 - 1) [])).take 8).length ≤
      (counter n turn).length := by
    rw [length_counter]
    exact List.length_take_le 8 _
  unfold unwrapTurn wrapTurn
  dsimp only at hblock hb hi ⊢
  rw [getD_set _ hi, xor_xor hmask, List.take_append_drop, E.decrypt_encrypt key _ hblock,
    List.take_left' hs.first, List.drop_left' hs.first, set_set_getD _ hi]

/-- A turn of wrapping undoes that of unwrapping. -/
theorem wrapTurn_unwrapTurn (hturn : turn ∈ wrapTurns n) (hs : Fits n s) :
    wrapTurn E key n (unwrapTurn E key n s turn) turn = s := by
  obtain ⟨first, rest⟩ := s
  have hmasked := length_masked hs turn
  have hblock := hs.length_block hturn hmasked
  have hi := (hs.length_register hturn).1
  unfold unwrapTurn wrapTurn
  dsimp only at hmasked hblock hi ⊢
  rw [getD_set _ hi, List.take_append_drop, E.encrypt_decrypt key _ hblock,
    List.take_left' hmasked, List.drop_left' hmasked, set_set_getD _ hi,
    xor_xor (by rw [length_counter]; exact hs.first.le)]

/-- Unwrapping the registers undoes wrapping them, and the other way round. -/
theorem unwrap_wrap_registers (hs : Fits n s) :
    (unwrapTurns n).foldl (unwrapTurn E key n) ((wrapTurns n).foldl (wrapTurn E key n) s) = s := by
  rw [unwrapTurns_eq]
  exact foldl_reverse_undo (fun _ hturn _ => fits_wrapTurn hturn)
    (fun _ hturn _ => unwrapTurn_wrapTurn hturn) hs

theorem wrap_unwrap_registers (hs : Fits n s) :
    (wrapTurns n).foldl (wrapTurn E key n) ((unwrapTurns n).foldl (unwrapTurn E key n) s) = s := by
  have hreverse : wrapTurns n = (unwrapTurns n).reverse := by
    rw [unwrapTurns_eq, List.reverse_reverse]
  rw [hreverse]
  apply foldl_reverse_undo (P := Fits n) _ _ hs
  · exact fun _ hturn _ => fits_unwrapTurn (by rwa [unwrapTurns_eq, List.mem_reverse] at hturn)
  · exact fun _ hturn _ => wrapTurn_unwrapTurn (by rwa [unwrapTurns_eq, List.mem_reverse] at hturn)

/-- The registers of a byte string. -/
theorem fits_split {b first : Bytes} {start : ℕ} (hfirst : first.length = 8)
    (h : b.length = start + 8 * n) : Fits n ⟨first, split b start n⟩ := by
  obtain ⟨hlength, hall⟩ := split_spec h.ge
  exact ⟨hfirst, hlength, hall⟩

/-- Joined registers are split as they were. -/
theorem split_join (hs : Fits n s) :
    (join s).slice 0 8 = s.first ∧ split (join s) 8 n = s.rest := by
  constructor
  · rw [join, ← hs.first, Bytes.slice_zero_append]
  · have h := split_append_flatten s.first hs.rest
    rwa [hs.first, hs.length] at h

theorem join_split {b : Bytes} (h : b.length = 8 + 8 * n) :
    join ⟨b.slice 0 8, split b 8 n⟩ = b := by
  rw [join, flatten_split h, Bytes.slice, List.drop_zero, List.take_append_drop]

theorem kwIv_length : kwIv.length = 8 := List.length_replicate

theorem length_wrap {p : Bytes} (hp : p.length = 8 * n) : (wrap E key n p).length = 8 + 8 * n := by
  have hend : Fits n ((wrapTurns n).foldl (wrapTurn E key n) ⟨kwIv, split p 0 n⟩) :=
    foldl_keeps (fun _ hturn _ => fits_wrapTurn hturn) (fits_split kwIv_length (by omega))
  rw [wrap, join, List.length_append, hend.first, hend.length_flatten]

/-- Unwrapping what wrapping gives returns the plaintext. -/
theorem unwrap_wrap {p : Bytes} (hp : p.length = 8 * n) : unwrap E key n (wrap E key n p) = some p := by
  have hfits : Fits n ⟨kwIv, split p 0 n⟩ := fits_split kwIv_length (by omega)
  have hend : Fits n ((wrapTurns n).foldl (wrapTurn E key n) ⟨kwIv, split p 0 n⟩) :=
    foldl_keeps (fun _ hturn _ => fits_wrapTurn hturn) hfits
  obtain ⟨hfirst, hrest⟩ := split_join hend
  unfold unwrap wrap
  dsimp only
  rw [hfirst, hrest, unwrap_wrap_registers hfits]
  dsimp only
  rw [if_pos rfl, flatten_split (by omega), List.drop_zero]

/-- What unwrapping accepts is what wrapping gives of the returned plaintext. -/
theorem wrap_of_unwrap {c p : Bytes} (hc : c.length = 8 + 8 * n) (h : unwrap E key n c = some p) :
    p.length = 8 * n ∧ wrap E key n p = c := by
  have hfits : Fits n ⟨c.slice 0 8, split c 8 n⟩ :=
    fits_split (Bytes.length_slice (by omega)) hc
  have hback := @wrap_unwrap_registers E key _ _ hfits
  have hend : Fits n ((unwrapTurns n).foldl (unwrapTurn E key n) ⟨c.slice 0 8, split c 8 n⟩) :=
    foldl_keeps (fun _ hturn _ => fits_unwrapTurn (by rwa [unwrapTurns_eq, List.mem_reverse] at hturn))
      hfits
  unfold unwrap at h
  dsimp only at h
  split at h
  · next hfirst =>
    generalize (unwrapTurns n).foldl (unwrapTurn E key n) ⟨c.slice 0 8, split c 8 n⟩ = s at *
    obtain rfl := Option.some.inj h
    have hsplit : split s.rest.flatten 0 n = s.rest := by
      have h := split_append_flatten [] hend.rest
      rwa [List.nil_append, List.length_nil, hend.length] at h
    constructor
    · exact hend.length_flatten
    · unfold wrap
      rw [hsplit, ← hfirst]
      exact (congrArg join hback).trans (join_split hc)
  · cases h

end Inverse

end Kdna.KeyWrap

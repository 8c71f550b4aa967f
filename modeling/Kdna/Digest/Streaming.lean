import Kdna.Digest.Preimage
import Kdna.Json.Charge

/-!
# Digests of streamed canonical JSON

A digest of a value is taken over its canonical text in pieces. The pieces are collected in a
buffer of code units; whenever it is long enough its UTF-8 octets go to an incremental hasher. A
piece is never cut, so the octets are those of the whole text.
-/

namespace Kdna.Digest

/-- The pieces with a comma between two elements. -/
def commaPieces (parts : List (List (List Char))) : List (List Char) := List.intercalate [[',']] parts

/-- `canonicalChunks(value)` -/
def canonicalChunks : Json → Except Failure (List (List Char)) :=
  Value.fold
    { null := .ok [stringify .null]
      bool := fun b => .ok [stringify (.bool b)]
      num := fun x => .ok [stringify (.num x)]
      str := fun t => do
        require (scalarString t maxStringBytes true) Failure.inputInvalid
        return [quote t]
      arr := fun items => do
        let parts ← items.mapM id
        return ['['] :: (commaPieces parts ++ [[']']])
      obj := fun props => do
        let parts ← (sortKeys props).mapM fun p => do return quote p.1 :: [':'] :: (← p.2)
        return ['{'] :: (commaPieces parts ++ [['}']]) }

/-- The scalar values of code units, with U+FFFD for an unpaired surrogate. -/
def scalars : List ℕ → List Char
  | [] => []
  | [n] => [if Utf16.isHigh n || Utf16.isLow n then '\uFFFD' else Char.ofNat n]
  | n :: m :: ns =>
    if Utf16.isHigh n then
      if Utf16.isLow m then Utf16.pair n m :: scalars ns else '\uFFFD' :: scalars (m :: ns)
    else if Utf16.isLow n then '\uFFFD' :: scalars (m :: ns)
    else Char.ofNat n :: scalars (m :: ns)

/-- `new TextEncoder().encode(text)` -/
def textEncode (units : List ℕ) : Bytes := Utf8.encodeChars (scalars units)

/-- The incremental hasher of the hash library. -/
structure Hasher where
  State : Type
  create : State
  update : State → Bytes → State
  digest : State → Vector UInt8 32

/-- The hasher digests what it was given, one piece after the other. -/
def Hasher.Streams (hasher : Hasher) (sha256 : Bytes → Vector UInt8 32) : Prop :=
  ∀ parts : List Bytes,
    hasher.digest (parts.foldl hasher.update hasher.create) = sha256 parts.flatten

/-- `FLUSH_AT` -/
def flushAt : ℕ := 2 ^ 16

/-- One round of the loop of `digestCanonical`: the state of the hasher and the buffer. -/
def absorb (hasher : Hasher) (s : hasher.State × List ℕ) (chunk : List Char) :
    hasher.State × List ℕ :=
  let buffer := s.2 ++ Utf16.encode chunk
  if buffer.length ≥ flushAt then (hasher.update s.1 (textEncode buffer), []) else (s.1, buffer)

/-- `digestCanonical(value)` -/
def digestCanonical (hasher : Hasher) (v : Json) : Except Failure String := do
  let chunks ← canonicalChunks v
  let (state, buffer) := chunks.foldl (absorb hasher) (hasher.create, [])
  let state := if buffer.length > 0 then hasher.update state (textEncode buffer) else state
  return "sha256:" ++ String.ofList ((hasher.digest state).toList.flatMap hexPair)

section Chunks

theorem flatten_commaPieces (parts : List (List (List Char))) :
    (commaPieces parts).flatten = commaJoin (parts.map List.flatten) := by
  induction parts with
  | nil => rfl
  | cons part parts ih =>
    cases parts with
    | nil => simp [commaPieces]
    | cons part' parts =>
      rw [List.map_cons, List.map_cons, commaJoin_cons_cons, ← List.map_cons, ← ih]
      simp [commaPieces, List.intercalate]

/-- The pieces of an array are those of its items. -/
theorem canonicalChunks_arr (items : List Json) : canonicalChunks (.arr items) = (do
    let parts ← items.mapM canonicalChunks
    return ['['] :: (commaPieces parts ++ [[']']])) := by
  simp [canonicalChunks, List.mapM_map]

/-- The pieces of an object are its keys and those of its members, in the order of the keys. -/
theorem canonicalChunks_obj (props : List (String × Json)) : canonicalChunks (.obj props) = (do
    let parts ← (sortKeys props).mapM fun p => do
      return quote p.1 :: [':'] :: (← canonicalChunks p.2)
    return ['{'] :: (commaPieces parts ++ [['}']])) := by
  simp [canonicalChunks, sortKeys_map, List.mapM_map, Function.comp_def]

/-- Pieces that flatten to the texts of the elements, one list for each element. -/
theorem exists_mapM_flatten {α ε : Type} {f : α → Except ε (List (List Char))}
    {text : α → List Char} {l : List α}
    (h : ∀ a ∈ l, ∃ chunks, f a = .ok chunks ∧ chunks.flatten = text a) :
    ∃ parts, l.mapM f = .ok parts ∧ parts.map List.flatten = l.map text := by
  induction l with
  | nil => exact ⟨[], rfl, rfl⟩
  | cons a l ih =>
    rw [List.forall_mem_cons] at h
    obtain ⟨chunks, hchunks, hflat⟩ := h.1
    obtain ⟨parts, hparts, hrest⟩ := ih h.2
    refine ⟨chunks :: parts, ?_, ?_⟩
    · rw [List.mapM_cons, hchunks, hparts]
      rfl
    · rw [List.map_cons, List.map_cons, hflat, hrest]

/-- The pieces of a strict value are pieces of its canonical text. -/
theorem exists_canonicalChunks {levels : ℕ} {v : Json} (h : v.Strict levels) :
    ∃ chunks, canonicalChunks v = .ok chunks ∧ chunks.flatten = canonicalText v := by
  induction levels generalizing v with
  | zero => exact h.elim
  | succ levels ih =>
    cases v with
    | null => exact ⟨_, rfl, rfl⟩
    | bool b => exact ⟨_, rfl, List.append_nil _⟩
    | num x => exact ⟨_, rfl, List.append_nil _⟩
    | str t =>
      have hscalar : scalarString t maxStringBytes true = true := by
        simp only [scalarString, Bool.true_or, Bool.true_and, decide_eq_true_eq]
        exact h
      exact ⟨[quote t], require_bind_of_pos hscalar _, List.append_nil _⟩
    | arr items =>
      obtain ⟨parts, hparts, hflat⟩ := exists_mapM_flatten fun w hw => ih (h.2 w hw)
      rw [canonicalChunks_arr, hparts]
      refine ⟨_, rfl, ?_⟩
      rw [List.flatten_cons, List.flatten_append, flatten_commaPieces, hflat, canonicalText_arr]
      rfl
    | obj props =>
      have hmember : ∀ p ∈ sortKeys props, ∃ chunks,
          (do return quote p.1 :: [':'] :: (← canonicalChunks p.2) : Except Failure _) = .ok chunks ∧
            chunks.flatten = quote p.1 ++ ':' :: canonicalText p.2 := by
        intro p hp
        obtain ⟨chunks, hchunks, hflat⟩ := ih (h p ((sortKeys_perm props).mem_iff.mp hp)).2
        refine ⟨quote p.1 :: [':'] :: chunks, ?_, ?_⟩
        · rw [hchunks]
          rfl
        · rw [List.flatten_cons, List.flatten_cons, hflat]
          rfl
      obtain ⟨parts, hparts, hflat⟩ := exists_mapM_flatten hmember
      rw [canonicalChunks_obj, hparts]
      refine ⟨_, rfl, ?_⟩
      rw [List.flatten_cons, List.flatten_append, flatten_commaPieces, hflat, canonicalText_obj]
      rfl

end Chunks

section Encoder

theorem encode_append (cs ds : List Char) :
    Utf16.encode (cs ++ ds) = Utf16.encode cs ++ Utf16.encode ds := List.flatMap_append

/-- A text with its surrogates paired is encoded scalar value by scalar value. -/
theorem scalars_encode (cs : List Char) : scalars (Utf16.encode cs) = cs := by
  have hdecode := Utf16.decode_eq_some_iff.mpr (rfl : Utf16.encode cs = _)
  generalize Utf16.encode cs = ns at hdecode
  induction ns using Utf16.decode.induct generalizing cs with
  | case1 => exact Option.some.inj hdecode
  | case2 n hn =>
    rw [Utf16.decode, if_pos hn] at hdecode
    cases hdecode
  | case3 n hn =>
    rw [Utf16.decode, if_neg hn] at hdecode
    simp only [Bool.or_eq_true, not_or] at hn
    rw [scalars, if_neg (by simpa using hn.1)]
    exact Option.some.inj hdecode
  | case4 n m ns hn hm ih =>
    rw [Utf16.decode, if_pos hn, if_pos hm, Option.map_eq_some_iff] at hdecode
    obtain ⟨ds, hds, rfl⟩ := hdecode
    rw [scalars, if_pos hn, if_pos hm, ih ds hds]
  | case5 n m ns hn hm =>
    rw [Utf16.decode, if_pos hn, if_neg hm] at hdecode
    cases hdecode
  | case6 n m ns hn hm =>
    rw [Utf16.decode, if_neg hn, if_pos hm] at hdecode
    cases hdecode
  | case7 n m ns hn hm ih =>
    rw [Utf16.decode, if_neg hn, if_neg hm, Option.map_eq_some_iff] at hdecode
    obtain ⟨ds, hds, rfl⟩ := hdecode
    simp only [Bool.or_eq_true, not_or] at hm
    rw [scalars, if_neg hn, if_neg (by simpa using hm.1), ih ds hds]

/-- The encoder writes the UTF-8 octets of a text. -/
theorem textEncode_encode (cs : List Char) : textEncode (Utf16.encode cs) = Utf8.encodeChars cs := by
  rw [textEncode, scalars_encode]

end Encoder

section Flushes

variable {hasher : Hasher}

/-- What the hasher was given and what waits in the buffer make up the octets of `text`. -/
def Holds (hasher : Hasher) (text : List Char) (s : hasher.State × List ℕ) : Prop :=
  ∃ (parts : List Bytes) (waiting : List Char), s.1 = parts.foldl hasher.update hasher.create ∧ s.2 = Utf16.encode waiting ∧
    parts.flatten ++ Utf8.encodeChars waiting = Utf8.encodeChars text

theorem holds_create : Holds hasher [] (hasher.create, []) := ⟨[], [], rfl, rfl, rfl⟩

/-- A flush moves the buffer to the hasher. -/
theorem Holds.flush {text : List Char} {s : hasher.State × List ℕ} (h : Holds hasher text s) :
    Holds hasher text (hasher.update s.1 (textEncode s.2), []) := by
  obtain ⟨parts, waiting, hstate, hbuffer, hbytes⟩ := h
  refine ⟨parts ++ [Utf8.encodeChars waiting], [], ?_, rfl, ?_⟩
  · rw [List.foldl_concat, ← hstate, hbuffer, textEncode_encode]
  · rw [List.flatten_concat, Utf8.encodeChars_nil, List.append_nil, hbytes]

/-- A piece is added whole, before or after a flush. -/
theorem Holds.absorb {text : List Char} {s : hasher.State × List ℕ} (h : Holds hasher text s)
    (chunk : List Char) : Holds hasher (text ++ chunk) (Digest.absorb hasher s chunk) := by
  have hadded : Holds hasher (text ++ chunk) (s.1, s.2 ++ Utf16.encode chunk) := by
    obtain ⟨parts, waiting, hstate, hbuffer, hbytes⟩ := h
    refine ⟨parts, waiting ++ chunk, hstate, ?_, ?_⟩
    · rw [hbuffer, encode_append]
    · rw [Utf8.encodeChars_append, ← List.append_assoc, hbytes, ← Utf8.encodeChars_append]
  unfold Digest.absorb
  dsimp only
  split
  · exact hadded.flush
  · exact hadded

/-- After the loop the hasher and the buffer make up all pieces. -/
theorem holds_foldl {text : List Char} {s : hasher.State × List ℕ} (h : Holds hasher text s)
    (chunks : List (List Char)) :
    Holds hasher (text ++ chunks.flatten) (chunks.foldl (Digest.absorb hasher) s) := by
  induction chunks generalizing text s with
  | nil => rwa [List.flatten_nil, List.append_nil]
  | cons chunk chunks ih =>
    rw [List.flatten_cons, ← List.append_assoc]
    exact ih (h.absorb chunk)

/-- After the last flush the hasher digests the octets of the text. -/
theorem Holds.digest {sha256 : Bytes → Vector UInt8 32} (hstreams : hasher.Streams sha256)
    {text : List Char} {s : hasher.State × List ℕ} (h : Holds hasher text s) :
    hasher.digest (if s.2.length > 0 then hasher.update s.1 (textEncode s.2) else s.1) =
      sha256 (Utf8.encodeChars text) := by
  have hrest : ∃ parts : List Bytes, (if s.2.length > 0 then hasher.update s.1 (textEncode s.2)
      else s.1) = parts.foldl hasher.update hasher.create ∧
        parts.flatten = Utf8.encodeChars text := by
    split
    case isTrue =>
      obtain ⟨parts, waiting, hstate, hbuffer, hbytes⟩ := h.flush
      obtain rfl : waiting = [] := Utf16.encode_injective hbuffer.symm
      exact ⟨parts, hstate, by rw [← hbytes, Utf8.encodeChars_nil, List.append_nil]⟩
    case isFalse hlength =>
      obtain ⟨parts, waiting, hstate, hbuffer, hbytes⟩ := h
      rw [hbuffer] at hlength
      have hnil : Utf16.encode waiting = [] := List.eq_nil_of_length_eq_zero (by omega)
      obtain rfl : waiting = [] := Utf16.encode_injective hnil
      exact ⟨parts, hstate, by rw [← hbytes, Utf8.encodeChars_nil, List.append_nil]⟩
  obtain ⟨parts, hstate, hbytes⟩ := hrest
  rw [hstate, hstreams, hbytes]

/-- The digest of the pieces of a value is the digest of its canonical text. -/
theorem digestCanonical_eq (hasher : Hasher) {sha256 : Bytes → Vector UInt8 32}
    (hstreams : hasher.Streams sha256) {v : Json} {text : String}
    (h : canonicalJson v = .ok text) :
    digestCanonical hasher v = .ok (digest sha256 (Utf8.encode text)) := by
  obtain ⟨hstrict, -, rfl⟩ := canonicalJson_eq_ok_iff.mp h
  obtain ⟨chunks, hchunks, hflat⟩ := exists_canonicalChunks hstrict
  have hholds := holds_foldl (@holds_create hasher) chunks
  rw [List.nil_append, hflat] at hholds
  have hdigest := hholds.digest hstreams
  rw [digestCanonical, hchunks, ok_bind]
  dsimp only
  rw [hdigest, digest, hex, Utf8.encode, String.toList_ofList]
  rfl

/-- The hasher that keeps the octets it was given. -/
def keepingHasher (sha256 : Bytes → Vector UInt8 32) : Hasher :=
  { State := Bytes
    create := []
    update := fun kept bytes => kept ++ bytes
    digest := sha256 }

theorem keepingHasher_streams (sha256 : Bytes → Vector UInt8 32) :
    (keepingHasher sha256).Streams sha256 := by
  intro parts
  have hkept : ∀ kept : Bytes,
      parts.foldl (fun kept bytes => kept ++ bytes) kept = kept ++ parts.flatten := by
    induction parts with
    | nil => exact fun kept => (List.append_nil kept).symm
    | cons part parts ih =>
      intro kept
      rw [List.foldl_cons, ih, List.flatten_cons, List.append_assoc]
  exact congrArg sha256 (hkept [])

/-- SHA-256 on the canonical text of the sample. -/
def quotedFaceSha256 : Bytes → Vector UInt8 32 := fun _ =>
  #v[122, 12, 80, 185, 36, 52, 176, 21, 84, 95, 233, 58, 183, 35, 219, 45, 75, 44, 221, 20,
      164, 65, 64, 86, 36, 169, 206, 139, 226, 159, 29, 90]

/-- The sample needs a surrogate pair. -/
theorem digestCanonical_eq_sample : digestCanonical (keepingHasher quotedFaceSha256) (.str "😀") =
    .ok (digest quotedFaceSha256 (Utf8.encode "\"😀\"")) := by
  have htext : canonicalJson (.str "😀") = .ok "\"😀\"" := by decide
  exact digestCanonical_eq _ (keepingHasher_streams _) htext

example : digest quotedFaceSha256 (Utf8.encode "\"😀\"") =
    "sha256:7a0c50b92434b015545fe93ab723db2d4b2cdd14a441405624a9ce8be29f1d5a" := by
  decide

end Flushes

end Kdna.Digest

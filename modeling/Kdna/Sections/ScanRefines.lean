import Kdna.Cbor.Exact
import Kdna.Sections.Scan

/-!
# The structural scan refines the payload decoder

On every frame that the payload decoder accepts, the scan succeeds, returns the
decoded value with markers for the texts it does not retain, and reports ranges
that tile the frame. The invariant of a scan says which octets lie ahead and that
the ranges reported so far are, in some order, a chain from the start.
-/

namespace Kdna.Sections

open Cbor

/-- The span of a range that was read. -/
def ReadRange.span (s : ReadRange) : Span := (s.offset, s.offset + s.length)

/-- The span of a range that was skipped. -/
def SkipRange.span (s : SkipRange) : Span := (s.offset, s.offset + s.length)

/-- The reader of the octets `b`. -/
def readerOf (b : Bytes) : Reader := fun start n _ => .ok (Bytes.slice b start n)

/-- The scan of `b` is before the octets `rest`, and its ranges tile what is behind. -/
structure Ahead (b : Bytes) (st : ScanState) (rest : Bytes) : Prop where
  drop : b.drop st.offset = rest
  le : st.offset ≤ b.length
  chain : ∃ spans, SpanChain 0 spans st.offset ∧
    spans.Perm (st.reads.map ReadRange.span ++ st.skips.map SkipRange.span)

variable {b r : Bytes} {st : ScanState}

theorem Ahead.offset_add_le {a : Bytes} (h : Ahead b st (a ++ r)) :
    st.offset + a.length ≤ b.length := by
  have hlen := congrArg List.length h.drop
  have hle := h.le
  rw [List.length_drop, List.length_append] at hlen
  omega

theorem Ahead.drop_add {a : Bytes} (h : Ahead b st (a ++ r)) :
    b.drop (st.offset + a.length) = r := by
  rw [← List.drop_drop, h.drop, List.drop_left]

/-- The octets ahead are read, and the scan is behind them. -/
theorem scanTake_ahead {a : Bytes} (h : Ahead b st (a ++ r)) (purpose : Purpose) :
    ∃ st', scanTake b.length (readerOf b) a.length purpose st = .ok (a, st') ∧ Ahead b st' r := by
  obtain ⟨spans, hchain, hperm⟩ := h.chain
  have hread : Bytes.slice b st.offset a.length = a := by
    rw [Bytes.slice, h.drop, List.take_left]
  rw [scanTake, require_bind_of_pos h.offset_add_le]
  split_ifs with hzero
  · obtain rfl := List.length_eq_zero_iff.mp hzero
    exact ⟨st, rfl, h⟩
  · refine ⟨_, by rw [readerOf, ok_bind, hread, require_bind_of_pos rfl]; rfl, h.drop_add,
      h.offset_add_le, spans ++ [(st.offset, st.offset + a.length)], ?_, ?_⟩
    · exact hchain.append ⟨rfl, Nat.le_add_right _ _, rfl⟩
    · rw [List.map_append, List.append_assoc]
      refine (hperm.append_right _).trans ?_
      rw [List.append_assoc]
      exact List.perm_append_comm.append_left _

/-- The octets ahead are skipped, and the scan is behind them. -/
theorem scanSkip_ahead {a : Bytes} (h : Ahead b st (a ++ r)) (path : List PathStep) :
    ∃ st', scanSkip b.length a.length path st = .ok st' ∧ Ahead b st' r := by
  obtain ⟨spans, hchain, hperm⟩ := h.chain
  rw [scanSkip, require_bind_of_pos h.offset_add_le]
  refine ⟨_, rfl, h.drop_add, h.offset_add_le, spans ++ [(st.offset, st.offset + a.length)], ?_, ?_⟩
  · exact hchain.append ⟨rfl, Nat.le_add_right _ _, rfl⟩
  · rw [List.map_append, ← List.append_assoc]
    exact hperm.append_right _

/-- An argument below the bound of safe integers is scanned. -/
theorem scanArgument_ahead {w : Width} {n : ℕ} (hn : n < w.bound) (hsafe : n < 2 ^ 53)
    (h : Ahead b st (Bytes.beWord w.size n ++ r)) :
    ∃ st', scanArgument b.length (readerOf b) (w.info n) st = .ok (n, st') ∧ Ahead b st' r := by
  have htake : ∀ k info, Ahead b st (Bytes.beWord k n ++ r) → n < 256 ^ k → 24 ≤ info →
      info ≤ 27 → 2 ^ (info - 24) = k →
      ∃ st', scanArgument b.length (readerOf b) info st = .ok (n, st') ∧ Ahead b st' r := by
    intro k info h hk hlo hhi hsize
    obtain ⟨st', hread, h'⟩ := scanTake_ahead h .cborArgument
    rw [Bytes.length_beWord] at hread
    refine ⟨st', ?_, h'⟩
    rw [scanArgument, if_neg (by omega), require_bind_of_pos hhi, hsize, hread, ok_bind]
    simp only [Bytes.beValue_beWord_of_lt hk]
    rw [require_bind_of_pos hsafe]
    rfl
  cases w with
  | direct => exact ⟨st, if_pos hn, h⟩
  | one => exact htake 1 24 h hn (by decide) (by decide) rfl
  | two => exact htake 2 25 h hn (by decide) (by decide) rfl
  | four => exact htake 4 26 h hn (by decide) (by decide) rfl
  | eight => exact htake 8 27 h hn (by decide) (by decide) rfl

/-- The argument of an integer is scanned. -/
theorem scanWord_ahead {w : Width} {n : ℕ} (hn : n < w.bound)
    (h : Ahead b st (Bytes.beWord w.size n ++ r)) :
    ∃ st', scanWord b.length (readerOf b) (w.info n) st = .ok (n, st') ∧ Ahead b st' r := by
  have hsmall : w ≠ .eight → n < 2 ^ 53 := by
    intro hw
    have hbound : w.bound ≤ 2 ^ 53 := by
      cases w <;> simp_all [Width.bound, Width.size]
    omega
  by_cases hw : w = .eight
  · subst hw
    obtain ⟨st', hread, h'⟩ := scanTake_ahead h .cborInteger
    rw [Bytes.length_beWord] at hread
    refine ⟨st', ?_, h'⟩
    have hread : scanTake b.length (readerOf b) 8 .cborInteger st =
        .ok (Bytes.beWord 8 n, st') := hread
    rw [scanWord, if_pos (show Width.eight.info n = 27 from rfl), hread, ok_bind]
    simp only [Bytes.beValue_beWord_of_lt (show n < 256 ^ 8 from hn)]
    rfl
  · have hinfo : w.info n ≠ 27 := by
      cases w <;> simp_all [Width.bound, Width.info]
      omega
    rw [scanWord, if_neg hinfo]
    exact scanArgument_ahead hn (hsmall hw) h

variable {interp : Bool} {levels : ℕ} {path : List PathStep} {force key : Bool}

/-- The initial octet is scanned, and the scan goes on with its fields. -/
theorem scanInitial_ahead {major info : ℕ} (h : Ahead b st (initial major info :: r)) :
    ∃ st', scanTake b.length (readerOf b) 1 .cborInitial st = .ok ([initial major info], st') ∧
      Ahead b st' r :=
  scanTake_ahead (a := [initial major info]) h .cborInitial

/-- A number is scanned from each of its encodings. -/
theorem scanValue_number {x : Binary64} {c : Bytes} (hx : NumberEncoding x c)
    (h : Ahead b st (c ++ r)) :
    ∃ st', scanValue interp b.length (readerOf b) (levels + 1) path force key st =
      .ok (.num x, st') ∧ Ahead b st' r := by
  cases hx with
  | unsigned n _ hx hhead =>
    obtain ⟨w, hn, rfl⟩ := hhead
    have hlt := Width.info_lt hn
    obtain ⟨hmajor, hinfo⟩ := initial_fields (show 0 < 8 by omega) (show w.info n < 32 by omega)
    obtain ⟨st₁, hinitial, h₁⟩ := scanInitial_ahead h
    obtain ⟨st₂, hword, h₂⟩ := scanWord_ahead hn h₁
    refine ⟨st₂, ?_, h₂⟩
    rw [scanValue, hinitial, ok_bind]
    simp only [List.headD_cons, hmajor, hinfo]
    rw [if_pos (by decide), scanInteger, hword, ok_bind]
    simp only [if_true]
    rw [hx]
    rfl
  | negative n _ hx hhead =>
    obtain ⟨w, hn, rfl⟩ := hhead
    have hlt := Width.info_lt hn
    obtain ⟨hmajor, hinfo⟩ := initial_fields (show 1 < 8 by omega) (show w.info n < 32 by omega)
    obtain ⟨st₁, hinitial, h₁⟩ := scanInitial_ahead h
    obtain ⟨st₂, hword, h₂⟩ := scanWord_ahead hn h₁
    refine ⟨st₂, ?_, h₂⟩
    rw [scanValue, hinitial, ok_bind]
    simp only [List.headD_cons, hmajor, hinfo]
    rw [if_pos (by decide), scanInteger, hword, ok_bind]
    simp only [one_ne_zero, if_false]
    rw [hx]
    rfl
  | float ff word hff hword hx =>
    obtain ⟨hfind, hlo, hhi⟩ := find_floatFormats hff
    have hsize := pow_floatFormats hff
    obtain ⟨hmajor, hinfo⟩ := initial_fields (show 7 < 8 by omega) (show ff.info < 32 by omega)
    obtain ⟨st₁, hinitial, h₁⟩ := scanInitial_ahead h
    obtain ⟨st₂, hdata, h₂⟩ := scanTake_ahead h₁ .cborFloat
    rw [Bytes.length_beWord] at hdata
    refine ⟨st₂, ?_, h₂⟩
    rw [scanValue, hinitial, ok_bind]
    simp only [List.headD_cons, hmajor, hinfo]
    rw [if_neg (by decide), if_neg (by decide), if_neg (by decide), if_neg (by decide),
      if_pos trivial, scanSimple, if_neg (by omega), if_neg (by omega), if_neg (by omega), hfind,
      orFail, ok_bind, hsize, hdata, ok_bind]
    simp only
    rw [Bytes.beValue_beWord_of_lt hword, hx]
    rfl

/-- A text without a leading mark is read when it is retained or a key, and skipped
otherwise. -/
theorem scanValue_text (interp : Bool) (levels : ℕ) (path : List PathStep) (force key : Bool)
    {s : String} {c : Bytes} (hs : TextEncoding s c)
    (hlen : (Utf8.encode s).length ≤ maxStringBytes) (hmark : Unmarked s)
    (h : Ahead b st (c ++ r)) :
    ∃ st', scanValue interp b.length (readerOf b) (levels + 1) path force key st =
      .ok (.str (if retained interp path force || key then some s else none), st') ∧
      Ahead b st' r := by
  obtain ⟨_, ⟨w, hn, rfl⟩, rfl⟩ := hs
  have hlt := Width.info_lt hn
  have hlen : (Utf8.encode s).length ≤ 1048576 := hlen
  obtain ⟨hmajor, hinfo⟩ := initial_fields (show 3 < 8 by omega)
    (show w.info (Utf8.encode s).length < 32 by omega)
  rw [List.append_assoc] at h
  obtain ⟨st₁, hinitial, h₁⟩ := scanInitial_ahead h
  obtain ⟨st₂, hargument, h₂⟩ := scanArgument_ahead hn (by omega) h₁
  rw [scanValue, hinitial, ok_bind]
  simp only [List.headD_cons, hmajor, hinfo]
  rw [if_neg (by decide), if_pos (by decide), scanText, require_bind_of_pos rfl, hargument, ok_bind]
  simp only
  rw [require_bind_of_pos hlen]
  by_cases hread : (retained interp path force || key) = true
  · obtain ⟨st₃, htake, h₃⟩ := scanTake_ahead h₂ (if key then .mapKey else .bindingString)
    refine ⟨st₃, ?_, h₃⟩
    rw [if_pos hread, if_pos hread]
    have hfirst : s.toList.head? ≠ some '\uFEFF' := by
      intro hhead
      obtain ⟨cs, hcs⟩ := List.head?_eq_some_iff.mp hhead
      exact hmark ((Utf8.bom_isPrefix_encode_iff s).mpr ⟨cs, hcs⟩)
    rw [htake, ok_bind]
    simp only
    rw [Utf8.decode_encode, orFail, ok_bind, require_bind_of_pos hfirst]
    rfl
  · obtain ⟨st₃, hskip, h₃⟩ := scanSkip_ahead h₂ path
    refine ⟨st₃, ?_, h₃⟩
    rw [if_neg hread, if_neg hread, hskip]
    rfl

/-- The items of an array are scanned in order. -/
theorem scanItems_ahead {value : ℕ → ScanState → Except ScanFailure (Scanned × ScanState)}
    {g : ℕ → Json → Scanned} {items : List Json} {c : Bytes} (i : ℕ)
    (hvalue : ∀ v ∈ items, ∀ i st e r, Encodes v e → Ahead b st (e ++ r) →
      ∃ st', value i st = .ok (g i v, st') ∧ Ahead b st' r)
    (hc : Concat (items.map Encodes) c) (h : Ahead b st (c ++ r)) :
    ∃ st', scanItems value items.length i st =
      .ok (items.mapIdx (fun j v => g (i + j) v), st') ∧ Ahead b st' r := by
  induction items generalizing c st i with
  | nil =>
    cases hc
    exact ⟨st, rfl, h⟩
  | cons v vs ih =>
    obtain ⟨e, d, he, hd, rfl⟩ := hc
    rw [List.append_assoc] at h
    obtain ⟨st₁, hhead, h₁⟩ := hvalue v List.mem_cons_self i st e _ he h
    obtain ⟨st₂, htail, h₂⟩ := ih (i + 1) (fun w hw => hvalue w (.tail _ hw)) hd h₁
    refine ⟨st₂, ?_, h₂⟩
    rw [List.length_cons, scanItems, hhead, ok_bind]
    simp only
    rw [htail, List.mapIdx_cons]
    simp only [Nat.add_assoc, Nat.add_comm 1]
    rfl

/-- The members of an object are scanned in order when their keys are new. -/
theorem scanProps_ahead {key : ScanState → Except ScanFailure (Scanned × ScanState)}
    {f : String → ScanState → Except ScanFailure (Scanned × ScanState)}
    {g : String → Json → Scanned} {props : List (String × Json)} {keys : List String} {c : Bytes}
    (hkey : ∀ p ∈ props, ∀ st e r, TextEncoding p.1 e → Ahead b st (e ++ r) →
      ∃ st', key st = .ok (.str (some p.1), st') ∧ Ahead b st' r)
    (hvalue : ∀ p ∈ props, ∀ st e r, Encodes p.2 e → Ahead b st (e ++ r) →
      ∃ st', f p.1 st = .ok (g p.1 p.2, st') ∧ Ahead b st' r)
    (hnodup : (props.map Prod.fst).Nodup) (hseen : ∀ p ∈ props, p.1 ∉ keys)
    (hc : Concat (props.map fun p => Pair p.1 (Encodes p.2)) c) (h : Ahead b st (c ++ r)) :
    ∃ st', scanProps key f props.length keys st =
      .ok (props.map (fun p => (p.1, g p.1 p.2)), st') ∧ Ahead b st' r := by
  induction props generalizing c keys st with
  | nil =>
    cases hc
    exact ⟨st, rfl, h⟩
  | cons p ps ih =>
    obtain ⟨_, d, ⟨kb, vb, hkb, hvb, rfl⟩, hd, rfl⟩ := hc
    rw [List.map_cons, List.nodup_cons] at hnodup
    rw [List.append_assoc, List.append_assoc] at h
    have hrest : ∀ q ∈ ps, q.1 ∉ p.1 :: keys := by
      intro q hq
      rw [List.mem_cons, not_or]
      exact ⟨fun heq => hnodup.1 (heq ▸ List.mem_map_of_mem (f := Prod.fst) hq),
        hseen q (.tail _ hq)⟩
    obtain ⟨st₁, hk, h₁⟩ := hkey p List.mem_cons_self st kb _ hkb h
    obtain ⟨st₂, hv, h₂⟩ := hvalue p List.mem_cons_self st₁ vb _ hvb h₁
    obtain ⟨st₃, htail, h₃⟩ := ih (fun q hq => hkey q (.tail _ hq))
      (fun q hq => hvalue q (.tail _ hq)) hnodup.2 hrest hd h₂
    refine ⟨st₃, ?_, h₃⟩
    rw [List.length_cons, scanProps, hk, ok_bind]
    simp only
    rw [require_bind_of_pos (hseen p List.mem_cons_self), hv, ok_bind]
    simp only
    rw [htail]
    rfl

private theorem mapIdx_map {α β γ : Type} (f : ℕ → β → γ) (g : α → β) (l : List α) :
    (l.map g).mapIdx f = l.mapIdx fun i a => f i (g a) := by
  refine List.mapIdx_eq_iff.mpr fun i => ?_
  simp [Function.comp_def]

private theorem map_mapIdx {α β γ : Type} (f : ℕ → α → β) (g : β → γ) (l : List α) :
    (l.mapIdx f).map g = l.mapIdx fun i a => g (f i a) := by
  refine (List.mapIdx_eq_iff.mpr fun i => ?_).symm
  simp [Function.comp_def]

@[simp] theorem masked_arr (items : List Json) (path : List PathStep) (force : Bool) :
    masked interp (.arr items) path force = .arr (items.mapIdx fun i item =>
      masked interp item (path ++ [.index i]) (retained interp path force)) := by
  rw [masked, Value.fold_arr]
  simp only [mapIdx_map]

@[simp] theorem masked_obj (props : List (String × Json)) (path : List PathStep) (force : Bool) :
    masked interp (.obj props) path force = .obj (props.map fun p =>
      (p.1, masked interp p.2 (path ++ [.key p.1]) (retained interp path force))) := by
  rw [masked, Value.fold_obj]
  simp only [List.map_map]
  rfl

/-- Masking does not depend on the order of members. -/
theorem masked_enumerated (v : Json) (path : List PathStep) (force : Bool) :
    masked interp v.enumerated path force = (masked interp v path force).enumerated := by
  induction v using Json.induction generalizing path force with
  | null => rfl
  | bool b => rfl
  | num x => rfl
  | str t => rfl
  | arr items ih =>
    rw [Value.enumerated_arr, masked_arr, masked_arr, Value.enumerated_arr, mapIdx_map, map_mapIdx]
    congr 1
    exact List.mapIdx_eq_mapIdx_iff.mpr fun i hi => ih _ (List.getElem_mem hi) _ _
  | obj props ih =>
    rw [Value.enumerated_obj, Value.ofProps, masked_obj, masked_obj, Value.enumerated_obj,
      Value.ofProps, ← ownOrder_map, List.map_map, List.map_map]
    congr 2
    exact List.map_congr_left fun p hp => congrArg (Prod.mk p.1) (ih p hp _ _)

/-- Every encoding of a value within the bounds, with distinct keys and no leading
mark, is scanned as the masked value. -/
theorem scanValue_ahead {d : Json} {c : Bytes} (hwithin : d.Within levels)
    (hkeys : d.DistinctKeys) (htexts : d.AllTexts Unmarked) (hc : Encodes d c)
    (h : Ahead b st (c ++ r)) :
    ∃ st', scanValue interp b.length (readerOf b) levels path force false st =
      .ok ((masked interp d path force).enumerated, st') ∧ Ahead b st' r := by
  induction levels generalizing d c r path force st with
  | zero => exact absurd hwithin id
  | succ levels ih =>
    cases d with
    | null =>
      cases hc
      obtain ⟨st₁, hinitial, h₁⟩ := scanInitial_ahead h
      exact ⟨st₁, by rw [scanValue, hinitial, ok_bind]; rfl, h₁⟩
    | bool v =>
      cases hc
      obtain ⟨st₁, hinitial, h₁⟩ := scanInitial_ahead h
      exact ⟨st₁, by rw [scanValue, hinitial, ok_bind]; cases v <;> rfl, h₁⟩
    | num x => exact scanValue_number hc h
    | str s =>
      obtain ⟨st₁, hscan, h₁⟩ := scanValue_text interp levels path force false hc hwithin htexts h
      rw [Bool.or_false] at hscan
      exact ⟨st₁, hscan, h₁⟩
    | arr items =>
      obtain ⟨hlen, hitems⟩ := hwithin
      rw [Value.distinctKeys_arr] at hkeys
      rw [Value.allTexts_arr] at htexts
      obtain ⟨_, body, ⟨w, hn, rfl⟩, hbody, rfl⟩ := (encodes_arr _ _).mp hc
      have hlt := Width.info_lt hn
      obtain ⟨hmajor, hinfo⟩ := initial_fields (show 4 < 8 by omega)
        (show w.info items.length < 32 by omega)
      rw [List.append_assoc] at h
      obtain ⟨st₁, hinitial, h₁⟩ := scanInitial_ahead h
      obtain ⟨st₂, hargument, h₂⟩ := scanArgument_ahead hn (by omega) h₁
      have hvalue : ∀ v ∈ items, ∀ i st e r, Encodes v e → Ahead b st (e ++ r) →
          ∃ st', scanValue interp b.length (readerOf b) levels (path ++ [.index i])
            (retained interp path force) false st = .ok ((masked interp v (path ++ [.index i])
              (retained interp path force)).enumerated, st') ∧ Ahead b st' r :=
        fun v hv i st e r he hst => ih (hitems v hv) (hkeys v hv) (htexts v hv) he hst
      obtain ⟨st₃, hscan, h₃⟩ := scanItems_ahead 0 hvalue hbody h₂
      refine ⟨st₃, ?_, h₃⟩
      rw [scanValue, hinitial, ok_bind]
      simp only [List.headD_cons, hmajor, hinfo]
      rw [if_neg (by decide), if_neg (by decide), if_pos trivial, hargument, ok_bind]
      simp only
      rw [require_bind_of_pos hlen, hscan, ok_bind, masked_arr, Value.enumerated_arr, map_mapIdx]
      simp only [Nat.zero_add]
      rfl
    | obj props =>
      obtain ⟨hlen, hprops⟩ := hwithin
      rw [Value.distinctKeys_obj] at hkeys
      rw [Value.allTexts_obj] at htexts
      obtain ⟨_, body, ⟨w, hn, rfl⟩, hbody, rfl⟩ := (encodes_obj _ _).mp hc
      have hlt := Width.info_lt hn
      obtain ⟨hmajor, hinfo⟩ := initial_fields (show 5 < 8 by omega)
        (show w.info props.length < 32 by omega)
      rw [List.append_assoc] at h
      obtain ⟨st₁, hinitial, h₁⟩ := scanInitial_ahead h
      obtain ⟨st₂, hargument, h₂⟩ := scanArgument_ahead hn (by omega) h₁
      have hkey : ∀ p ∈ props, ∀ st e r, TextEncoding p.1 e → Ahead b st (e ++ r) →
          ∃ st', scanValue interp b.length (readerOf b) levels (path ++ [.key "<key>"]) false true
            st = .ok (.str (some p.1), st') ∧ Ahead b st' r := by
        intro p hp st e r he hst
        have hvalue := (hprops p hp).2
        cases levels with
        | zero => exact absurd hvalue id
        | succ levels =>
          obtain ⟨st', hscan, h'⟩ := scanValue_text interp levels (path ++ [.key "<key>"]) false true
            he (hprops p hp).1 (htexts p hp).1 hst
          rw [Bool.or_true, if_pos rfl] at hscan
          exact ⟨st', hscan, h'⟩
      have hvalue : ∀ p ∈ props, ∀ st e r, Encodes p.2 e → Ahead b st (e ++ r) →
          ∃ st', scanValue interp b.length (readerOf b) levels (path ++ [.key p.1])
            (retained interp path force) false st = .ok ((masked interp p.2 (path ++ [.key p.1])
              (retained interp path force)).enumerated, st') ∧ Ahead b st' r :=
        fun p hp st e r he hst => ih (hprops p hp).2 (hkeys.2 p hp) (htexts p hp).2 he hst
      obtain ⟨st₃, hscan, h₃⟩ := scanProps_ahead
        (f := fun name => scanValue interp b.length (readerOf b) levels (path ++ [.key name])
          (retained interp path force) false)
        (g := fun name v => (masked interp v (path ++ [.key name])
          (retained interp path force)).enumerated)
        hkey hvalue hkeys.1 (fun _ _ => List.not_mem_nil) hbody h₂
      refine ⟨st₃, ?_, h₃⟩
      rw [scanValue, hinitial, ok_bind]
      simp only [List.headD_cons, hmajor, hinfo]
      rw [if_neg (by decide), if_neg (by decide), if_neg (by decide), if_pos trivial, hargument,
        ok_bind]
      simp only
      rw [require_bind_of_pos hlen, hscan, ok_bind, masked_obj, Value.enumerated_obj, List.map_map]
      rfl

/-- A scan of a whole frame. -/
theorem scanFrame_encodes {d : Json} (hwithin : d.Within (maxDepth + 1)) (hkeys : d.DistinctKeys)
    (htexts : d.AllTexts Unmarked) (hd : Encodes d b) (interp : Bool) :
    ∃ s, scanFrame interp b.length (readerOf b) = .ok s ∧
      s.scanned = (masked interp d [] false).enumerated ∧
      Tiles (s.reads.map ReadRange.span ++ s.skips.map SkipRange.span) 0 b.length := by
  have hstart : Ahead b ⟨0, [], []⟩ (b ++ []) :=
    ⟨(List.append_nil b).symm, Nat.zero_le _, [], rfl, List.Perm.refl _⟩
  obtain ⟨st, hscan, hend⟩ := scanValue_ahead hwithin hkeys htexts hd hstart
  have hoffset : st.offset = b.length :=
    le_antisymm hend.le (List.drop_eq_nil_iff.mp hend.drop)
  obtain ⟨spans, hchain, hperm⟩ := hend.chain
  refine ⟨_, by rw [scanFrame, hscan, ok_bind]; simp only; rw [require_bind_of_pos hoffset]; rfl,
    rfl, ?_⟩
  rw [← hoffset]
  exact hchain.tiles.perm hperm

/-- Every frame that the payload decoder accepts is scanned as the decoded value
with markers, and the ranges read and skipped tile it. -/
theorem scanFrame_refines {codec : Codec} (hcodec : Faithful codec) {v : Json}
    (h : decodePayload codec b = .ok v) (interp : Bool) :
    ∃ s, scanFrame interp b.length (readerOf b) = .ok s ∧ s.scanned = masked interp v [] false ∧
      Tiles (s.reads.map ReadRange.span ++ s.skips.map SkipRange.span) 0 b.length := by
  obtain ⟨-, ⟨d, hd, hwithin, hkeys, rfl⟩, htexts⟩ := (decodePayload_eq_ok_iff hcodec).mp h
  rw [masked_enumerated]
  exact scanFrame_encodes hwithin hkeys ((allTexts_enumerated d).mp htexts) hd interp

theorem scanFrame_refines_sampleObject :
    ∃ s, scanFrame false sampleObject.length (readerOf sampleObject) = .ok s ∧
      s.scanned = .obj [("kind", .str (some "k")), ("note", .arr [.bool true, .str none])] ∧
      Tiles (s.reads.map ReadRange.span ++ s.skips.map SkipRange.span) 0 sampleObject.length :=
  scanFrame_refines faithful_plainCodec ((decodePayload_eq_ok_iff faithful_plainCodec).mpr
    ⟨by decide, encodingOf_sampleObject, sampleValue_unmarked⟩) false

end Kdna.Sections

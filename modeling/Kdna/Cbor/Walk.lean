import Kdna.Cbor.Decode
import Kdna.Json.Marks

/-!
# What the walk accepts

The walk reads exactly the definite-length encodings of values within the bounds
and without duplicate keys. It returns the value in memory, with every text as
the text decoder renders it.
-/

namespace Kdna.Cbor

/-- The decoder `text` accepts the encodings and renders the text `s` as `f s`. -/
structure Renders (text : Bytes → Option String) (f : String → String) : Prop where
  reads : ∀ s, text (Utf8.encode s) = some (f s)
  inverse : ∀ {b t}, text b = some t → ∃ s, Utf8.encode s = b ∧ f s = t
  length_le : ∀ s, (Utf8.encode (f s)).length ≤ (Utf8.encode s).length

/-- The strict decoder renders every text as it is. -/
theorem renders_decode : Renders Utf8.decode id where
  reads s := Utf8.decode_encode s
  inverse h := ⟨_, Utf8.decode_eq_some_iff.mp h, rfl⟩
  length_le _ := le_rfl

/-- The decoder of the source drops a leading mark. -/
theorem renders_decodeText : Renders decodeText Utf8.stripBom where
  reads s := decodeText_eq_some_iff.mpr ⟨s, rfl, rfl⟩
  inverse h := decodeText_eq_some_iff.mp h
  length_le s := by
    by_cases h : Unmarked s
    · rw [(Utf8.stripBom_eq_self_iff s).mpr h]
    · obtain ⟨cs, hcs⟩ := (Utf8.bom_isPrefix_encode_iff s).mp (not_not.mp h)
      have hstrip : (Utf8.stripBom s).toList = cs := by simp [Utf8.stripBom, hcs]
      rw [Utf8.encode, Utf8.encode, hstrip, hcs, Utf8.encodeChars_cons, List.length_append]
      omega

/-- The octets before a rest are taken off it. -/
theorem take_append (a r : Bytes) : take a.length (a ++ r) = .ok (a, r) := by
  rw [take, require_bind_of_pos (by simp)]
  simp
  rfl

/-- What `take` returns is how its input starts. -/
theorem take_eq_ok_iff {n : ℕ} {b a r : Bytes} :
    take n b = .ok (a, r) ↔ a.length = n ∧ b = a ++ r := by
  constructor
  · intro h
    rw [take, require_bind_eq_ok_iff] at h
    obtain ⟨hle, h⟩ := h
    obtain ⟨rfl, rfl⟩ := Prod.mk.inj (Except.ok.inj h)
    exact ⟨by simpa using hle, (List.take_append_drop n b).symm⟩
  · rintro ⟨rfl, rfl⟩
    exact take_append a r

/-- The fields of an initial octet. -/
theorem initial_fields {major info : ℕ} (hmajor : major < 8) (hinfo : info < 32) :
    (initial major info).toNat / 32 = major ∧ (initial major info).toNat % 32 = info := by
  rw [initial, UInt8.toNat_ofNat']
  omega

/-- An initial octet is determined by its fields. -/
theorem initial_of_fields (first : UInt8) :
    initial (first.toNat / 32) (first.toNat % 32) = first := by
  rw [initial, Nat.div_add_mod, UInt8.ofNat_toNat]

theorem Width.info_lt {w : Width} {n : ℕ} (hn : n < w.bound) : w.info n < 28 := by
  cases w <;> simp only [Width.info, Width.bound] at * <;> omega

/-- The argument of a head is read back. -/
theorem word_beWord {w : Width} {n : ℕ} (hn : n < w.bound) (r : Bytes) :
    word (w.info n) (Bytes.beWord w.size n ++ r) = .ok (n, r) := by
  have htake : ∀ k, n < 256 ^ k → (take k (Bytes.beWord k n ++ r) >>= fun p =>
      (pure (Bytes.beValue p.1, p.2) : Except Failure (ℕ × Bytes))) = .ok (n, r) := by
    intro k hk
    have h := take_append (Bytes.beWord k n) r
    rw [Bytes.length_beWord] at h
    rw [h, ok_bind, Bytes.beValue_beWord_of_lt hk]
    rfl
  cases w with
  | direct => exact if_pos hn
  | one => exact htake 1 hn
  | two => exact htake 2 hn
  | four => exact htake 4 hn
  | eight => exact htake 8 hn

/-- What `word` reads is the argument of a head. -/
theorem word_sound {info n : ℕ} {b r : Bytes} (h : word info b = .ok (n, r)) :
    ∃ w : Width, n < w.bound ∧ info = w.info n ∧ b = Bytes.beWord w.size n ++ r := by
  have htake : ∀ k, (take k b >>= fun p =>
      (pure (Bytes.beValue p.1, p.2) : Except Failure (ℕ × Bytes))) = .ok (n, r) →
        n < 256 ^ k ∧ b = Bytes.beWord k n ++ r := by
    intro k hk
    obtain ⟨⟨a, r'⟩, htake, hpure⟩ := bind_eq_ok_iff.mp hk
    obtain ⟨rfl, rfl⟩ := take_eq_ok_iff.mp htake
    obtain ⟨rfl, rfl⟩ := Prod.mk.inj (Except.ok.inj hpure)
    exact ⟨Bytes.beValue_lt a, by rw [Bytes.beWord_beValue]⟩
  unfold word at h
  split_ifs at h with h0 h1 h2 h3 h4
  · obtain ⟨rfl, rfl⟩ := Prod.mk.inj (Except.ok.inj h)
    exact ⟨.direct, h0, rfl, rfl⟩
  · exact ⟨.one, (htake 1 h).1, h1, (htake 1 h).2⟩
  · exact ⟨.two, (htake 2 h).1, h2, (htake 2 h).2⟩
  · exact ⟨.four, (htake 4 h).1, h3, (htake 4 h).2⟩
  · exact ⟨.eight, (htake 8 h).1, h4, (htake 8 h).2⟩

/-- A head whose argument is exact is read. -/
theorem argument_beWord {w : Width} {n : ℕ} (hn : n < w.bound) (hexact : n ≤ 2 ^ 53) (r : Bytes) :
    argument (w.info n) (Bytes.beWord w.size n ++ r) = .ok (n, r) := by
  rw [argument, word_beWord hn, ok_bind]
  simp only
  rw [require_bind_of_pos (Binary64.exactInteger_isSome hexact)]
  rfl

/-- What `argument` reads is the argument of a head. -/
theorem argument_sound {info n : ℕ} {b r : Bytes} (h : argument info b = .ok (n, r)) :
    ∃ w : Width, n < w.bound ∧ info = w.info n ∧ b = Bytes.beWord w.size n ++ r := by
  obtain ⟨⟨n', r'⟩, hword, h⟩ := bind_eq_ok_iff.mp h
  obtain ⟨-, h⟩ := require_bind_eq_ok_iff.mp h
  obtain ⟨rfl, rfl⟩ := Prod.mk.inj (Except.ok.inj h)
  exact word_sound hword

section Complete

variable {text : Bytes → Option String} {f : String → String}
variable {value : Bytes → Except Failure (Json × Bytes)}

/-- The items of an array are read in order. -/
theorem readItems_complete {g : Json → Json} {items : List Json} {b : Bytes}
    (hvalue : ∀ v ∈ items, ∀ c r, Encodes v c → value (c ++ r) = .ok (g v, r))
    (hb : Concat (items.map Encodes) b) (r : Bytes) :
    readItems value items.length (b ++ r) = .ok (items.map g, r) := by
  induction items generalizing b with
  | nil =>
    cases hb
    rfl
  | cons v vs ih =>
    obtain ⟨c, d, hc, hd, rfl⟩ := hb
    rw [List.length_cons, readItems, List.append_assoc, hvalue v List.mem_cons_self c _ hc, ok_bind]
    simp only
    rw [ih (fun w hw => hvalue w (.tail _ hw)) hd]
    rfl

/-- The members of an object are read in order when their rendered keys are new. -/
theorem readProps_complete {g : Json → Json} {props : List (String × Json)} {b : Bytes}
    {keys : List String}
    (hkey : ∀ p ∈ props, ∀ c r, TextEncoding p.1 c → value (c ++ r) = .ok (.str (f p.1), r))
    (hvalue : ∀ p ∈ props, ∀ c r, Encodes p.2 c → value (c ++ r) = .ok (g p.2, r))
    (hnodup : (props.map fun p => f p.1).Nodup) (hseen : ∀ p ∈ props, f p.1 ∉ keys)
    (hb : Concat (props.map fun p => Pair p.1 (Encodes p.2)) b) (r : Bytes) :
    readProps value props.length keys (b ++ r) =
      .ok (props.map fun p => (f p.1, g p.2), r) := by
  induction props generalizing b keys with
  | nil =>
    cases hb
    rfl
  | cons p ps ih =>
    obtain ⟨_, d, ⟨kb, vb, hkb, hvb, rfl⟩, hd, rfl⟩ := hb
    rw [List.map_cons, List.nodup_cons] at hnodup
    have hrest : ∀ q ∈ ps, f q.1 ∉ f p.1 :: keys := by
      intro q hq
      rw [List.mem_cons, not_or]
      exact ⟨fun heq => hnodup.1 (heq ▸ List.mem_map_of_mem (f := fun p => f p.1) hq),
        hseen q (.tail _ hq)⟩
    rw [List.length_cons, readProps, List.append_assoc, List.append_assoc,
      hkey p List.mem_cons_self kb _ hkb, ok_bind]
    simp only
    rw [require_bind_of_pos (hseen p List.mem_cons_self), hvalue p List.mem_cons_self vb _ hvb,
      ok_bind]
    simp only
    rw [ih (fun q hq => hkey q (.tail _ hq)) (fun q hq => hvalue q (.tail _ hq)) hnodup.2 hrest hd]
    rfl

/-- An exact integer is returned with what follows its argument. -/
theorem readInteger_eq {major info n : ℕ} {b r : Bytes} {x : Binary64}
    (hword : word info b = .ok (n, r))
    (hx : Binary64.exactInteger (if major = 0 then (n : ℤ) else -1 - n) = some x) :
    readInteger major info b = .ok (.num x, r) := by
  rw [readInteger, hword, ok_bind]
  simp only
  rw [hx]
  rfl

/-- The float formats are told apart by their additional information. -/
theorem find_floatFormats {ff : FloatFormat} (h : ff ∈ floatFormats) :
    floatFormats.find? (·.info = ff.info) = some ff ∧ 25 ≤ ff.info ∧ ff.info ≤ 27 := by
  simp only [floatFormats, List.mem_cons, List.not_mem_nil, or_false] at h
  rcases h with rfl | rfl | rfl
  · exact ⟨rfl, by decide, by decide⟩
  · exact ⟨rfl, by decide, by decide⟩
  · exact ⟨rfl, by decide, by decide⟩

/-- The additional information of a float format tells its size. -/
theorem pow_floatFormats {ff : FloatFormat} (h : ff ∈ floatFormats) :
    2 ^ (ff.info - 24) = ff.size := by
  simp only [floatFormats, List.mem_cons, List.not_mem_nil, or_false] at h
  rcases h with rfl | rfl | rfl <;> rfl

/-- A float is read from its word. -/
theorem readSimple_float {ff : FloatFormat} {word : ℕ} {x : Binary64} (hff : ff ∈ floatFormats)
    (hword : word < 256 ^ ff.size) (hx : ff.format.decode word = some x) (r : Bytes) :
    readSimple ff.info (Bytes.beWord ff.size word ++ r) = .ok (.num x, r) := by
  obtain ⟨hfind, hlo, hhi⟩ := find_floatFormats hff
  have htake := take_append (Bytes.beWord ff.size word) r
  rw [Bytes.length_beWord] at htake
  rw [readSimple, if_neg (by omega), if_neg (by omega), if_neg (by omega), hfind, orFail, ok_bind,
    htake, ok_bind]
  simp only
  rw [Bytes.beValue_beWord_of_lt hword, hx]
  rfl

/-- A number is read from each of its encodings. -/
theorem readValue_number {x : Binary64} {b : Bytes} (h : NumberEncoding x b) (levels : ℕ)
    (r : Bytes) : readValue text (levels + 1) (b ++ r) = .ok (.num x, r) := by
  cases h with
  | unsigned n _ hx hhead =>
    obtain ⟨w, hn, rfl⟩ := hhead
    have hlt := Width.info_lt hn
    obtain ⟨hmajor, hinfo⟩ := initial_fields (show 0 < 8 by omega) (show w.info n < 32 by omega)
    rw [head, List.cons_append, readValue]
    simp only [hmajor, hinfo, true_or, if_true]
    exact readInteger_eq (word_beWord hn r) hx
  | negative n _ hx hhead =>
    obtain ⟨w, hn, rfl⟩ := hhead
    have hlt := Width.info_lt hn
    obtain ⟨hmajor, hinfo⟩ := initial_fields (show 1 < 8 by omega) (show w.info n < 32 by omega)
    rw [head, List.cons_append, readValue]
    simp only [hmajor, hinfo, or_true, if_true]
    exact readInteger_eq (word_beWord hn r) hx
  | float ff word hff hword hx =>
    obtain ⟨-, hlo, hhi⟩ := find_floatFormats hff
    obtain ⟨hmajor, hinfo⟩ := initial_fields (show 7 < 8 by omega) (show ff.info < 32 by omega)
    rw [List.cons_append, readValue]
    simp only [hmajor, hinfo]
    exact readSimple_float hff hword hx r

/-- A text is read as its rendering. -/
theorem readValue_text (ht : Renders text f) {s : String} {b : Bytes} (h : TextEncoding s b)
    (hs : (Utf8.encode s).length ≤ maxStringBytes) (levels : ℕ) (r : Bytes) :
    readValue text (levels + 1) (b ++ r) = .ok (.str (f s), r) := by
  obtain ⟨_, ⟨w, hn, rfl⟩, rfl⟩ := h
  have hlt := Width.info_lt hn
  have hs : (Utf8.encode s).length ≤ 1024 * 1024 := hs
  have hscalar : scalarString (f s) maxStringBytes true = true := by
    have hle := ht.length_le s
    simp only [scalarString, Bool.true_or, Bool.true_and, decide_eq_true_eq]
    exact hle.trans hs
  obtain ⟨hmajor, hinfo⟩ := initial_fields (show 3 < 8 by omega)
    (show w.info (Utf8.encode s).length < 32 by omega)
  rw [head, List.cons_append, List.cons_append, readValue]
  simp only [hmajor, hinfo]
  rw [if_neg (by decide), if_pos (by decide), List.append_assoc, readText,
    argument_beWord hn (by omega), ok_bind]
  simp only
  rw [require_bind_of_pos hs, take_append, ok_bind]
  simp only
  rw [require_bind_of_pos (by decide), ht.reads, orFail, ok_bind, require_bind_of_pos hscalar]
  rfl

/-- Every encoding of a value within the bounds is read when its rendered keys are
distinct. -/
theorem readValue_complete (ht : Renders text f) {levels : ℕ} {d : Json} {b : Bytes}
    (hwithin : d.Within levels) (hkeys : (d.retext f).DistinctKeys) (hb : Encodes d b)
    (r : Bytes) : readValue text levels (b ++ r) = .ok ((d.retext f).enumerated, r) := by
  induction levels generalizing d b r with
  | zero => exact absurd hwithin id
  | succ levels ih =>
    cases d with
    | null =>
      cases hb
      rfl
    | bool v =>
      cases hb
      cases v <;> rfl
    | num x => exact readValue_number hb levels r
    | str t => exact readValue_text ht hb hwithin levels r
    | arr items =>
      obtain ⟨hlen, hitems⟩ := hwithin
      obtain ⟨_, body, ⟨w, hn, rfl⟩, hbody, rfl⟩ := (encodes_arr _ _).mp hb
      rw [Value.retext_arr, Value.distinctKeys_arr, List.forall_mem_map] at hkeys
      have hlt := Width.info_lt hn
      obtain ⟨hmajor, hinfo⟩ := initial_fields (show 4 < 8 by omega)
        (show w.info items.length < 32 by omega)
      have hread := readItems_complete (g := fun v => (v.retext f).enumerated)
        (fun v hv c r hc => ih (hitems v hv) (hkeys v hv) hc r) hbody r
      rw [head, List.cons_append, List.cons_append, readValue]
      simp only [hmajor, hinfo]
      rw [if_neg (by decide), if_neg (by decide), if_pos trivial, List.append_assoc,
        argument_beWord hn (by omega), ok_bind]
      simp only
      rw [require_bind_of_pos hlen, hread, ok_bind, Value.retext_arr, Value.enumerated_arr,
        List.map_map]
      rfl
    | obj props =>
      obtain ⟨hlen, hprops⟩ := hwithin
      obtain ⟨_, body, ⟨w, hn, rfl⟩, hbody, rfl⟩ := (encodes_obj _ _).mp hb
      rw [Value.retext_obj, Value.distinctKeys_obj, List.map_map, List.forall_mem_map] at hkeys
      have hlt := Width.info_lt hn
      obtain ⟨hmajor, hinfo⟩ := initial_fields (show 5 < 8 by omega)
        (show w.info props.length < 32 by omega)
      have hkey : ∀ p ∈ props, ∀ c r, TextEncoding p.1 c →
          readValue text levels (c ++ r) = .ok (.str (f p.1), r) := by
        intro p hp c r hc
        have hvalue := (hprops p hp).2
        cases levels with
        | zero => exact absurd hvalue id
        | succ levels => exact readValue_text ht hc (hprops p hp).1 levels r
      have hread := readProps_complete (g := fun v => (v.retext f).enumerated) hkey
        (fun p hp c r hc => ih (hprops p hp).2 (hkeys.2 p hp) hc r) hkeys.1
        (fun _ _ => List.not_mem_nil) hbody r
      rw [head, List.cons_append, List.cons_append, readValue]
      simp only [hmajor, hinfo]
      rw [if_neg (by decide), if_neg (by decide), if_neg (by decide), if_pos trivial,
        List.append_assoc, argument_beWord hn (by omega), ok_bind]
      simp only
      rw [require_bind_of_pos hlen, hread, ok_bind, Value.retext_obj, Value.enumerated_obj,
        List.map_map]
      rfl

end Complete

section Sound

variable {text : Bytes → Option String} {f : String → String} {levels : ℕ}
variable {value : Bytes → Except Failure (Json × Bytes)}

/-- Reading `b` as `v` up to the rest `r` consumed the encoding `c` of `d`. -/
structure Consumed (f : String → String) (levels : ℕ) (b : Bytes) (v : Json) (r : Bytes)
    (d : Json) (c : Bytes) : Prop where
  split : b = c ++ r
  encodes : Encodes d c
  within : d.Within levels
  distinct : (d.retext f).DistinctKeys
  value : v = (d.retext f).enumerated

/-- Every successful read of `value` consumes an encoding. -/
def Consumes (f : String → String) (levels : ℕ)
    (value : Bytes → Except Failure (Json × Bytes)) : Prop :=
  ∀ b v r, value b = .ok (v, r) → ∃ d c, Consumed f levels b v r d c

/-- A value that is read as a text is a text. -/
theorem Consumed.of_str {b r c : Bytes} {d : Json} {key : String}
    (h : Consumed f levels b (.str key) r d c) :
    ∃ s, TextEncoding s c ∧ (Utf8.encode s).length ≤ maxStringBytes ∧ f s = key := by
  obtain ⟨-, hencodes, hwithin, -, hvalue⟩ := h
  cases levels with
  | zero => exact absurd hwithin id
  | succ levels =>
    cases d with
    | str s => exact ⟨s, hencodes, hwithin, (Value.str.inj hvalue).symm⟩
    | null => cases hvalue
    | bool v => cases hvalue
    | num x => cases hvalue
    | arr items =>
      rw [Value.retext_arr, Value.enumerated_arr] at hvalue
      cases hvalue
    | obj props =>
      rw [Value.retext_obj, Value.enumerated_obj] at hvalue
      cases hvalue

/-- The items read are the items of a concatenation. -/
theorem readItems_sound (hvalue : Consumes f levels value) {n : ℕ} {b r : Bytes}
    {vs : List Json} (h : readItems value n b = .ok (vs, r)) :
    ∃ (ds : List Json) (c : Bytes), ds.length = n ∧ b = c ++ r ∧ Concat (ds.map Encodes) c ∧
      (∀ d ∈ ds, d.Within levels ∧ (d.retext f).DistinctKeys) ∧
      vs = ds.map fun d => (d.retext f).enumerated := by
  induction n generalizing b vs with
  | zero =>
    obtain ⟨rfl, rfl⟩ := Prod.mk.inj (Except.ok.inj h)
    exact ⟨[], [], rfl, rfl, rfl, by simp, rfl⟩
  | succ n ih =>
    obtain ⟨⟨v, b₁⟩, hhead, h⟩ := bind_eq_ok_iff.mp h
    obtain ⟨⟨ws, b₂⟩, htail, h⟩ := bind_eq_ok_iff.mp h
    obtain ⟨rfl, rfl⟩ := Prod.mk.inj (Except.ok.inj h)
    obtain ⟨d, c, rfl, hd, hwithin, hkeys, rfl⟩ := hvalue _ _ _ hhead
    obtain ⟨ds, e, rfl, rfl, hds, hall, rfl⟩ := ih htail
    exact ⟨d :: ds, c ++ e, rfl, (List.append_assoc _ _ _).symm, ⟨c, e, hd, hds, rfl⟩,
      List.forall_mem_cons.mpr ⟨⟨hwithin, hkeys⟩, hall⟩, rfl⟩

/-- The members read are the pairs of a concatenation, and their rendered keys are
new. -/
theorem readProps_sound (hvalue : Consumes f levels value) {n : ℕ} {keys : List String}
    {b r : Bytes} {ps : List (String × Json)} (h : readProps value n keys b = .ok (ps, r)) :
    ∃ (ds : List (String × Json)) (c : Bytes), ds.length = n ∧ b = c ++ r ∧
      Concat (ds.map fun p => Pair p.1 (Encodes p.2)) c ∧
      (∀ p ∈ ds, (Utf8.encode p.1).length ≤ maxStringBytes ∧ p.2.Within levels) ∧
      (∀ p ∈ ds, (p.2.retext f).DistinctKeys) ∧
      (ds.map fun p => f p.1).Nodup ∧ (∀ p ∈ ds, f p.1 ∉ keys) ∧
      ps = ds.map fun p => (f p.1, (p.2.retext f).enumerated) := by
  induction n generalizing b keys ps with
  | zero =>
    obtain ⟨rfl, rfl⟩ := Prod.mk.inj (Except.ok.inj h)
    exact ⟨[], [], rfl, rfl, rfl, by simp, by simp, by simp, by simp, rfl⟩
  | succ n ih =>
    obtain ⟨⟨k, b₁⟩, hk, h⟩ := bind_eq_ok_iff.mp h
    cases k with
    | str key =>
      obtain ⟨hnew, h⟩ := require_bind_eq_ok_iff.mp h
      obtain ⟨⟨v, b₂⟩, hhead, h⟩ := bind_eq_ok_iff.mp h
      obtain ⟨⟨qs, b₃⟩, htail, h⟩ := bind_eq_ok_iff.mp h
      obtain ⟨rfl, rfl⟩ := Prod.mk.inj (Except.ok.inj h)
      obtain ⟨_, kc, hkey⟩ := hvalue _ _ _ hk
      obtain ⟨s, hs, hslen, rfl⟩ := hkey.of_str
      obtain ⟨d, c, rfl, hd, hwithin, hkeys, rfl⟩ := hvalue _ _ _ hhead
      obtain ⟨ds, e, rfl, rfl, hds, hall, hdistinct, hnodup, hseen, rfl⟩ := ih htail
      refine ⟨(s, d) :: ds, (kc ++ c) ++ e, rfl, ?_, ⟨kc ++ c, e, ⟨kc, c, hs, hd, rfl⟩, hds, rfl⟩,
        List.forall_mem_cons.mpr ⟨⟨hslen, hwithin⟩, hall⟩,
        List.forall_mem_cons.mpr ⟨hkeys, hdistinct⟩, ?_, ?_, rfl⟩
      · rw [hkey.split, List.append_assoc, List.append_assoc]
      · rw [List.map_cons, List.nodup_cons]
        refine ⟨fun hmem => ?_, hnodup⟩
        obtain ⟨q, hq, heq⟩ := List.mem_map.mp hmem
        exact hseen q hq (heq ▸ List.mem_cons_self)
      · exact List.forall_mem_cons.mpr
          ⟨hnew, fun q hq hmem => hseen q hq (List.mem_cons_of_mem _ hmem)⟩
    | null => cases h
    | bool v => cases h
    | num x => cases h
    | arr items => cases h
    | obj props => cases h

/-- An initial octet whose fields are `major` and the information of a width. -/
theorem head_of_fields {first : UInt8} {major n : ℕ} {w : Width} (hmajor : first.toNat / 32 = major)
    (hinfo : first.toNat % 32 = w.info n) (b r : Bytes) (hb : b = Bytes.beWord w.size n ++ r) :
    first :: b = head major w n ++ r := by
  rw [hb, head, List.cons_append, ← initial_of_fields first, hmajor, hinfo]

/-- The integer read is encoded as an integer. -/
theorem readInteger_sound {first : UInt8} {b r : Bytes} {v : Json}
    (hmajor : first.toNat / 32 = 0 ∨ first.toNat / 32 = 1)
    (h : readInteger (first.toNat / 32) (first.toNat % 32) b = .ok (v, r)) :
    ∃ x c, first :: b = c ++ r ∧ NumberEncoding x c ∧ v = .num x := by
  obtain ⟨⟨n, b₁⟩, hword, h⟩ := bind_eq_ok_iff.mp h
  obtain ⟨x, hx, h⟩ := bind_eq_ok_iff.mp h
  obtain ⟨rfl, rfl⟩ := Prod.mk.inj (Except.ok.inj h)
  obtain ⟨w, hn, hinfo, hb⟩ := word_sound hword
  rw [orFail_eq_ok_iff] at hx
  rcases hmajor with hmajor | hmajor
  · rw [hmajor, if_pos rfl] at hx
    exact ⟨x, _, head_of_fields hmajor hinfo _ _ hb, .unsigned n _ hx ⟨w, hn, rfl⟩, rfl⟩
  · rw [hmajor, if_neg one_ne_zero] at hx
    exact ⟨x, _, head_of_fields hmajor hinfo _ _ hb, .negative n _ hx ⟨w, hn, rfl⟩, rfl⟩

/-- The text read is the rendering of an encoded text. -/
theorem readText_sound (ht : Renders text f) {first : UInt8} {b r : Bytes} {v : Json}
    (hmajor : first.toNat / 32 = 2 ∨ first.toNat / 32 = 3)
    (h : readText text (first.toNat / 32) (first.toNat % 32) b = .ok (v, r)) :
    ∃ s c, first :: b = c ++ r ∧ TextEncoding s c ∧
      (Utf8.encode s).length ≤ maxStringBytes ∧ v = .str (f s) := by
  obtain ⟨⟨n, b₁⟩, hargument, h⟩ := bind_eq_ok_iff.mp h
  obtain ⟨hlen, h⟩ := require_bind_eq_ok_iff.mp h
  obtain ⟨⟨data, b₂⟩, htake, h⟩ := bind_eq_ok_iff.mp h
  obtain ⟨hthree, h⟩ := require_bind_eq_ok_iff.mp h
  obtain ⟨t, htext, h⟩ := bind_eq_ok_iff.mp h
  obtain ⟨-, h⟩ := require_bind_eq_ok_iff.mp h
  obtain ⟨rfl, rfl⟩ := Prod.mk.inj (Except.ok.inj h)
  obtain ⟨w, hn, hinfo, hb⟩ := argument_sound hargument
  obtain ⟨rfl, rfl⟩ := take_eq_ok_iff.mp htake
  obtain ⟨s, rfl, rfl⟩ := ht.inverse (orFail_eq_ok_iff.mp htext)
  refine ⟨s, head 3 w (Utf8.encode s).length ++ Utf8.encode s, ?_, ⟨_, ⟨w, hn, rfl⟩, rfl⟩, hlen, rfl⟩
  rw [List.append_assoc]
  exact head_of_fields (hmajor.resolve_left hthree) hinfo _ _ hb

/-- What major type 7 reads is a simple value or a float. -/
theorem readSimple_sound {first : UInt8} {b r : Bytes} {v : Json}
    (hmajor : first.toNat / 32 = 7) (h : readSimple (first.toNat % 32) b = .ok (v, r)) :
    ∃ c, first :: b = c ++ r ∧ Encodes v c ∧ (v = .null ∨ (∃ x, v = .bool x) ∨ ∃ x, v = .num x) := by
  have hfirst : ∀ info, first.toNat % 32 = info → first = initial 7 info := by
    intro info hinfo
    rw [← initial_of_fields first, hmajor, hinfo]
  unfold readSimple at h
  split_ifs at h with hfalse htrue hnull
  · obtain ⟨rfl, rfl⟩ := Prod.mk.inj (Except.ok.inj h)
    exact ⟨[initial 7 20], by rw [hfirst 20 hfalse]; rfl, rfl, .inr (.inl ⟨_, rfl⟩)⟩
  · obtain ⟨rfl, rfl⟩ := Prod.mk.inj (Except.ok.inj h)
    exact ⟨[initial 7 21], by rw [hfirst 21 htrue]; rfl, rfl, .inr (.inl ⟨_, rfl⟩)⟩
  · obtain ⟨rfl, rfl⟩ := Prod.mk.inj (Except.ok.inj h)
    exact ⟨[initial 7 22], by rw [hfirst 22 hnull]; rfl, rfl, .inl rfl⟩
  · obtain ⟨ff, hff, h⟩ := bind_eq_ok_iff.mp h
    obtain ⟨⟨w, b₁⟩, htake, h⟩ := bind_eq_ok_iff.mp h
    obtain ⟨x, hx, h⟩ := bind_eq_ok_iff.mp h
    obtain ⟨rfl, rfl⟩ := Prod.mk.inj (Except.ok.inj h)
    rw [orFail_eq_ok_iff] at hff hx
    obtain ⟨hlen, rfl⟩ := take_eq_ok_iff.mp htake
    have hinfo : ff.info = first.toNat % 32 := by simpa using List.find?_some hff
    have hencoding : NumberEncoding x (initial 7 ff.info :: Bytes.beWord ff.size (Bytes.beValue w)) :=
      .float ff _ (List.mem_of_find?_eq_some hff) (hlen ▸ Bytes.beValue_lt w) hx
    refine ⟨_, ?_, hencoding, .inr (.inr ⟨x, rfl⟩)⟩
    rw [hfirst ff.info hinfo.symm, ← hlen, Bytes.beWord_beValue, List.cons_append]

/-- Every successful walk consumes an encoding of a value within the bounds whose
rendered keys are distinct. -/
theorem readValue_sound (ht : Renders text f) : Consumes f levels (readValue text levels) := by
  induction levels with
  | zero => exact fun b v r h => nomatch h
  | succ levels ih =>
    intro b v r h
    match b, h with
    | first :: b, h =>
      rw [readValue] at h
      simp only at h
      split_ifs at h with hinteger htext harray hobject hsimple
      · obtain ⟨x, c, hc, hx, rfl⟩ := readInteger_sound hinteger h
        exact ⟨.num x, c, hc, hx, trivial, trivial, rfl⟩
      · obtain ⟨s, c, hc, hs, hlen, rfl⟩ := readText_sound ht htext h
        exact ⟨.str s, c, hc, hs, hlen, trivial, rfl⟩
      · obtain ⟨⟨n, b₁⟩, hargument, h⟩ := bind_eq_ok_iff.mp h
        obtain ⟨hlen, h⟩ := require_bind_eq_ok_iff.mp h
        obtain ⟨⟨items, b₂⟩, hitems, h⟩ := bind_eq_ok_iff.mp h
        obtain ⟨rfl, rfl⟩ := Prod.mk.inj (Except.ok.inj h)
        obtain ⟨w, hn, hinfo, hb⟩ := argument_sound hargument
        obtain ⟨ds, body, rfl, rfl, hbody, hall, rfl⟩ := readItems_sound ih hitems
        refine ⟨.arr ds, head 4 w ds.length ++ body, ?_,
          (encodes_arr _ _).mpr ⟨_, body, ⟨w, hn, rfl⟩, hbody, rfl⟩,
          ⟨hlen, fun d hd => (hall d hd).1⟩, ?_, ?_⟩
        · rw [List.append_assoc]
          exact head_of_fields harray hinfo _ _ hb
        · rw [Value.retext_arr, Value.distinctKeys_arr, List.forall_mem_map]
          exact fun d hd => (hall d hd).2
        · rw [Value.retext_arr, Value.enumerated_arr, List.map_map]
          rfl
      · obtain ⟨⟨n, b₁⟩, hargument, h⟩ := bind_eq_ok_iff.mp h
        obtain ⟨hlen, h⟩ := require_bind_eq_ok_iff.mp h
        obtain ⟨⟨props, b₂⟩, hprops, h⟩ := bind_eq_ok_iff.mp h
        obtain ⟨rfl, rfl⟩ := Prod.mk.inj (Except.ok.inj h)
        obtain ⟨w, hn, hinfo, hb⟩ := argument_sound hargument
        obtain ⟨ds, body, rfl, rfl, hbody, hall, hdistinct, hnodup, -, rfl⟩ :=
          readProps_sound ih hprops
        refine ⟨.obj ds, head 5 w ds.length ++ body, ?_,
          (encodes_obj _ _).mpr ⟨_, body, ⟨w, hn, rfl⟩, hbody, rfl⟩, ⟨hlen, hall⟩, ?_, ?_⟩
        · rw [List.append_assoc]
          exact head_of_fields hobject hinfo _ _ hb
        · rw [Value.retext_obj, Value.distinctKeys_obj, List.map_map, List.forall_mem_map]
          exact ⟨hnodup, hdistinct⟩
        · rw [Value.retext_obj, Value.enumerated_obj, List.map_map]
          rfl
      · obtain ⟨c, hc, hv, hcase⟩ := readSimple_sound hsimple h
        rcases hcase with rfl | ⟨x, rfl⟩ | ⟨x, rfl⟩
        · exact ⟨.null, c, hc, hv, trivial, trivial, rfl⟩
        · exact ⟨.bool x, c, hc, hv, trivial, trivial, rfl⟩
        · exact ⟨.num x, c, hc, hv, trivial, trivial, rfl⟩

end Sound

end Kdna.Cbor

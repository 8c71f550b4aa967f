import Kdna.Contract.Strings
import Kdna.Json.ParseExact

/-!
# What the execution-contract reader accepts

The reader reads exactly the code units of the JSON texts of documents without duplicate keys that
nest no deeper than the limit. It returns the document in memory.
-/

namespace Kdna

namespace Value

variable {ν τ : Type}

/-- How deep arrays and objects nest. -/
def depth : Value ν τ → ℕ :=
  fold { null := 0, bool := fun _ => 0, num := fun _ => 0, str := fun _ => 0
         arr := fun depths => depths.foldr max 0 + 1
         obj := fun props => (props.map Prod.snd).foldr max 0 + 1 }

/-- A maximum is within a bound when everything it is taken over is. -/
theorem foldr_max_le {ns : List ℕ} {n : ℕ} : ns.foldr max 0 ≤ n ↔ ∀ m ∈ ns, m ≤ n := by
  induction ns with
  | nil => simp
  | cons m ns ih => rw [List.foldr_cons, max_le_iff, ih, List.forall_mem_cons]

theorem depth_arr_le {items : List (Value ν τ)} {n : ℕ} :
    depth (.arr items) ≤ n + 1 ↔ ∀ v ∈ items, depth v ≤ n := by
  rw [depth, fold_arr, Nat.add_le_add_iff_right, foldr_max_le]
  exact List.forall_mem_map

theorem depth_obj_le {props : List (String × Value ν τ)} {n : ℕ} :
    depth (.obj props) ≤ n + 1 ↔ ∀ p ∈ props, depth p.2 ≤ n := by
  rw [depth, fold_obj, Nat.add_le_add_iff_right, foldr_max_le, List.map_map]
  exact List.forall_mem_map

end Value

namespace Contract

section Whitespace

/-- The text starts with no whitespace. -/
def NoBlank (us : List ℕ) : Prop := ∀ u, us.head? = some u → isBlank u = false

theorem noBlank_cons {u : ℕ} (hu : isBlank u = false) (us : List ℕ) : NoBlank (u :: us) := by
  intro v hv
  obtain rfl := Option.some.inj hv
  exact hu

/-- A text that starts with no whitespace has code units that do not either. -/
theorem noBlank_encode {e : Char} (he : isSpace e = false) (t : List Char) (us : List ℕ) :
    NoBlank (Utf16.encode (e :: t) ++ us) := by
  rw [Utf16.encode_cons]
  obtain ⟨-, hc, -⟩ | ⟨high, low, hc, hhigh, -⟩ := units_cases e <;> rw [hc]
  · exact noBlank_cons (isBlank_toNat.trans he) _
  · refine noBlank_cons ?_ _
    simp only [Utf16.isHigh, Bool.and_eq_true, decide_eq_true_eq] at hhigh
    simp only [isBlank, Bool.or_eq_false_iff, beq_eq_false_iff_ne]
    omega

/-- Behind whitespace and a mark no number goes on. -/
theorem ends_mark {s : List Char} (hs : Space s) {u : ℕ}
    (hu : continuesNumber (Char.ofNat u) = false) (r : List ℕ) :
    Ends ((Utf16.encode s ++ u :: r).map Char.ofNat) := by
  rw [List.map_append, map_ofNat_encode (ascii_of_space hs)]
  exact ends_append hs (ends_cons hu _)

theorem parseWith_skipWhitespace (object array : List ℕ → Except Rejected (Json × List ℕ))
    (us : List ℕ) : parseWith object array (skipWhitespace us) = parseWith object array us := by
  rw [parseWith, parseWith, skipWhitespace_skipWhitespace]

theorem parseValue_skipWhitespace (levels : ℕ) (us : List ℕ) :
    parseValue levels (skipWhitespace us) = parseValue levels us := by
  cases levels <;> exact parseWith_skipWhitespace _ _ us

theorem parseItems_skipWhitespace (levels rounds : ℕ) (us : List ℕ) :
    parseItems (parseValue levels) rounds (skipWhitespace us) =
      parseItems (parseValue levels) rounds us := by
  cases rounds with
  | zero => rfl
  | succ rounds => rw [parseItems, parseItems, parseValue_skipWhitespace]

end Whitespace

section Sound

variable {levels : ℕ} {value : List ℕ → Except Rejected (Json × List ℕ)}

/-- A successful read of `us` up to `r` passed over the text `c` of the document `d`. -/
structure Parsed (levels : ℕ) (us : List ℕ) (v : Json) (r : List ℕ) (d : Json) (c : List Char) :
    Prop where
  split : us = Utf16.encode c ++ r
  text : Spaced (JsonText d) c
  depth : d.depth ≤ levels
  distinct : d.DistinctKeys
  value : v = d.enumerated

/-- Every successful read of `value` passed over a text. -/
def Parses (levels : ℕ) (value : List ℕ → Except Rejected (Json × List ℕ)) : Prop :=
  ∀ us v r, Short us → value us = .ok (v, r) → ∃ d c, Parsed levels us v r d c

/-- Whitespace around a text may be extended. -/
theorem spaced_extend {p : List Char → Prop} {a b c : List Char} (ha : Space a) (hb : Spaced p b)
    (hc : Space c) : Spaced p (a ++ (b ++ c)) := by
  obtain ⟨a', b', c', ha', hb', hc', rfl⟩ := hb
  refine ⟨a ++ a', b', c' ++ c, ?_, hb', ?_, by simp only [List.append_assoc]⟩
  · exact fun e he => (List.mem_append.mp he).elim (ha e) (ha' e)
  · exact fun e he => (List.mem_append.mp he).elim (hc' e) (hc e)

/-- Whitespace before a list may be extended. -/
theorem commaList_extend {ps : List (List Char → Prop)} {a body : List Char} (ha : Space a)
    (hbody : CommaList ps body) : CommaList ps (a ++ body) := by
  match ps, hbody with
  | [], hbody => exact fun e he => (List.mem_append.mp he).elim (ha e) (hbody e)
  | [p], hbody =>
    have h := spaced_extend ha hbody (c := []) (List.forall_mem_nil _)
    rwa [List.append_nil] at h
  | p :: q :: ps, ⟨c, d, hc, hd, hsplit⟩ =>
    have h := spaced_extend ha hc (c := []) (List.forall_mem_nil _)
    rw [List.append_nil] at h
    exact ⟨a ++ c, d, h, hd, by rw [hsplit, List.append_assoc]⟩

/-- The items read are the texts of a list. -/
theorem parseItems_sound (hvalue : Parses levels value) {rounds : ℕ} {us r : List ℕ}
    {vs : List Json} (hus : Short us) (h : parseItems value rounds us = .ok (vs, r)) :
    ∃ (ds : List Json) (body : List Char), ds ≠ [] ∧ CommaList (ds.map JsonText) body ∧
      us = Utf16.encode body ++ ']'.toNat :: r ∧
      (∀ d ∈ ds, d.depth ≤ levels ∧ d.DistinctKeys) ∧ vs = ds.map Value.enumerated := by
  induction rounds generalizing us vs with
  | zero => cases h
  | succ rounds ih =>
    rw [parseItems] at h
    obtain ⟨⟨v, us₁⟩, hv, h⟩ := bind_eq_ok_iff.mp h
    obtain ⟨d, c, rfl, hc, hdepth, hdistinct, rfl⟩ := hvalue _ _ _ hus hv
    obtain ⟨b, hb, hsplit⟩ := skipWhitespace_split us₁
    have hspaced := spaced_extend (a := []) (List.forall_mem_nil _) hc hb
    rw [List.nil_append] at hspaced
    simp only at h
    cases hrest : skipWhitespace us₁ with
    | nil =>
      rw [hrest] at h
      cases h
    | cons next rest =>
      rw [hrest] at h hsplit
      simp only at h
      split_ifs at h with hend
      · obtain ⟨rfl, rfl⟩ := Prod.mk.inj (Except.ok.inj h)
        exact ⟨[d], c ++ b, List.cons_ne_nil _ _, hspaced,
          by rw [hsplit, hend, encode_append, List.append_assoc],
          List.forall_mem_singleton.mpr ⟨hdepth, hdistinct⟩, rfl⟩
      · obtain ⟨hcomma, h⟩ := require_bind_eq_ok_iff.mp h
        obtain ⟨⟨ws, us₂⟩, hws, h⟩ := bind_eq_ok_iff.mp h
        obtain ⟨rfl, rfl⟩ := Prod.mk.inj (Except.ok.inj h)
        obtain ⟨a, ha, hsplit'⟩ := skipWhitespace_split rest
        have hshort : Short (skipWhitespace rest) := by
          rw [hsplit, hsplit'] at hus
          exact hus.of_append.of_append.tail.of_append
        obtain ⟨ds, body, hne, hbody, hbodysplit, hall, rfl⟩ := ih hshort hws
        refine ⟨d :: ds, (c ++ b) ++ ',' :: (a ++ body), List.cons_ne_nil _ _,
          .cons (by simpa using hne) hspaced (commaList_extend ha hbody), ?_,
          List.forall_mem_cons.mpr ⟨⟨hdepth, hdistinct⟩, hall⟩, rfl⟩
        rw [hsplit, hcomma, hsplit', hbodysplit]
        simp only [encode_append, Utf16.encode_cons, List.append_assoc]
        rfl

/-- The members read are the texts of a list, and their keys are new. -/
theorem parseMembers_sound (hvalue : Parses levels value) {rounds : ℕ} {keys : List String}
    {us r : List ℕ} {vs : List (String × Json)} (hus : Short us)
    (h : parseMembers value rounds keys us = .ok (vs, r)) :
    ∃ (ds : List (String × Json)) (body : List Char), ds ≠ [] ∧
      CommaList (ds.map fun p => Member p.1 (JsonText p.2)) body ∧
      us = Utf16.encode body ++ '}'.toNat :: r ∧
      (∀ p ∈ ds, p.2.depth ≤ levels ∧ p.2.DistinctKeys) ∧ (ds.map Prod.fst).Nodup ∧
      (∀ p ∈ ds, p.1 ∉ keys) ∧ vs = ds.map fun p => (p.1, p.2.enumerated) := by
  induction rounds generalizing us vs keys with
  | zero => cases h
  | succ rounds ih =>
    match us, h with
    | quote :: us, h =>
      rw [parseMembers] at h
      obtain ⟨hquote, h⟩ := require_bind_eq_ok_iff.mp h
      obtain ⟨⟨key, us₁⟩, hkey, h⟩ := bind_eq_ok_iff.mp h
      obtain ⟨hnew, h⟩ := require_bind_eq_ok_iff.mp h
      obtain ⟨k, hk, hkeysplit⟩ := parseString_sound hus.tail hkey
      have hus₁ := (hkeysplit ▸ hus.tail).of_append
      obtain ⟨b, hb, hsplit⟩ := skipWhitespace_split us₁
      simp only at h
      cases hrest : skipWhitespace us₁ with
      | nil =>
        rw [hrest] at h
        cases h
      | cons colon us₂ =>
        rw [hrest] at h hsplit
        obtain ⟨hcolon, h⟩ := require_bind_eq_ok_iff.mp h
        obtain ⟨⟨v, us₃⟩, hv, h⟩ := bind_eq_ok_iff.mp h
        rw [hsplit] at hus₁
        obtain ⟨d, _, hvsplit, ⟨a', t, c', ha', ht, hc', rfl⟩, hdepth, hdistinct, rfl⟩ :=
          hvalue _ _ _ hus₁.of_append.tail hv
        have hus₃ := (hvsplit ▸ hus₁.of_append.tail).of_append
        obtain ⟨e, he, hsplit'⟩ := skipWhitespace_split us₃
        simp only at h
        cases hrest' : skipWhitespace us₃ with
        | nil =>
          rw [hrest'] at h
          cases h
        | cons next rest =>
          rw [hrest'] at h hsplit'
          have hmember : Member key (JsonText d) ('"' :: k ++ (b ++ ':' :: (a' ++ t))) :=
            ⟨'"' :: k, b, a', t, hk, hb, ha', ht, rfl⟩
          have hspaced : Spaced (Member key (JsonText d))
              (('"' :: k ++ (b ++ ':' :: (a' ++ t))) ++ (c' ++ e)) :=
            ⟨[], _, c' ++ e, List.forall_mem_nil _, hmember,
              fun q hq => (List.mem_append.mp hq).elim (hc' q) (he q), rfl⟩
          have htext : quote :: us =
              Utf16.encode (('"' :: k ++ (b ++ ':' :: (a' ++ t))) ++ (c' ++ e)) ++ next :: rest := by
            rw [hquote, hkeysplit, hsplit, hcolon, hvsplit, hsplit']
            simp only [encode_append, Utf16.encode_cons, List.append_assoc, List.cons_append]
            rfl
          rw [htext]
          simp only at h
          split_ifs at h with hend
          · obtain ⟨rfl, rfl⟩ := Prod.mk.inj (Except.ok.inj h)
            exact ⟨[(key, d)], _, List.cons_ne_nil _ _, hspaced, by rw [hend],
              List.forall_mem_singleton.mpr ⟨hdepth, hdistinct⟩, List.nodup_singleton _,
              List.forall_mem_singleton.mpr hnew, rfl⟩
          · obtain ⟨hcomma, h⟩ := require_bind_eq_ok_iff.mp h
            obtain ⟨⟨ws, us₄⟩, hws, h⟩ := bind_eq_ok_iff.mp h
            obtain ⟨rfl, rfl⟩ := Prod.mk.inj (Except.ok.inj h)
            obtain ⟨a, ha, hsplit''⟩ := skipWhitespace_split rest
            have hshort : Short (skipWhitespace rest) := by
              rw [hsplit', hsplit''] at hus₃
              exact hus₃.of_append.tail.of_append
            obtain ⟨ds, body, hne, hbody, hbodysplit, hall, hnodup, hseen, rfl⟩ := ih hshort hws
            refine ⟨(key, d) :: ds, _ ++ ',' :: (a ++ body), List.cons_ne_nil _ _,
              .cons (by simpa using hne) hspaced (commaList_extend ha hbody), ?_,
              List.forall_mem_cons.mpr ⟨⟨hdepth, hdistinct⟩, hall⟩, ?_,
              List.forall_mem_cons.mpr
                ⟨hnew, fun q hq hmem => hseen q hq (List.mem_cons_of_mem _ hmem)⟩, rfl⟩
            · rw [hcomma, hsplit'', hbodysplit]
              simp only [encode_append, Utf16.encode_cons, List.append_assoc]
              rfl
            · rw [List.map_cons, List.nodup_cons]
              refine ⟨fun hmem => ?_, hnodup⟩
              obtain ⟨q, hq, heq⟩ := List.mem_map.mp hmem
              exact hseen q hq (heq ▸ List.mem_cons_self)

/-- What is read behind an opening bracket is a text of an object or an array. -/
def ParsesFrom (levels : ℕ) (mark : Char) (value : List ℕ → Except Rejected (Json × List ℕ)) :
    Prop :=
  ∀ us v r, Short us → value us = .ok (v, r) →
    ∃ d tail, us = Utf16.encode tail ++ r ∧ JsonText d (mark :: tail) ∧ d.depth ≤ levels ∧
      d.DistinctKeys ∧ v = d.enumerated

/-- An array that is read is a text of an array. -/
theorem parseArray_sound (hvalue : Parses levels value) :
    ParsesFrom (levels + 1) '[' (parseArray value) := by
  intro us v r hus h
  rw [parseArray] at h
  obtain ⟨a, ha, hsplit⟩ := skipWhitespace_split us
  cases hrest : skipWhitespace us with
  | nil =>
    rw [hrest] at h
    cases h
  | cons next rest =>
    rw [hrest] at h hsplit
    rw [hsplit] at hus ⊢
    simp only at h
    split_ifs at h with hend
    · obtain ⟨rfl, rfl⟩ := Prod.mk.inj (Except.ok.inj h)
      refine ⟨.arr [], a ++ [']'], ?_, (jsonText_arr _ _).mpr ⟨a, ha, rfl⟩,
        Value.depth_arr_le.mpr (List.forall_mem_nil _), by simp, rfl⟩
      rw [hend, encode_append, List.append_assoc]
      rfl
    · obtain ⟨⟨items, us₁⟩, hitems, h⟩ := bind_eq_ok_iff.mp h
      obtain ⟨rfl, rfl⟩ := Prod.mk.inj (Except.ok.inj h)
      obtain ⟨ds, body, -, hbody, hbodysplit, hall, rfl⟩ :=
        parseItems_sound hvalue hus.of_append hitems
      refine ⟨.arr ds, (a ++ body) ++ [']'], ?_,
        (jsonText_arr _ _).mpr ⟨a ++ body, commaList_extend ha hbody, rfl⟩,
        Value.depth_arr_le.mpr fun d hd => (hall d hd).1,
        (Value.distinctKeys_arr _).mpr fun d hd => (hall d hd).2, (Value.enumerated_arr _).symm⟩
      rw [hbodysplit]
      simp only [encode_append, List.append_assoc]
      rfl

/-- An object that is read is a text of an object. -/
theorem parseObject_sound (hvalue : Parses levels value) :
    ParsesFrom (levels + 1) '{' (parseObject value) := by
  intro us v r hus h
  rw [parseObject] at h
  obtain ⟨a, ha, hsplit⟩ := skipWhitespace_split us
  cases hrest : skipWhitespace us with
  | nil =>
    rw [hrest] at h
    cases h
  | cons next rest =>
    rw [hrest] at h hsplit
    rw [hsplit] at hus ⊢
    simp only at h
    split_ifs at h with hend
    · obtain ⟨rfl, rfl⟩ := Prod.mk.inj (Except.ok.inj h)
      refine ⟨.obj [], a ++ ['}'], ?_, (jsonText_obj _ _).mpr ⟨a, ha, rfl⟩,
        Value.depth_obj_le.mpr (List.forall_mem_nil _), by simp, rfl⟩
      rw [hend, encode_append, List.append_assoc]
      rfl
    · obtain ⟨⟨props, us₁⟩, hprops, h⟩ := bind_eq_ok_iff.mp h
      obtain ⟨rfl, rfl⟩ := Prod.mk.inj (Except.ok.inj h)
      obtain ⟨ds, body, -, hbody, hbodysplit, hall, hnodup, -, rfl⟩ :=
        parseMembers_sound hvalue hus.of_append hprops
      refine ⟨.obj ds, (a ++ body) ++ ['}'], ?_,
        (jsonText_obj _ _).mpr ⟨a ++ body, commaList_extend ha hbody, rfl⟩,
        Value.depth_obj_le.mpr fun p hp => (hall p hp).1,
        (Value.distinctKeys_obj _).mpr ⟨hnodup, fun p hp => (hall p hp).2⟩,
        (Value.enumerated_obj _).symm⟩
      rw [hbodysplit]
      simp only [encode_append, List.append_assoc]
      rfl

/-- A word that is read is the text of a document with no parts. -/
theorem parseWord_sound {us r : List ℕ} {v : Json} (h : parseWord us = .ok (v, r)) :
    ∃ c, us = Utf16.encode c ++ r ∧ JsonText v c ∧ v.depth ≤ levels ∧ v.DistinctKeys ∧
      v = v.enumerated := by
  have hdrop : ∀ {word : List Char} {n : ℕ}, (word.map Char.toNat).isPrefixOf us = true →
      word.length = n → Ascii word → us = Utf16.encode word ++ us.drop n := by
    rintro word _ hprefix rfl hascii
    obtain ⟨t, rfl⟩ := List.isPrefixOf_iff_prefix.mp hprefix
    rw [encode_ascii hascii, List.drop_left' (List.length_map _)]
  unfold parseWord at h
  split_ifs at h with htrue hfalse hnull <;>
    obtain ⟨rfl, rfl⟩ := Prod.mk.inj (Except.ok.inj h)
  · exact ⟨_, hdrop htrue rfl (ascii_of_all rfl), rfl, Nat.zero_le _, trivial, rfl⟩
  · exact ⟨_, hdrop hfalse rfl (ascii_of_all rfl), rfl, Nat.zero_le _, trivial, rfl⟩
  · exact ⟨_, hdrop hnull rfl (ascii_of_all rfl), rfl, Nat.zero_le _, trivial, rfl⟩

/-- A read passes over a text when those of objects and arrays do. -/
theorem parseWith_sound {object array : List ℕ → Except Rejected (Json × List ℕ)}
    (hobject : ParsesFrom levels '{' object) (harray : ParsesFrom levels '[' array) :
    Parses levels (parseWith object array) := by
  intro us v r hus h
  rw [parseWith] at h
  obtain ⟨a, ha, hsplit⟩ := skipWhitespace_split us
  cases hrest : skipWhitespace us with
  | nil =>
    rw [hrest] at h
    cases h
  | cons u rest =>
    rw [hrest] at h hsplit
    rw [hsplit] at hus ⊢
    have hus₁ := hus.of_append
    have hspaced : ∀ {d : Json} {c : List Char}, JsonText d c → Spaced (JsonText d) (a ++ c) :=
      fun hc => ⟨a, _, [], ha, hc, List.forall_mem_nil _, by rw [List.append_nil]⟩
    simp only at h
    split_ifs at h with hbrace hbracket hquote hnumber
    · obtain ⟨d, tail, rfl, htext, hdepth, hdistinct, rfl⟩ := hobject _ _ _ hus₁.tail h
      refine ⟨d, _, ?_, hspaced htext, hdepth, hdistinct, rfl⟩
      rw [hbrace, encode_append, List.append_assoc]
      rfl
    · obtain ⟨d, tail, rfl, htext, hdepth, hdistinct, rfl⟩ := harray _ _ _ hus₁.tail h
      refine ⟨d, _, ?_, hspaced htext, hdepth, hdistinct, rfl⟩
      rw [hbracket, encode_append, List.append_assoc]
      rfl
    · obtain ⟨⟨t, us₁⟩, ht, h⟩ := bind_eq_ok_iff.mp h
      obtain ⟨rfl, rfl⟩ := Prod.mk.inj (Except.ok.inj h)
      obtain ⟨tail, htail, rfl⟩ := parseString_sound hus₁.tail ht
      refine ⟨.str t, _, ?_, hspaced ((jsonText_str _ _).mpr htail), Nat.zero_le _, trivial, rfl⟩
      rw [hquote, encode_append, List.append_assoc]
      rfl
    · obtain ⟨x, c, rfl, hc, hnumbersplit⟩ := parseNumber_sound h
      refine ⟨.num x, _, ?_, hspaced ((jsonText_num _ _).mpr hc), Nat.zero_le _, trivial, rfl⟩
      rw [hnumbersplit, encode_append, List.append_assoc]
    · obtain ⟨c, hwordsplit, htext, hdepth, hdistinct, henum⟩ := parseWord_sound h
      refine ⟨v, _, ?_, hspaced htext, hdepth, hdistinct, henum⟩
      rw [hwordsplit, encode_append, List.append_assoc]

/-- Every successful read passed over a text of a document that nests within the levels. -/
theorem parseValue_sound (levels : ℕ) : Parses levels (parseValue levels) := by
  induction levels with
  | zero => exact parseWith_sound (fun _ _ _ _ h => nomatch h) fun _ _ _ _ h => nomatch h
  | succ levels ih => exact parseWith_sound (parseObject_sound ih) (parseArray_sound ih)

end Sound

section Complete

variable {levels : ℕ} {value : List ℕ → Except Rejected (Json × List ℕ)}

/-- `value` reads every text of `d`, with whitespace before it, as `g d`. -/
def ReadsText (value : List ℕ → Except Rejected (Json × List ℕ)) (g : Json → Json) (d : Json) :
    Prop :=
  ∀ a c r, Space a → JsonText d c → Ends (r.map Char.ofNat) →
    value (Utf16.encode a ++ (Utf16.encode c ++ r)) = .ok (g d, r)

/-- The texts of a list are read up to the closing bracket. -/
theorem parseItems_complete (hlevels : value = parseValue levels) {g : Json → Json}
    {ds : List Json} {body : List Char} {rounds : ℕ} (hne : ds ≠ []) (hrounds : ds.length ≤ rounds)
    (hvalue : ∀ d ∈ ds, ReadsText value g d) (hbody : CommaList (ds.map JsonText) body)
    (r : List ℕ) :
    parseItems value rounds (Utf16.encode body ++ ']'.toNat :: r) = .ok (ds.map g, r) := by
  induction ds generalizing body rounds with
  | nil => exact absurd rfl hne
  | cons d ds ih =>
    obtain _ | rounds := rounds
    · exact absurd hrounds (Nat.not_succ_le_zero _)
    cases ds with
    | nil =>
      obtain ⟨a, b, c, ha, hb, hc, rfl⟩ := hbody
      have hread := hvalue d List.mem_cons_self a b (Utf16.encode c ++ ']'.toNat :: r) ha hb
        (ends_mark hc rfl r)
      have hskip := skipWhitespace_append hc (noBlank_cons (u := ']'.toNat) rfl r)
      simp only [encode_append, List.append_assoc]
      rw [parseItems, hread, ok_bind]
      simp only [hskip]
      rfl
    | cons d' ds =>
      obtain ⟨_, rest, ⟨a, b, c, ha, hb, hc, rfl⟩, hrest, rfl⟩ := hbody
      have hread := hvalue d List.mem_cons_self a b
        (Utf16.encode c ++ ','.toNat :: (Utf16.encode rest ++ ']'.toNat :: r)) ha hb
        (ends_mark hc rfl _)
      have hskip := skipWhitespace_append hc
        (noBlank_cons (u := ','.toNat) rfl (Utf16.encode rest ++ ']'.toNat :: r))
      have htail := ih (List.cons_ne_nil _ _) (Nat.le_of_succ_le_succ hrounds)
        (fun w hw => hvalue w (.tail _ hw)) hrest
      rw [hlevels, ← parseItems_skipWhitespace, ← hlevels] at htail
      have hsplit : Utf16.encode (a ++ (b ++ c) ++ ',' :: rest) ++ ']'.toNat :: r =
          Utf16.encode a ++ (Utf16.encode b ++ (Utf16.encode c ++
            ','.toNat :: (Utf16.encode rest ++ ']'.toNat :: r))) := by
        simp only [encode_append, Utf16.encode_cons, List.append_assoc]
        rfl
      rw [hsplit, parseItems, hread, ok_bind]
      simp only [hskip]
      rw [if_neg (by decide), require_bind_of_pos trivial, htail]
      rfl

/-- The members of a list are read up to the closing brace when their keys are new. -/
theorem parseMembers_complete {g : Json → Json} {ds : List (String × Json)} {body : List Char}
    {rounds : ℕ} {keys : List String} (hne : ds ≠ []) (hrounds : ds.length ≤ rounds)
    (hvalue : ∀ p ∈ ds, ReadsText value g p.2) (hnodup : (ds.map Prod.fst).Nodup)
    (hkeys : ∀ p ∈ ds, p.1 ∉ keys)
    (hbody : CommaList (ds.map fun p => Member p.1 (JsonText p.2)) body) (r : List ℕ) :
    parseMembers value rounds keys (skipWhitespace (Utf16.encode body ++ '}'.toNat :: r)) =
      .ok (ds.map fun p => (p.1, g p.2), r) := by
  induction ds generalizing body rounds keys with
  | nil => exact absurd rfl hne
  | cons p ds ih =>
    obtain _ | rounds := rounds
    · exact absurd hrounds (Nat.not_succ_le_zero _)
    -- a member is read up to what follows its value
    have hmember : ∀ (a k b b' v s : List Char) (stop : Char) (rest : List ℕ), Space a →
        StringLiteral p.1 k → Space b → Space b' → JsonText p.2 v → Space s →
        isBlank stop.toNat = false → continuesNumber (Char.ofNat stop.toNat) = false →
        stop.toNat < 0x80 →
        parseMembers value (rounds + 1) keys (skipWhitespace
            (Utf16.encode (a ++ ((k ++ (b ++ ':' :: (b' ++ v))) ++ s)) ++ stop.toNat :: rest)) =
          if stop.toNat = '}'.toNat then .ok ([(p.1, g p.2)], rest)
          else do
            require (stop.toNat = ','.toNat)
              (Rejected.syntaxInvalid "Expected a comma or closing brace.")
            let q ← parseMembers value rounds (p.1 :: keys) (skipWhitespace rest)
            return ((p.1, g p.2) :: q.1, q.2) := by
      intro a k b b' v s stop rest ha hk hb hb' hv hs hspace hends hascii
      have hread := hvalue p List.mem_cons_self b' v (Utf16.encode s ++ stop.toNat :: rest) hb' hv
        (ends_mark hs hends rest)
      have hstop := skipWhitespace_append hs (noBlank_cons hspace rest)
      have hcolon := skipWhitespace_append hb (noBlank_cons (u := ':'.toNat) rfl
        (Utf16.encode b' ++ (Utf16.encode v ++ (Utf16.encode s ++ stop.toNat :: rest))))
      obtain ⟨tail, rfl, hstring⟩ := parseString_complete hk
        (Utf16.encode b ++ ':'.toNat :: (Utf16.encode b' ++ (Utf16.encode v ++
          (Utf16.encode s ++ stop.toNat :: rest))))
      have hskip := skipWhitespace_append ha (noBlank_cons (u := '"'.toNat) rfl
        (Utf16.encode tail ++ (Utf16.encode b ++ ':'.toNat :: (Utf16.encode b' ++
          (Utf16.encode v ++ (Utf16.encode s ++ stop.toNat :: rest))))))
      have hsplit : Utf16.encode (a ++ (('"' :: tail ++ (b ++ ':' :: (b' ++ v))) ++ s)) ++
          stop.toNat :: rest = Utf16.encode a ++ '"'.toNat :: (Utf16.encode tail ++
            (Utf16.encode b ++ ':'.toNat :: (Utf16.encode b' ++ (Utf16.encode v ++
              (Utf16.encode s ++ stop.toNat :: rest))))) := by
        simp only [encode_append, Utf16.encode_cons, List.append_assoc, List.cons_append]
        rfl
      rw [hsplit, hskip, parseMembers, require_bind_of_pos rfl, hstring, ok_bind]
      simp only
      rw [require_bind_of_pos (hkeys p List.mem_cons_self), hcolon]
      simp only
      rw [require_bind_of_pos trivial, hread, ok_bind]
      simp only [hstop]
    rw [List.map_cons, List.nodup_cons] at hnodup
    cases ds with
    | nil =>
      obtain ⟨a, _, s, ha, ⟨k, b, b', v, hk, hb, hb', hv, rfl⟩, hs, rfl⟩ := hbody
      rw [hmember a k b b' v s '}' r ha hk hb hb' hv hs rfl rfl (by decide), if_pos rfl]
      rfl
    | cons q ds =>
      obtain ⟨_, rest, ⟨a, _, s, ha, ⟨k, b, b', v, hk, hb, hb', hv, rfl⟩, hs, rfl⟩, hrest, rfl⟩ :=
        hbody
      have hnew : ∀ q' ∈ q :: ds, q'.1 ∉ p.1 :: keys := by
        intro q' hq
        rw [List.mem_cons, not_or]
        exact ⟨fun heq => hnodup.1 (heq ▸ List.mem_map_of_mem (f := Prod.fst) hq),
          hkeys q' (.tail _ hq)⟩
      have htail := ih (List.cons_ne_nil _ _) (Nat.le_of_succ_le_succ hrounds)
        (fun q' hq => hvalue q' (.tail _ hq)) hnodup.2 hnew hrest
      have hsplit : Utf16.encode (a ++ ((k ++ (b ++ ':' :: (b' ++ v))) ++ s) ++ ',' :: rest) ++
          '}'.toNat :: r = Utf16.encode (a ++ ((k ++ (b ++ ':' :: (b' ++ v))) ++ s)) ++
            ','.toNat :: (Utf16.encode rest ++ '}'.toNat :: r) := by
        rw [encode_append, List.append_assoc]
        rfl
      rw [hsplit, hmember a k b b' v s ',' _ ha hk hb hb' hv hs rfl rfl (by decide),
        if_neg (by decide), require_bind_of_pos rfl, htail]
      rfl

/-- A character that a value can start with is ASCII. -/
theorem startsValue_lt {e : Char} (h : startsValue e = true) : e.toNat < 0x80 := by
  simp only [startsValue, Bool.or_eq_true, beq_iff_eq] at h
  rcases h with ((((((rfl | rfl) | rfl) | rfl) | rfl) | rfl) | rfl) | h
  · decide
  · decide
  · decide
  · decide
  · decide
  · decide
  · decide
  · exact (ascii_of_isDigit (List.forall_mem_singleton.mpr h) e List.mem_cons_self).2

/-- Without the whitespace before it a list that is not empty starts as its first text does. -/
theorem commaList_trim {p : List Char → Prop} {ps : List (List Char → Prop)} {body : List Char}
    {q : Char → Prop} (hbody : CommaList (p :: ps) body)
    (hp : ∀ b, p b → ∃ e t, b = e :: t ∧ startsValue e = true ∧ q e) :
    ∃ a e t, Space a ∧ body = a ++ e :: t ∧ CommaList (p :: ps) (e :: t) ∧
      startsValue e = true ∧ q e := by
  have hspace : Space [] := List.forall_mem_nil _
  cases ps with
  | nil =>
    obtain ⟨a, b, c, ha, hb, hc, rfl⟩ := hbody
    obtain ⟨e, t, rfl, he, hq⟩ := hp b hb
    exact ⟨a, e, t ++ c, ha, rfl, ⟨[], _, c, hspace, hb, hc, rfl⟩, he, hq⟩
  | cons q ps =>
    obtain ⟨_, d, ⟨a, b, c, ha, hb, hc, rfl⟩, hd, rfl⟩ := hbody
    obtain ⟨e, t, rfl, he, hq⟩ := hp b hb
    refine ⟨a, e, t ++ (c ++ ',' :: d), ha, ?_, ⟨e :: t ++ c, d, ⟨[], _, c, hspace, hb, hc, rfl⟩, hd,
      by rw [List.cons_append, List.cons_append, List.append_assoc]⟩, he, hq⟩
    simp only [List.append_assoc, List.cons_append]

/-- A list is read behind the whitespace before it. -/
theorem skipWhitespace_list {a : List Char} (ha : Space a) {e : Char} (he : startsValue e = true)
    (t : List Char) (us : List ℕ) :
    skipWhitespace (Utf16.encode (a ++ e :: t) ++ us) = Utf16.encode (e :: t) ++ us ∧
      Utf16.encode (e :: t) ++ us = e.toNat :: (Utf16.encode t ++ us) := by
  constructor
  · rw [encode_append, List.append_assoc]
    exact skipWhitespace_append ha (noBlank_encode (startsValue_spec he).1 t us)
  · rw [Utf16.encode_cons, units_of_lt (lt_trans (startsValue_lt he) (by decide))]
    rfl

/-- A list has fewer texts than there are code units up to its closing bracket. -/
theorem length_le_rounds {ps : List (List Char → Prop)} {e : Char} {t : List Char}
    (hbody : CommaList ps (e :: t)) (u : ℕ) (r : List ℕ) :
    ps.length ≤ (Utf16.encode t ++ u :: r).length + 1 := by
  have hlen := hbody.length_le
  have hunits := length_le_encode t
  simp only [List.length_append, List.length_cons] at hlen ⊢
  omega

/-- The texts of an array are read from behind the bracket. -/
theorem parseArray_complete {g : Json → Json} {items : List Json} {body : List Char}
    (hvalue : ∀ d ∈ items, ReadsText (parseValue levels) g d)
    (hbody : CommaList (items.map JsonText) body) (r : List ℕ) :
    parseArray (parseValue levels) (Utf16.encode body ++ ']'.toNat :: r) =
      .ok (.arr (items.map g), r) := by
  rw [parseArray]
  cases items with
  | nil =>
    rw [skipWhitespace_append hbody (noBlank_cons (u := ']'.toNat) rfl r)]
    rfl
  | cons v vs =>
    obtain ⟨a, e, t, ha, rfl, hlist, he, hne⟩ := commaList_trim (q := (· ≠ ']')) hbody fun b hb => by
      obtain ⟨e, t, rfl, he⟩ := JsonText.head hb
      exact ⟨e, t, rfl, he, (startsValue_spec he).2.1⟩
    obtain ⟨hskip, hcons⟩ := skipWhitespace_list ha he t (']'.toNat :: r)
    have hrounds := length_le_rounds hlist ']'.toNat r
    rw [List.length_cons, List.length_map] at hrounds
    have hread := parseItems_complete rfl (List.cons_ne_nil v vs) hrounds hvalue hlist r
    rw [hcons] at hskip hread
    rw [hskip]
    simp only
    rw [if_neg (fun h => hne (Char.toNat_inj.mp h)), hread]
    rfl

/-- The texts of an object are read from behind the brace. -/
theorem parseObject_complete {g : Json → Json} {props : List (String × Json)} {body : List Char}
    (hvalue : ∀ p ∈ props, ReadsText value g p.2) (hnodup : (props.map Prod.fst).Nodup)
    (hbody : CommaList (props.map fun p => Member p.1 (JsonText p.2)) body) (r : List ℕ) :
    parseObject value (Utf16.encode body ++ '}'.toNat :: r) =
      .ok (Value.ofProps (props.map fun p => (p.1, g p.2)), r) := by
  rw [parseObject]
  cases props with
  | nil =>
    rw [skipWhitespace_append hbody (noBlank_cons (u := '}'.toNat) rfl r)]
    rfl
  | cons p ps =>
    obtain ⟨a, e, t, ha, rfl, hlist, he, hne⟩ := commaList_trim (q := (· ≠ '}')) hbody fun b hb => by
      obtain ⟨k, a, b, c, ⟨content, -, rfl⟩, -, -, -, rfl⟩ := hb
      exact ⟨'"', _, rfl, rfl, by decide⟩
    obtain ⟨hskip, hcons⟩ := skipWhitespace_list ha he t ('}'.toNat :: r)
    obtain ⟨hskip', -⟩ := skipWhitespace_list (a := []) (List.forall_mem_nil _) he t
      ('}'.toNat :: r)
    have hrounds := length_le_rounds hlist '}'.toNat r
    rw [List.length_cons, List.length_map] at hrounds
    have hread := parseMembers_complete (List.cons_ne_nil p ps) hrounds hvalue hnodup
      (fun _ _ => List.not_mem_nil) hlist r
    rw [List.nil_append, hcons] at hskip'
    rw [hcons] at hskip hread
    rw [hskip'] at hread
    rw [hskip]
    simp only
    rw [if_neg (fun h => hne (Char.toNat_inj.mp h)), hread]
    rfl

/-- A text is read when those of objects and arrays are. -/
theorem parseWith_complete {object array : List ℕ → Except Rejected (Json × List ℕ)} {d : Json}
    (hobject : ∀ props body r, d = .obj props →
      CommaList (props.map fun p => Member p.1 (JsonText p.2)) body →
      object (Utf16.encode body ++ '}'.toNat :: r) = .ok (d.enumerated, r))
    (harray : ∀ items body r, d = .arr items → CommaList (items.map JsonText) body →
      array (Utf16.encode body ++ ']'.toNat :: r) = .ok (d.enumerated, r)) :
    ReadsText (parseWith object array) Value.enumerated d := by
  intro a c r ha hc hr
  obtain ⟨e, t, rfl, he⟩ := hc.head
  have hskip := skipWhitespace_append ha (noBlank_encode (startsValue_spec he).1 t r)
  have hcons : Utf16.encode (e :: t) ++ r = e.toNat :: (Utf16.encode t ++ r) := by
    rw [Utf16.encode_cons, units_of_lt (lt_trans (startsValue_lt he) (by decide))]
    rfl
  have hunit : ∀ q : Char, e ≠ q → e.toNat ≠ q.toNat := fun q hq h => hq (Char.toNat_inj.mp h)
  rw [parseWith, hskip, hcons]
  simp only
  cases d with
  | null =>
    obtain ⟨rfl, rfl⟩ := List.cons.inj hc
    rfl
  | bool b => cases b <;> (obtain ⟨rfl, rfl⟩ := List.cons.inj hc; rfl)
  | num x =>
    obtain ⟨_, _, hhead, he'⟩ := NumberLiteral.head hc
    obtain ⟨rfl, rfl⟩ := List.cons.inj hhead
    have hne : ∀ q : Char, q ≠ '-' → q.isDigit = false → e.toNat ≠ q.toNat := by
      refine fun q hq hdigit => hunit q ?_
      rintro rfl
      rcases he' with he' | he'
      · exact hq he'
      · rw [hdigit] at he'
        cases he'
    have hstart : e.toNat = '-'.toNat ∨ '0'.toNat ≤ e.toNat ∧ e.toNat ≤ '9'.toNat :=
      he'.imp (fun h => by rw [h]) Char.isDigit_iff_toNat.mp
    rw [if_neg (hne '{' (by decide) rfl), if_neg (hne '[' (by decide) rfl),
      if_neg (hne '"' (by decide) rfl), if_pos hstart, ← hcons]
    exact parseNumber_complete hc hr
  | str s =>
    obtain ⟨tail, htail, hstring⟩ := parseString_complete hc r
    obtain ⟨rfl, rfl⟩ := List.cons.inj htail
    rw [if_neg (by decide), if_neg (by decide), if_pos rfl, hstring]
    rfl
  | arr items =>
    obtain ⟨body, hbody, hlist⟩ := (jsonText_arr _ _).mp hc
    obtain ⟨rfl, rfl⟩ := List.cons.inj hlist
    rw [if_neg (by decide), if_pos rfl, encode_append, List.append_assoc]
    exact harray items body r rfl hbody
  | obj props =>
    obtain ⟨body, hbody, hlist⟩ := (jsonText_obj _ _).mp hc
    obtain ⟨rfl, rfl⟩ := List.cons.inj hlist
    rw [if_pos rfl, encode_append, List.append_assoc]
    exact hobject props body r rfl hbody

/-- Every text of a document without duplicate keys that nests within the levels is read as the
document in memory. -/
theorem parseValue_complete {levels : ℕ} {d : Json} (hdepth : d.depth ≤ levels)
    (hkeys : d.DistinctKeys) : ReadsText (parseValue levels) Value.enumerated d := by
  induction levels generalizing d with
  | zero =>
    refine parseWith_complete ?_ ?_
    · rintro props body r rfl -
      exact absurd hdepth (Nat.not_succ_le_zero _)
    · rintro items body r rfl -
      exact absurd hdepth (Nat.not_succ_le_zero _)
  | succ levels ih =>
    refine parseWith_complete ?_ ?_
    · rintro props body r rfl hbody
      rw [Value.distinctKeys_obj] at hkeys
      rw [Value.depth_obj_le] at hdepth
      rw [Value.enumerated_obj]
      exact parseObject_complete (fun p hp => ih (hdepth p hp) (hkeys.2 p hp)) hkeys.1 hbody r
    · rintro items body r rfl hbody
      rw [Value.distinctKeys_arr] at hkeys
      rw [Value.depth_arr_le] at hdepth
      rw [Value.enumerated_arr]
      exact parseArray_complete (fun d hd => ih (hdepth d hd) (hkeys d hd)) hbody r

end Complete

/-- The reader accepts exactly the code units of the JSON texts of documents within the depth and
without duplicate keys. -/
theorem parse_eq_ok_iff {maxDepth : ℕ} {us : List ℕ} (hus : Short us) {v : Json} :
    parse maxDepth us = .ok v ↔
      ∃ cs d, us = Utf16.encode cs ∧ Spaced (JsonText d) cs ∧ d.depth ≤ maxDepth ∧
        d.DistinctKeys ∧ v = d.enumerated := by
  constructor
  · intro h
    obtain ⟨⟨v', rest⟩, hvalue, h⟩ := bind_eq_ok_iff.mp h
    obtain ⟨hrest, h⟩ := require_bind_eq_ok_iff.mp h
    obtain rfl := Except.ok.inj h
    rw [parseValue_skipWhitespace] at hvalue
    obtain ⟨d, c, hsplit, hc, hdepth, hkeys, rfl⟩ := parseValue_sound _ _ _ _ hus hvalue
    obtain ⟨b, hb, hspace⟩ := skipWhitespace_split rest
    rw [hrest, List.append_nil] at hspace
    have hspaced := spaced_extend (a := []) (List.forall_mem_nil _) hc hb
    exact ⟨_, d, by rw [hsplit, hspace, ← encode_append]; rfl, hspaced, hdepth, hkeys, rfl⟩
  · rintro ⟨cs, d, rfl, ⟨a, c, b, ha, hc, hb, rfl⟩, hdepth, hkeys, rfl⟩
    have hends : Ends ((Utf16.encode b).map Char.ofNat) := by
      have h := ends_append hb (r := []) (fun _ h => nomatch h)
      rwa [List.append_nil, ← map_ofNat_encode (ascii_of_space hb)] at h
    have hskip : skipWhitespace (Utf16.encode b) = [] := by
      have h : skipWhitespace (Utf16.encode b ++ []) = [] :=
        skipWhitespace_append hb fun _ h => nomatch h
      rwa [List.append_nil] at h
    rw [parse, parseValue_skipWhitespace, encode_append, encode_append,
      parseValue_complete hdepth hkeys a c _ ha hc hends, ok_bind]
    simp only
    rw [require_bind_of_pos hskip]
    rfl

end Contract

end Kdna

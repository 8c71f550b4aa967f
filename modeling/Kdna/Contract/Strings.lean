import Kdna.Contract.Tokens

/-!
# String literals on code units

The reader spells a literal scalar by scalar: a plain character, a short escape, an escaped code
unit or a pair of escaped surrogates. The grammar spells code units, so that the two halves of a
pair may be spelled apart; on the literals of a scalar text this is the same.
-/

namespace Kdna.Contract

/-- A spelling of a scalar in a string literal. -/
inductive Spelling (c : Char) : List Char → Prop
  | plain (hc : isPlain c = true) : Spelling c [c]
  | simple {e : Char} (he : simpleEscape e = some c.toNat) : Spelling c ['\\', e]
  | hex {a b d e : Char} (hunit : hexUnit a b d e = some c.toNat) (hc : c.toNat < 0x10000) :
      Spelling c ['\\', 'u', a, b, d, e]
  | pair {a b d e a' b' d' e' : Char} {high low : ℕ} (hfirst : hexUnit a b d e = some high)
      (hsecond : hexUnit a' b' d' e' = some low) (hhigh : Utf16.isHigh high = true)
      (hlow : Utf16.isLow low = true) (hc : c = Utf16.pair high low) :
      Spelling c ['\\', 'u', a, b, d, e, '\\', 'u', a', b', d', e']

/-- A literal is spelled scalar by scalar. -/
inductive Spelled : List Char → List Char → Prop
  | nil : Spelled [] []
  | cons {c : Char} {cs piece body : List Char} (hc : Spelling c piece) (hcs : Spelled cs body) :
      Spelled (c :: cs) (piece ++ body)

theorem Spelling.ne_nil {c : Char} {piece : List Char} (h : Spelling c piece) : piece ≠ [] := by
  cases h <;> exact List.cons_ne_nil _ _

section Units

/-- Every scalar has a code unit. -/
theorem length_le_encode (cs : List Char) : cs.length ≤ (Utf16.encode cs).length := by
  induction cs with
  | nil => exact Nat.le_refl _
  | cons c cs ih =>
    have hpos : 0 < (Utf16.units c).length := by
      unfold Utf16.units
      split_ifs <;> exact Nat.succ_pos _
    rw [Utf16.encode_cons, List.length_append, List.length_cons]
    omega

/-- The code unit of a scalar of the basic plane. -/
theorem units_of_lt {c : Char} (h : c.toNat < 0x10000) : Utf16.units c = [c.toNat] := if_pos h

/-- A scalar has one code unit that is no surrogate, or two that are a pair. -/
theorem units_cases (c : Char) :
    (c.toNat < 0x10000 ∧ Utf16.units c = [c.toNat] ∧ Utf16.isHigh c.toNat = false ∧
      Utf16.isLow c.toNat = false) ∨
    ∃ high low, Utf16.units c = [high, low] ∧ Utf16.isHigh high = true ∧
      Utf16.isLow low = true ∧ c = Utf16.pair high low := by
  have hc := Utf16.scalar_bounds c
  by_cases hlt : c.toNat < 0x10000
  · refine .inl ⟨hlt, if_pos hlt, ?_, ?_⟩
    · simp only [Utf16.isHigh, Bool.and_eq_false_iff, decide_eq_false_iff_not]
      omega
    · simp only [Utf16.isLow, Bool.and_eq_false_iff, decide_eq_false_iff_not]
      omega
  · refine .inr ⟨_, _, if_neg hlt, ?_, ?_, ?_⟩
    · simp only [Utf16.isHigh, Bool.and_eq_true, decide_eq_true_eq]
      omega
    · simp only [Utf16.isLow, Bool.and_eq_true, decide_eq_true_eq]
      omega
    · rw [Utf16.pair, show 0x10000 + (0xD800 + (c.toNat - 0x10000) / 0x400 - 0xD800) * 0x400 +
          (0xDC00 + (c.toNat - 0x10000) % 0x400 - 0xDC00) = c.toNat by omega, Char.ofNat_toNat]

/-- The scalars of code units are read off from the front. -/
theorem encode_cons_inj {c d : Char} {ns : List ℕ} {ds : List Char}
    (h : Utf16.units c ++ ns = Utf16.units d ++ Utf16.encode ds) :
    c = d ∧ ns = Utf16.encode ds := by
  have hdecode := Utf16.decode_units_append c ns
  rw [h, ← Utf16.encode_cons, Utf16.decode_eq_some_iff.mpr rfl, eq_comm,
    Option.map_eq_some_iff] at hdecode
  obtain ⟨cs, hcs, heq⟩ := hdecode
  obtain ⟨rfl, rfl⟩ := List.cons.inj heq
  exact ⟨rfl, (Utf16.decode_eq_some_iff.mp hcs).symm⟩

/-- A short escape stands for an ASCII character. -/
theorem simpleEscape_lt {c : Char} {n : ℕ} (h : simpleEscape c = some n) : n < 0x80 := by
  unfold simpleEscape at h
  split_ifs at h <;> (obtain rfl := Option.some.inj h; decide)

end Units

section Grammar

/-- The first scalar of a literal is spelled at its start. -/
theorem escaped_cons_inv {c : Char} {cs body : List Char}
    (h : Escaped (Utf16.encode (c :: cs)) body) :
    ∃ piece rest, Spelling c piece ∧ Escaped (Utf16.encode cs) rest ∧ body = piece ++ rest := by
  rw [Utf16.encode_cons] at h
  generalize hns : Utf16.units c ++ Utf16.encode cs = ns at h
  cases h with
  | nil =>
    obtain ⟨-, hc, -⟩ | ⟨_, _, hc, -⟩ := units_cases c <;> rw [hc] at hns <;> cases hns
  | plain hplain hrest =>
    obtain ⟨rfl, rfl⟩ := encode_cons_inj hns.symm
    exact ⟨[_], _, .plain hplain, hrest, rfl⟩
  | simple he hrest =>
    obtain ⟨-, hc, -⟩ | ⟨high, low, hc, hhigh, -⟩ := units_cases c <;> rw [hc] at hns <;>
      obtain ⟨rfl, rfl⟩ := List.cons.inj hns
    · exact ⟨['\\', _], _, .simple he, hrest, rfl⟩
    · have hlt := simpleEscape_lt he
      simp only [Utf16.isHigh, Bool.and_eq_true, decide_eq_true_eq] at hhigh
      omega
  | hex hunit hrest =>
    obtain ⟨hlt, hc, -⟩ | ⟨high, low, hc, hhigh, hlow, hpair⟩ := units_cases c <;>
      rw [hc] at hns <;> obtain ⟨rfl, hms⟩ := List.cons.inj hns
    · obtain rfl := hms
      exact ⟨['\\', 'u', _, _, _, _], _, .hex hunit hlt, hrest, rfl⟩
    · -- the other half of the pair is escaped too
      have hlowbounds := hlow
      simp only [Utf16.isLow, Bool.and_eq_true, decide_eq_true_eq] at hlowbounds
      cases hrest with
      | nil => cases hms
      | @plain d =>
        obtain ⟨-, hd, -, hnot⟩ | ⟨_, _, hd, hhigh', -⟩ := units_cases d <;> rw [hd] at hms <;>
          obtain ⟨rfl, -⟩ := List.cons.inj hms
        · rw [hlow] at hnot
          cases hnot
        · simp only [Utf16.isHigh, Bool.and_eq_true, decide_eq_true_eq] at hhigh'
          omega
      | simple he =>
        obtain ⟨rfl, -⟩ := List.cons.inj hms
        have hlt := simpleEscape_lt he
        omega
      | hex hunit' hrest =>
        obtain ⟨rfl, rfl⟩ := List.cons.inj hms
        exact ⟨['\\', 'u', _, _, _, _, '\\', 'u', _, _, _, _], _,
          .pair hunit hunit' hhigh hlow hpair, hrest, rfl⟩

/-- A scalar is spelled in front of a literal. -/
theorem Spelling.escaped {c : Char} {piece : List Char} (h : Spelling c piece) {ns : List ℕ}
    {body : List Char} (hbody : Escaped ns body) :
    Escaped (Utf16.units c ++ ns) (piece ++ body) := by
  cases h with
  | plain hc => exact .plain hc hbody
  | simple he =>
    rw [units_of_lt (lt_trans (simpleEscape_lt he) (by decide))]
    exact .simple he hbody
  | hex hunit hc =>
    rw [units_of_lt hc]
    exact .hex hunit hbody
  | pair hfirst hsecond hhigh hlow hc =>
    rw [hc, Utf16.units_pair hhigh hlow]
    exact .hex hfirst (.hex hsecond hbody)

/-- The literals of a scalar text are those spelled scalar by scalar. -/
theorem spelled_iff {cs body : List Char} : Spelled cs body ↔ Escaped (Utf16.encode cs) body := by
  constructor
  · intro h
    induction h with
    | nil => exact .nil
    | cons hc _ ih => exact hc.escaped ih
  · intro h
    induction cs generalizing body with
    | nil =>
      generalize hns : Utf16.encode [] = ns at h
      cases h with
      | nil => exact .nil
      | @plain d =>
        obtain ⟨-, hd, -⟩ | ⟨_, _, hd, -⟩ := units_cases d <;> rw [hd] at hns <;> cases hns
      | simple => cases hns
      | hex => cases hns
    | cons c cs ih =>
      obtain ⟨piece, rest, hc, hrest, rfl⟩ := escaped_cons_inv h
      exact .cons hc (ih hrest)

end Grammar

section Reader

/-- Code units of sixteen bits. -/
def Short (us : List ℕ) : Prop := ∀ u ∈ us, u < 0x10000

theorem Short.of_append {us vs : List ℕ} (h : Short (us ++ vs)) : Short vs :=
  fun u hu => h u (List.mem_append_right _ hu)

theorem Short.tail {u : ℕ} {us : List ℕ} (h : Short (u :: us)) : Short us :=
  fun v hv => h v (.tail _ hv)

/-- A code unit that is no surrogate is the number of its scalar. -/
theorem toNat_ofNat {n : ℕ} (hhigh : Utf16.isHigh n = false) (hlow : Utf16.isLow n = false)
    (hn : n < 0x10000) : (Char.ofNat n).toNat = n := by
  have hunits := Utf16.units_ofNat (n := n) (by simp [hhigh]) (by simp [hlow]) (by omega)
  obtain ⟨-, hc, -⟩ | ⟨_, _, hc, -⟩ := units_cases (Char.ofNat n)
  · rw [hc] at hunits
    exact (List.cons.inj hunits).1
  · rw [hc] at hunits
    cases hunits

/-- A hexadecimal digit is ASCII and at most fifteen. -/
theorem hexDigit_spec {c : Char} {n : ℕ} (h : hexDigit c = some n) :
    (0 < c.toNat ∧ c.toNat < 0x80) ∧ n < 16 := by
  unfold hexDigit at h
  simp only [Char.le_def, UInt32.le_iff_toNat_le, ← Char.toNat.eq_def] at h
  simp only [show '0'.toNat = 48 from rfl, show '9'.toNat = 57 from rfl,
    show 'a'.toNat = 97 from rfl, show 'f'.toNat = 102 from rfl, show 'A'.toNat = 65 from rfl,
    show 'F'.toNat = 70 from rfl] at h
  split_ifs at h <;> (obtain rfl := Option.some.inj h; omega)

theorem hexUnit_spec {a b c d : Char} {n : ℕ} (h : hexUnit a b c d = some n) :
    Ascii [a, b, c, d] ∧ n < 0x10000 := by
  simp only [hexUnit, Option.bind_eq_bind, Option.bind_eq_some_iff] at h
  obtain ⟨a', ha, b', hb, c', hc, d', hd, h⟩ := h
  obtain rfl := Option.some.inj h
  obtain ⟨ha, ha'⟩ := hexDigit_spec ha
  obtain ⟨hb, hb'⟩ := hexDigit_spec hb
  obtain ⟨hc, hc'⟩ := hexDigit_spec hc
  obtain ⟨hd, hd'⟩ := hexDigit_spec hd
  exact ⟨.cons ha (.cons hb (.cons hc (.cons hd (List.forall_mem_nil _)))), by omega⟩

/-- Four hexadecimal digits are read. -/
theorem parseHexCodeUnit_complete {a b c d : Char} {n : ℕ} (h : hexUnit a b c d = some n)
    (r : List ℕ) : parseHexCodeUnit (Utf16.encode [a, b, c, d] ++ r) = .ok (n, r) := by
  rw [encode_ascii (hexUnit_spec h).1]
  simp only [List.map_cons, List.map_nil, List.cons_append, List.nil_append, parseHexCodeUnit,
    Char.ofNat_toNat]
  rw [h]
  rfl

/-- A code unit that is read has its digits at the start. -/
theorem parseHexCodeUnit_sound {us r : List ℕ} {n : ℕ} (h : parseHexCodeUnit us = .ok (n, r)) :
    ∃ a b c d, hexUnit a b c d = some n ∧ us = Utf16.encode [a, b, c, d] ++ r := by
  match us, h with
  | a :: b :: c :: d :: us, h =>
    obtain ⟨n', hn, h⟩ := bind_eq_ok_iff.mp h
    obtain ⟨rfl, rfl⟩ := Prod.mk.inj (Except.ok.inj h)
    rw [orFail_eq_ok_iff] at hn
    refine ⟨_, _, _, _, hn, ?_⟩
    have hdigits : [a, b, c, d] =
        Utf16.encode [Char.ofNat a, Char.ofNat b, Char.ofNat c, Char.ofNat d] :=
      eq_encode_of_map rfl (hexUnit_spec hn).1
    rw [← hdigits]
    rfl

/-- The characters of the short escapes. -/
theorem simpleEscape_ascii {e : Char} {n : ℕ} (h : simpleEscape e = some n) :
    0 < e.toNat ∧ e.toNat < 0x80 := by
  unfold simpleEscape at h
  split_ifs at h <;> (subst e; decide)

/-- The escape of a scalar is read. -/
theorem parseEscape_complete {c : Char} {piece : List Char} (h : Spelling c ('\\' :: piece))
    (r : List ℕ) : parseEscape (Utf16.encode piece ++ r) = .ok (c, r) := by
  have hnone : simpleEscape (Char.ofNat 'u'.toNat) = none := by decide
  generalize hspelled : '\\' :: piece = spelled at h
  cases h with
  | plain hc =>
    obtain ⟨rfl, -⟩ := List.cons.inj hspelled
    exact absurd hc (by decide)
  | @simple e he =>
    obtain rfl := (List.cons.inj hspelled).2
    rw [encode_ascii (.cons (simpleEscape_ascii he) (List.forall_mem_nil _))]
    simp only [List.map_cons, List.map_nil, List.cons_append, List.nil_append, parseEscape,
      Char.ofNat_toNat, he]
  | @hex a b d e hunit hc =>
    obtain rfl := (List.cons.inj hspelled).2
    obtain ⟨-, -, hhigh, hlow⟩ | ⟨_, _, hc', -⟩ := units_cases c
    · change parseEscape ('u'.toNat :: (Utf16.encode [a, b, d, e] ++ r)) = _
      rw [parseEscape, hnone]
      simp only
      rw [require_bind_of_pos trivial, parseHexCodeUnit_complete hunit, ok_bind]
      simp only [hhigh, Bool.false_eq_true, if_false]
      rw [require_bind_of_pos hlow, Char.ofNat_toNat]
      rfl
    · rw [units_of_lt hc] at hc'
      cases hc'
  | @pair a b d e a' b' d' e' high low hfirst hsecond hhigh hlow hc =>
    obtain rfl := (List.cons.inj hspelled).2
    change parseEscape ('u'.toNat :: (Utf16.encode ([a, b, d, e] ++
      ('\\' :: 'u' :: [a', b', d', e'])) ++ r)) = _
    rw [encode_append, List.append_assoc, parseEscape, hnone]
    simp only
    rw [require_bind_of_pos trivial, parseHexCodeUnit_complete hfirst, ok_bind]
    simp only [hhigh, if_true]
    change (parseHexCodeUnit (Utf16.encode [a', b', d', e'] ++ r) >>= _) = _
    rw [parseHexCodeUnit_complete hsecond, ok_bind]
    simp only
    rw [require_bind_of_pos hlow, hc]
    rfl

/-- An escape that is read spells a scalar. -/
theorem parseEscape_sound {us r : List ℕ} {c : Char} (h : parseEscape us = .ok (c, r)) :
    ∃ piece, Spelling c ('\\' :: piece) ∧ us = Utf16.encode piece ++ r := by
  cases us with
  | nil => cases h
  | cons u us =>
    rw [parseEscape] at h
    cases he : simpleEscape (Char.ofNat u) with
    | some n =>
      rw [he] at h
      obtain ⟨rfl, rfl⟩ := Prod.mk.inj (Except.ok.inj h)
      have hascii : Ascii [Char.ofNat u] :=
        .cons (simpleEscape_ascii he) (List.forall_mem_nil _)
      have hunit : [u] = Utf16.encode [Char.ofNat u] := eq_encode_of_map rfl hascii
      have hlt := simpleEscape_lt he
      refine ⟨[Char.ofNat u], .simple ?_, by rw [← hunit]; rfl⟩
      rw [he, toNat_ofNat _ _ (by omega)]
      · simp only [Utf16.isHigh, Bool.and_eq_false_iff, decide_eq_false_iff_not]
        omega
      · simp only [Utf16.isLow, Bool.and_eq_false_iff, decide_eq_false_iff_not]
        omega
    | none =>
      rw [he] at h
      obtain ⟨hu, hread⟩ := require_bind_eq_ok_iff.mp h
      obtain ⟨⟨first, us₁⟩, hfirst, hrest⟩ := bind_eq_ok_iff.mp hread
      obtain ⟨a, b, d, e, hunit, rfl⟩ := parseHexCodeUnit_sound hfirst
      simp only at hrest
      split_ifs at hrest with hhigh
      · split at hrest
        · next us₁ =>
          obtain ⟨⟨second, us₂⟩, hsecond, hpair⟩ := bind_eq_ok_iff.mp hrest
          obtain ⟨a', b', d', e', hunit', rfl⟩ := parseHexCodeUnit_sound hsecond
          obtain ⟨hlow, hpair⟩ := require_bind_eq_ok_iff.mp hpair
          obtain ⟨rfl, rfl⟩ := Prod.mk.inj (Except.ok.inj hpair)
          refine ⟨_, .pair hunit hunit' hhigh hlow rfl, ?_⟩
          have hsplit := encode_append [a, b, d, e] ('\\' :: 'u' :: [a', b', d', e'])
          change u :: (Utf16.encode [a, b, d, e] ++ _) =
            'u'.toNat :: (Utf16.encode ([a, b, d, e] ++ '\\' :: 'u' :: [a', b', d', e']) ++ us₂)
          rw [hu, hsplit, List.append_assoc]
          rfl
        · cases hrest
      · rw [Bool.not_eq_true] at hhigh
        obtain ⟨hlow, hrest⟩ := require_bind_eq_ok_iff.mp hrest
        obtain ⟨rfl, rfl⟩ := Prod.mk.inj (Except.ok.inj hrest)
        have hlt := (hexUnit_spec hunit).2
        have hnat := toNat_ofNat hhigh hlow hlt
        refine ⟨_, .hex (by rw [hnat]; exact hunit) (by rw [hnat]; exact hlt), ?_⟩
        rw [hu]
        rfl

/-- A plain character is read as it stands. -/
theorem parseRaw_complete {c : Char} (hc : isPlain c = true) (us : List ℕ) :
    ∃ u vs, Utf16.encode [c] ++ us = u :: vs ∧ u ≠ '"'.toNat ∧ u ≠ '\\'.toNat ∧
      parseRaw u vs = .ok (c, us) := by
  simp only [isPlain, Bool.and_eq_true, decide_eq_true_eq, ne_eq] at hc
  obtain ⟨⟨hquote, hslash⟩, hcontrol⟩ := hc
  obtain ⟨-, hunits, hhigh, hlow⟩ | ⟨high, low, hunits, hhigh, hlow, hpair⟩ := units_cases c
  · refine ⟨c.toNat, us, by rw [Utf16.encode_cons, hunits]; rfl,
      fun h => hquote (Char.toNat_inj.mp h), fun h => hslash (Char.toNat_inj.mp h), ?_⟩
    unfold parseRaw
    rw [require_bind_of_pos (by omega), hhigh, if_neg Bool.false_ne_true,
      require_bind_of_pos hlow, Char.ofNat_toNat]
    rfl
  · have hbounds := hhigh
    simp only [Utf16.isHigh, Bool.and_eq_true, decide_eq_true_eq] at hbounds
    have hne : ∀ q : ℕ, q < 0x80 → high ≠ q := fun q hq => by omega
    refine ⟨high, low :: us, by rw [Utf16.encode_cons, hunits]; rfl, hne _ (by decide),
      hne _ (by decide), ?_⟩
    rw [parseRaw, require_bind_of_pos (by omega), if_pos hhigh, require_bind_of_pos hlow, hpair]
    rfl

/-- A character that is read as it stands is plain, unless it ends the literal or escapes. -/
theorem parseRaw_sound {u : ℕ} {us r : List ℕ} {c : Char} (hus : u < 0x10000)
    (hquote : u ≠ '"'.toNat) (hslash : u ≠ '\\'.toNat) (h : parseRaw u us = .ok (c, r)) :
    isPlain c = true ∧ u :: us = Utf16.encode [c] ++ r := by
  have hplain : ∀ {d : Char}, d.toNat = u ∨ 0x10000 ≤ d.toNat → 0x1F < u → isPlain d = true := by
    intro d hd hu
    have hne : ∀ q : Char, q.toNat < 0x80 → u ≠ q.toNat → d ≠ q := by
      rintro q hq hne rfl
      omega
    simp only [isPlain, Bool.and_eq_true, decide_eq_true_eq]
    exact ⟨⟨hne _ (by decide) hquote, hne _ (by decide) hslash⟩, by omega⟩
  obtain ⟨hcontrol, h⟩ := require_bind_eq_ok_iff.mp h
  split_ifs at h with hhigh
  · cases us with
    | nil => cases h
    | cons low us =>
      obtain ⟨hlow, h⟩ := require_bind_eq_ok_iff.mp h
      obtain ⟨rfl, rfl⟩ := Prod.mk.inj (Except.ok.inj h)
      have hunits := Utf16.units_pair hhigh hlow
      refine ⟨hplain (.inr ?_) hcontrol, by rw [Utf16.encode_cons, hunits]; rfl⟩
      by_contra hlt
      rw [units_of_lt (by omega)] at hunits
      exact absurd (List.cons.inj hunits).2.symm (List.cons_ne_nil _ _)
  · rw [Bool.not_eq_true] at hhigh
    obtain ⟨hlow, h⟩ := require_bind_eq_ok_iff.mp h
    obtain ⟨rfl, rfl⟩ := Prod.mk.inj (Except.ok.inj h)
    have hnat := toNat_ofNat hhigh hlow hus
    exact ⟨hplain (.inl hnat) hcontrol,
      by rw [Utf16.encode_cons, units_of_lt (by omega), hnat]; rfl⟩

/-- The code units of a spelling are read in one round of the loop. -/
theorem parseUnits_spelling {c : Char} {piece : List Char} (h : Spelling c piece) (rounds : ℕ)
    (us : List ℕ) : parseUnits (rounds + 1) (Utf16.encode piece ++ us) =
      parseUnits rounds us >>= fun p => pure (c :: p.1, p.2) := by
  have hescape : ∀ rest, Spelling c ('\\' :: rest) →
      parseUnits (rounds + 1) (Utf16.encode ('\\' :: rest) ++ us) =
        parseUnits rounds us >>= fun p => pure (c :: p.1, p.2) := by
    intro rest hrest
    change parseUnits (rounds + 1) ('\\'.toNat :: (Utf16.encode rest ++ us)) = _
    rw [parseUnits, if_neg (by decide), if_pos rfl, parseEscape_complete hrest, ok_bind]
  cases h with
  | simple he => exact hescape _ (.simple he)
  | hex hunit hc => exact hescape _ (.hex hunit hc)
  | pair hfirst hsecond hhigh hlow hc => exact hescape _ (.pair hfirst hsecond hhigh hlow hc)
  | plain hc =>
    obtain ⟨u, vs, hsplit, hquote, hslash, hread⟩ := parseRaw_complete hc us
    rw [hsplit, parseUnits, if_neg hquote, if_neg hslash, hread, ok_bind]

/-- A spelled literal is read up to the closing quote. -/
theorem parseUnits_complete {cs body : List Char} (h : Spelled cs body) {rounds : ℕ}
    (hrounds : cs.length < rounds) (r : List ℕ) :
    parseUnits rounds (Utf16.encode body ++ '"'.toNat :: r) = .ok (cs, r) := by
  induction h generalizing rounds with
  | nil =>
    obtain _ | rounds := rounds
    · exact absurd hrounds (Nat.not_lt_zero _)
    · exact if_pos rfl
  | cons hc _ ih =>
    obtain _ | rounds := rounds
    · exact absurd hrounds (Nat.not_lt_zero _)
    · rw [encode_append, List.append_assoc, parseUnits_spelling hc,
        ih (Nat.lt_of_succ_lt_succ hrounds)]
      rfl

/-- A text that is read is spelled up to the closing quote. -/
theorem parseUnits_sound {rounds : ℕ} {us r : List ℕ} {cs : List Char} (hus : Short us)
    (h : parseUnits rounds us = .ok (cs, r)) :
    ∃ body, Spelled cs body ∧ us = Utf16.encode body ++ '"'.toNat :: r := by
  induction rounds generalizing us cs with
  | zero => cases h
  | succ rounds ih =>
    match us, h with
    | u :: us, h =>
      rw [parseUnits] at h
      split_ifs at h with hquote hslash
      · obtain ⟨rfl, rfl⟩ := Prod.mk.inj (Except.ok.inj h)
        exact ⟨[], .nil, by rw [hquote]; rfl⟩
      all_goals
        obtain ⟨⟨c, vs⟩, hc, h⟩ := bind_eq_ok_iff.mp h
        obtain ⟨⟨ds, r'⟩, hds, h⟩ := bind_eq_ok_iff.mp h
        obtain ⟨rfl, rfl⟩ := Prod.mk.inj (Except.ok.inj h)
      · obtain ⟨piece, hpiece, rfl⟩ := parseEscape_sound hc
        obtain ⟨body, hbody, rfl⟩ := ih hus.tail.of_append hds
        refine ⟨_, .cons hpiece hbody, ?_⟩
        rw [hslash, encode_append, List.append_assoc]
        rfl
      · obtain ⟨hplain, hsplit⟩ := parseRaw_sound (hus u List.mem_cons_self) hquote hslash hc
        rw [hsplit] at hus
        obtain ⟨body, hbody, rfl⟩ := ih hus.of_append hds
        exact ⟨_, .cons (.plain hplain) hbody, by rw [hsplit, encode_append, List.append_assoc]⟩

/-- A spelling has a character. -/
theorem Spelled.length_le {cs body : List Char} (h : Spelled cs body) :
    cs.length ≤ body.length := by
  induction h with
  | nil => exact Nat.le_refl _
  | cons hc _ ih =>
    have hpos := List.length_pos_iff.mpr hc.ne_nil
    rw [List.length_cons, List.length_append]
    omega

/-- A literal of a text is read as the text. -/
theorem parseString_complete {s : String} {cs : List Char} (h : StringLiteral s cs)
    (r : List ℕ) : ∃ tail, cs = '"' :: tail ∧ parseString (Utf16.encode tail ++ r) = .ok (s, r) := by
  obtain ⟨body, hbody, rfl⟩ := h
  refine ⟨_, rfl, ?_⟩
  have hspelled := spelled_iff.mpr hbody
  have hlen := hspelled.length_le
  have hunits := length_le_encode body
  rw [parseString, encode_append, List.append_assoc]
  change (parseUnits _ (Utf16.encode body ++ '"'.toNat :: r) >>= _) = _
  rw [parseUnits_complete hspelled (by rw [List.length_append]; omega), ok_bind]
  simp only [String.ofList_toList]
  rfl

/-- A text that is read has the literal that was read. -/
theorem parseString_sound {us r : List ℕ} {s : String} (hus : Short us)
    (h : parseString us = .ok (s, r)) :
    ∃ tail, StringLiteral s ('"' :: tail) ∧ us = Utf16.encode tail ++ r := by
  obtain ⟨⟨cs, r'⟩, hcs, h⟩ := bind_eq_ok_iff.mp h
  obtain ⟨rfl, rfl⟩ := Prod.mk.inj (Except.ok.inj h)
  obtain ⟨body, hbody, rfl⟩ := parseUnits_sound hus hcs
  refine ⟨body ++ ['"'], ⟨body, by rw [String.toList_ofList]; exact spelled_iff.mp hbody, rfl⟩, ?_⟩
  rw [encode_append, List.append_assoc]
  rfl

end Reader

end Kdna.Contract

import Kdna.Contract.Parse
import Kdna.Json.Grammar
import Mathlib

/-!
# Tokens on code units

The reader works on code units and the grammar on scalars. A token that is read is the
encoding of a token of the grammar, and every token of the grammar is read.
-/

namespace Kdna.Contract

/-- A text without characters beyond ASCII. -/
def Ascii (cs : List Char) : Prop := ∀ c ∈ cs, 0 < c.toNat ∧ c.toNat < 0x80

theorem ascii_of_all {cs : List Char}
    (h : (cs.all fun c => 0 < c.toNat && c.toNat < 0x80) = true) : Ascii cs := by
  intro c hc
  simpa using List.all_eq_true.mp h c hc

/-- A code unit that stands for a scalar other than zero is its number. -/
theorem eq_toNat_of_ofNat {u : ℕ} {c : Char} (h : Char.ofNat u = c) (hc : 0 < c.toNat) :
    u = c.toNat := by
  subst h
  unfold Char.ofNat at hc ⊢
  split_ifs at hc ⊢ with hu
  · rfl
  · exact absurd hc (by decide)

theorem encode_append (cs ds : List Char) :
    Utf16.encode (cs ++ ds) = Utf16.encode cs ++ Utf16.encode ds :=
  List.flatMap_append

/-- The code units of an ASCII text are its characters. -/
theorem encode_ascii {cs : List Char} (h : Ascii cs) : Utf16.encode cs = cs.map Char.toNat := by
  induction cs with
  | nil => rfl
  | cons c cs ih =>
    have hc := (h c List.mem_cons_self).2
    rw [Utf16.encode_cons, ih fun d hd => h d (.tail _ hd), Utf16.units, if_pos (by omega)]
    rfl

/-- Code units that stand for the characters of an ASCII text are its encoding. -/
theorem eq_encode_of_map {us : List ℕ} {cs : List Char} (h : us.map Char.ofNat = cs)
    (hcs : Ascii cs) : us = Utf16.encode cs := by
  rw [encode_ascii hcs, ← h, List.map_map]
  refine (List.map_id us).symm.trans (List.map_congr_left fun u hu => ?_)
  exact eq_toNat_of_ofNat rfl (hcs _ (h ▸ List.mem_map_of_mem hu)).1

theorem map_ofNat_encode {cs : List Char} (h : Ascii cs) :
    (Utf16.encode cs).map Char.ofNat = cs := by
  rw [encode_ascii h, List.map_map]
  exact (List.map_congr_left fun c _ => Char.ofNat_toNat c).trans (List.map_id cs)

section Whitespace

/-- Whitespace is ASCII. -/
theorem ascii_of_space {a : List Char} (ha : Space a) : Ascii a := by
  intro c hc
  have h := ha c hc
  simp only [isSpace, Bool.or_eq_true, beq_iff_eq] at h
  rcases h with ((rfl | rfl) | rfl) | rfl <;> exact by decide

theorem isBlank_toNat {c : Char} : isBlank c.toNat = isSpace c := by
  have h : ∀ d : Char, (c.toNat == d.toNat) = (c == d) := by
    intro d
    rw [Bool.eq_iff_iff, beq_iff_eq, beq_iff_eq, Char.toNat_inj]
  rw [Bool.eq_iff_iff, isBlank, isSpace, ← h ' ', ← h '\t', ← h '\n', ← h '\r']
  simp only [Bool.or_eq_true, beq_iff_eq]
  constructor
  · rintro (((h | h) | h) | h) <;> simp [h]
  · rintro (((h | h) | h) | h) <;> simp [h]

/-- A code unit of whitespace is a character of it. -/
theorem isSpace_ofNat {u : ℕ} (h : isBlank u = true) :
    isSpace (Char.ofNat u) = true ∧ (Char.ofNat u).toNat = u := by
  simp only [isBlank, Bool.or_eq_true, beq_iff_eq] at h
  rcases h with ((rfl | rfl) | rfl) | rfl <;> exact by decide

/-- What is skipped is whitespace. -/
theorem skipWhitespace_split (us : List ℕ) :
    ∃ a, Space a ∧ us = Utf16.encode a ++ skipWhitespace us := by
  have hblank : ∀ u ∈ us.takeWhile isBlank, isBlank u = true :=
    List.all_eq_true.mp List.all_takeWhile
  have hspace : Space ((us.takeWhile isBlank).map Char.ofNat) := by
    intro c hc
    obtain ⟨u, hu, rfl⟩ := List.mem_map.mp hc
    exact (isSpace_ofNat (hblank u hu)).1
  refine ⟨_, hspace, ?_⟩
  rw [← eq_encode_of_map rfl (ascii_of_space hspace), skipWhitespace,
    List.takeWhile_append_dropWhile]

/-- Whitespace is skipped up to a text that starts with none. -/
theorem skipWhitespace_append {a : List Char} (ha : Space a) {us : List ℕ}
    (hus : ∀ u, us.head? = some u → isBlank u = false) :
    skipWhitespace (Utf16.encode a ++ us) = us := by
  rw [encode_ascii (ascii_of_space ha), skipWhitespace, List.dropWhile_append_of_pos]
  · cases us with
    | nil => rfl
    | cons u us => exact List.dropWhile_cons_of_neg (by simp [hus u rfl])
  · intro u hu
    obtain ⟨c, hc, rfl⟩ := List.mem_map.mp hu
    rw [isBlank_toNat]
    exact ha c hc

theorem skipWhitespace_skipWhitespace (us : List ℕ) :
    skipWhitespace (skipWhitespace us) = skipWhitespace us := by
  refine skipWhitespace_append (a := []) (List.forall_mem_nil _) fun u hu => ?_
  have h := List.head?_dropWhile_not isBlank us
  change (us.dropWhile isBlank).head? = some u at hu
  rw [hu] at h
  simpa using h

end Whitespace

section Numbers

/-- A digit, or one of the marks of a number. -/
theorem ascii_of_isDigit {cs : List Char} (h : ∀ c ∈ cs, c.isDigit = true) : Ascii cs := by
  intro c hc
  have hdigit := Char.isDigit_iff_toNat.mp (h c hc)
  simp only [show '0'.toNat = 48 from rfl, show '9'.toNat = 57 from rfl] at hdigit
  omega

theorem Ascii.append {cs ds : List Char} (hc : Ascii cs) (hd : Ascii ds) : Ascii (cs ++ ds) :=
  fun c h => (List.mem_append.mp h).elim (hc c) (hd c)

theorem Ascii.cons {c : Char} {cs : List Char} (hc : 0 < c.toNat ∧ c.toNat < 0x80)
    (hcs : Ascii cs) : Ascii (c :: cs) :=
  List.forall_mem_cons.mpr ⟨hc, hcs⟩

/-- A canonical number has digits only. -/
theorem isDigit_of_isCanonicalNumber {cs : List Char} (h : isCanonicalNumber cs = true) :
    ∀ c ∈ cs, c.isDigit = true := by
  obtain ⟨c, ds, rfl, hc⟩ := head_of_isCanonicalNumber h
  unfold isCanonicalNumber at h
  split at h
  · rename_i heq
    rw [heq]
    exact List.forall_mem_singleton.mpr rfl
  · rename_i heq
    obtain ⟨rfl, rfl⟩ := List.cons.inj heq
    simp only [Bool.and_eq_true, List.all_eq_true] at h
    exact List.forall_mem_cons.mpr ⟨hc, h.2⟩
  · cases h

/-- The text of a literal is ASCII. -/
theorem ascii_text {t : NumberToken} (ht : t.Valid) : Ascii t.text := by
  have hsign : Ascii (if t.negative then ['-'] else []) := by
    split_ifs
    · exact fun c hc => by rw [List.mem_singleton.mp hc]; decide
    · exact List.forall_mem_nil _
  have hfraction : Ascii t.fractionText := by
    unfold NumberToken.fractionText
    split_ifs
    · exact List.forall_mem_nil _
    · exact .cons (by decide) (ascii_of_isDigit ht.fraction)
  have hexponent : Ascii t.exponentText := by
    unfold NumberToken.exponentText
    cases he : t.exponent with
    | none => exact List.forall_mem_nil _
    | some e =>
      obtain ⟨hmark, hesign, -, hdigits⟩ := ht.exponent e he
      refine .cons ?_ (.append ?_ (ascii_of_isDigit hdigits))
      · rcases hmark with hmark | hmark <;> rw [hmark] <;> decide
      · rcases hesign with hesign | hesign | hesign <;> rw [hesign] <;> exact ascii_of_all rfl
  exact .append hsign (.append (ascii_of_isDigit (isDigit_of_isCanonicalNumber ht.whole))
    (.append hfraction hexponent))

/-- A number that is read has a literal. -/
theorem parseNumber_sound {us r : List ℕ} {v : Json} (h : parseNumber us = .ok (v, r)) :
    ∃ x c, v = .num x ∧ NumberLiteral x c ∧ us = Utf16.encode c ++ r := by
  obtain ⟨⟨token, rest⟩, htoken, h⟩ := bind_eq_ok_iff.mp h
  obtain ⟨x, hx, h⟩ := bind_eq_ok_iff.mp h
  obtain ⟨rfl, rfl⟩ := Prod.mk.inj (Except.ok.inj h)
  rw [orFail_eq_ok_iff] at htoken hx
  obtain ⟨hvalid, hsplit⟩ := matchNumber_sound htoken
  refine ⟨x, token.text, rfl, ⟨token, hvalid, hx, rfl⟩, ?_⟩
  have htext : (us.take token.text.length).map Char.ofNat = token.text := by
    rw [List.map_take, hsplit, List.take_left]
  rw [← eq_encode_of_map htext (ascii_text hvalid), List.take_append_drop]

/-- A literal is read when nothing behind it goes on the number. -/
theorem parseNumber_complete {x : Binary64} {c : List Char} (h : NumberLiteral x c) {r : List ℕ}
    (hr : Ends (r.map Char.ofNat)) : parseNumber (Utf16.encode c ++ r) = .ok (.num x, r) := by
  obtain ⟨token, hvalid, hx, rfl⟩ := h
  have hascii := ascii_text hvalid
  have hmatch := matchNumber_complete hvalid hr
  rw [← congrArg (· ++ r.map Char.ofNat) (map_ofNat_encode hascii), ← List.map_append] at hmatch
  rw [parseNumber, hmatch, orFail, ok_bind]
  simp only
  rw [hx, orFail, ok_bind, encode_ascii hascii, List.drop_left' (List.length_map _)]
  rfl

end Numbers

end Kdna.Contract

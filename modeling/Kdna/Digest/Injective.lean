import Kdna.Digest.Preimage

/-!
# Preimages tell entry sets apart

Equal preimages come from entry sets with the same covered names and the same contents as
the preimage sees them, whatever the order in which the entries are enumerated. The rows
of a signature are joined by line feeds without their lengths, so that there the names
must not hold one.
-/

namespace Kdna.Digest

open Value

section Rows

variable {json covers : String → Bool} {value : String → Json → Except Failure Json}

/-- Two byte strings under one name are the same content: the same octets, or the same
canonical JSON of what is left of the values. -/
def SameContent (json : String → Bool) (value : String → Json → Except Failure Json)
    (name : String) (c c' : Bytes) : Prop :=
  if json name then ∃ v v' w w' text, parseJson c = .ok v ∧ parseJson c' = .ok v' ∧
    value name v = .ok w ∧ value name v' = .ok w' ∧
    canonicalJson w = .ok text ∧ canonicalJson w' = .ok text
  else c = c'

/-- Two entry sets with the same covered names and the same contents under them. -/
structure Agree (covers json : String → Bool) (value : String → Json → Except Failure Json)
    (e e' : EntrySet) : Prop where
  names : ∀ name, covers name →
    (name ∈ e.rows.map Prod.fst ↔ name ∈ e'.rows.map Prod.fst)
  contents : ∀ name, covers name → ∀ c c', (name, c) ∈ e.rows → (name, c') ∈ e'.rows →
    SameContent json value name c c'

/-- Rows that stand for one entry. -/
def SameRow (json : String → Bool) (value : String → Json → Except Failure Json)
    (row row' : String × Bytes) : Prop :=
  row.1 = row'.1 ∧ ∃ c, contentOf json value row = .ok c ∧ contentOf json value row' = .ok c

theorem sameContent_of_contentOf {name : String} {c c' content : Bytes}
    (h : contentOf json value (name, c) = .ok content)
    (h' : contentOf json value (name, c') = .ok content) : SameContent json value name c c' := by
  rw [contentOf] at h h'
  rw [SameContent]
  by_cases hjson : json name = true
  · rw [if_pos hjson] at h h' ⊢
    simp only [canonicalBytes, bind_eq_ok_iff, pure_eq_ok, Except.ok.injEq] at h h'
    obtain ⟨v, hv, w, hw, text, htext, rfl⟩ := h
    obtain ⟨v', hv', w', hw', text', htext', heq⟩ := h'
    obtain rfl := Utf8.encode_injective heq
    exact ⟨v, v', w, w', _, hv, hv', hw, hw', htext, htext'⟩
  · rw [if_neg hjson] at h h' ⊢
    exact (Except.ok.inj h).trans (Except.ok.inj h').symm

theorem mem_coveredRows {entries : EntrySet} {row : String × Bytes} :
    row ∈ coveredRows covers entries ↔ row ∈ entries.rows ∧ covers row.1 = true := by
  rw [coveredRows, List.mem_filter, (sortByUtf8_perm _ _).mem_iff]

/-- The content of an entry set under a name is unique. -/
theorem EntrySet.eq_of_mem {e : EntrySet} {name : String} {c c' : Bytes} (h : (name, c) ∈ e.rows)
    (h' : (name, c') ∈ e.rows) : c = c' :=
  (Prod.mk.inj (List.inj_on_of_nodup_map e.nodup h h' rfl)).2

/-- Entry sets whose covered rows stand for the same entries agree. -/
theorem agree_of_forall₂ {e e' : EntrySet}
    (h : List.Forall₂ (SameRow json value) (coveredRows covers e) (coveredRows covers e')) :
    Agree covers json value e e' := by
  constructor
  case names =>
    intro name hname
    constructor
    · intro hmem
      obtain ⟨row, hrow, rfl⟩ := List.mem_map.mp hmem
      obtain ⟨row', hrow', heq, -⟩ := exists_mem_forall₂ h (mem_coveredRows.mpr ⟨hrow, hname⟩)
      exact List.mem_map.mpr ⟨row', (mem_coveredRows.mp hrow').1, heq.symm⟩
    · intro hmem
      obtain ⟨row', hrow', rfl⟩ := List.mem_map.mp hmem
      obtain ⟨row, hrow, heq, -⟩ := exists_of_mem_forall₂ h (mem_coveredRows.mpr ⟨hrow', hname⟩)
      exact List.mem_map.mpr ⟨row, (mem_coveredRows.mp hrow).1, heq⟩
  case contents =>
    intro name hname c c' hc hc'
    obtain ⟨⟨name', d⟩, hd, heq, content, hcontent, hcontent'⟩ :=
      exists_mem_forall₂ h (mem_coveredRows.mpr ⟨hc, hname⟩)
    obtain rfl : name = name' := heq
    obtain rfl := e'.eq_of_mem hc' (mem_coveredRows.mp hd).1
    exact sameContent_of_contentOf hcontent hcontent'

end Rows

section Words

variable {width number : ℕ} {b bytes : Bytes}

/-- An accepted count fits its word. -/
theorem word_spec (hwidth : width = 4 ∨ width = 8) (h : word number width = .ok b) :
    number < 256 ^ width ∧ b = Bytes.beWord width number := by
  rw [word, require_bind_eq_ok_iff] at h
  obtain ⟨⟨hsafe, hfour⟩, hword⟩ := h
  refine ⟨?_, (Except.ok.inj hword).symm⟩
  rw [maxSafeInteger] at hsafe
  rcases hwidth with rfl | rfl
  · have hle := hfour rfl
    omega
  · omega

theorem sized_spec (hwidth : width = 4 ∨ width = 8) (h : sized width bytes = .ok b) :
    bytes.length < 256 ^ width ∧ b = Bytes.field width bytes := by
  simp only [sized, bind_eq_ok_iff, pure_eq_ok, Except.ok.injEq] at h
  obtain ⟨w, hw, rfl⟩ := h
  obtain ⟨hlt, rfl⟩ := word_spec hwidth hw
  exact ⟨hlt, rfl⟩

theorem nameBytes_spec {name : String} (h : nameBytes name = .ok b) : b = Utf8.encode name := by
  rw [nameBytes, require_bind_eq_ok_iff] at h
  exact (Except.ok.inj h.2).symm

end Words

/-- What a row of the content tree says. -/
structure TreePiece where
  name : Bytes
  mode : UInt8
  content : Bytes

/-- A name and a content that fit their words. -/
def TreePiece.Fits (p : TreePiece) : Prop :=
  p.name.length < 256 ^ 4 ∧ p.content.length < 256 ^ 8

/-- The octets of a row. -/
def TreePiece.bytes (p : TreePiece) : Bytes :=
  Bytes.field 4 p.name ++ [p.mode] ++ Bytes.field 8 p.content

/-- A row of the content tree ends where it says. -/
theorem TreePiece.bytes_append_inj {p q : TreePiece} {x y : Bytes} (hp : p.Fits) (hq : q.Fits)
    (h : p.bytes ++ x = q.bytes ++ y) : p = q ∧ x = y := by
  simp only [bytes, List.append_assoc] at h
  obtain ⟨hname, h⟩ := Bytes.field_append_inj hp.1 hq.1 h
  obtain ⟨hmode, h⟩ := List.cons.inj h
  obtain ⟨hcontent, hrest⟩ := Bytes.field_append_inj hp.2 hq.2 h
  obtain ⟨name, mode, content⟩ := p
  obtain ⟨name', mode', content'⟩ := q
  obtain rfl : name = name' := hname
  obtain rfl : mode = mode' := hmode
  obtain rfl : content = content' := hcontent
  exact ⟨rfl, hrest⟩

/-- The piece of a row. -/
def IsPiece (row : String × Bytes) (p : TreePiece) : Prop :=
  p.Fits ∧ p.name = Utf8.encode row.1 ∧ treeContent row = .ok p.content

theorem treeRow_spec {row : String × Bytes} {b : Bytes} (h : treeRow row = .ok b) :
    ∃ p, IsPiece row p ∧ b = p.bytes := by
  simp only [treeRow, bind_eq_ok_iff, pure_eq_ok, Except.ok.injEq] at h
  obtain ⟨content, hcontent, name, hname, first, hfirst, second, hsecond, rfl⟩ := h
  obtain rfl := nameBytes_spec hname
  obtain ⟨hlt, rfl⟩ := sized_spec (.inl rfl) hfirst
  obtain ⟨hlt', rfl⟩ := sized_spec (.inr rfl) hsecond
  exact ⟨⟨_, if isJson row.1 then 0 else 1, content⟩, ⟨⟨hlt, hlt'⟩, rfl, hcontent⟩, rfl⟩

/-- The content tree as the pieces of its rows. -/
theorem contentTreePreimage_spec {e : EntrySet} {b : Bytes} (h : contentTreePreimage e = .ok b) :
    ∃ pieces, List.Forall₂ IsPiece (coveredRows inTree e) pieces ∧
      pieces.length < 256 ^ 4 ∧
      b = Utf8.encode "KDNA-CONTENT-TREE\x000.2.0\x00" ++
        (Bytes.beWord 4 pieces.length ++ pieces.flatMap TreePiece.bytes) := by
  simp only [contentTreePreimage, bind_eq_ok_iff, pure_eq_ok, Except.ok.injEq] at h
  obtain ⟨-, -, count, hcount, rows, hrows, rfl⟩ := h
  obtain ⟨hlt, rfl⟩ := word_spec (.inl rfl) hcount
  rw [mapM_eq_ok_iff] at hrows
  obtain ⟨pieces, hpieces, hflatten⟩ : ∃ pieces,
      List.Forall₂ IsPiece (coveredRows inTree e) pieces ∧
        rows.flatten = pieces.flatMap TreePiece.bytes := by
    generalize coveredRows inTree e = covered at hrows
    induction hrows with
    | nil => exact ⟨[], .nil, rfl⟩
    | cons hrow _ ih =>
      obtain ⟨p, hp, rfl⟩ := treeRow_spec hrow
      obtain ⟨pieces, hpieces, hflatten⟩ := ih
      exact ⟨p :: pieces, .cons hp hpieces, by rw [List.flatten_cons, hflatten, List.flatMap_cons]⟩
  refine ⟨pieces, hpieces, ?_, ?_⟩
  · rwa [← hpieces.length_eq]
  · rw [hflatten, hpieces.length_eq, List.append_assoc]

/-- Content trees with one preimage cover the same entries. -/
theorem contentTreePreimage_inj {e e' : EntrySet} {b : Bytes} (h : contentTreePreimage e = .ok b)
    (h' : contentTreePreimage e' = .ok b) : Agree inTree isJson treeValue e e' := by
  obtain ⟨pieces, hpieces, hlt, rfl⟩ := contentTreePreimage_spec h
  obtain ⟨pieces', hpieces', hlt', heq⟩ := contentTreePreimage_spec h'
  obtain ⟨hlength, heq⟩ := Bytes.beWord_append_inj hlt hlt' (List.append_cancel_left heq)
  have hfits {e : EntrySet} {pieces : List TreePiece}
      (h : List.Forall₂ IsPiece (coveredRows inTree e) pieces) : ∀ p ∈ pieces, p.Fits := by
    intro p hp
    obtain ⟨row, -, hrow⟩ := exists_of_mem_forall₂ h hp
    exact hrow.1
  obtain rfl := flatMap_inj_of_delimited (fun p q x y hp hq => p.bytes_append_inj hp hq)
    hlength (hfits hpieces) (hfits hpieces') heq
  refine agree_of_forall₂ (forall₂_of_common hpieces hpieces' ?_)
  rintro row p row' ⟨-, hname, hcontent⟩ ⟨-, hname', hcontent'⟩
  exact ⟨Utf8.encode_injective (hname.symm.trans hname'), p.content, hcontent, hcontent'⟩

/-- What a row of the runtime entries says: a name and a content. -/
def RuntimeFits (p : Bytes × Bytes) : Prop := p.1.length < 256 ^ 4 ∧ p.2.length < 256 ^ 8

/-- The octets of a row of the runtime entries. -/
def runtimeBytes (p : Bytes × Bytes) : Bytes := Bytes.field 4 p.1 ++ Bytes.field 8 p.2

theorem runtimeBytes_append_inj {p q : Bytes × Bytes} {x y : Bytes} (hp : RuntimeFits p)
    (hq : RuntimeFits q) (h : runtimeBytes p ++ x = runtimeBytes q ++ y) : p = q ∧ x = y := by
  simp only [runtimeBytes, List.append_assoc] at h
  obtain ⟨hname, h⟩ := Bytes.field_append_inj hp.1 hq.1 h
  obtain ⟨hcontent, hrest⟩ := Bytes.field_append_inj hp.2 hq.2 h
  exact ⟨Prod.ext hname hcontent, hrest⟩

/-- The row of a runtime entry. -/
def IsRuntimePiece (e : EntrySet) (name : String) (p : Bytes × Bytes) : Prop :=
  RuntimeFits p ∧ p.1 = Utf8.encode name ∧ e.get name = some p.2

theorem runtimeRow_spec {e : EntrySet} {name : String} {b : Bytes}
    (h : runtimeRow e name = .ok b) : ∃ p, IsRuntimePiece e name p ∧ b = runtimeBytes p := by
  simp only [runtimeRow, bind_eq_ok_iff, orFail_eq_ok_iff, pure_eq_ok, Except.ok.injEq] at h
  obtain ⟨bytes, hname, content, hcontent, first, hfirst, second, hsecond, rfl⟩ := h
  obtain rfl := nameBytes_spec hname
  obtain ⟨hlt, rfl⟩ := sized_spec (.inl rfl) hfirst
  obtain ⟨hlt', rfl⟩ := sized_spec (.inr rfl) hsecond
  exact ⟨(_, content), ⟨⟨hlt, hlt'⟩, rfl, hcontent⟩, rfl⟩

/-- The set of runtime entries as the pieces of its rows. -/
theorem runtimeEntryPreimage_spec {e : EntrySet} {manifest : Json} {b : Bytes}
    (h : runtimeEntryPreimage e manifest = .ok b) :
    ∃ names pieces, runtimeEntryNames e manifest = .ok names ∧
      List.Forall₂ (IsRuntimePiece e) names pieces ∧ pieces.length < 256 ^ 4 ∧
      b = Utf8.encode "KDNA-RUNTIME-ENTRY-SET\x000.2.0\x00" ++
        (Bytes.beWord 4 pieces.length ++ pieces.flatMap runtimeBytes) := by
  simp only [runtimeEntryPreimage, bind_eq_ok_iff, pure_eq_ok, Except.ok.injEq] at h
  obtain ⟨names, hnames, count, hcount, rows, hrows, rfl⟩ := h
  obtain ⟨hlt, rfl⟩ := word_spec (.inl rfl) hcount
  rw [mapM_eq_ok_iff] at hrows
  obtain ⟨pieces, hpieces, hflatten⟩ : ∃ pieces, List.Forall₂ (IsRuntimePiece e) names pieces ∧
      rows.flatten = pieces.flatMap runtimeBytes := by
    clear hcount hlt hnames
    induction hrows with
    | nil => exact ⟨[], .nil, rfl⟩
    | cons hrow _ ih =>
      obtain ⟨p, hp, rfl⟩ := runtimeRow_spec hrow
      obtain ⟨pieces, hpieces, hflatten⟩ := ih
      exact ⟨p :: pieces, .cons hp hpieces, by rw [List.flatten_cons, hflatten, List.flatMap_cons]⟩
  refine ⟨names, pieces, hnames, hpieces, ?_, ?_⟩
  · rwa [← hpieces.length_eq]
  · rw [hflatten, hpieces.length_eq, List.append_assoc]

/-- Sets of runtime entries with one preimage have the same names and contents. -/
theorem runtimeEntryPreimage_inj {e e' : EntrySet} {m m' : Json} {b : Bytes}
    (h : runtimeEntryPreimage e m = .ok b) (h' : runtimeEntryPreimage e' m' = .ok b) :
    ∃ names, runtimeEntryNames e m = .ok names ∧ runtimeEntryNames e' m' = .ok names ∧
      ∀ name ∈ names, ∃ content, e.get name = some content ∧ e'.get name = some content := by
  obtain ⟨names, pieces, hnames, hpieces, hlt, rfl⟩ := runtimeEntryPreimage_spec h
  obtain ⟨names', pieces', hnames', hpieces', hlt', heq⟩ := runtimeEntryPreimage_spec h'
  obtain ⟨hlength, heq⟩ := Bytes.beWord_append_inj hlt hlt' (List.append_cancel_left heq)
  have hfits {e : EntrySet} {names : List String} {pieces : List (Bytes × Bytes)}
      (h : List.Forall₂ (IsRuntimePiece e) names pieces) : ∀ p ∈ pieces, RuntimeFits p := by
    intro p hp
    obtain ⟨name, -, hname⟩ := exists_of_mem_forall₂ h hp
    exact hname.1
  obtain rfl := flatMap_inj_of_delimited (fun p q x y hp hq => runtimeBytes_append_inj hp hq)
    hlength (hfits hpieces) (hfits hpieces') heq
  have hboth : List.Forall₂ (fun name name' => name = name' ∧
      ∃ content, e.get name = some content ∧ e'.get name = some content) names names' := by
    refine forall₂_of_common hpieces hpieces' ?_
    rintro name p name' ⟨-, hname, hcontent⟩ ⟨-, hname', hcontent'⟩
    obtain rfl : name = name' := Utf8.encode_injective (hname.symm.trans hname')
    exact ⟨rfl, p.2, hcontent, hcontent'⟩
  obtain rfl : names = names' := List.forall₂_eq_eq_eq ▸ hboth.imp fun _ _ h => h.1
  refine ⟨names, hnames, hnames', fun name hname => ?_⟩
  obtain ⟨name', -, rfl, hcontent⟩ := exists_mem_forall₂ hboth hname
  exact hcontent

section Hex

theorem digitChar_inj {m n : ℕ} (hm : m < 16) (hn : n < 16) (h : m.digitChar = n.digitChar) :
    m = n := by
  have hall : ∀ m < 16, ∀ n < 16, Nat.digitChar m = Nat.digitChar n → m = n := by decide
  exact hall m hm n hn h

theorem digitChar_ne_newline {n : ℕ} (hn : n < 16) : n.digitChar ≠ '\n' := by
  have hall : ∀ n < 16, Nat.digitChar n ≠ '\n' := by decide
  exact hall n hn

/-- The digits of an octet tell it. -/
theorem hexPair_inj {m n : UInt8} (h : hexPair m = hexPair n) : m = n := by
  have hm := m.toNat_lt
  have hn := n.toNat_lt
  simp only [hexPair, List.cons.injEq, and_true] at h
  have hhigh := digitChar_inj (by omega) (by omega) h.1
  have hlow := digitChar_inj (Nat.mod_lt _ (by decide)) (Nat.mod_lt _ (by decide)) h.2
  exact UInt8.toNat_inj.mp (by omega)

variable {sha256 : Bytes → Vector UInt8 32} {bytes bytes' : Bytes}

theorem newline_not_mem_hex : '\n' ∉ hex sha256 bytes := by
  intro hmem
  obtain ⟨n, -, hn⟩ := List.mem_flatMap.mp hmem
  have hlt := n.toNat_lt
  simp only [hexPair, List.mem_cons, List.not_mem_nil, or_false] at hn
  rcases hn with heq | heq
  · exact digitChar_ne_newline (by omega) heq.symm
  · exact digitChar_ne_newline (Nat.mod_lt _ (by decide)) heq.symm

theorem length_hex : (hex sha256 bytes).length = 64 := by
  rw [hex, List.length_flatMap]
  have hpair (n : UInt8) : (hexPair n).length = 2 := rfl
  simp [hpair]

/-- The digits of a digest tell it. -/
theorem hex_inj (h : hex sha256 bytes = hex sha256 bytes') : sha256 bytes = sha256 bytes' := by
  have hpiece (m n : UInt8) (x y : List Char) (_ : True) (_ : True)
      (heq : hexPair m ++ x = hexPair n ++ y) : m = n ∧ x = y := by
    obtain ⟨hpair, hrest⟩ := List.append_inj heq rfl
    exact ⟨hexPair_inj hpair, hrest⟩
  have hlist : (sha256 bytes).toList = (sha256 bytes').toList :=
    flatMap_inj_of_delimited hpiece (by simp) (fun _ _ => trivial) (fun _ _ => trivial) h
  exact Vector.toList_inj.mp hlist

theorem drop_digest : (digest sha256 bytes).toList.drop 7 = hex sha256 bytes := by
  simp [digest]

end Hex

/-- The names that a signature covers hold no line feed. -/
def SingleLine (e : EntrySet) : Prop :=
  ∀ row ∈ e.rows, isSigned row.1 → '\n' ∉ row.1.toList

/-- An entry name that the strict input layer accepts holds no line feed. -/
theorem newline_not_mem_of_entryName {name : String} (h : entryName name = true) :
    '\n' ∉ name.toList := by
  simp only [entryName, scalarString, Bool.and_eq_true, Bool.or_eq_true, List.all_eq_true] at h
  have hcontrol := h.1.1.1.1.2.1
  intro hmem
  have hnewline := hcontrol.resolve_left (by decide) _ hmem
  exact absurd hnewline (by decide)

/-- Admitted entry sets are single-line. -/
theorem singleLine_of_admitNames {e : EntrySet} (h : admitNames e = .ok ()) : SingleLine e := by
  intro row hrow _
  rw [admitNames, require_eq_ok_iff] at h
  have hadmitted := h row.1 (List.mem_map_of_mem hrow)
  simp only [admitted, Bool.and_eq_true] at hadmitted
  exact newline_not_mem_of_entryName hadmitted.1.1.1

/-- No two of the signed contents collide. -/
def CollisionFree (sha256 : Bytes → Vector UInt8 32) (e e' : EntrySet) : Prop :=
  ∀ row ∈ coveredRows isSigned e, ∀ row' ∈ coveredRows isSigned e', ∀ c c',
    signedContent row = .ok c → signedContent row' = .ok c' → sha256 c = sha256 c' → c = c'

section Signature

variable {sha256 : Bytes → Vector UInt8 32}

theorem signatureRow_spec {row : String × Bytes} {line : List Char}
    (h : signatureRow sha256 row = .ok line) :
    ∃ c, signedContent row = .ok c ∧ line = row.1.toList ++ ':' :: hex sha256 c := by
  simp only [signatureRow, bind_eq_ok_iff, pure_eq_ok, Except.ok.injEq, drop_digest] at h
  obtain ⟨c, hc, rfl⟩ := h
  exact ⟨c, hc, rfl⟩

/-- The signed content as the lines of its rows. -/
theorem signatureContentPreimage_spec {e : EntrySet} {b : Bytes}
    (h : signatureContentPreimage sha256 e = .ok b) : ∃ lines,
      List.Forall₂ (fun row line => signatureRow sha256 row = .ok line) (coveredRows isSigned e)
        lines ∧ b = Utf8.encode (String.ofList (List.intercalate ['\n'] lines)) := by
  simp only [signatureContentPreimage, bind_eq_ok_iff, pure_eq_ok, Except.ok.injEq] at h
  obtain ⟨lines, hlines, rfl⟩ := h
  exact ⟨lines, mapM_eq_ok_iff.mp hlines, by rw [Utf8.encode, String.toList_ofList]⟩

/-- The lines of single-line names hold no line feed, and none is empty. -/
theorem lines_separate {e : EntrySet} (he : SingleLine e) {lines : List (List Char)}
    (h : List.Forall₂ (fun row line => signatureRow sha256 row = .ok line) (coveredRows isSigned e)
      lines) : ∀ line ∈ lines, '\n' ∉ line ∧ line ≠ [] := by
  intro line hline
  obtain ⟨row, hrow, hspec⟩ := exists_of_mem_forall₂ h hline
  obtain ⟨c, -, rfl⟩ := signatureRow_spec hspec
  obtain ⟨hmem, hsigned⟩ := mem_coveredRows.mp hrow
  refine ⟨?_, by simp⟩
  rw [List.mem_append, List.mem_cons, not_or, not_or]
  exact ⟨he row hmem hsigned, by decide, newline_not_mem_hex⟩

/-- Signed contents with one preimage come from the same entries. -/
theorem signatureContentPreimage_inj {e e' : EntrySet} {b : Bytes} (he : SingleLine e)
    (he' : SingleLine e') (hfree : CollisionFree sha256 e e')
    (h : signatureContentPreimage sha256 e = .ok b)
    (h' : signatureContentPreimage sha256 e' = .ok b) : Agree isSigned isAnyJson signedValue e e' := by
  obtain ⟨lines, hlines, rfl⟩ := signatureContentPreimage_spec h
  obtain ⟨lines', hlines', heq⟩ := signatureContentPreimage_spec h'
  have htext := String.ofList_injective (Utf8.encode_injective heq)
  obtain rfl : lines = lines' :=
    intercalate_inj (lines_separate he hlines) (lines_separate he' hlines') htext
  have hmem {e : EntrySet} (h : List.Forall₂ (fun row line => signatureRow sha256 row = .ok line)
      (coveredRows isSigned e) lines) :
      List.Forall₂ (fun row line => row ∈ coveredRows isSigned e ∧
        signatureRow sha256 row = .ok line) (coveredRows isSigned e) lines :=
    (List.forall₂_and_left _ _).mpr ⟨fun _ hrow => hrow, h⟩
  refine agree_of_forall₂ (forall₂_of_common (hmem hlines) (hmem hlines') ?_)
  rintro row line row' ⟨hrow, hspec⟩ ⟨hrow', hspec'⟩
  obtain ⟨c, hc, rfl⟩ := signatureRow_spec hspec
  obtain ⟨c', hc', hline⟩ := signatureRow_spec hspec'
  obtain ⟨hname, htail⟩ := List.append_inj' hline (by simp [length_hex])
  have hdigest := hex_inj (List.cons.inj htail).2
  obtain rfl := hfree row hrow row' hrow' c c' hc hc' hdigest
  exact ⟨String.toList_injective hname, c, hc, hc'⟩

end Signature

section Order

variable {e e' : EntrySet}

theorem coveredRows_eq_of_perm (covers : String → Bool) (h : e.rows.Perm e'.rows) :
    coveredRows covers e = coveredRows covers e' := by
  rw [coveredRows, coveredRows, sortByUtf8_eq_of_perm e.nodup h]

theorem get_eq_of_perm (h : e.rows.Perm e'.rows) (name : String) : e.get name = e'.get name := by
  refine Option.ext fun content => ?_
  rw [EntrySet.get, EntrySet.get, getKey_eq_some_iff e.nodup, getKey_eq_some_iff e'.nodup, h.mem_iff]

theorem admitNames_eq_of_perm (h : e.rows.Perm e'.rows) : admitNames e = admitNames e' := by
  simp only [admitNames, (h.map Prod.fst).mem_iff]

/-- No preimage depends on the order in which the entries are enumerated. -/
theorem preimages_eq_of_perm (sha256 : Bytes → Vector UInt8 32) (h : e.rows.Perm e'.rows) :
    contentTreePreimage e = contentTreePreimage e' ∧
      (∀ manifest, runtimeEntryPreimage e manifest = runtimeEntryPreimage e' manifest) ∧
      signatureContentPreimage sha256 e = signatureContentPreimage sha256 e' := by
  refine ⟨?_, fun manifest => ?_, ?_⟩
  · rw [contentTreePreimage, contentTreePreimage, admitNames_eq_of_perm h,
      coveredRows_eq_of_perm inTree h]
  · have hget : e.get = e'.get := funext (get_eq_of_perm h)
    have hrow : runtimeRow e = runtimeRow e' := by
      funext name
      rw [runtimeRow, runtimeRow, hget]
    rw [runtimeEntryPreimage, runtimeEntryPreimage, runtimeEntryNames, runtimeEntryNames,
      admitNames_eq_of_perm h, hget, hrow]
  · rw [signatureContentPreimage, signatureContentPreimage, coveredRows_eq_of_perm isSigned h]

end Order

/-- The three preimages tell entry sets apart: the content tree and the runtime entries for
any two entry sets, the signed content for names without line feeds and contents without
collisions. None of them depends on the order of enumeration. -/
theorem preimages_injective (sha256 : Bytes → Vector UInt8 32) (e e' : EntrySet) :
    (∀ b, contentTreePreimage e = .ok b → contentTreePreimage e' = .ok b →
      Agree inTree isJson treeValue e e') ∧
    (∀ m m' b, runtimeEntryPreimage e m = .ok b → runtimeEntryPreimage e' m' = .ok b →
      ∃ names, runtimeEntryNames e m = .ok names ∧ runtimeEntryNames e' m' = .ok names ∧
        ∀ name ∈ names, ∃ content, e.get name = some content ∧ e'.get name = some content) ∧
    (∀ b, SingleLine e → SingleLine e' → CollisionFree sha256 e e' →
      signatureContentPreimage sha256 e = .ok b → signatureContentPreimage sha256 e' = .ok b →
        Agree isSigned isAnyJson signedValue e e') ∧
    (e.rows.Perm e'.rows → contentTreePreimage e = contentTreePreimage e' ∧
      (∀ manifest, runtimeEntryPreimage e manifest = runtimeEntryPreimage e' manifest) ∧
      signatureContentPreimage sha256 e = signatureContentPreimage sha256 e') :=
  ⟨fun _ h h' => contentTreePreimage_inj h h',
    fun _ _ _ h h' => runtimeEntryPreimage_inj h h',
    fun _ he he' hfree h h' => signatureContentPreimage_inj he he' hfree h h',
    preimages_eq_of_perm sha256⟩

/-- A manifest behind a payload. -/
def sampleRows : List (String × Bytes) := [("payload.kdnab", [1]), ("kdna.json", [0x7b, 0x7d])]

theorem nodup_sampleRows : (sampleRows.map Prod.fst).Nodup := by decide

def sampleEntries : EntrySet := ⟨sampleRows, nodup_sampleRows⟩

/-- The same asset, its manifest first and with white space. -/
def spacedRows : List (String × Bytes) := [("kdna.json", [0x7b, 0x20, 0x7d]), ("payload.kdnab", [1])]

theorem nodup_spacedRows : (spacedRows.map Prod.fst).Nodup := by decide

def spacedEntries : EntrySet := ⟨spacedRows, nodup_spacedRows⟩

/-- SHA-256 on the contents of the samples: nothing, one octet, and the text of an empty
object. -/
def sampleSha256 : Bytes → Vector UInt8 32
  | [] => #v[227, 176, 196, 66, 152, 252, 28, 20, 154, 251, 244, 200, 153, 111, 185, 36, 39, 174, 65,
      228, 100, 155, 147, 76, 164, 149, 153, 27, 120, 82, 184, 85]
  | [1] => #v[75, 245, 18, 47, 52, 69, 84, 197, 59, 222, 46, 187, 140, 210, 183, 227, 209, 96, 10,
      214, 49, 195, 133, 165, 215, 204, 226, 60, 119, 133, 69, 154]
  | _ => #v[68, 19, 111, 163, 85, 179, 103, 138, 17, 70, 173, 22, 247, 232, 100, 158, 148, 251, 79,
      194, 31, 231, 126, 131, 16, 192, 96, 246, 28, 170, 255, 138]

theorem singleLine_sample : SingleLine sampleEntries ∧ SingleLine spacedEntries := by
  unfold SingleLine
  decide

theorem collisionFree_sample : CollisionFree sampleSha256 sampleEntries spacedEntries := by
  have hrows : coveredRows isSigned sampleEntries =
      [("kdna.json", [0x7b, 0x7d]), ("payload.kdnab", [1])] := rfl
  have hrows' : coveredRows isSigned spacedEntries =
      [("kdna.json", [0x7b, 0x20, 0x7d]), ("payload.kdnab", [1])] := rfl
  have hmanifest : signedContent ("kdna.json", [0x7b, 0x7d]) = .ok [0x7b, 0x7d] := rfl
  have hspaced : signedContent ("kdna.json", [0x7b, 0x20, 0x7d]) = .ok [0x7b, 0x7d] := rfl
  have hpayload : signedContent ("payload.kdnab", [1]) = .ok [1] := rfl
  intro row hrow row' hrow' c c' hc hc' hsha
  rw [hrows, List.mem_pair] at hrow
  rw [hrows', List.mem_pair] at hrow'
  rcases hrow with rfl | rfl <;> rcases hrow' with rfl | rfl <;>
    simp only [hmanifest, hspaced, hpayload, Except.ok.injEq] at hc hc' <;> subst hc <;>
    subst hc' <;> first | rfl | exact absurd hsha (by decide)

/-- The samples have the same content tree and the same signed content. -/
theorem preimages_injective_sample :
    (∃ b, contentTreePreimage sampleEntries = .ok b ∧ contentTreePreimage spacedEntries = .ok b) ∧
    Agree inTree isJson treeValue sampleEntries spacedEntries ∧
    Agree isSigned isAnyJson signedValue sampleEntries spacedEntries := by
  obtain ⟨htree, -, hsigned, -⟩ := preimages_injective sampleSha256 sampleEntries spacedEntries
  exact ⟨⟨_, rfl, rfl⟩, htree _ rfl rfl,
    hsigned _ singleLine_sample.1 singleLine_sample.2 collisionFree_sample rfl rfl⟩

/-- Two empty entries. -/
def twoRows : List (String × Bytes) := [("a", []), ("b", [])]

theorem nodup_twoRows : (twoRows.map Prod.fst).Nodup := by decide

def twoEntries : EntrySet := ⟨twoRows, nodup_twoRows⟩

/-- One empty entry, whose name holds the first row of the two. -/
def foldedRows : List (String × Bytes) :=
  [("a:e3b0c44298fc1c149afbf4c8996fb92427ae41e4649b934ca495991b7852b855\nb", [])]

theorem nodup_foldedRows : (foldedRows.map Prod.fst).Nodup := by decide

def foldedEntries : EntrySet := ⟨foldedRows, nodup_foldedRows⟩

/-- A name with a line feed reads as two rows of a signature. -/
theorem preimages_injective_counterexample :
    (∃ b, signatureContentPreimage sampleSha256 twoEntries = .ok b ∧
      signatureContentPreimage sampleSha256 foldedEntries = .ok b) ∧
    CollisionFree sampleSha256 twoEntries foldedEntries ∧
    ¬ Agree isSigned isAnyJson signedValue twoEntries foldedEntries := by
  refine ⟨⟨_, rfl, rfl⟩, ?_, ?_⟩
  · have hempty (rows : List (String × Bytes)) (hrows : ∀ row ∈ rows, row.2 = [] ∧
        isAnyJson row.1 = false) {row : String × Bytes} (hrow : row ∈ rows) {c : Bytes}
        (hc : signedContent row = .ok c) : c = [] := by
      obtain ⟨hnil, hjson⟩ := hrows row hrow
      rw [signedContent, contentOf, hjson] at hc
      exact (Except.ok.inj hc).symm.trans hnil
    intro row hrow row' hrow' c c' hc hc' _
    rw [hempty twoRows (by decide) (mem_coveredRows.mp hrow).1 hc,
      hempty foldedRows (by decide) (mem_coveredRows.mp hrow').1 hc']
  · intro hagree
    have hmem := (hagree.names "a" (by decide)).mp (by decide)
    exact absurd hmem (by decide)

end Kdna.Digest

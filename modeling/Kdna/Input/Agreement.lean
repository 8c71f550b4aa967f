import Kdna.Input.Classes
import Mathlib.Data.Nat.Find

/-!
# When the classifiers agree

Of all end records that the tail of an input holds, the classifiers read the last and the first.
They agree exactly when the two records declare the same, where the last one counts only whole.
-/

namespace Kdna.Input

variable {b needle : Bytes} {i start stop : ℕ}

section Search

theorem findBytes_eq_some_iff : findBytes b needle start stop = some i ↔
    matchesAt b needle i ∧ (start ≤ i ∧ i + needle.length ≤ min stop b.length) ∧
      ∀ j, start ≤ j → j < i → matchesAt b needle j = false := by
  rw [findBytes, List.find?_range'_eq_some, List.mem_range'_1]
  simp only [Bool.not_eq_true']
  refine and_congr_right fun _ => and_congr_left fun _ => ?_
  omega

theorem findBytes_eq_none_iff : findBytes b needle start stop = none ↔
    ∀ j, start ≤ j → j + needle.length ≤ min stop b.length → matchesAt b needle j = false := by
  rw [findBytes, List.find?_eq_none]
  simp only [List.mem_range'_1, Bool.not_eq_true, and_imp]
  refine forall_congr' fun j => forall_congr' fun hj => ?_
  constructor
  · intro h hle
    exact h (by omega)
  · intro h hlt
    exact h (by omega)

theorem findBelow_eq_some_iff {bound : ℕ} : findBelow b needle bound = some i ↔
    matchesAt b needle i ∧ i < bound ∧ ∀ j, i < j → j < bound → matchesAt b needle j = false := by
  induction bound with
  | zero => simp [findBelow]
  | succ bound ih =>
    rw [findBelow]
    by_cases hlast : matchesAt b needle bound
    · rw [if_pos hlast, Option.some.injEq]
      constructor
      · rintro rfl
        exact ⟨hlast, Nat.lt_succ_self _, fun j hj hlt => by omega⟩
      · rintro ⟨-, hi, hall⟩
        by_contra hne
        have hnone := hall bound (by omega) (Nat.lt_succ_self _)
        exact Bool.false_ne_true (hnone.symm.trans hlast)
    · rw [if_neg hlast, ih]
      constructor
      · rintro ⟨hi, hlt, hall⟩
        refine ⟨hi, by omega, fun j hj hjb => ?_⟩
        by_cases hjlast : j = bound
        · rw [hjlast]
          exact Bool.eq_false_iff.mpr hlast
        · exact hall j hj (by omega)
      · rintro ⟨hi, hlt, hall⟩
        have hne : i ≠ bound := fun heq => hlast (heq ▸ hi)
        exact ⟨hi, by omega, fun j hj hjb => hall j hj (by omega)⟩

theorem findBelow_eq_none_iff {bound : ℕ} : findBelow b needle bound = none ↔
    ∀ j, j < bound → matchesAt b needle j = false := by
  induction bound with
  | zero => simp [findBelow]
  | succ bound ih =>
    rw [findBelow, Nat.forall_lt_succ_right]
    by_cases hlast : matchesAt b needle bound
    · simp [hlast]
    · rw [if_neg hlast, ih]
      simp [hlast]

/-- An octet string stands in the tail where it stands in the whole. -/
theorem matchesAt_drop (k : ℕ) : matchesAt (b.drop k) needle i = matchesAt b needle (k + i) := by
  rw [matchesAt, matchesAt, Bytes.slice, Bytes.slice, List.drop_drop]

theorem word_drop (k : ℕ) : word (b.drop k) i = word b (k + i) := by
  rw [word, word, Bytes.slice, Bytes.slice, List.drop_drop]

/-- An octet string stands in a part where it stands in the whole. -/
theorem matchesAt_slice {count : ℕ} (hle : i + needle.length ≤ count) :
    matchesAt (Bytes.slice b start count) needle i = matchesAt b needle (start + i) := by
  rw [matchesAt, matchesAt, Bytes.slice_slice hle]

/-- A search of a part is a search of the whole inside it. -/
theorem findBytes_slice {count : ℕ} (hle : start + count ≤ b.length) :
    (findBytes (Bytes.slice b start count) needle 0 (Bytes.slice b start count).length).isSome =
      (findBytes b needle start (start + count)).isSome := by
  have hlength : (Bytes.slice b start count).length = count := by
    rw [Bytes.slice, List.length_take, List.length_drop]
    omega
  rw [Bool.eq_iff_iff, ← Option.ne_none_iff_isSome, ← Option.ne_none_iff_isSome, ne_eq, ne_eq,
    not_iff_not, findBytes_eq_none_iff, findBytes_eq_none_iff, hlength]
  constructor
  · intro h j hj hle
    have hpart := h (j - start) (Nat.zero_le _) (by omega)
    rwa [matchesAt_slice (by omega), Nat.add_sub_cancel' hj] at hpart
  · intro h j _ hle
    rw [matchesAt_slice (by omega)]
    exact h (start + j) (Nat.le_add_right _ _) (by omega)

end Search

section Records

/-- The signature of an end record stands in the tail at `i`. -/
def SignatureAt (b : Bytes) (i : ℕ) : Prop :=
  b.length - inputTail ≤ i ∧ i + 4 ≤ b.length ∧ matchesAt b eocdMarker i

/-- The end record at `i` declares a directory of bounded size inside the input that names a
payload and no frames. Words past the end count as zero. -/
def Declares (b : Bytes) (i : ℕ) : Prop :=
  word b (i + 16) + word b (i + 12) ≤ b.length ∧ word b (i + 12) ≤ dirScanCap ∧
    (findBytes b payloadMarker (word b (i + 16)) (word b (i + 16) + word b (i + 12))).isSome ∧
    (findBytes b framesMarker (word b (i + 16)) (word b (i + 16) + word b (i + 12))).isNone

instance (b : Bytes) (i : ℕ) : Decidable (Declares b i) :=
  inferInstanceAs (Decidable (_ ∧ _ ∧ _ ∧ _))

/-- The first or the last signature of an end record in the tail. -/
def FirstSignature (b : Bytes) (i : ℕ) : Prop := SignatureAt b i ∧ ∀ j, SignatureAt b j → i ≤ j

def LastSignature (b : Bytes) (i : ℕ) : Prop := SignatureAt b i ∧ ∀ j, SignatureAt b j → j ≤ i

/-- Where a signature stands, there is a first and a last one. -/
theorem exists_first (h : SignatureAt b i) : ∃ first, FirstSignature b first := by
  classical
  exact ⟨Nat.find ⟨i, h⟩, Nat.find_spec ⟨i, h⟩, fun j hj => Nat.find_min' ⟨i, h⟩ hj⟩

theorem exists_last (h : SignatureAt b i) : ∃ last, LastSignature b last := by
  classical
  have hbound : ∀ j, SignatureAt b j → j ≤ b.length := by
    rintro j ⟨-, hend, -⟩
    omega
  refine ⟨Nat.findGreatest (SignatureAt b) b.length, Nat.findGreatest_spec (hbound i h) h, ?_⟩
  exact fun j hj => Nat.le_findGreatest (hbound j hj) hj

theorem findBytes_eocd_iff :
    findBytes b eocdMarker (b.length - inputTail) b.length = some i ↔ FirstSignature b i := by
  have hmarker : eocdMarker.length = 4 := rfl
  rw [findBytes_eq_some_iff, min_self, hmarker]
  constructor
  · rintro ⟨hi, ⟨hstart, hend⟩, hbefore⟩
    refine ⟨⟨hstart, hend, hi⟩, fun j hj => ?_⟩
    by_contra hlt
    exact Bool.false_ne_true ((hbefore j hj.1 (by omega)).symm.trans hj.2.2)
  · rintro ⟨⟨hstart, hend, hi⟩, hfirst⟩
    refine ⟨hi, ⟨hstart, hend⟩, fun j hj hlt => ?_⟩
    by_contra hfound
    have hle := hfirst j ⟨hj, by omega, (Bool.not_eq_false _).mp hfound⟩
    omega

theorem findLastBytes_eocd_iff :
    findLastBytes (b.drop (b.length - min b.length inputTail)) eocdMarker = some i ↔
      LastSignature b (b.length - inputTail + i) := by
  have hmarker : eocdMarker.length = 4 := rfl
  have hstart : b.length - min b.length inputTail = b.length - inputTail := by omega
  rw [findLastBytes, findBelow_eq_some_iff, hstart, List.length_drop, hmarker, matchesAt_drop]
  constructor
  · rintro ⟨hi, hend, hbehind⟩
    refine ⟨⟨Nat.le_add_right _ _, by omega, hi⟩, fun j hj => ?_⟩
    obtain ⟨hfrom, hto, hfound⟩ := hj
    by_contra hlt
    have hnone := hbehind (j - (b.length - inputTail)) (by omega) (by omega)
    rw [matchesAt_drop, Nat.add_sub_cancel' hfrom] at hnone
    exact Bool.false_ne_true (hnone.symm.trans hfound)
  · rintro ⟨⟨-, hend, hi⟩, hlast⟩
    refine ⟨hi, by omega, fun j hj hlt => ?_⟩
    rw [matchesAt_drop]
    by_contra hfound
    have hle := hlast (b.length - inputTail + j)
      ⟨Nat.le_add_right _ _, by omega, (Bool.not_eq_false _).mp hfound⟩
    omega

/-- The directory search of both classifiers, where an end record stands at `i`. -/
theorem class_of_declares (b : Bytes) (i : ℕ) :
    (if word b (i + 16) + word b (i + 12) > b.length ∨ word b (i + 12) > dirScanCap then none
      else if (findBytes b payloadMarker (word b (i + 16))
            (word b (i + 16) + word b (i + 12))).isSome &&
          !(findBytes b framesMarker (word b (i + 16))
            (word b (i + 16) + word b (i + 12))).isSome then
        some unsupportedVersion
      else none) = if Declares b i then some unsupportedVersion else none := by
  by_cases hdeclares : Declares b i
  · rw [if_pos hdeclares]
    obtain ⟨hinside, hcap, hpayload, hframes⟩ := hdeclares
    rw [if_neg (by omega), hpayload, Option.isNone_iff_eq_none.mp hframes]
    rfl
  · rw [if_neg hdeclares]
    split_ifs with hbounds hnames
    · rfl
    · rw [Bool.and_eq_true, Bool.not_eq_true', Option.isSome_eq_false_iff] at hnames
      exact absurd ⟨by omega, by omega, hnames.1, hnames.2⟩ hdeclares
    · rfl

/-- The class that the classifier for octets reads off the first end record. -/
theorem inputFailureClass_of_first (hlength : 22 ≤ b.length) (h : FirstSignature b i) :
    inputFailureClass b = if Declares b i then some unsupportedVersion else none := by
  rw [inputFailureClass, if_pos hlength, findBytes_eocd_iff.mpr h]
  exact class_of_declares b i

/-- A record whose directory is empty declares nothing. -/
theorem not_declares_of_empty (hempty : word b (i + 12) = 0) : ¬Declares b i := by
  rintro ⟨-, -, hpayload, -⟩
  have hmarker : payloadMarker.length = 13 := rfl
  obtain ⟨j, hj⟩ := Option.isSome_iff_exists.mp hpayload
  obtain ⟨-, ⟨hfrom, hto⟩, -⟩ := findBytes_eq_some_iff.mp hj
  omega

theorem zipMagic_take (b : Bytes) : zipMagic (b.take 4) = zipMagic b := by
  match b with
  | [] => rfl
  | [_] => rfl
  | [_, _] => rfl
  | [_, _, _] => rfl
  | _ :: _ :: _ :: _ :: _ => rfl

theorem readUInt32LE_drop {k : ℕ} (hk : k ≤ b.length) : readUInt32LE (b.drop k) i =
    if k + i + 4 ≤ b.length then some (word b (k + i)) else none := by
  rw [readUInt32LE, word_drop, List.length_drop]
  by_cases hinside : k + i + 4 ≤ b.length
  · rw [if_pos (by omega), if_pos hinside]
  · rw [if_neg (by omega), if_neg hinside]

theorem classAt_drop {k : ℕ} (hk : k ≤ b.length) : classAt b (b.drop k) i =
    if k + i + 20 ≤ b.length ∧ Declares b (k + i) then some unsupportedVersion else none := by
  rw [classAt, readUInt32LE_drop hk, readUInt32LE_drop hk, ← Nat.add_assoc, ← Nat.add_assoc]
  by_cases hwhole : k + i + 20 ≤ b.length
  · rw [if_pos hwhole, if_pos (by omega), Option.bind_eq_bind, Option.bind_some,
      Option.bind_some]
    by_cases hempty : word b (k + i + 12) = 0
    · rw [if_pos (.inr (.inl hempty)), if_neg fun hand => not_declares_of_empty hempty hand.2]
    · have hclass := class_of_declares b (k + i)
      by_cases hbounds : word b (k + i + 16) + word b (k + i + 12) > b.length ∨
          word b (k + i + 12) > dirScanCap
      · rw [if_pos hbounds] at hclass
        rw [if_pos (by omega)]
        simpa only [hwhole, true_and] using hclass
      · rw [if_neg hbounds] at hclass
        rw [if_neg (by omega)]
        have hinside : word b (k + i + 16) + word b (k + i + 12) ≤ b.length := by omega
        simpa only [hwhole, true_and, findBytes_slice hinside] using hclass
  · have hnot : ¬(k + i + 20 ≤ b.length ∧ Declares b (k + i)) := fun hand => hwhole hand.1
    rw [if_neg hwhole, if_neg hnot]
    rfl

/-- The class that the classifier for a path reads off the last end record. -/
theorem pathInputClass_of_last (hsafe : b.length ≤ maxSafeInteger) (hlength : 22 ≤ b.length)
    (h : LastSignature b i) : pathInputClass b =
      if i + 20 ≤ b.length ∧ Declares b i then some unsupportedVersion else none := by
  have hsplit : b.length - inputTail + (i - (b.length - inputTail)) = i :=
    Nat.add_sub_cancel' h.1.1
  have hstart : b.length - min b.length inputTail = b.length - inputTail := by omega
  have hlast := findLastBytes_eocd_iff.mpr (show LastSignature b (b.length - inputTail +
    (i - (b.length - inputTail))) by rwa [hsplit])
  rw [pathInputClass, if_neg (not_lt.mpr hsafe), if_neg (by omega)]
  dsimp only
  rw [hlast, hstart]
  dsimp only
  rw [classAt_drop (Nat.sub_le _ _), hsplit]

theorem inputFailureClass_of_none (hlength : 22 ≤ b.length) (h : ∀ i, ¬SignatureAt b i) :
    inputFailureClass b = if zipMagic b then none else some inputInvalid := by
  have hnone : findBytes b eocdMarker (b.length - inputTail) b.length = none :=
    Option.eq_none_iff_forall_ne_some.mpr fun i hi => h i (findBytes_eocd_iff.mp hi).1
  rw [inputFailureClass, if_pos hlength, hnone]

theorem pathInputClass_of_none (hsafe : b.length ≤ maxSafeInteger) (hlength : 22 ≤ b.length)
    (h : ∀ i, ¬SignatureAt b i) :
    pathInputClass b = if zipMagic b then none else some inputInvalid := by
  have hnone : findLastBytes (b.drop (b.length - min b.length inputTail)) eocdMarker = none :=
    Option.eq_none_iff_forall_ne_some.mpr fun i hi => h _ (findLastBytes_eocd_iff.mp hi).1
  rw [pathInputClass, if_neg (not_lt.mpr hsafe), if_neg (not_lt.mpr hlength)]
  dsimp only
  rw [hnone, zipMagic_take]

end Records

theorem ite_some_eq_iff {p q : Prop} [Decidable p] [Decidable q] {α : Type} {a : α} :
    ((if p then some a else none) = if q then some a else none) ↔ (q ↔ p) := by
  by_cases hp : p <;> by_cases hq : q <;> simp [hp, hq]

/-- The classifiers agree on an input exactly when it is shorter than an end record, or its tail
holds no signature, or its first and its last end record declare the same and the last is whole
where it declares anything. -/
theorem pathInputClass_eq_iff (b : Bytes) (hsafe : b.length ≤ maxSafeInteger) :
    pathInputClass b = inputFailureClass b ↔ b.length < 22 ∨
      ∀ first last, FirstSignature b first → LastSignature b last →
        (Declares b first ↔ last + 20 ≤ b.length ∧ Declares b last) := by
  by_cases hshort : b.length < 22
  · refine iff_of_true ?_ (.inl hshort)
    rw [pathInputClass, if_neg (not_lt.mpr hsafe), if_pos hshort, inputFailureClass,
      if_neg (not_le.mpr hshort), zipMagic_take]
  · have hlength : 22 ≤ b.length := by omega
    rw [or_iff_right hshort]
    by_cases hsome : ∃ first, FirstSignature b first
    · obtain ⟨first, hfirst⟩ := hsome
      obtain ⟨last, hlast⟩ := exists_last hfirst.1
      rw [pathInputClass_of_last hsafe hlength hlast, inputFailureClass_of_first hlength hfirst]
      rw [ite_some_eq_iff]
      constructor
      · intro hsame f l hf hl
        have hfeq : f = first := le_antisymm (hf.2 _ hfirst.1) (hfirst.2 _ hf.1)
        have hleq : l = last := le_antisymm (hlast.2 _ hl.1) (hl.2 _ hlast.1)
        rwa [hfeq, hleq]
      · exact fun hall => hall first last hfirst hlast
    · refine iff_of_true ?_ fun first _ hfirst _ => absurd ⟨first, hfirst⟩ hsome
      have hnone : ∀ i, ¬SignatureAt b i := by
        intro i hi
        obtain ⟨first, hfirst⟩ := exists_first hi
        exact hsome ⟨first, hfirst⟩
      rw [pathInputClass_of_none hsafe hlength hnone, inputFailureClass_of_none hlength hnone]

theorem pathInputClass_eq_iff_sample :
    pathInputClass [80, 75, 5, 6] = inputFailureClass [80, 75, 5, 6] :=
  (pathInputClass_eq_iff [80, 75, 5, 6] (by decide)).mpr (.inl (by decide))

/-- An end record whose directory starts at zero and has the given size. -/
def endRecord (size commentLength : UInt8) : Bytes :=
  eocdMarker ++ [0, 0, 0, 0, 0, 0, 0, 0] ++ [size, 0, 0, 0] ++ [0, 0, 0, 0] ++ [commentLength, 0]

/-- Two inputs that get two classes: an end record in the comment of another, and an end record
that the input ends in. -/
theorem classes_differ :
    (pathInputClass (payloadMarker ++ endRecord 13 22 ++ endRecord 0 0) = none ∧
      inputFailureClass (payloadMarker ++ endRecord 13 22 ++ endRecord 0 0) =
        some unsupportedVersion) ∧
    pathInputClass (payloadMarker ++ (endRecord 13 0).take 16) = none ∧
      inputFailureClass (payloadMarker ++ (endRecord 13 0).take 16) = some unsupportedVersion := by
  decide

end Kdna.Input

import Kdna.Json.Canonical
import Kdna.Protection.EnvelopeCodec
import Mathlib.Data.Prod.Lex

/-!
# Canonical envelopes

The encoder accepts the values within its bounds, and their canonical octets do not depend
on the order in which an object lists its members.
-/

namespace Kdna.Protection.Envelope

/-- What the encoded keys are ordered by: the length, then the octets. -/
def rank (b : Bytes) : ℕ ×ₗ List ℕ := toLex (b.length, b.map UInt8.toNat)

theorem rank_injective : Function.Injective rank := by
  intro a b h
  have hbytes : a.map UInt8.toNat = b.map UInt8.toNat := (Prod.mk.inj (toLex.injective h)).2
  exact List.map_injective_iff.mpr (fun _ _ h => UInt8.toNat_inj.mp h) hbytes

theorem compareOctets_lt_iff {a b : Bytes} (h : a.length = b.length) :
    compareOctets a b < 0 ↔ a.map UInt8.toNat < b.map UInt8.toNat := by
  induction a generalizing b with
  | nil =>
    obtain rfl := List.length_eq_zero_iff.mp h.symm
    simp [compareOctets]
  | cons x a ih =>
    cases b with
    | nil => simp at h
    | cons y b =>
      rw [compareOctets, List.map_cons, List.map_cons, List.cons_lt_cons_iff]
      split_ifs with hne
      · have hne' : x.toNat ≠ y.toNat := fun heq => hne (UInt8.toNat_inj.mp heq)
        constructor
        · intro hlt
          exact .inl (by omega)
        · rintro (hlt | ⟨heq, -⟩)
          · omega
          · exact absurd heq hne'
      · obtain rfl := not_not.mp hne
        rw [ih (by simpa using h)]
        simp

theorem compareOctets_swap (a b : Bytes) : compareOctets b a = -compareOctets a b := by
  induction a generalizing b with
  | nil => cases b <;> rfl
  | cons x a ih =>
    cases b with
    | nil => rfl
    | cons y b =>
      rw [compareOctets, compareOctets]
      by_cases h : x = y
      · simp [h, ih]
      · simp [h, Ne.symm h]

theorem compare_swap (a b : Bytes) : compare b a = -compare a b := by
  rw [compare, compare]
  by_cases h : a.length = b.length
  · simp [h, compareOctets_swap a b]
  · simp [h, Ne.symm h]

theorem compare_lt_iff (a b : Bytes) : compare a b < 0 ↔ rank a < rank b := by
  rw [compare, rank, rank, Prod.Lex.toLex_lt_toLex]
  split_ifs with h
  · simp only [h, false_and, or_false]
    omega
  · obtain h := not_not.mp h
    rw [compareOctets_lt_iff h]
    simp [h]

theorem compare_le_iff (a b : Bytes) : compare a b ≤ 0 ↔ rank a ≤ rank b := by
  have hswap := compare_swap a b
  rw [← not_lt, ← not_lt, ← compare_lt_iff, hswap]
  exact not_congr ⟨fun h => by omega, fun h => by omega⟩

/-- The octets of a head are more for a greater argument. -/
theorem size_width_mono {m n : ℕ} (h : m ≤ n) : (width m).size ≤ (width n).size := by
  unfold width
  split_ifs <;> simp only [Cbor.Width.size] <;> omega

theorem length_head (major n : ℕ) : (head major n).length = 1 + (width n).size := by
  rw [head, Cbor.head, List.length_cons, Bytes.length_beWord, Nat.add_comm]

theorem length_textBytes (t : String) :
    (textBytes t).length = 1 + (width (Utf8.encode t).length).size + (Utf8.encode t).length := by
  rw [textBytes, List.length_append, length_head]

theorem textBytes_injective : Function.Injective textBytes := by
  intro s t h
  have hlength := congrArg List.length h
  rw [length_textBytes, length_textBytes] at hlength
  have heq : (Utf8.encode s).length = (Utf8.encode t).length := by
    rcases Nat.le_total (Utf8.encode s).length (Utf8.encode t).length with hle | hle
    · have hmono := size_width_mono hle
      omega
    · have hmono := size_width_mono hle
      omega
  rw [textBytes, textBytes, heq] at h
  exact Utf8.encode_injective (List.append_cancel_left h)

section Arrange

variable {α β : Type}

/-- The members in the order of their encoded keys. -/
def arrange (props : List (String × α)) : List (String × α) :=
  props.insertionSort fun p q => compare (textBytes p.1) (textBytes q.1) ≤ 0

/-- The order of members by their encoded keys is by rank. -/
theorem arrange_eq (props : List (String × α)) :
    arrange props = props.insertionSort fun p q => rank (textBytes p.1) ≤ rank (textBytes q.1) := by
  unfold arrange
  congr 1
  funext p q
  exact propext (compare_le_iff _ _)

theorem arrange_perm (props : List (String × α)) : (arrange props).Perm props :=
  List.perm_insertionSort _ _

theorem arrange_pairwise (props : List (String × α)) :
    (arrange props).Pairwise fun p q => rank (textBytes p.1) ≤ rank (textBytes q.1) := by
  rw [arrange_eq]
  exact List.pairwise_insertionSort _ _

/-- Members with distinct keys have one order. -/
theorem arrange_congr {ps qs : List (String × α)} (h : ps.Perm qs)
    (hnodup : (ps.map Prod.fst).Nodup) : arrange ps = arrange qs := by
  refine List.Perm.eq_of_pairwise ?_ (arrange_pairwise ps) (arrange_pairwise qs)
    ((arrange_perm ps).trans (h.trans (arrange_perm qs).symm))
  intro p q hp hq hpq hqp
  have hp := (arrange_perm ps).mem_iff.mp hp
  have hq := h.mem_iff.mpr ((arrange_perm qs).mem_iff.mp hq)
  exact List.inj_on_of_nodup_map hnodup hp hq
    (textBytes_injective (rank_injective (le_antisymm hpq hqp)))

/-- Distinct keys are in strict order. -/
theorem arrange_strict {props : List (String × α)} (hnodup : (props.map Prod.fst).Nodup) :
    (arrange props).Pairwise fun p q => compare (textBytes p.1) (textBytes q.1) < 0 := by
  have hnodup' : ((arrange props).map Prod.fst).Nodup :=
    (((arrange_perm props).map _).nodup_iff).mpr hnodup
  rw [List.Nodup, List.pairwise_map] at hnodup'
  refine ((arrange_pairwise props).and hnodup').imp fun {p q} h => ?_
  rw [compare_lt_iff]
  exact lt_of_le_of_ne h.1 fun heq => h.2 (textBytes_injective (rank_injective heq))

/-- The order depends on the keys only. -/
theorem arrange_map (f : String × α → β) (props : List (String × α)) :
    arrange (props.map fun p => (p.1, f p)) = (arrange props).map fun p => (p.1, f p) := by
  rw [arrange, arrange, List.map_insertionSort _
    fun p q : String × β => compare (textBytes p.1) (textBytes q.1) ≤ 0]
  exact fun _ _ _ _ => Iff.rfl

/-- Encoded members are sorted as the members are. -/
theorem sortMembers_map (f : String × α → β) (props : List (String × α)) :
    sortMembers (props.map fun p => (textBytes p.1, f p)) =
      (arrange props).map fun p => (textBytes p.1, f p) := by
  rw [sortMembers, arrange, List.map_insertionSort _
    fun p q : Bytes × β => compare p.1 q.1 ≤ 0]
  exact fun _ _ _ _ => Iff.rfl

end Arrange

/-- The canonical octets of a value. -/
def canonical : Json → Bytes :=
  Value.fold
    { null := []
      bool := fun _ => []
      num := fun x => head 0 ((safeNatural? x).getD 0)
      str := textBytes
      arr := fun items => head 4 items.length ++ items.flatten
      obj := fun props => head 5 props.length ++
        joinMembers ((arrange props).map fun p => (textBytes p.1, p.2)) }

/-- The items of a value, its keys among them. -/
def itemCount : Json → ℕ :=
  Value.fold
    { null := 1, bool := fun _ => 1, num := fun _ => 1, str := fun _ => 1
      arr := fun counts => 1 + counts.sum
      obj := fun counts => 1 + (counts.map fun p => 1 + p.2).sum }

/-- A text within the bounds. -/
def TextFits (t : String) (depth : ℕ) : Prop :=
  depth ≤ maxDepth ∧ (Utf8.encode t).length ≤ limit

/-- The value is in the codec's domain, and within the bounds at a depth. -/
def Fits : Json → ℕ → Prop :=
  Value.fold
    { null := fun _ => False
      bool := fun _ _ => False
      num := fun x depth => depth ≤ maxDepth ∧ (safeNatural? x).isSome
      str := TextFits
      arr := fun items depth => depth ≤ maxDepth ∧ ∀ q ∈ items, q (depth + 1)
      obj := fun props depth => depth ≤ maxDepth ∧
        ∀ q ∈ props, TextFits q.1 (depth + 1) ∧ q.2 (depth + 1) }

@[simp] theorem canonical_arr (items : List Json) :
    canonical (.arr items) = head 4 items.length ++ (items.map canonical).flatten := by
  simp [canonical]

@[simp] theorem canonical_obj (props : List (String × Json)) :
    canonical (.obj props) = head 5 props.length ++
      joinMembers ((arrange props).map fun p => (textBytes p.1, canonical p.2)) := by
  rw [canonical, Value.fold_obj]
  simp only [List.length_map]
  rw [arrange_map (fun p => Value.fold _ p.2), List.map_map]
  rfl

@[simp] theorem itemCount_arr (items : List Json) :
    itemCount (.arr items) = 1 + (items.map itemCount).sum := by
  simp [itemCount]

@[simp] theorem itemCount_obj (props : List (String × Json)) :
    itemCount (.obj props) = 1 + (props.map fun p => 1 + itemCount p.2).sum := by
  simp [itemCount, Function.comp_def]

@[simp] theorem fits_arr (items : List Json) (depth : ℕ) :
    Fits (.arr items) depth ↔ depth ≤ maxDepth ∧ ∀ v ∈ items, Fits v (depth + 1) := by
  rw [Fits, Value.fold_arr]
  exact and_congr_right fun _ => List.forall_mem_map

@[simp] theorem fits_obj (props : List (String × Json)) (depth : ℕ) :
    Fits (.obj props) depth ↔
      depth ≤ maxDepth ∧ ∀ p ∈ props, TextFits p.1 (depth + 1) ∧ Fits p.2 (depth + 1) := by
  rw [Fits, Value.fold_obj]
  exact and_congr_right fun _ => List.forall_mem_map

theorem one_le_itemCount (v : Json) : 1 ≤ itemCount v := by
  cases v with
  | null => exact le_rfl
  | bool b => exact le_rfl
  | num x => exact le_rfl
  | str t => exact le_rfl
  | arr items =>
    rw [itemCount_arr]
    omega
  | obj props =>
    rw [itemCount_obj]
    omega

section Encode

variable {depth count count' : ℕ} {b : Bytes}

theorem enter_eq_some_iff : enter depth count = some count' ↔
    depth ≤ maxDepth ∧ count' = count + 1 ∧ count' ≤ maxItems := by
  rw [enter]
  split_ifs with h
  · simp only [false_iff]
    omega
  · rw [Option.some.injEq]
    omega

theorem encodeText_eq_some_iff {t : String} : encodeText t depth count = some (b, count') ↔
    TextFits t depth ∧ count' = count + 1 ∧ count' ≤ maxItems ∧ b = textBytes t := by
  simp only [encodeText, Option.bind_eq_bind, Option.bind_eq_some_iff, enter_eq_some_iff, TextFits]
  constructor
  · rintro ⟨_, ⟨hdepth, rfl, hcount⟩, h⟩
    split_ifs at h with hlength
    obtain ⟨rfl, rfl⟩ := Prod.mk.inj (Option.some.inj h)
    exact ⟨⟨hdepth, not_lt.mp hlength⟩, rfl, hcount, rfl⟩
  · rintro ⟨⟨hdepth, hlength⟩, rfl, hcount, rfl⟩
    exact ⟨_, ⟨hdepth, rfl, hcount⟩, if_neg (not_lt.mpr hlength)⟩

theorem encodeNumber_eq_some_iff {x : Binary64} :
    encodeNumber x depth count = some (b, count') ↔ Fits (.num x) depth ∧
      count' = count + 1 ∧ count' ≤ maxItems ∧ b = canonical (.num x) := by
  have hfits : Fits (.num x) depth ↔ depth ≤ maxDepth ∧ (safeNatural? x).isSome := Iff.rfl
  have hcanonical : canonical (.num x) = head 0 ((safeNatural? x).getD 0) := rfl
  simp only [encodeNumber, Option.bind_eq_bind, Option.bind_eq_some_iff, enter_eq_some_iff, hfits,
    hcanonical, Option.pure_def, Option.some.injEq, Prod.mk.injEq]
  constructor
  · rintro ⟨_, ⟨hdepth, rfl, hcount⟩, n, hn, rfl, rfl⟩
    simp [hdepth, hn, hcount]
  · rintro ⟨⟨hdepth, hsome⟩, rfl, hcount, rfl⟩
    obtain ⟨n, hn⟩ := Option.isSome_iff_exists.mp hsome
    exact ⟨_, ⟨hdepth, rfl, hcount⟩, n, hn, by rw [hn, Option.getD_some], rfl⟩

/-- An encoder accepts the value within the bounds, as its canonical octets. -/
def Encodes (e : Encoder) (v : Json) : Prop :=
  ∀ depth count b count', e depth count = some (b, count') ↔
    Fits v depth ∧ count' = count + itemCount v ∧ count' ≤ maxItems ∧ b = canonical v

/-- The items of an array. -/
theorem encodeItems_eq_some_iff {items : List Json} (hitems : ∀ v ∈ items, Encodes (encode v) v)
    (hcount : count ≤ maxItems) : encodeItems (items.map encode) depth count = some (b, count') ↔
      (∀ v ∈ items, Fits v depth) ∧ count' = count + (items.map itemCount).sum ∧
        count' ≤ maxItems ∧ b = (items.map canonical).flatten := by
  induction items generalizing count b with
  | nil =>
    simp only [List.map_nil, encodeItems, Option.some.injEq, Prod.mk.injEq, List.sum_nil,
      List.flatten_nil, Nat.add_zero]
    constructor
    · rintro ⟨rfl, rfl⟩
      exact ⟨by simp, rfl, hcount, rfl⟩
    · rintro ⟨-, rfl, -, rfl⟩
      exact ⟨rfl, rfl⟩
  | cons v vs ih =>
    rw [List.forall_mem_cons] at hitems
    simp only [List.map_cons, encodeItems, Option.bind_eq_bind, Option.bind_eq_some_iff,
      Option.pure_def, Option.some.injEq, Prod.mk.injEq, Prod.exists, List.sum_cons,
      List.flatten_cons, List.forall_mem_cons]
    constructor
    · rintro ⟨b₁, c₁, hv, b₂, c₂, hvs, rfl, rfl⟩
      obtain ⟨hfits, rfl, hle, rfl⟩ := (hitems.1 _ _ _ _).mp hv
      obtain ⟨hall, rfl, hle', rfl⟩ := (ih hitems.2 hle).mp hvs
      exact ⟨⟨hfits, hall⟩, by omega, hle', rfl⟩
    · rintro ⟨⟨hfits, hall⟩, rfl, hle, rfl⟩
      have hv := (hitems.1 depth count _ _).mpr ⟨hfits, rfl, by omega, rfl⟩
      have hle' : count + itemCount v ≤ maxItems := by omega
      have hvs := (ih hitems.2 hle').mpr ⟨hall, by omega, hle, rfl⟩
      exact ⟨_, _, hv, _, _, hvs, rfl, rfl⟩

/-- The members of an object. -/
theorem encodeMembers_eq_some_iff {props : List (String × Json)} {ms : List (Bytes × Bytes)}
    (hprops : ∀ p ∈ props, Encodes (encode p.2) p.2) (hcount : count ≤ maxItems) :
    encodeMembers (props.map fun p => (p.1, encode p.2)) depth count = some (ms, count') ↔
      (∀ p ∈ props, TextFits p.1 depth ∧ Fits p.2 depth) ∧
        count' = count + (props.map fun p => 1 + itemCount p.2).sum ∧ count' ≤ maxItems ∧
        ms = props.map fun p => (textBytes p.1, canonical p.2) := by
  induction props generalizing count ms with
  | nil =>
    simp only [List.map_nil, encodeMembers, Option.some.injEq, Prod.mk.injEq, List.sum_nil,
      Nat.add_zero]
    constructor
    · rintro ⟨rfl, rfl⟩
      exact ⟨by simp, rfl, hcount, rfl⟩
    · rintro ⟨-, rfl, -, rfl⟩
      exact ⟨rfl, rfl⟩
  | cons p ps ih =>
    rw [List.forall_mem_cons] at hprops
    simp only [List.map_cons, encodeMembers, Option.bind_eq_bind, Option.bind_eq_some_iff,
      Option.pure_def, Option.some.injEq, Prod.mk.injEq, Prod.exists, List.sum_cons,
      List.forall_mem_cons, encodeText_eq_some_iff]
    constructor
    · rintro ⟨_, _, ⟨htext, rfl, hle, rfl⟩, b₁, c₁, hv, b₂, c₂, hvs, rfl, rfl⟩
      obtain ⟨hfits, rfl, hle, rfl⟩ := (hprops.1 _ _ _ _).mp hv
      obtain ⟨hall, rfl, hle', rfl⟩ := (ih hprops.2 hle).mp hvs
      exact ⟨⟨⟨htext, hfits⟩, hall⟩, by omega, hle', rfl⟩
    · rintro ⟨⟨⟨htext, hfits⟩, hall⟩, rfl, hle, rfl⟩
      have hv := (hprops.1 depth (count + 1) _ _).mpr ⟨hfits, rfl, by omega, rfl⟩
      have hle' : count + 1 + itemCount p.2 ≤ maxItems := by omega
      have hvs := (ih hprops.2 hle').mpr ⟨hall, by omega, hle, rfl⟩
      exact ⟨_, _, ⟨htext, rfl, by omega, rfl⟩, _, _, hv, _, _, hvs, rfl, rfl⟩

/-- `encode` accepts exactly the values within the bounds. -/
theorem encodes (v : Json) : Encodes (encode v) v := by
  induction v using Json.induction with
  | null => exact fun _ _ _ _ => ⟨nofun, fun h => absurd h.1 id⟩
  | bool x => exact fun _ _ _ _ => ⟨nofun, fun h => absurd h.1 id⟩
  | num x => exact fun _ _ _ _ => encodeNumber_eq_some_iff
  | str t => exact fun _ _ _ _ => encodeText_eq_some_iff
  | arr items ih =>
    intro depth count b count'
    rw [encode, Value.fold_arr, fits_arr, itemCount_arr, canonical_arr]
    simp only [Option.bind_eq_bind, Option.bind_eq_some_iff, enter_eq_some_iff, Option.pure_def,
      Option.some.injEq, Prod.mk.injEq, Prod.exists, List.length_map]
    constructor
    · rintro ⟨_, ⟨hdepth, rfl, hle⟩, b₁, c₁, hitems, rfl, rfl⟩
      obtain ⟨hall, rfl, hle', rfl⟩ := (encodeItems_eq_some_iff ih hle).mp hitems
      exact ⟨⟨hdepth, hall⟩, by omega, hle', rfl⟩
    · rintro ⟨⟨hdepth, hall⟩, rfl, hle, rfl⟩
      exact ⟨_, ⟨hdepth, rfl, by omega⟩, _, _,
        (encodeItems_eq_some_iff ih (by omega)).mpr ⟨hall, rfl, by omega, rfl⟩, rfl, by omega⟩
  | obj props ih =>
    intro depth count b count'
    rw [encode, Value.fold_obj, fits_obj, itemCount_obj, canonical_obj]
    simp only [Option.bind_eq_bind, Option.bind_eq_some_iff, enter_eq_some_iff, Option.pure_def,
      Option.some.injEq, Prod.mk.injEq, Prod.exists]
    constructor
    · rintro ⟨_, ⟨hdepth, rfl, hle⟩, ms, c₁, hmembers, rfl, rfl⟩
      obtain ⟨hall, rfl, hle', rfl⟩ := (encodeMembers_eq_some_iff ih hle).mp hmembers
      rw [List.length_map, sortMembers_map]
      exact ⟨⟨hdepth, hall⟩, by omega, hle', rfl⟩
    · rintro ⟨⟨hdepth, hall⟩, rfl, hle, rfl⟩
      refine ⟨_, ⟨hdepth, rfl, by omega⟩, _, _,
        (encodeMembers_eq_some_iff ih (by omega)).mpr ⟨hall, rfl, by omega, rfl⟩, ?_, by omega⟩
      rw [List.length_map, sortMembers_map]

/-- The values that `encodeEnvelope` accepts, and what it makes of them. -/
theorem encodeEnvelope_eq_some_iff {v : Json} : encodeEnvelope v = some b ↔
    Fits v 0 ∧ itemCount v ≤ maxItems ∧ b.length ≤ limit ∧ b = canonical v := by
  simp only [encodeEnvelope, Option.bind_eq_bind, Option.bind_eq_some_iff, Prod.exists,
    encodes v 0 0 _ _, Nat.zero_add]
  constructor
  · rintro ⟨_, _, ⟨hfits, rfl, hle, rfl⟩, h⟩
    split_ifs at h with hlength
    obtain rfl := Option.some.inj h
    exact ⟨hfits, hle, not_lt.mp hlength, rfl⟩
  · rintro ⟨hfits, hle, hlength, rfl⟩
    exact ⟨_, _, ⟨hfits, rfl, hle, rfl⟩, if_neg (not_lt.mpr hlength)⟩

end Encode

end Kdna.Protection.Envelope

import Kdna.Cbor.Exact
import Kdna.Protection.EnvelopeCanonical
import Mathlib.Algebra.Order.BigOperators.Group.List

/-!
# Which envelopes are decoded

The decoder reads the canonical octets of a value as that value, as long as its texts are
read as they are. The decoder of the texts drops a leading U+FEFF, and the octets that it
drops are missing when the value is encoded again. So an envelope is decoded exactly when
none of its texts and keys starts with U+FEFF.
-/

namespace Kdna.Protection.Envelope

/-- The value that is read from the canonical octets of a value. -/
def arranged : Json → Json :=
  Value.fold
    { null := .null, bool := .bool, num := fun x => .num x.unsignedZero, str := .str, arr := .arr
      obj := fun props => Value.ofProps (arrange props) }

@[simp] theorem arranged_arr (items : List Json) :
    arranged (.arr items) = .arr (items.map arranged) := by
  simp [arranged]

@[simp] theorem arranged_obj (props : List (String × Json)) :
    arranged (.obj props) = Value.ofProps ((arrange props).map fun p => (p.1, arranged p.2)) := by
  rw [arranged, Value.fold_obj]
  simp only [arrange_map (fun p => Value.fold _ p.2)]

section Arranged

variable {v : Json}

/-- What depends neither on the order of members nor on the sign of zero is the same of the
value that is read. -/
theorem fold_arranged {α : Type} (a : Value.Algebra Binary64 String α)
    (hnum : ∀ x, a.num (Binary64.unsignedZero x) = a.num x)
    (hobj : ∀ ps qs, ps.Perm qs → (qs.map Prod.fst).Nodup → a.obj ps = a.obj qs)
    (h : v.DistinctKeys) : (arranged v).fold a = v.fold a := by
  induction v using Json.induction with
  | null => rfl
  | bool b => rfl
  | num x => exact hnum x
  | str t => rfl
  | arr items ih =>
    rw [Value.distinctKeys_arr] at h
    rw [arranged_arr, Value.fold_arr, Value.fold_arr, List.map_map]
    exact congrArg a.arr (List.map_congr_left fun w hw => ih w hw (h w hw))
  | obj props ih =>
    rw [Value.distinctKeys_obj] at h
    have hvalues : props.map (fun p => (p.1, (arranged p.2).fold a)) =
        props.map fun p => (p.1, p.2.fold a) :=
      List.map_congr_left fun p hp => by rw [ih p hp (h.2 p hp)]
    have hperm : ((ownOrder ((arrange props).map fun p => (p.1, arranged p.2))).map
        fun p => (p.1, p.2.fold a)).Perm (props.map fun p => (p.1, p.2.fold a)) := by
      refine ((ownOrder_perm _).map _).trans ?_
      rw [List.map_map, ← hvalues]
      exact (arrange_perm props).map _
    rw [arranged_obj, Value.ofProps, Value.fold_obj, Value.fold_obj]
    refine hobj _ _ hperm ?_
    rw [List.map_map]
    exact h.1

theorem itemCount_arranged (h : v.DistinctKeys) : itemCount (arranged v) = itemCount v := by
  refine fold_arranged _ (fun _ => rfl) (fun ps qs hperm _ => ?_) h
  exact congrArg (1 + ·) (hperm.map _).sum_nat

theorem safeNatural?_unsignedZero (x : Binary64) :
    safeNatural? x.unsignedZero = safeNatural? x := by
  have htoInt : x.unsignedZero.toInt = x.toInt := by
    rw [Binary64.unsignedZero]
    split_ifs with hzero
    · simp [Binary64.toInt, hzero]
    · rfl
  rw [safeNatural?, safeNatural?, htoInt]

theorem fits_arranged (h : v.DistinctKeys) : Fits (arranged v) = Fits v := by
  refine fold_arranged _ (fun x => ?_) (fun ps qs hperm _ => ?_) h
  · simp only [safeNatural?_unsignedZero]
  · funext depth
    simp only [hperm.mem_iff]

theorem canonical_arranged (h : v.DistinctKeys) : canonical (arranged v) = canonical v := by
  refine fold_arranged _ (fun x => ?_) (fun ps qs hperm hnodup => ?_) h
  · simp only [safeNatural?_unsignedZero]
  · have hps : (ps.map Prod.fst).Nodup := ((hperm.map _).nodup_iff).mpr hnodup
    simp only [hperm.length_eq, arrange_congr hperm hps]

theorem allTexts_arranged {p : String → Prop} (h : v.DistinctKeys) :
    (arranged v).AllTexts p ↔ v.AllTexts p := by
  refine Eq.to_iff (fold_arranged _ (fun _ => rfl) (fun ps qs hperm _ => ?_) h)
  simp only [hperm.mem_iff]

/-- The value that is read is the encoded one up to the order of members and the sign of
zero. -/
theorem deepEqual_arranged (h : v.DistinctKeys) :
    (arranged v).DeepEqual (v.mapNum Binary64.unsignedZero) := by
  rw [Value.DeepEqual]
  induction v using Json.induction with
  | null => rfl
  | bool b => rfl
  | num x => rfl
  | str t => rfl
  | arr items ih =>
    rw [Value.distinctKeys_arr] at h
    simp only [arranged_arr, Value.mapNum_arr, Value.sorted_arr, List.map_map]
    exact congrArg Value.arr (List.map_congr_left fun w hw => ih w hw (h w hw))
  | obj props ih =>
    rw [Value.distinctKeys_obj] at h
    have hvalues : props.map (fun p => (p.1, (arranged p.2).sorted)) =
        props.map fun p => (p.1, (p.2.mapNum Binary64.unsignedZero).sorted) :=
      List.map_congr_left fun p hp => by rw [ih p hp (h.2 p hp)]
    have hperm : ((ownOrder ((arrange props).map fun p => (p.1, arranged p.2))).map
        fun p => (p.1, p.2.sorted)).Perm
        (props.map fun p => (p.1, (p.2.mapNum Binary64.unsignedZero).sorted)) := by
      refine ((ownOrder_perm _).map _).trans ?_
      rw [List.map_map, ← hvalues]
      exact (arrange_perm props).map _
    simp only [arranged_obj, Value.ofProps, Value.mapNum_obj, Value.sorted_obj, List.map_map]
    congr 1
    refine sortKeys_congr hperm (((hperm.map _).nodup_iff).mpr ?_)
    rw [List.map_map]
    exact h.1

end Arranged

section Head

variable {n : ℕ}

/-- The word of an argument that needs its width is read. -/
theorem readArgument_beWord {add size : ℕ} (hadd : 24 ≤ add) (hsize : 2 ^ (add - 24) = size)
    (hn : n < 256 ^ size) (hsafe : n ≤ maxSafeInteger) (hleast : leastArgument size ≤ n)
    (r : Bytes) : readArgument add (Bytes.beWord size n ++ r) = some (n, r) := by
  have hlength : (Bytes.beWord size n).length = size := Bytes.length_beWord size n
  have htake : (Bytes.beWord size n ++ r).take size = Bytes.beWord size n := by
    rw [List.take_append_of_le_length hlength.ge, List.take_of_length_le hlength.le]
  have hdrop : (Bytes.beWord size n ++ r).drop size = r := by
    rw [List.drop_append_of_le_length hlength.ge, List.drop_of_length_le hlength.le,
      List.nil_append]
  rw [readArgument, if_neg (by omega)]
  simp only [hsize, htake, hdrop, Bytes.beValue_beWord_of_lt hn, List.length_append, hlength]
  rw [if_neg (by omega)]

/-- The argument of a head is read. -/
theorem readArgument_width (hsafe : n ≤ maxSafeInteger) (r : Bytes) :
    (width n).info n < 28 ∧ readArgument ((width n).info n)
      (Bytes.beWord (width n).size n ++ r) = some (n, r) := by
  have hmax : maxSafeInteger < 2 ^ 64 := by
    unfold maxSafeInteger
    omega
  have hword (add size : ℕ) (hadd : 24 ≤ add ∧ add < 28) (hsize : 2 ^ (add - 24) = size)
      (hn : n < 256 ^ size) (hleast : leastArgument size ≤ n) :
      add < 28 ∧ readArgument add (Bytes.beWord size n ++ r) = some (n, r) :=
    ⟨hadd.2, readArgument_beWord hadd.1 hsize hn hsafe hleast r⟩
  unfold width
  split_ifs with h0 h1 h2 h4
  · exact ⟨show n < 28 by omega, if_pos h0⟩
  · exact hword 24 1 (by decide) rfl (by omega) (show 24 ≤ n by omega)
  · exact hword 25 2 (by decide) rfl (by omega) (show 256 ≤ n by omega)
  · exact hword 26 4 (by decide) rfl (by omega) (show 65536 ≤ n by omega)
  · exact hword 27 8 (by decide) rfl (by omega) (show 4294967296 ≤ n by omega)

/-- A head is read. -/
theorem readHead_head {major : ℕ} (hmajor : major = 0 ∨ major = 3 ∨ major = 4 ∨ major = 5)
    (hsafe : n ≤ maxSafeInteger) (r : Bytes) :
    readHead (head major n ++ r) = some (major, n, r) := by
  obtain ⟨hinfo, hargument⟩ := readArgument_width hsafe r
  obtain ⟨hfirst, hadd⟩ := Cbor.initial_fields (show major < 8 by omega)
    (show (width n).info n < 32 by omega)
  rw [head, Cbor.head, List.cons_append, readHead]
  simp only [hfirst, hadd]
  rw [if_neg (by omega), hargument]
  rfl

end Head

section Complete

variable {text : Bytes → Option String} {levels count : ℕ}

variable {rd : Reader}

/-- What stands behind a head is read as its item. -/
theorem read_head {major n : ℕ} (hmajor : major = 0 ∨ major = 3 ∨ major = 4 ∨ major = 5)
    (hsafe : n ≤ maxSafeInteger) (hcount : count + 1 ≤ maxItems) (r : Bytes) :
    read text (levels + 1) count (head major n ++ r) =
      readItem text (read text levels) (count + 1) major n r := by
  rw [read, if_neg (by omega), readHead_head hmajor hsafe, Option.bind_some]

/-- A text that is read as it is. -/
theorem read_textBytes {t : String} (ht : text (Utf8.encode t) = some t)
    (hlength : (Utf8.encode t).length ≤ limit) (hcount : count + 1 ≤ maxItems) (r : Bytes) :
    read text (levels + 1) count (textBytes t ++ r) = some (.str t, count + 1, r) := by
  have hsafe : limit ≤ maxSafeInteger := by
    unfold limit maxSafeInteger
    omega
  have hread : readText text (Utf8.encode t).length (Utf8.encode t ++ r) = some (.str t, r) := by
    rw [readText, if_neg (by simp [hlength]), List.take_left, List.drop_left, ht, Option.map_some]
  rw [textBytes, List.append_assoc, read_head (.inr (.inl rfl)) (by omega) hcount, readItem,
    if_neg (by decide), if_pos rfl, hread, Option.map_some]

/-- A safe natural number is exact. -/
theorem exactInteger_of_safeNatural? {x : Binary64} {n : ℕ} (h : safeNatural? x = some n) :
    n ≤ maxSafeInteger ∧ Binary64.exactInteger n = some x.unsignedZero := by
  rw [← safeNatural?_unsignedZero, safeNatural?, Option.bind_eq_some_iff] at h
  obtain ⟨m, htoInt, hm⟩ := h
  split_ifs at hm with hrange
  have hmn : m = n := by
    rw [Option.some.injEq] at hm
    omega
  rw [Binary64.exactInteger_eq_some_iff, ← hmn]
  refine ⟨by omega, htoInt, fun hunits => ?_⟩
  rw [Binary64.unsignedZero] at hunits ⊢
  split_ifs at hunits ⊢ with h
  · rfl
  · exact absurd hunits h

/-- A safe natural number. -/
theorem read_number {x : Binary64} (hx : (safeNatural? x).isSome) (hcount : count + 1 ≤ maxItems)
    (r : Bytes) : read text (levels + 1) count (canonical (.num x) ++ r) =
      some (.num x.unsignedZero, count + 1, r) := by
  obtain ⟨n, hn⟩ := Option.isSome_iff_exists.mp hx
  obtain ⟨hsafe, hexact⟩ := exactInteger_of_safeNatural? hn
  have hcanonical : canonical (.num x) = head 0 n := by
    rw [canonical, Value.fold_num]
    simp only [hn, Option.getD_some]
  rw [hcanonical, read_head (.inl rfl) hsafe hcount, readItem, if_pos rfl, hexact,
    Option.map_some]

/-- The items of an array are read in order. -/
theorem readItems_canonical {items : List Json}
    (hread : ∀ v ∈ items, ∀ count r, count + itemCount v ≤ maxItems →
      rd count (canonical v ++ r) = some (arranged v, count + itemCount v, r))
    (hcount : count + (items.map itemCount).sum ≤ maxItems) (r : Bytes) :
    readItems rd items.length count ((items.map canonical).flatten ++ r) =
      some (items.map arranged, count + (items.map itemCount).sum, r) := by
  induction items generalizing count with
  | nil => rfl
  | cons v vs ih =>
    rw [List.forall_mem_cons] at hread
    rw [List.map_cons, List.sum_cons] at hcount
    have hv := hread.1 count ((vs.map canonical).flatten ++ r) (by omega)
    have hvs := ih hread.2 (show count + itemCount v + _ ≤ maxItems by omega)
    rw [List.map_cons, List.flatten_cons, List.append_assoc, List.length_cons, readItems, hv]
    simp only [Option.bind_eq_bind, Option.bind_some, hvs, Option.pure_def, List.map_cons,
      List.sum_cons, Nat.add_assoc]

/-- The members of an object are read in order. -/
theorem readMembers_canonical {props : List (String × Json)} {keys : List String}
    {prior : Option Bytes}
    (hkey : ∀ p ∈ props, ∀ count r, count + 1 ≤ maxItems →
      rd count (textBytes p.1 ++ r) = some (.str p.1, count + 1, r))
    (hread : ∀ p ∈ props, ∀ count r, count + itemCount p.2 ≤ maxItems →
      rd count (canonical p.2 ++ r) = some (arranged p.2, count + itemCount p.2, r))
    (hnodup : (props.map Prod.fst).Nodup) (hseen : ∀ p ∈ props, p.1 ∉ keys)
    (hstrict : props.Pairwise fun p q => compare (textBytes p.1) (textBytes q.1) < 0)
    (hprior : ∀ k ∈ prior, ∀ p ∈ props, compare k (textBytes p.1) < 0)
    (hcount : count + (props.map fun p => 1 + itemCount p.2).sum ≤ maxItems) (r : Bytes) :
    readMembers rd props.length keys prior count
      (joinMembers (props.map fun p => (textBytes p.1, canonical p.2)) ++ r) =
      some (props.map fun p => (p.1, arranged p.2),
        count + (props.map fun p => 1 + itemCount p.2).sum, r) := by
  induction props generalizing count keys prior with
  | nil => rfl
  | cons p ps ih =>
    rw [List.forall_mem_cons] at hkey hread hseen
    rw [List.map_cons, List.nodup_cons] at hnodup
    rw [List.map_cons, List.sum_cons] at hcount
    obtain ⟨hfirst, hstrict⟩ := List.pairwise_cons.mp hstrict
    have hprior' : ¬ (p.1 ∈ keys ∨
        prior.any fun k => decide (0 ≤ compare k (textBytes p.1))) := by
      rw [Option.any_eq_true]
      rintro (hmem | ⟨k, hk, hle⟩)
      · exact hseen.1 hmem
      · have hlt := hprior k hk p List.mem_cons_self
        rw [decide_eq_true_eq] at hle
        omega
    have hlater : ∀ q ∈ ps, q.1 ∉ p.1 :: keys := by
      intro q hq
      rw [List.mem_cons, not_or]
      exact ⟨fun heq => hnodup.1 (heq ▸ List.mem_map_of_mem hq), hseen.2 q hq⟩
    have hbody : joinMembers ((p :: ps).map fun p => (textBytes p.1, canonical p.2)) =
        textBytes p.1 ++ (canonical p.2 ++
          joinMembers (ps.map fun p => (textBytes p.1, canonical p.2))) := by
      rw [joinMembers, List.map_cons, List.flatMap_cons, List.append_assoc]
      rfl
    have hrest := ih hkey.2 hread.2 hnodup.2 hlater hstrict
      (fun k hk q hq => Option.mem_some.mp hk ▸ hfirst q hq)
      (show count + 1 + itemCount p.2 + _ ≤ maxItems by omega)
    have hencoded (k b : Bytes) : (k ++ b).take ((k ++ b).length - b.length) = k := by
      rw [List.length_append, Nat.add_sub_cancel, List.take_left]
    rw [hbody, List.append_assoc, List.append_assoc, List.length_cons, readMembers,
      hkey.1 count _ (by omega)]
    simp only [Option.bind_eq_bind, Option.bind_some, hencoded]
    rw [if_neg hprior', hread.1 (count + 1) _ (by omega)]
    simp only [Option.bind_some, hrest, Option.pure_def, List.map_cons, List.sum_cons]
    simp only [Nat.add_assoc]

/-- The canonical octets of a value are read as that value, when its texts are read as they
are. -/
theorem read_canonical {v : Json} {depth : ℕ}
    (htexts : v.AllTexts fun t => text (Utf8.encode t) = some t) (hkeys : v.DistinctKeys)
    (hfits : Fits v depth) (hlevels : levels + depth = maxDepth + 1)
    (hcount : count + itemCount v ≤ maxItems) (r : Bytes) :
    read text levels count (canonical v ++ r) =
      some (arranged v, count + itemCount v, r) := by
  have hsafe : maxItems ≤ maxSafeInteger := by
    unfold maxItems maxSafeInteger
    omega
  induction v using Json.induction generalizing levels depth count r with
  | null => exact absurd hfits id
  | bool b => exact absurd hfits id
  | num x =>
    obtain ⟨hdepth, hx⟩ : depth ≤ maxDepth ∧ (safeNatural? x).isSome := hfits
    obtain ⟨levels, rfl⟩ : ∃ l, levels = l + 1 := ⟨levels - 1, by omega⟩
    exact read_number hx hcount r
  | str t =>
    obtain ⟨hdepth, hlength⟩ : TextFits t depth := hfits
    obtain ⟨levels, rfl⟩ : ∃ l, levels = l + 1 := ⟨levels - 1, by omega⟩
    exact read_textBytes htexts hlength hcount r
  | arr items ih =>
    rw [Value.allTexts_arr] at htexts
    rw [Value.distinctKeys_arr] at hkeys
    rw [fits_arr] at hfits
    rw [itemCount_arr] at hcount ⊢
    obtain ⟨levels, rfl⟩ : ∃ l, levels = l + 1 := ⟨levels - 1, by omega⟩
    have hlength : items.length ≤ (items.map itemCount).sum := by
      have hsum := List.length_le_sum_of_one_le (items.map itemCount)
        (List.forall_mem_map.mpr fun v _ => one_le_itemCount v)
      rwa [List.length_map] at hsum
    have hitem : ∀ v ∈ items, ∀ count r, count + itemCount v ≤ maxItems →
        read text levels count (canonical v ++ r) =
          some (arranged v, count + itemCount v, r) := by
      intro v hv count r hcount
      exact ih v hv (htexts v hv) (hkeys v hv) (hfits.2 v hv) (by omega) hcount r
    have hread := readItems_canonical hitem (show count + 1 + _ ≤ maxItems by omega) r
    rw [canonical_arr, List.append_assoc, read_head (.inr (.inr (.inl rfl))) (by omega) (by omega),
      readItem, if_neg (by decide), if_neg (by decide), if_neg (by omega), if_pos rfl, hread,
      arranged_arr]
    simp only [Option.map_some, Nat.add_assoc]
  | obj props ih =>
    rw [Value.allTexts_obj] at htexts
    rw [Value.distinctKeys_obj] at hkeys
    rw [fits_obj] at hfits
    rw [itemCount_obj] at hcount ⊢
    obtain ⟨levels, rfl⟩ : ∃ l, levels = l + 1 := ⟨levels - 1, by omega⟩
    have hperm := arrange_perm props
    have hlength : props.length ≤ (props.map fun p => 1 + itemCount p.2).sum := by
      have hsum := List.length_le_sum_of_one_le (props.map fun p => 1 + itemCount p.2)
        (List.forall_mem_map.mpr fun p _ => Nat.le_add_right 1 _)
      rwa [List.length_map] at hsum
    have hsum : ((arrange props).map fun p => 1 + itemCount p.2).sum =
        (props.map fun p => 1 + itemCount p.2).sum := (hperm.map _).sum_nat
    have hkey : ∀ p ∈ arrange props, ∀ count r, count + 1 ≤ maxItems →
        read text levels count (textBytes p.1 ++ r) = some (.str p.1, count + 1, r) := by
      intro p hp count r hcount
      have hmem := hperm.mem_iff.mp hp
      obtain ⟨hdepth, htext⟩ := (hfits.2 p hmem).1
      obtain ⟨levels, rfl⟩ : ∃ l, levels = l + 1 := ⟨levels - 1, by omega⟩
      exact read_textBytes (htexts p hmem).1 htext hcount r
    have hvalue : ∀ p ∈ arrange props, ∀ count r, count + itemCount p.2 ≤ maxItems →
        read text levels count (canonical p.2 ++ r) =
          some (arranged p.2, count + itemCount p.2, r) := by
      intro p hp count r hcount
      have hmem := hperm.mem_iff.mp hp
      exact ih p hmem (htexts p hmem).2 (hkeys.2 p hmem) (hfits.2 p hmem).2 (by omega) hcount r
    have hread := readMembers_canonical hkey hvalue
      (((hperm.map Prod.fst).nodup_iff).mpr hkeys.1) (fun _ _ => List.not_mem_nil)
      (arrange_strict hkeys.1) (fun k (hk : k ∈ none) => absurd hk (Option.not_mem_none k))
      (show count + 1 + _ ≤ maxItems by rw [hsum]; omega) r
    rw [hperm.length_eq, hsum] at hread
    rw [canonical_obj, List.append_assoc, read_head (.inr (.inr (.inr rfl))) (by omega) (by omega),
      readItem, if_neg (by decide), if_neg (by decide), if_neg (by omega), if_neg (by decide),
      hread, arranged_obj]
    simp only [Option.map_some, Nat.add_assoc]

end Complete

section Strip

variable {rd rd' : Reader} {count c n : ℕ} {b r : Bytes}

/-- What the first reader returns is what the second one returns, without its marks. -/
def Strips (rd rd' : Reader) : Prop :=
  ∀ count b w c r, rd count b = some (w, c, r) →
    ∃ d : Json, w = (d.retext Utf8.stripBom).enumerated ∧ rd' count b = some (d.enumerated, c, r)

theorem readItems_strips (h : Strips rd rd') {ws : List Json}
    (hread : readItems rd n count b = some (ws, c, r)) :
    ∃ ds : List Json, ws = ds.map (fun d => (d.retext Utf8.stripBom).enumerated) ∧
      readItems rd' n count b = some (ds.map Value.enumerated, c, r) := by
  induction n generalizing count b ws with
  | zero =>
    obtain ⟨rfl, hrest⟩ := Prod.mk.inj (Option.some.inj hread)
    exact ⟨[], rfl, by rw [readItems, hrest]; rfl⟩
  | succ n ih =>
    simp only [readItems, Option.bind_eq_bind, Option.bind_eq_some_iff, Option.pure_def,
      Option.some.injEq, Prod.mk.injEq, Prod.exists] at hread ⊢
    obtain ⟨w, c₁, b₁, hw, ws, c₂, b₂, hws, rfl, rfl, rfl⟩ := hread
    obtain ⟨d, rfl, hd⟩ := h _ _ _ _ _ hw
    obtain ⟨ds, rfl, hds⟩ := ih hws
    exact ⟨d :: ds, rfl, _, _, _, hd, _, _, _, hds, rfl, rfl, rfl⟩

/-- What is read as a text without its mark is a text. -/
theorem eq_str_of_stripped {d : Json} {key : String}
    (h : .str key = (d.retext Utf8.stripBom).enumerated) :
    ∃ s, d = .str s ∧ Utf8.stripBom s = key := by
  cases d with
  | str s => exact ⟨s, rfl, (Value.str.inj h).symm⟩
  | null => cases h
  | bool v => cases h
  | num x => cases h
  | arr items =>
    rw [Value.retext_arr, Value.enumerated_arr] at h
    cases h
  | obj props =>
    rw [Value.retext_obj, Value.enumerated_obj] at h
    cases h

theorem readMembers_strips (h : Strips rd rd') {keys : List String} {prior : Option Bytes}
    {ps : List (String × Json)}
    (hread : readMembers rd n (keys.map Utf8.stripBom) prior count b = some (ps, c, r)) :
    ∃ ds : List (String × Json),
      ps = ds.map (fun p => (Utf8.stripBom p.1, (p.2.retext Utf8.stripBom).enumerated)) ∧
      readMembers rd' n keys prior count b =
        some (ds.map fun p => (p.1, p.2.enumerated), c, r) := by
  induction n generalizing count b ps keys prior with
  | zero =>
    obtain ⟨rfl, hrest⟩ := Prod.mk.inj (Option.some.inj hread)
    exact ⟨[], rfl, by rw [readMembers, hrest]; rfl⟩
  | succ n ih =>
    rw [readMembers, Option.bind_eq_bind, Option.bind_eq_some_iff] at hread
    obtain ⟨⟨k, c₁, b₁⟩, hk, hread⟩ := hread
    obtain ⟨d, hd, hkey⟩ := h _ _ _ _ _ hk
    cases k with
    | str key =>
      obtain ⟨s, rfl, rfl⟩ := eq_str_of_stripped hd
      simp only at hread
      split_ifs at hread with hcheck
      have hnew : ¬ (s ∈ keys ∨
          prior.any fun p => decide (0 ≤ compare p (b.take (b.length - b₁.length)))) := by
        rintro (hmem | hprior)
        · exact hcheck (.inl (List.mem_map_of_mem hmem))
        · exact hcheck (.inr hprior)
      simp only [Option.bind_eq_bind, Option.bind_eq_some_iff, Option.pure_def, Option.some.injEq,
        Prod.mk.injEq, Prod.exists] at hread
      obtain ⟨w, c₂, b₂, hw, ps, c₃, b₃, hps, rfl, rfl, rfl⟩ := hread
      obtain ⟨d, rfl, hd⟩ := h _ _ _ _ _ hw
      obtain ⟨ds, rfl, hds⟩ := ih (show readMembers rd n ((s :: keys).map Utf8.stripBom) _ _ _ = _ from hps)
      refine ⟨(s, d) :: ds, rfl, ?_⟩
      have hkey : rd' count b = some (.str s, c₁, b₁) := hkey
      rw [readMembers, hkey]
      simp only [Option.bind_eq_bind, Option.bind_some]
      rw [if_neg hnew, hd]
      simp only [Option.bind_some, hds, Option.pure_def, List.map_cons]
    | null => cases hread
    | bool v => cases hread
    | num x => cases hread
    | arr items => cases hread
    | obj props => cases hread

/-- The decoder of the source reads what the strict one reads, without its marks. -/
theorem read_strips (levels : ℕ) : Strips (read decodeText levels) (read Utf8.decode levels) := by
  induction levels with
  | zero => exact fun _ _ _ _ _ h => nomatch h
  | succ levels ih =>
    intro count b w c r h
    rw [read] at h ⊢
    split_ifs at h ⊢ with hcount
    obtain ⟨⟨major, n, b₁⟩, hhead, h⟩ := Option.bind_eq_some_iff.mp h
    rw [hhead, Option.bind_some]
    rw [readItem] at h ⊢
    split_ifs at h ⊢ with hnumber htext hmany harray
    · obtain ⟨x, hx, h⟩ := Option.map_eq_some_iff.mp h
      obtain ⟨rfl, rfl, rfl⟩ := by simpa only [Prod.mk.injEq] using h
      exact ⟨.num x, rfl, by rw [hx, Option.map_some]; rfl⟩
    · obtain ⟨⟨v, b₂⟩, hv, h⟩ := Option.map_eq_some_iff.mp h
      obtain ⟨rfl, rfl, rfl⟩ := by simpa only [Prod.mk.injEq] using h
      rw [readText] at hv ⊢
      split_ifs at hv ⊢ with hlength
      obtain ⟨t, ht, hv⟩ := Option.map_eq_some_iff.mp hv
      obtain ⟨rfl, rfl⟩ := Prod.mk.inj hv
      obtain ⟨s, hs, rfl⟩ := Option.map_eq_some_iff.mp ht
      exact ⟨.str s, rfl, by rw [hs, Option.map_some, Option.map_some]; rfl⟩
    · obtain ⟨⟨vs, c₂, b₂⟩, hvs, h⟩ := Option.map_eq_some_iff.mp h
      obtain ⟨rfl, rfl, rfl⟩ := by simpa only [Prod.mk.injEq] using h
      obtain ⟨ds, rfl, hds⟩ := readItems_strips ih hvs
      refine ⟨.arr ds, ?_, by rw [hds, Option.map_some, Value.enumerated_arr]⟩
      rw [Value.retext_arr, Value.enumerated_arr, List.map_map]
      rfl
    · obtain ⟨⟨ps, c₂, b₂⟩, hps, h⟩ := Option.map_eq_some_iff.mp h
      obtain ⟨rfl, rfl, rfl⟩ := by simpa only [Prod.mk.injEq] using h
      obtain ⟨ds, rfl, hds⟩ := readMembers_strips ih (show readMembers _ n ([].map Utf8.stripBom) _ _ _ = _ from hps)
      refine ⟨.obj ds, ?_, by rw [hds, Option.map_some, Value.enumerated_obj]⟩
      rw [Value.retext_obj, Value.enumerated_obj, List.map_map]
      rfl

end Strip

section Length

theorem length_canonical_arr (items : List Json) : (canonical (.arr items)).length =
    (head 4 items.length).length + (items.map fun v => (canonical v).length).sum := by
  rw [canonical_arr, List.length_append, List.length_flatten, List.map_map]
  rfl

theorem length_canonical_obj (props : List (String × Json)) : (canonical (.obj props)).length =
    (head 5 props.length).length +
      (props.map fun p => (textBytes p.1).length + (canonical p.2).length).sum := by
  have hperm := (arrange_perm props).map fun p => (textBytes p.1).length + (canonical p.2).length
  rw [canonical_obj, List.length_append, joinMembers, List.length_flatMap, List.map_map,
    ← hperm.sum_nat]
  simp only [Function.comp_def, List.length_append]

theorem canonical_ne_nil {v : Json} {depth : ℕ} (h : Fits v depth) : canonical v ≠ [] := by
  have hhead (major n : ℕ) (b : Bytes) : head major n ++ b ≠ [] := List.cons_ne_nil _ _
  cases v with
  | null => exact absurd h id
  | bool b => exact absurd h id
  | num x => exact List.cons_ne_nil _ _
  | str t => exact hhead _ _ _
  | arr items =>
    rw [canonical_arr]
    exact hhead _ _ _
  | obj props =>
    rw [canonical_obj]
    exact hhead _ _ _

/-- The order of members does not change the length. -/
theorem length_canonical_enumerated (v : Json) :
    (canonical v.enumerated).length = (canonical v).length := by
  induction v using Json.induction with
  | null => rfl
  | bool b => rfl
  | num x => rfl
  | str t => rfl
  | arr items ih =>
    rw [Value.enumerated_arr, length_canonical_arr, length_canonical_arr, List.length_map,
      List.map_map]
    exact congrArg _ (congrArg List.sum (List.map_congr_left ih))
  | obj props ih =>
    have hperm := ownOrder_perm (props.map fun p => (p.1, p.2.enumerated))
    rw [Value.enumerated_obj, Value.ofProps, length_canonical_obj, length_canonical_obj,
      hperm.length_eq, (hperm.map _).sum_nat, List.length_map, List.map_map]
    exact congrArg _ (congrArg List.sum (List.map_congr_left fun p hp => by simp [ih p hp]))

/-- A text without its mark has fewer octets. -/
theorem length_textBytes_stripBom (t : String) :
    (textBytes (Utf8.stripBom t)).length + markOf t ≤ (textBytes t).length := by
  unfold markOf
  split_ifs with h
  · rw [(Utf8.stripBom_eq_self_iff t).mpr h]
    exact le_rfl
  · obtain ⟨cs, hcs⟩ := (Utf8.bom_isPrefix_encode_iff t).mp (not_not.mp h)
    have hstrip : (Utf8.stripBom t).toList = cs := by simp [Utf8.stripBom, hcs]
    have hlength : (Utf8.encode t).length = 3 + (Utf8.encode (Utf8.stripBom t)).length := by
      rw [Utf8.encode, Utf8.encode, hstrip, hcs, Utf8.encodeChars_cons, List.length_append]
      rfl
    have hwidth := size_width_mono
      (show (Utf8.encode (Utf8.stripBom t)).length ≤ (Utf8.encode t).length by omega)
    rw [length_textBytes, length_textBytes]
    omega

/-- A value without its marks has fewer octets. -/
theorem length_canonical_stripBom (v : Json) :
    (canonical (v.retext Utf8.stripBom)).length + v.marks ≤ (canonical v).length := by
  induction v using Json.induction with
  | null => exact le_rfl
  | bool b => exact le_rfl
  | num x => exact le_rfl
  | str t => exact length_textBytes_stripBom t
  | arr items ih =>
    have hsum := List.sum_le_sum ih
    rw [List.sum_map_add] at hsum
    rw [Value.retext_arr, length_canonical_arr, length_canonical_arr, Value.marks_arr,
      List.length_map, List.map_map, Nat.add_assoc]
    exact Nat.add_le_add_left hsum _
  | obj props ih =>
    have hsum : ((props.map fun p => (textBytes (Utf8.stripBom p.1)).length +
        (canonical (p.2.retext Utf8.stripBom)).length).sum) +
        (props.map fun p => markOf p.1 + p.2.marks).sum ≤
        (props.map fun p => (textBytes p.1).length + (canonical p.2).length).sum := by
      rw [← List.sum_map_add]
      refine List.sum_le_sum fun p hp => ?_
      have hkey := length_textBytes_stripBom p.1
      have hvalue := ih p hp
      omega
    rw [Value.retext_obj, length_canonical_obj, length_canonical_obj, Value.marks_obj,
      List.length_map, List.map_map, Nat.add_assoc]
    exact Nat.add_le_add_left hsum _

end Length

/-- What is encoded is decoded again when no text and no key starts with U+FEFF. -/
theorem decodeEnvelope_of_unmarked {v : Json} {b : Bytes} (hkeys : v.DistinctKeys)
    (hencode : encodeEnvelope v = some b) (htexts : v.AllTexts Unmarked) :
    decodeEnvelope b = some (arranged v) := by
  obtain ⟨hfits, hcount, hlength, rfl⟩ := encodeEnvelope_eq_some_iff.mp hencode
  have hreads : v.AllTexts fun t => decodeText (Utf8.encode t) = some t := by
    exact htexts.imp fun t ht => decodeText_encode ht
  have hread := read_canonical hreads hkeys hfits rfl (show 0 + _ ≤ maxItems by omega) []
  have hagain : encodeEnvelope (arranged v) = some (canonical v) := by
    rw [encodeEnvelope_eq_some_iff, fits_arranged hkeys, itemCount_arranged hkeys,
      canonical_arranged hkeys]
    exact ⟨hfits, hcount, hlength, rfl⟩
  have hne := canonical_ne_nil hfits
  rw [List.append_nil] at hread
  rw [decodeEnvelope, if_neg (by simp [hne, hlength]), hread]
  simp [hagain]

/-- What is decoded is encoded as the same octets. -/
theorem encodeEnvelope_of_decodeEnvelope {v : Json} {b : Bytes} (h : decodeEnvelope b = some v) :
    encodeEnvelope v = some b := by
  rw [decodeEnvelope] at h
  split_ifs at h with hlength
  obtain ⟨⟨w, count, rest⟩, -, h⟩ := Option.bind_eq_some_iff.mp h
  simp only at h
  split_ifs at h with hagain
  obtain rfl := Option.some.inj h
  exact not_not.mp (not_or.mp hagain).2

/-- What is encoded is decoded only when no text and no key starts with U+FEFF: the decoder
drops a mark, and with it the octets that the comparison misses. -/
theorem unmarked_of_decodeEnvelope {v w : Json} {b : Bytes} (hkeys : v.DistinctKeys)
    (hencode : encodeEnvelope v = some b) (hdecode : decodeEnvelope b = some w) :
    v.AllTexts Unmarked := by
  have hagain := encodeEnvelope_of_decodeEnvelope hdecode
  obtain ⟨-, -, -, hw⟩ := encodeEnvelope_eq_some_iff.mp hagain
  obtain ⟨hfits, hcount, -, rfl⟩ := encodeEnvelope_eq_some_iff.mp hencode
  rw [decodeEnvelope] at hdecode
  split_ifs at hdecode with hlength
  obtain ⟨⟨w', count, rest⟩, hread, hdecode⟩ := Option.bind_eq_some_iff.mp hdecode
  simp only at hdecode
  split_ifs at hdecode with hrest
  obtain rfl := Option.some.inj hdecode
  -- the strict decoder reads the same octets as the value itself
  obtain ⟨d, hd, hstrict⟩ := read_strips _ _ _ _ _ _ hread
  have hreads : v.AllTexts fun t => Utf8.decode (Utf8.encode t) = some t :=
    Value.allTexts_of_forall Utf8.decode_encode v
  have hplain := read_canonical hreads hkeys hfits rfl (show 0 + _ ≤ maxItems by omega) []
  rw [List.append_nil, hstrict] at hplain
  have harranged : d.enumerated = arranged v := (Prod.mk.inj (Option.some.inj hplain)).1
  have hmarks := length_canonical_stripBom d
  have hstripped := congrArg List.length hw
  rw [hd, length_canonical_enumerated, ← canonical_arranged hkeys, ← harranged,
    length_canonical_enumerated] at hstripped
  rw [← allTexts_arranged hkeys, ← harranged, Cbor.allTexts_enumerated,
    ← Value.marks_eq_zero_iff]
  omega

/-- A value that is encoded is decoded as itself, up to the order of members and the sign of
zero, exactly when none of its texts and keys starts with U+FEFF; octets that are decoded are
those that the value is encoded as. -/
theorem codec_exact (v : Json) (b : Bytes) :
    (v.DistinctKeys → encodeEnvelope v = some b →
      ((∃ w, decodeEnvelope b = some w ∧ w.DeepEqual (v.mapNum Binary64.unsignedZero)) ↔
        v.AllTexts Unmarked)) ∧
    (decodeEnvelope b = some v → encodeEnvelope v = some b) := by
  refine ⟨fun hkeys hencode => ⟨?_, fun htexts => ?_⟩, encodeEnvelope_of_decodeEnvelope⟩
  · rintro ⟨w, hdecode, -⟩
    exact unmarked_of_decodeEnvelope hkeys hencode hdecode
  · exact ⟨arranged v, decodeEnvelope_of_unmarked hkeys hencode htexts, deepEqual_arranged hkeys⟩

/-- An envelope with one slot. -/
def sampleEnvelope (slot : String) : Json := .obj [("slot", .str slot)]

/-- The octets of that envelope. -/
def sampleEnvelopeBytes : Bytes := [0xA1, 0x64, 0x73, 0x6C, 0x6F, 0x74, 0x63, 0x6F, 0x6E, 0x65]

theorem distinctKeys_sampleEnvelope (slot : String) : (sampleEnvelope slot).DistinctKeys := by
  simp [sampleEnvelope, Value.DistinctKeys]

theorem codec_exact_sample : ∃ w, decodeEnvelope sampleEnvelopeBytes = some w ∧
    w.DeepEqual ((sampleEnvelope "one").mapNum Binary64.unsignedZero) ∧
    encodeEnvelope w = some sampleEnvelopeBytes := by
  have hencode : encodeEnvelope (sampleEnvelope "one") = some sampleEnvelopeBytes := by rfl
  have htexts : (sampleEnvelope "one").AllTexts Unmarked := by
    rw [sampleEnvelope, Value.allTexts_obj]
    simp only [List.forall_mem_singleton, Value.allTexts_str]
    decide
  obtain ⟨w, hw, hequal⟩ :=
    ((codec_exact _ _).1 (distinctKeys_sampleEnvelope "one") hencode).mpr htexts
  exact ⟨w, hw, hequal, (codec_exact w _).2 hw⟩

theorem codec_exact_counterexample :
    ¬ ∀ v b, v.DistinctKeys → encodeEnvelope v = some b → ∃ w, decodeEnvelope b = some w := by
  intro hall
  obtain ⟨w, hw⟩ := hall (sampleEnvelope "\uFEFFone") _ (distinctKeys_sampleEnvelope _) rfl
  exact nomatch hw

end Kdna.Protection.Envelope

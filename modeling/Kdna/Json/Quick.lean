import Kdna.Json.Charge
import Mathlib.Algebra.Order.BigOperators.Group.List

/-!
# A quick form of the strict check

The strict check of a value measures the text of each string. The octets of a string bound its
text, and a value that is small by this measure needs no other: it is strict, and its copy is the
value as an object enumerates it. A text without escapes weighs its octets and its quotes.
-/

namespace Kdna

namespace Value

/-- A bound of the text of a value, by the octets of its strings. -/
def bulk : Json → ℕ :=
  fold { null := 4, bool := fun _ => 5, num := fun x => scalarBytes (.num x)
         str := fun t => 2 + 6 * t.utf8ByteSize, arr := fun items => 2 + (items.map (1 + ·)).sum
         obj := fun props => 2 + (props.map fun p => 4 + 6 * p.1.utf8ByteSize + p.2).sum }

@[simp] theorem bulk_arr (items : List Json) :
    bulk (.arr items) = 2 + (items.map fun v => 1 + v.bulk).sum := by
  simp [bulk, Function.comp_def]

@[simp] theorem bulk_obj (props : List (String × Json)) :
    bulk (.obj props) = 2 + (props.map fun p => 4 + 6 * p.1.utf8ByteSize + p.2.bulk).sum := by
  simp [bulk, Function.comp_def]

theorem scalarBytes_str_le (t : String) : scalarBytes (.str t) ≤ 2 + 6 * t.utf8ByteSize := by
  rw [← length_encode_eq]
  exact length_encodeChars_quote_le t

/-- The sum of what a comma and each element take. -/
theorem sum_add_length_le {α : Type} {l : List α} {f g : α → ℕ} (h : ∀ a ∈ l, f a + 1 ≤ g a) :
    (l.map f).sum + l.length ≤ (l.map g).sum := by
  induction l with
  | nil => rfl
  | cons a l ih =>
    have hhead := h a List.mem_cons_self
    have htail := ih fun b hb => h b (.tail _ hb)
    rw [List.map_cons, List.sum_cons, List.map_cons, List.sum_cons, List.length_cons]
    omega

/-- The bulk of a value bounds its text. -/
theorem scalarBytes_le_bulk (v : Json) : scalarBytes v ≤ v.bulk := by
  induction v using Value.induction with
  | null => decide
  | bool b => cases b <;> decide
  | num x => exact le_rfl
  | str t => exact scalarBytes_str_le t
  | arr items ih =>
    have hsum : (items.map scalarBytes).sum + items.length ≤
        (items.map fun v : Json => 1 + v.bulk).sum := by
      refine sum_add_length_le fun v hv => ?_
      have hle := ih v hv
      omega
    rw [scalarBytes_arr, bulk_arr]
    omega
  | obj props ih =>
    have hsum : (props.map fun p : String × Json =>
        scalarBytes (.str p.1) + 1 + scalarBytes p.2).sum + props.length ≤
        (props.map fun p : String × Json => 4 + 6 * p.1.utf8ByteSize + p.2.bulk).sum := by
      refine sum_add_length_le fun p hp => ?_
      have hkey := scalarBytes_str_le p.1
      have hle := ih p hp
      omega
    rw [scalarBytes_obj, bulk_obj]
    omega

/-- Whether the arrays of a value keep to the bound, at a depth that leaves room for some more
levels. -/
def shallow : Json → ℕ → Bool :=
  fold { null := Nat.blt 0, bool := fun _ => Nat.blt 0, num := fun _ => Nat.blt 0
         str := fun _ => Nat.blt 0
         arr := fun items levels => Nat.blt 0 levels && Nat.ble items.length 10000 &&
           items.all fun item => item (levels - 1)
         obj := fun props levels => Nat.blt 0 levels && props.all fun p => p.2 (levels - 1) }

theorem shallow_arr (items : List Json) (levels : ℕ) :
    shallow (.arr items) levels = (Nat.blt 0 levels && Nat.ble items.length 10000 &&
      items.all fun v => v.shallow (levels - 1)) := by
  simp [shallow, List.all_map, Function.comp_def]

theorem shallow_obj (props : List (String × Json)) (levels : ℕ) :
    shallow (.obj props) levels =
      (Nat.blt 0 levels && props.all fun p => p.2.shallow (levels - 1)) := by
  simp [shallow, List.all_map, Function.comp_def]

theorem not_shallow_zero (v : Json) : v.shallow 0 = false := by
  cases v with
  | arr items => rw [shallow_arr]; rfl
  | obj props => rw [shallow_obj]; rfl
  | null => rfl
  | bool b => rfl
  | num x => rfl
  | str t => rfl

/-- The strings of a value are within its bulk. -/
theorem strict_of_shallow {levels : ℕ} {v : Json} (h : v.shallow levels = true)
    (hbulk : v.bulk ≤ maxStringBytes) : v.Strict levels := by
  induction levels generalizing v with
  | zero =>
    rw [not_shallow_zero] at h
    cases h
  | succ levels ih =>
    cases v with
    | null => trivial
    | bool b => trivial
    | num x => trivial
    | str t =>
      change 2 + 6 * t.utf8ByteSize ≤ maxStringBytes at hbulk
      change (Utf8.encode t).length ≤ maxStringBytes
      rw [length_encode_eq]
      omega
    | arr items =>
      rw [shallow_arr, Bool.and_eq_true, Bool.and_eq_true, List.all_eq_true] at h
      rw [bulk_arr] at hbulk
      refine ⟨Nat.le_of_ble_eq_true h.1.2, fun w hw => ih (h.2 w hw) ?_⟩
      have hle : 1 + bulk w ≤ (items.map fun v : Json => 1 + v.bulk).sum :=
        List.single_le_sum (fun _ _ => Nat.zero_le _) _ (List.mem_map.mpr ⟨w, hw, rfl⟩)
      omega
    | obj props =>
      rw [shallow_obj, Bool.and_eq_true, List.all_eq_true] at h
      rw [bulk_obj] at hbulk
      intro p hp
      have hle : 4 + 6 * p.1.utf8ByteSize + bulk p.2 ≤
          (props.map fun q : String × Json => 4 + 6 * q.1.utf8ByteSize + q.2.bulk).sum :=
        List.single_le_sum (fun _ _ => Nat.zero_le _) _ (List.mem_map.mpr ⟨p, hp, rfl⟩)
      refine ⟨?_, ih (h.2 p hp) (by omega)⟩
      rw [length_encode_eq]
      omega

/-- A value that is strict by the octets of its strings. -/
def quick (v : Json) : Bool := v.shallow (maxDepth + 1) && decide (v.bulk ≤ maxStringBytes)

theorem bounds_of_quick {v : Json} (h : v.quick = true) :
    v.Strict (maxDepth + 1) ∧ scalarBytes v ≤ maxGraphBytes := by
  rw [quick, Bool.and_eq_true, decide_eq_true_eq] at h
  refine ⟨strict_of_shallow h.1 h.2, (scalarBytes_le_bulk v).trans (h.2.trans ?_)⟩
  decide

end Value

/-- The strict check, quickly where that is enough. -/
def checkQuickly (v : Json) : Except Failure Unit := if v.quick then .ok () else assertStrictJson v

/-- The strict copy, quickly where that is enough. -/
def copyQuickly (v : Json) : Except Failure Json := if v.quick then .ok v.enumerated else copyJson v

theorem assertStrictJson_eq_checkQuickly (v : Json) : assertStrictJson v = checkQuickly v := by
  unfold checkQuickly
  split
  · exact assertStrictJson_eq_ok_iff.mpr (Value.bounds_of_quick ‹_›)
  · rfl

theorem copyJson_eq_copyQuickly (v : Json) : copyJson v = copyQuickly v := by
  unfold copyQuickly
  split
  · obtain ⟨hstrict, hle⟩ := Value.bounds_of_quick ‹_›
    exact copyJson_eq_ok_iff.mpr ⟨hstrict, hle, rfl⟩
  · rfl

section Exact

theorem quoteChar_of_plain {c : Char} (h : ∀ b ∈ String.utf8EncodeChar c, isPlainOctet b = true) :
    quoteChar c = [c] := by
  obtain ⟨hlow, -, hquote, hslash⟩ := toNat_of_plain h
  have hne : ∀ d : Char, c.toNat ≠ d.toNat → c ≠ d := fun d hd heq => hd (congrArg Char.toNat heq)
  have hsmall : ∀ d : Char, d.toNat < 32 → c ≠ d := fun d hd => hne d (by omega)
  rw [quoteChar, if_neg (hne '"' hquote), if_neg (hne '\\' hslash), if_neg (hsmall '\x08' (by decide)),
    if_neg (hsmall '\t' (by decide)), if_neg (hsmall '\n' (by decide)),
    if_neg (hsmall '\x0c' (by decide)), if_neg (hsmall '\r' (by decide)), if_neg (by omega)]

theorem flatMap_quoteChar_of_plain {t : String} (h : isPlainText t = true) :
    t.toList.flatMap quoteChar = t.toList := by
  have hplain : ∀ c ∈ t.toList, quoteChar c = [c] := by
    rw [isPlainText, toByteArray_eq, Utf8.encode, Utf8.encodeChars, List.all_eq_true] at h
    exact fun c hc => quoteChar_of_plain fun b hb => h b (List.mem_flatMap.mpr ⟨c, hc, hb⟩)
  rw [List.flatMap_congr hplain]
  exact List.flatMap_singleton' _

theorem scalarBytes_str_of_plain {t : String} (h : isPlainText t = true) :
    scalarBytes (.str t) = 2 + t.utf8ByteSize := by
  have hmark : (String.utf8EncodeChar '"').length = 1 := by decide
  rw [scalarBytes, stringify_str, quote, flatMap_quoteChar_of_plain h,
    length_encodeChars_bracketed hmark hmark, ← length_encode_eq, Utf8.encode, Nat.add_comm]

namespace Value

/-- The octets of the text of a value. -/
def weigh : Json → ℕ :=
  fold { null := 4, bool := fun b => if b then 4 else 5, num := fun x => scalarBytes (.num x)
         str := fun t => if isPlainText t then 2 + t.utf8ByteSize else scalarBytes (.str t)
         arr := fun items => 2 + items.sum + (items.length - 1)
         obj := fun props => 2 + (props.map fun p =>
           (if isPlainText p.1 then 2 + p.1.utf8ByteSize else scalarBytes (.str p.1)) + 1 + p.2).sum +
             (props.length - 1) }

theorem weigh_str (t : String) : weigh (.str t) = scalarBytes (.str t) := by
  change (if isPlainText t then 2 + t.utf8ByteSize else scalarBytes (.str t)) = _
  split
  · exact (scalarBytes_str_of_plain ‹_›).symm
  · rfl

theorem scalarBytes_eq_weigh (v : Json) : scalarBytes v = v.weigh := by
  induction v using Value.induction with
  | null => rfl
  | bool b => cases b <;> rfl
  | num x => rfl
  | str t => exact (weigh_str t).symm
  | arr items ih =>
    have hitems : items.map scalarBytes = items.map weigh := List.map_congr_left ih
    rw [scalarBytes_arr, hitems]
    simp [weigh]
  | obj props ih =>
    have hprops : props.map (fun p => scalarBytes (.str p.1) + 1 + scalarBytes p.2) =
        props.map fun p => weigh (.str p.1) + 1 + weigh p.2 :=
      List.map_congr_left fun p hp => by rw [ih p hp, weigh_str]
    rw [scalarBytes_obj, hprops]
    simp [weigh, Function.comp_def]

end Value

end Exact

section Tally

/-- The sum of the octets of a text. -/
def tallyChars (cs : List Char) : ℕ := ((Utf8.encodeChars cs).map UInt8.toNat).sum

theorem tallyChars_append (cs ds : List Char) :
    tallyChars (cs ++ ds) = tallyChars cs + tallyChars ds := by
  rw [tallyChars, Utf8.encodeChars_append, List.map_append, List.sum_append]
  rfl

theorem tallyChars_cons (c : Char) (cs : List Char) :
    tallyChars (c :: cs) = tallyChars [c] + tallyChars cs :=
  tallyChars_append [c] cs

theorem tallyChars_commaJoin (texts : List (List Char)) :
    tallyChars (commaJoin texts) = (texts.map tallyChars).sum + 44 * (texts.length - 1) := by
  have hcomma : tallyChars [','] = 44 := by decide
  induction texts with
  | nil => rfl
  | cons t ts ih =>
    cases ts with
    | nil => simp
    | cons u us =>
      rw [commaJoin_cons_cons, tallyChars_append, tallyChars_cons, hcomma, ih]
      simp only [List.map_cons, List.sum_cons, List.length_cons]
      omega

/-- The sum of the octets of a quoted text. -/
def tallyText (t : String) : ℕ :=
  if isPlainText t then 68 + (t.toByteArray.data.toList.map UInt8.toNat).sum
  else tallyChars (quote t)

theorem tallyChars_quote (t : String) : tallyChars (quote t) = tallyText t := by
  unfold tallyText
  split
  · next hplain =>
    have hmark : tallyChars ['"'] = 34 := by decide
    rw [quote, flatMap_quoteChar_of_plain hplain, tallyChars_cons, tallyChars_append, hmark,
      toByteArray_eq, Utf8.encode, ← tallyChars]
    omega
  · rfl

namespace Value

/-- The sum of the octets of the canonical text of a value. -/
def tally : Json → ℕ :=
  fold { null := tallyChars "null".toList
         bool := fun b => tallyChars (if b then "true".toList else "false".toList)
         num := fun x => tallyChars (Binary64.numberText x), str := tallyText
         arr := fun items => 184 + items.sum + 44 * (items.length - 1)
         obj := fun props => 248 + (props.map fun p => tallyText p.1 + 58 + p.2).sum +
           44 * (props.length - 1) }

theorem tallyChars_canonicalText (v : Json) : tallyChars (canonicalText v) = v.tally := by
  have hmarks : tallyChars ['['] = 91 ∧ tallyChars [']'] = 93 ∧ tallyChars ['\x7b'] = 123 ∧
      tallyChars ['\x7d'] = 125 ∧ tallyChars [':'] = 58 := by decide
  obtain ⟨hopen, hclose, hopen', hclose', hcolon⟩ := hmarks
  induction v using Value.induction with
  | null => rfl
  | bool b => cases b <;> rfl
  | num x => rfl
  | str t => exact tallyChars_quote t
  | arr items ih =>
    have hitems : items.map (tallyChars ∘ canonicalText) = items.map tally :=
      List.map_congr_left ih
    rw [canonicalText_arr, tallyChars_cons, tallyChars_append, tallyChars_commaJoin, List.map_map,
      hitems, hopen, hclose]
    simp [tally]
    omega
  | obj props ih =>
    have hprops : props.map (fun p : String × Json =>
        tallyChars (quote p.1 ++ ':' :: canonicalText p.2)) =
        props.map fun p => tallyText p.1 + 58 + p.2.tally := by
      refine List.map_congr_left fun p hp => ?_
      rw [tallyChars_append, tallyChars_cons, tallyChars_quote, hcolon, ih p hp, Nat.add_assoc]
    rw [canonicalText_obj, tallyChars_cons, tallyChars_append, tallyChars_commaJoin, List.map_map,
      hopen', hclose', List.length_map, (sortKeys_perm props).length_eq]
    rw [((sortKeys_perm props).map _).sum_nat, Function.comp_def, hprops]
    simp [tally, Function.comp_def]
    omega

end Value

end Tally

end Kdna

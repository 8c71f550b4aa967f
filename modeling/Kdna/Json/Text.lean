import Kdna.Data.Decimal
import Kdna.Json.Value

/-!
# The JSON text of a value

`JSON.stringify` on values of the JSON domain. Its objects list their properties
in enumeration order, so the text follows the list. The length of a text does not
depend on that order.
-/

namespace Kdna

/-- The text of a character inside a quoted string. -/
def quoteChar (c : Char) : List Char :=
  if c = '"' then ['\\', '"']
  else if c = '\\' then ['\\', '\\']
  else if c = '\x08' then ['\\', 'b']
  else if c = '\t' then ['\\', 't']
  else if c = '\n' then ['\\', 'n']
  else if c = '\x0c' then ['\\', 'f']
  else if c = '\r' then ['\\', 'r']
  else if c.toNat < 0x20 then
    ['\\', 'u', '0', '0', Nat.digitChar (c.toNat / 16), Nat.digitChar (c.toNat % 16)]
  else [c]

/-- The quoted text of a string. -/
def quote (s : String) : List Char := '"' :: (s.toList.flatMap quoteChar ++ ['"'])

/-- Texts separated by commas. -/
def commaJoin (texts : List (List Char)) : List Char := List.intercalate [','] texts

/-- `JSON.stringify(value)` -/
def stringify : Json → List Char :=
  Value.fold
    { null := "null".toList
      bool := fun b => if b then "true".toList else "false".toList
      num := Binary64.numberText
      str := quote
      arr := fun texts => '[' :: (commaJoin texts ++ [']'])
      obj := fun props => '{' :: (commaJoin (props.map fun p => quote p.1 ++ ':' :: p.2) ++ ['}']) }

@[simp] theorem stringify_null : stringify .null = "null".toList := rfl

@[simp] theorem stringify_bool (b : Bool) :
    stringify (.bool b) = if b then "true".toList else "false".toList := rfl

@[simp] theorem stringify_num (x : Binary64) : stringify (.num x) = Binary64.numberText x := rfl

@[simp] theorem stringify_str (t : String) : stringify (.str t) = quote t := rfl

@[simp] theorem stringify_arr (items : List Json) :
    stringify (.arr items) = '[' :: (commaJoin (items.map stringify) ++ [']']) := by
  simp [stringify]

@[simp] theorem stringify_obj (props : List (String × Json)) :
    stringify (.obj props) =
      '{' :: (commaJoin (props.map fun p => quote p.1 ++ ':' :: stringify p.2) ++ ['}']) := by
  simp [stringify, Function.comp_def]

@[simp] theorem commaJoin_nil : commaJoin [] = [] := rfl

@[simp] theorem commaJoin_singleton (t : List Char) : commaJoin [t] = t := by
  simp [commaJoin]

@[simp] theorem commaJoin_cons_cons (t u : List Char) (ts : List (List Char)) :
    commaJoin (t :: u :: ts) = t ++ ',' :: commaJoin (u :: ts) := by
  simp [commaJoin, List.intercalate]

/-- A joined text has one comma less than it has parts. -/
theorem length_commaJoin (texts : List (List Char)) :
    (commaJoin texts).length = (texts.map List.length).sum + (texts.length - 1) := by
  induction texts with
  | nil => rfl
  | cons t ts ih =>
    cases ts with
    | nil => simp
    | cons u us =>
      rw [commaJoin_cons_cons, List.length_append, List.length_cons, ih]
      simp only [List.map_cons, List.sum_cons, List.length_cons]
      omega

/-- The length of the text of an array. -/
theorem length_stringify_arr (items : List Json) :
    (stringify (.arr items)).length =
      (items.map fun v => (stringify v).length).sum + (items.length - 1) + 2 := by
  simp only [stringify_arr, List.length_cons, List.length_append, List.length_nil,
    length_commaJoin, List.map_map, List.length_map]
  rfl

/-- The length of the text of an object. -/
theorem length_stringify_obj (props : List (String × Json)) :
    (stringify (.obj props)).length =
      (props.map fun p => (quote p.1).length + (stringify p.2).length + 1).sum +
        (props.length - 1) + 2 := by
  simp only [stringify_obj, List.length_cons, List.length_append, List.length_nil,
    length_commaJoin, List.map_map, List.length_map, Function.comp_def, Nat.add_assoc]

/-- The text of a value has the same length in every order of its members. -/
theorem length_stringify_enumerated (v : Json) :
    (stringify v.enumerated).length = (stringify v).length := by
  induction v using Json.induction with
  | null => rfl
  | bool b => rfl
  | num x => rfl
  | str t => rfl
  | arr items ih =>
    rw [Value.enumerated_arr, length_stringify_arr, length_stringify_arr, List.map_map,
      List.length_map]
    congr 3
    exact List.map_congr_left ih
  | obj props ih =>
    have hperm := ownOrder_perm (props.map fun p => (p.1, p.2.enumerated))
    rw [Value.enumerated_obj, Value.ofProps, length_stringify_obj, length_stringify_obj,
      hperm.length_eq, (hperm.map _).sum_nat, List.map_map, List.length_map]
    congr 3
    exact List.map_congr_left fun p hp => by simp [ih p hp]

/-- The octets of an ASCII text are as many as its characters. -/
theorem length_encodeChars_of_ascii {cs : List Char} (h : ∀ c ∈ cs, c.toNat < 128) :
    (Utf8.encodeChars cs).length = cs.length := by
  induction cs with
  | nil => rfl
  | cons c cs ih =>
    have hc : (String.utf8EncodeChar c).length = 1 := by
      rw [String.length_utf8EncodeChar, Char.utf8Size_eq_one_iff, UInt32.le_iff_toNat_le]
      exact Nat.le_of_lt_succ (h c List.mem_cons_self)
    rw [Utf8.encodeChars_cons, List.length_append, hc, ih fun d hd => h d (.tail _ hd),
      List.length_cons, Nat.add_comm]

/-- Every digit of the library's bases is ASCII. -/
theorem digitChar_lt (n : ℕ) : (Nat.digitChar n).toNat < 128 := by
  rcases Nat.lt_or_ge n 16 with hlt | hge
  · have hall : ∀ n < 16, (Nat.digitChar n).toNat < 128 := by decide
    exact hall n hlt
  · rw [Nat.digitChar_eq_star.mpr hge]
    decide

/-- Quoting a character costs at most six octets for each of its own. -/
theorem length_encodeChars_quoteChar_le (c : Char) :
    (Utf8.encodeChars (quoteChar c)).length ≤ 6 * (String.utf8EncodeChar c).length := by
  have hpos := Utf8.length_encodeChar_pos c
  have hescape : ∀ cs : List Char, cs.all (fun d => d.toNat < 128) = true → cs.length ≤ 6 →
      (Utf8.encodeChars cs).length ≤ 6 * (String.utf8EncodeChar c).length := by
    intro cs hascii hlen
    rw [length_encodeChars_of_ascii (by simpa using hascii)]
    omega
  unfold quoteChar
  split_ifs
  all_goals first
    | exact hescape _ (by decide) (by decide)
    | skip
  · refine hescape _ ?_ (by simp)
    have h1 := digitChar_lt (c.toNat / 16)
    have h2 := digitChar_lt (c.toNat % 16)
    simp [h1, h2]
  · rw [Utf8.encodeChars_cons, Utf8.encodeChars_nil, List.append_nil]
    omega

/-- Quoting a text costs at most six octets for each of its own, and the quotes. -/
theorem length_encodeChars_quote_le (s : String) :
    (Utf8.encodeChars (quote s)).length ≤ 2 + 6 * (Utf8.encode s).length := by
  have hchars : ∀ cs : List Char, (Utf8.encodeChars (cs.flatMap quoteChar)).length ≤
      6 * (Utf8.encodeChars cs).length := by
    intro cs
    induction cs with
    | nil => simp
    | cons c cs ih =>
      have hc := length_encodeChars_quoteChar_le c
      rw [List.flatMap_cons, Utf8.encodeChars_append, Utf8.encodeChars_cons, List.length_append,
        List.length_append]
      omega
  have hs := hchars s.toList
  have hquote : (String.utf8EncodeChar '"').length = 1 := by decide
  rw [quote, Utf8.encodeChars_cons, Utf8.encodeChars_append, List.length_append,
    List.length_append, Utf8.encodeChars_cons, List.length_append, hquote, Utf8.encodeChars_nil,
    List.length_nil, Utf8.encode]
  omega

/-- The octets of the text of a number. -/
theorem length_encodeChars_numberText_le (x : Binary64) :
    (Utf8.encodeChars (Binary64.numberText x)).length ≤ 26 := by
  rw [length_encodeChars_of_ascii (Binary64.ascii_numberText x)]
  exact Binary64.length_numberText_le x

end Kdna

import Kdna.Data.Decimal
import Kdna.Data.Utf16
import Kdna.Json.Copy
import Mathlib.Data.List.DropRight
import Mathlib.Data.List.Lex

/-!
# Python: strict values and their canonical text

`copy_json`, `number_text` and `jcs` of `_values.py`. A value is a tree whose numbers are
floats; an integer of the language is turned into one by `copy_json` before it is printed.
-/

namespace Kdna.Python

/-- `scalar(value, maximum, controls)` -/
def scalar (value : String) (maximum : ℕ) (controls : Bool) : Bool :=
  decide ((Utf8.encode value).length ≤ maximum) &&
    (controls || value.toList.all fun c => 31 < c.toNat && !(127 ≤ c.toNat && c.toNat ≤ 159))

/-- `entry_name(value)` -/
def entryName (value : String) : Bool :=
  !value.toList.isEmpty && scalar value 4096 false && !value.toList.contains '\\' &&
    value.toList.head? ≠ some '/' && !hasDrivePrefix value.toList &&
    (value.toList.splitOn '/').all fun s => !([[], ['.'], ['.', '.']].contains s)

/-- The bound on the number of values. -/
def maxCount : ℕ := 100000

/-- The items of a list, in the order of the loop. -/
def copyItems (copy : Json → ℕ → Except Failure (Json × ℕ)) :
    List Json → ℕ → Except Failure (List Json × ℕ)
  | [], count => .ok ([], count)
  | v :: vs, count => do
    let (w, count) ← copy v count
    let (ws, count) ← copyItems copy vs count
    return (w :: ws, count)

/-- The items of a dictionary. -/
def copyProps (copy : Json → ℕ → Except Failure (Json × ℕ)) :
    List (String × Json) → ℕ → Except Failure (List (String × Json) × ℕ)
  | [], count => .ok ([], count)
  | (k, v) :: ps, count => do
    let (w, count) ← copy v count
    let (qs, count) ← copyProps copy ps count
    return ((k, w) :: qs, count)

/-- `copy(x, depth)`, at a depth that leaves room for `levels` more. -/
def copyLevels : ℕ → Json → ℕ → Except Failure (Json × ℕ)
  | 0, _, _ => .error .inputInvalid
  | levels + 1, x, count => do
    require (count + 1 ≤ maxCount) Failure.inputInvalid
    match x with
    | .str t => do
      require (scalar t maxStringBytes true) Failure.inputInvalid
      return (.str t, count + 1)
    | .arr items => do
      require (items.length ≤ 10000) Failure.inputInvalid
      let (copied, count) ← copyItems (copyLevels levels) items (count + 1)
      return (.arr copied, count)
    | .obj props => do
      require (∀ p ∈ props, scalar p.1 maxStringBytes true) Failure.inputInvalid
      let (copied, count) ← copyProps (copyLevels levels) props (count + 1)
      return (.obj copied, count)
    | x => return (x, count + 1)

/-- `copy_json(value)` -/
def copyJson (value : Json) : Except Failure Json := do
  let (v, _) ← copyLevels (maxDepth + 1) value 0
  return v

section Numbers

/-- `cs.partition(mark)` without the mark. -/
def partition (mark : Char) (cs : List Char) : List Char × List Char :=
  (cs.takeWhile (· ≠ mark), (cs.dropWhile (· ≠ mark)).drop 1)

/-- `cs.lstrip('0')` -/
def lstrip (cs : List Char) : List Char := cs.dropWhile (· = '0')

/-- `cs.rstrip('0')` -/
def rstrip (cs : List Char) : List Char := cs.rdropWhile (· = '0')

/-- `int(cs)` of digits behind a sign or not. -/
def int : List Char → ℤ
  | '-' :: ds => -(decimalValue ds : ℤ)
  | '+' :: ds => decimalValue ds
  | ds => decimalValue ds

/-- The digits of an exponent: at least two. -/
def exponentDigits (n : ℕ) : List Char :=
  if n < 10 then '0' :: Nat.toDigits 10 n else Nat.toDigits 10 n

/-- The layout of `repr`: the digits with the decimal point behind the first `point` of them. -/
def reprText (digits : List Char) (point : ℤ) : List Char :=
  if -4 < point ∧ point ≤ 16 then
    if point ≤ 0 then '0' :: '.' :: (List.replicate (-point).toNat '0' ++ digits)
    else if digits.length ≤ point.toNat then
      digits ++ List.replicate (point.toNat - digits.length) '0' ++ ['.', '0']
    else digits.take point.toNat ++ '.' :: digits.drop point.toNat
  else
    digits.take 1 ++ (if digits.length = 1 then [] else '.' :: digits.drop 1) ++
      'e' :: (if 0 ≤ point - 1 then '+' else '-') :: exponentDigits (point - 1).natAbs

/-- `repr(abs(n))`, of the shortest digits that read back as the float. -/
def repr (units : ℕ) : List Char :=
  let d := Binary64.shortest units
  let digits := Nat.toDigits 10 d.1
  reprText digits (d.2 + digits.length)

/-- The digits of a printed float and the place of its point. -/
def digitsOf (s : List Char) : List Char × ℤ :=
  let (mantissa, exponent) := partition 'e' s
  let exponent := int (if exponent = [] then ['0'] else exponent)
  let (whole, fraction) := partition '.' mantissa
  let digits := lstrip (whole ++ fraction)
  let point : ℤ :=
    if whole = ['0'] then -((fraction.length : ℤ) - (lstrip fraction).length) + exponent
    else whole.length + exponent
  (if rstrip digits = [] then ['0'] else rstrip digits, point)

/-- The layout of `number_text`. -/
def layout (digits : List Char) (point : ℤ) : List Char :=
  if 0 < point ∧ point ≤ 21 then
    digits.take point.toNat ++
      if point < digits.length then '.' :: digits.drop point.toNat
      else List.replicate (point - digits.length).toNat '0'
  else if -6 < point ∧ point ≤ 0 then '0' :: '.' :: (List.replicate (-point).toNat '0' ++ digits)
  else
    let power := point - 1
    digits.take 1 ++ (if 1 < digits.length then '.' :: digits.drop 1 else []) ++
      'e' :: (if 0 ≤ power then '+' else '-') :: Nat.toDigits 10 power.natAbs

/-- `number_text(value)` -/
def numberText (x : Binary64) : List Char :=
  if x.units = 0 then ['0']
  else
    let (digits, point) := digitsOf ((repr x.units).map Char.toLower)
    (if x.negative then ['-'] else []) ++ layout digits point

end Numbers

/-- `'\\u{0:04x}'.format(n)` -/
def escapeUnit (n : ℕ) : List Char :=
  let digits := Nat.toDigits 16 n
  '\\' :: 'u' :: (List.replicate (4 - digits.length) '0' ++ digits)

/-- The escape of a character in `json.dumps` with `ensure_ascii=False`. -/
def escape (c : Char) : List Char :=
  if c = '\\' then ['\\', '\\']
  else if c = '"' then ['\\', '"']
  else if c = '\x08' then ['\\', 'b']
  else if c = '\x0c' then ['\\', 'f']
  else if c = '\n' then ['\\', 'n']
  else if c = '\r' then ['\\', 'r']
  else if c = '\t' then ['\\', 't']
  else if c.toNat < 0x20 then escapeUnit c.toNat
  else [c]

/-- `json.dumps(x, ensure_ascii=False)` of a text. -/
def dumps (s : String) : List Char := '"' :: (s.toList.flatMap escape ++ ['"'])

/-- `s.encode('utf-16-be')` -/
def utf16be (s : String) : List ℕ :=
  (Utf16.encode s.toList).flatMap fun unit => [unit / 256, unit % 256]

/-- `sorted(x, key=lambda s: s.encode('utf-16-be'))` -/
def sortKeys {α : Type} (props : List (String × α)) : List (String × α) :=
  props.insertionSort fun p q => utf16be p.1 ≤ utf16be q.1

/-- `encode(x)` of `jcs`. -/
def encode : Json → List Char :=
  Value.fold
    { null := "null".toList
      bool := fun b => if b then "true".toList else "false".toList
      num := numberText
      str := dumps
      arr := fun texts => '[' :: (commaJoin texts ++ [']'])
      obj := fun props => '{' ::
        (commaJoin ((sortKeys props).map fun p => dumps p.1 ++ ':' :: p.2) ++ ['}']) }

/-- `jcs(value)` -/
def jcs (value : Json) : Except Failure String := do
  return String.ofList (encode (← copyJson value))

end Kdna.Python

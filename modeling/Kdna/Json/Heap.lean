import Kdna.Data.Upsert
import Kdna.Json.Charge

/-!
# The strict check of object graphs

The values of the language are graphs: objects have an identity, and a property may refer to an
object that is referred to elsewhere or that encloses it. The strict copy walks every path of the
graph; the strict check keeps the height of every object that it has left and walks it once.
-/

namespace Kdna.Heap

/-- A value that a property holds, where objects are named by their identity. -/
inductive Slot (n : ℕ)
  | null
  | bool (b : Bool)
  /-- A number; `none` for one that is not finite. -/
  | number (x : Option Binary64)
  /-- A string, as its code units. -/
  | text (units : List ℕ)
  /-- A value of another type: a function, a symbol, `undefined` or a big integer. -/
  | other
  | ref (i : Fin n)

/-- An object. -/
structure Node (n : ℕ) where
  /-- The length of an array. -/
  array : Option ℕ
  /-- The prototype is `Object.prototype` or `null`. -/
  ordinary : Bool
  /-- There is a property with a symbol as its key. -/
  symbols : Bool
  /-- The enumerable properties in the order of enumeration; `none` for an accessor. -/
  props : List (List ℕ × Option (Slot n))

/-- A finite object graph. -/
abbrev Graph (n : ℕ) := Fin n → Node n

variable {n : ℕ}

/-- The text of code units that pair their surrogates. -/
def textOf (units : List ℕ) : String := String.ofList ((Utf16.decode units).getD [])

/-- `scalarString(value)` -/
def scalarUnits (units : List ℕ) : Bool :=
  (Utf16.decode units).any fun cs => (Utf8.encodeChars cs).length ≤ maxStringBytes

/-- `Object.keys(value)` of an array has the indices, and nothing else. -/
def Node.dense (o : Node n) : Bool :=
  match o.array with
  | some length =>
    o.props.map Prod.fst = (List.range length).map fun i => Utf16.encode (toString i).toList
  | none => true

/-- What `keys` charge before the value of a property: a comma, and the key of an object. -/
def keyCost (o : Node n) (index : ℕ) (key : List ℕ) : ℕ :=
  (if index = 0 then 0 else 1) +
    if o.array.isSome then 0 else scalarBytes (.str (textOf key)) + 1

/-- `bytes > MAX_GRAPH_BYTES` does not hold; `none` leaves the budget aside. -/
def within (limit : Option ℕ) (bytes : ℕ) : Bool := limit.all fun most => bytes ≤ most

section Copy

variable (g : Graph n) (limit : Option ℕ)

/-- `charge(cost)` -/
def spend (bytes cost : ℕ) : Except Failure ℕ := do
  require (within limit (bytes + cost)) Failure.inputInvalid
  return bytes + cost

/-- The loop of `copy` over the keys of an object. -/
def copyKeys (copy : Slot n → ℕ → Except Failure (Json × ℕ)) (o : Node n) :
    ℕ → List (List ℕ × Option (Slot n)) → ℕ → Except Failure (List (String × Json) × ℕ)
  | _, [], bytes => .ok ([], bytes)
  | index, (key, property) :: rest, bytes => do
    require (scalarUnits key) Failure.inputInvalid
    let value ← orFail .inputInvalid property
    let bytes ← spend limit bytes (keyCost o index key)
    let (copied, bytes) ← copy value bytes
    let (others, bytes) ← copyKeys copy o (index + 1) rest bytes
    return ((textOf key, copied) :: others, bytes)

/-- `copy(value, depth)` at a depth that leaves room for `levels` more, with the objects on the
path to the value. The copy of an object has its keys in their order. -/
def copy : ℕ → List (Fin n) → Slot n → ℕ → Except Failure (Json × ℕ)
  | 0, _, _, _ => .error .inputInvalid
  | levels + 1, seen, value, bytes =>
    match value with
    | .null => do
      let bytes ← spend limit bytes (scalarBytes .null)
      return (.null, bytes)
    | .bool b => do
      let bytes ← spend limit bytes (scalarBytes (.bool b))
      return (.bool b, bytes)
    | .number x => do
      let x ← orFail .inputInvalid x
      let bytes ← spend limit bytes (scalarBytes (.num x))
      return (.num x, bytes)
    | .text units => do
      require (scalarUnits units) Failure.inputInvalid
      let bytes ← spend limit bytes (scalarBytes (.str (textOf units)))
      return (.str (textOf units), bytes)
    | .other => .error .inputInvalid
    | .ref i => do
      require (i ∉ seen) Failure.inputInvalid
      require ((g i).array.isSome ∨ (g i).ordinary) Failure.inputInvalid
      require (!(g i).symbols) Failure.inputInvalid
      require (∀ length ∈ (g i).array, length ≤ 10000) Failure.inputInvalid
      let bytes ← spend limit bytes 2
      let (copied, bytes) ← copyKeys limit (copy levels (i :: seen)) (g i) 0 (g i).props bytes
      require ((g i).dense) Failure.inputInvalid
      return (if (g i).array.isSome then .arr (copied.map Prod.snd) else .obj copied, bytes)

/-- `copyJson(input)` -/
def copyJson (input : Slot n) : Except Failure Json := do
  let (copied, _) ← copy g limit (maxDepth + 1) [] input 0
  return copied

end Copy

section Check

variable (g : Graph n) (limit : Option ℕ)

/-- What the check keeps: the heights of the objects it has left, and the octets charged. -/
structure State (n : ℕ) where
  heights : List (Fin n × ℕ)
  bytes : ℕ

/-- `bytes += cost; if (bytes > MAX_GRAPH_BYTES) reject();` -/
def State.spend (s : State n) (cost : ℕ) : Except Failure (State n) := do
  require (within limit (s.bytes + cost)) Failure.inputInvalid
  return ⟨s.heights, s.bytes + cost⟩

/-- The loop of `check` over the keys of an object, with the height so far. -/
def checkKeys (check : Slot n → State n → Except Failure (ℕ × State n)) (o : Node n) :
    ℕ → ℕ → List (List ℕ × Option (Slot n)) → State n → Except Failure (ℕ × State n)
  | _, height, [], s => .ok (height, s)
  | index, height, (key, property) :: rest, s => do
    require (scalarUnits key) Failure.inputInvalid
    let value ← orFail .inputInvalid property
    let s ← s.spend limit (keyCost o index key)
    let (below, s) ← check value s
    checkKeys check o (index + 1) (max height (1 + below)) rest s

/-- `check(value, depth)` at a depth that leaves room for `levels` more, with the objects on the
path to the value: the height of the value. -/
def check : ℕ → List (Fin n) → Slot n → State n → Except Failure (ℕ × State n)
  | 0, _, _, _ => .error .inputInvalid
  | levels + 1, active, value, s =>
    match value with
    | .null => do
      let s ← s.spend limit (scalarBytes .null)
      return (0, s)
    | .bool b => do
      let s ← s.spend limit (scalarBytes (.bool b))
      return (0, s)
    | .number x => do
      let x ← orFail .inputInvalid x
      let s ← s.spend limit (scalarBytes (.num x))
      return (0, s)
    | .text units => do
      require (scalarUnits units) Failure.inputInvalid
      let s ← s.spend limit (scalarBytes (.str (textOf units)))
      return (0, s)
    | .other => .error .inputInvalid
    | .ref i => do
      require (i ∉ active) Failure.inputInvalid
      require ((g i).array.isSome ∨ (g i).ordinary) Failure.inputInvalid
      require (!(g i).symbols) Failure.inputInvalid
      match getKey i s.heights with
      | some height => do
        -- `depth + height > MAX_DEPTH`, where `depth` is `MAX_DEPTH - levels`
        require (height ≤ levels) Failure.inputInvalid
        return (height, s)
      | none => do
        require (∀ length ∈ (g i).array, length ≤ 10000) Failure.inputInvalid
        let (height, s) ← checkKeys limit (check levels (i :: active)) (g i) 0 0 (g i).props
          ⟨s.heights, s.bytes + 2⟩
        require ((g i).dense) Failure.inputInvalid
        return (height, ⟨(i, height) :: s.heights, s.bytes⟩)

/-- The octets that `assertStrictJson(input)` has charged when it accepts. -/
def meter (input : Slot n) : Except Failure ℕ := do
  let (_, s) ← check g limit (maxDepth + 1) [] input ⟨[], 0⟩
  require (within limit s.bytes) Failure.inputInvalid
  return s.bytes

/-- `assertStrictJson(input)` -/
def assertStrictJson (input : Slot n) : Except Failure Unit := do
  let _ ← meter g limit input
  return ()

/-- The tree that a value unfolds to, down to a depth. -/
def unfolded : ℕ → Slot n → Json
  | 0, _ => .null
  | levels + 1, value =>
    match value with
    | .null => .null
    | .bool b => .bool b
    | .number x => x.elim .null .num
    | .text units => .str (textOf units)
    | .other => .null
    | .ref i =>
      let props := (g i).props.map fun p => (textOf p.1, p.2.elim .null (unfolded levels))
      if (g i).array.isSome then .arr (props.map Prod.snd) else .obj props

/-- `canonicalJson(input)`: the encoder walks an accepted value as the tree that it unfolds to. -/
def canonicalJson (input : Slot n) : Except Failure String := do
  assertStrictJson g limit input
  return String.ofList (canonicalText (unfolded g (maxDepth + 1) input))

end Check

end Kdna.Heap

import Kdna.Data.Fallible
import Kdna.Data.Grouping
import Kdna.Ir.Link

/-!
# Recorded results of a collecting policy

The check of `validateR2` on an example result of the kind `partial`, with what it reads of the
registry: the policies of the judgments with their entries and candidates, and the contracts. The
kinds of the references are fixed by the schema, as is that an emission refers to some entry.
-/

namespace Kdna.Plans

open Value Ir

/-- A reference of a fixed kind. -/
structure Named where
  id : String
  asset : Option Json

/-- `Endpoint` -/
structure Endpoint where
  node : Named
  port : String
  path : List String

/-- What an entry emits: a candidate of the policy, or an output of the plan. -/
inductive Producer
  | candidate (ref : Named)
  | output (source : Endpoint)

/-- An entry of a policy, with the producer of `entry.then`. -/
structure Entry where
  id : String
  priority : Option ℕ
  producer : Producer

/-- A candidate of a policy. -/
structure Candidate where
  id : String
  value : Json

/-- `duplicates` -/
inductive Duplicates
  | preserve
  | producerIdentity
  deriving DecidableEq

/-- `order` -/
inductive Order
  | declaration
  | priority
  deriving DecidableEq

/-- `combine` of the kind `collect`. -/
structure Collect where
  itemContractRef : Named
  duplicates : Duplicates
  order : Order

/-- `combine` -/
inductive Combine
  | collect (c : Collect)
  | authored

/-- `match` -/
inductive Match
  | firstMatch
  | allMatches
  deriving DecidableEq

/-- `on_undetermined.kind` -/
inductive Undetermined
  | defer
  | partially
  deriving DecidableEq

/-- A policy. -/
structure Policy where
  id : String
  entries : List Entry
  candidates : List Candidate
  matching : Match
  combine : Option Combine
  onUndetermined : Undetermined

/-- The collection of a policy. -/
def Policy.collect? (p : Policy) : Option Collect :=
  match p.combine with
  | some (.collect c) => some c
  | _ => none

/-- A payload that is otherwise accepted: the registry has distinct ids of a kind, and a policy that
goes by priority has a priority of its own for each entry. -/
structure Payload where
  asset : Json
  contracts : List (String × Json)
  policies : List Policy
  policyIds : (policies.map Policy.id).Nodup
  entryIds : (policies.flatMap fun p => p.entries.map Entry.id).Nodup
  priorities : ∀ p ∈ policies, ∀ c, p.collect? = some c → c.order = .priority →
    (∀ e ∈ p.entries, e.priority.isSome = true) ∧ (p.entries.map Entry.priority).Nodup

/-- `Emission` -/
structure Emission where
  producer : Producer
  entryRefs : List Named
  filled : entryRefs ≠ []
  value : Json

/-- `PolicyPartialOutcome` -/
structure Outcome where
  policyRef : Named
  itemContractRef : Named
  confirmed : List Emission
  pending : List Named

section Values

/-- The integer of a bound; none where it is `null`. -/
def bound (v : Json) : Option ℤ :=
  match v with
  | .num x => x.toInt
  | _ => none

/-- `n >= minimum` and, where there is a maximum, `n <= maximum`. -/
def counted (bounds : Json) (n : ℕ) : Except Failure Unit := do
  let minimum ← member bounds "minimum"
  let maximum ← member bounds "maximum"
  require ((∀ k ∈ bound minimum, k ≤ (n : ℤ)) ∧ ∀ k ∈ bound maximum, (n : ℤ) ≤ k) Failure.coreInvalid

/-- `unique(items, 'name')` -/
def uniqueNames (items : List Json) : Except Failure (List (String × Json)) := do
  let named ← items.mapM fun v => return (← memberText v "name", v)
  require (named.map Prod.fst).Nodup Failure.coreInvalid
  return named

/-- `resultShape(shape, value, field, depth)`, counted down from the first depth. -/
def resultShape : ℕ → Json → Json → Except Failure Unit
  | 0, _, _ => .error .coreInvalid
  | depth + 1, shape, value => do
    let kind ← memberText value "kind"
    if shape.propIs "kind" "scalar" then
      require (shape.propIs "scalar_type" kind) Failure.coreInvalid
    else if shape.propIs "kind" "list" then do
      require (kind = "list") Failure.coreInvalid
      let items ← memberItems value "items"
      counted shape items.length
      let itemShape ← member shape "item_shape"
      items.forM (resultShape depth itemShape)
    else do
      require (kind = "record") Failure.coreInvalid
      let fields ← uniqueNames (← memberItems shape "fields")
      let actual ← uniqueNames (← memberItems value "fields")
      require (∀ f ∈ fields, (f.2.given "required").isSome = true → f.1 ∈ actual.map Prod.fst)
        Failure.coreInvalid
      actual.forM fun f => do
        let field ← orFail .coreInvalid ((fields.find? fun g => g.1 = f.1).map Prod.snd)
        resultShape depth (← member field "shape") (← member f.2 "value")

/-- `valueFor(contract, value)` -/
def valueFor (contract value : Json) : Except Failure Unit := do
  require (contract.propIs "kind" "emission_list" = false) Failure.coreInvalid
  resultShape 65 (← member contract "shape") value
  let count ← if value.propIs "kind" "list" then List.length <$> memberItems value "items" else pure 1
  counted contract count

/-- `equal(a, b)` -/
def equal (a b : Json) : Bool := canonicalText a = canonicalText b

end Values

section References

variable (payload : Payload)

/-- `local(target)` -/
def isLocal (r : Named) : Bool := r.asset.all fun a => sameAsset a payload.asset

/-- `identity(target)` of a target of a fixed kind. -/
def identity (r : Named) : Option (List Char) × String :=
  (if isLocal payload r then none else r.asset.map canonicalText, r.id)

/-- What tells producers apart. -/
inductive ProducerKey
  | candidate (identity : Option (List Char) × String)
  | output (node : Option (List Char) × String) (port : String) (path : List String)
  deriving DecidableEq

/-- `producerKey(value)` -/
def producerKey : Producer → ProducerKey
  | .candidate ref => .candidate (identity payload ref)
  | .output source => .output (identity payload source.node) source.port source.path

/-- `get(target, kind)` with a look-up of the local ids: none for a target of another asset. -/
def get {α : Type} (find : String → Option α) (r : Named) : Except Failure (Option α) :=
  if isLocal payload r then (orFail .coreInvalid (find r.id)).map some else .ok none

/-- The policy of an id. -/
def policyOf (id : String) : Option Policy := payload.policies.find? fun p => p.id = id

/-- The entry of an id, with the id of the policy that owns it. -/
def entryOf (id : String) : Option (String × Entry) :=
  payload.policies.findSome? fun p => (p.entries.find? fun e => e.id = id).map fun e => (p.id, e)

/-- The candidate of an id. -/
def candidateOf (id : String) : Option Candidate :=
  (payload.policies.flatMap Policy.candidates).find? fun c => c.id = id

/-- The contract of an id. -/
def contractOf (id : String) : Option Json :=
  (payload.contracts.find? fun c => c.1 = id).map Prod.snd

/-- `resolve(producer,'candidate').value.value` -/
def candidateValue (r : Named) : Except Failure Json := do
  let candidate ← orFail .coreInvalid (← get payload (candidateOf payload) r)
  return candidate.value

/-- `normalContract(target)` -/
def normalContract (r : Named) : Except Failure (Option Json) := do
  let contract ← get payload (contractOf payload) r
  require (∀ c ∈ contract, c.propIs "kind" "emission_list" = false) Failure.coreInvalid
  return contract

end References

section Check

variable (payload : Payload) (policy : Policy) (collect : Collect)

/-- `declared`: the entries in the order in which they are processed. -/
def declared : List Entry :=
  match collect.order with
  | .declaration => policy.entries
  | .priority => policy.entries.insertionSort fun a b => a.priority.getD 0 ≤ b.priority.getD 0

/-- `order.get(id)` -/
def order (id : String) : ℕ := ((declared policy collect).map Entry.id).idxOf id

/-- The index is not up to the last one, which is `-1` before the first. -/
def behind (index : ℕ) (last : Option ℕ) : Prop := ∀ i ∈ last, i < index

instance (index : ℕ) (last : Option ℕ) : Decidable (behind index last) :=
  inferInstanceAs (Decidable (∀ i ∈ last, i < index))

/-- An entry of the policy that has not been seen. -/
def unseen (seen : List String) (r : Named) : Except Failure Entry := do
  let (owner, entry) ← orFail .coreInvalid (← get payload (entryOf payload) r)
  require (owner = policy.id ∧ entry.id ∉ seen) Failure.coreInvalid
  return entry

/-- One turn of the loop over `outcome.pending`. -/
def takePending (seen : List String) (r : Named) : Except Failure (List String) := do
  let entry ← unseen payload policy seen r
  return seen ++ [entry.id]

/-- Where the producer of the entry is a candidate, its value is the one emitted. -/
def checkCandidate (entry : Entry) (emitted : Json) : Except Failure Unit :=
  match entry.producer with
  | .candidate c => do
    let value ← candidateValue payload c
    require (equal value emitted = true) Failure.coreInvalid
  | .output _ => .ok ()

/-- `seen`, `lastEmission` and `lastEntry`. -/
structure EntryTurn where
  seen : List String
  lastEmission : Option ℕ
  lastEntry : Option ℕ

/-- One turn of the loop over `emission.entry_refs`. -/
def takeEntry (emission : Emission) (turn : EntryTurn) (r : Named) : Except Failure EntryTurn := do
  let entry ← unseen payload policy turn.seen r
  require (producerKey payload entry.producer = producerKey payload emission.producer)
    Failure.coreInvalid
  checkCandidate payload entry emission.value
  let index := order policy collect entry.id
  require (behind index turn.lastEntry) Failure.coreInvalid
  require (turn.lastEntry = none → behind index turn.lastEmission) Failure.coreInvalid
  return ⟨turn.seen ++ [entry.id],
    if turn.lastEntry = none then some index else turn.lastEmission, some index⟩

/-- `seen`, `emitted` and `lastEmission`. -/
structure EmissionTurn where
  seen : List String
  emitted : List (ProducerKey × Json)
  lastEmission : Option ℕ

/-- One turn of the loop over `outcome.confirmed`. -/
def takeEmission (contract : Option Json) (turn : EmissionTurn) (emission : Emission) :
    Except Failure EmissionTurn := do
  contract.forM fun c => valueFor c emission.value
  let identity := producerKey payload emission.producer
  let earlier := (turn.emitted.find? fun x => x.1 = identity).map Prod.snd
  require (∀ v ∈ earlier, equal v emission.value = true ∧ collect.duplicates ≠ .producerIdentity)
    Failure.coreInvalid
  require (collect.duplicates = .preserve → emission.entryRefs.length = 1) Failure.coreInvalid
  let last ← emission.entryRefs.foldlM (takeEntry payload policy collect emission)
    ⟨turn.seen, turn.lastEmission, none⟩
  return ⟨last.seen, (identity, emission.value) :: turn.emitted, last.lastEmission⟩

/-- The loops over `outcome.pending` and `outcome.confirmed`. -/
def checkLists (contract : Option Json) (outcome : Outcome) : Except Failure Unit := do
  let seen ← outcome.pending.foldlM (takePending payload policy) []
  require (outcome.pending ≠ []) Failure.coreInvalid
  let _ ← outcome.confirmed.foldlM (takeEmission payload policy collect contract) ⟨seen, [], none⟩

end Check

/-- The check of an example result of the kind `partial`. -/
def checkOutcome (payload : Payload) (outcome : Outcome) : Except Failure Unit := do
  let policy ← orFail .coreInvalid (← get payload (policyOf payload) outcome.policyRef)
  let collect ← orFail .coreInvalid policy.collect?
  require (policy.matching = .allMatches ∧ policy.onUndetermined = .partially ∧
    identity payload outcome.itemContractRef = identity payload collect.itemContractRef)
    Failure.coreInvalid
  let contract ← normalContract payload outcome.itemContractRef
  checkLists payload policy collect contract outcome

end Kdna.Plans

import Kdna.Data.Waiting
import Kdna.ProtectedRead.Delivery

/-!
# What a protected read guarantees

The invariant of a protected read and the commits on its token, over the state and the history, and
what it says of the entries at which the sink is invoked, at which a call returns and at which the
handles of the envelope are registered.
-/

namespace Kdna.ProtectedRead

open EventLoop Value Read
open Reentrant (Prog)

/-- The read of a route. -/
def reading : Route → Prog State Query Reply Result
  | .ordinary => readProtectedNode
  | .node => readProtectedSectionNode
  | .browser => readProtectedSectionBrowser

/-- What else changes the state: other reads settle denials at the same Host, the switch of the
process is set, and the operation is disposed, which the browser route hears of. -/
inductive Change
  | denials (revocations : List Denial)
  | fold (folding : Bool)
  | dispose

/-- A step of the environment. -/
def change (k : Route) : Change → State → State
  | .denials revocations, s => { s with revocations := revocations }
  | .fold folding, s => { s with folding := folding }
  | .dispose, s => if k = .browser then { s.deliver release with disposed := true } else s

/-- The state before a read. -/
def initial (revocations : List Denial) (folding : Bool) : State :=
  ⟨none, revocations, folding, false, false⟩

abbrev Happening := Entry (Option Call) State Query Reply Result

/-- A read, whose id is 0, behind any commits, answers, settlements and changes, in any order. -/
def readRun (k : Route) (revocations : List Denial) (folding : Bool)
    (events : List (Event Call Reply Change)) : Loop (Option Call) State Query Reply Result :=
  events.foldl (Loop.step Query.sync some (commitProtectedTransport k) (change k))
    (Loop.start Query.sync (initial revocations folding) none (reading k))

section Orders

/-- Where a lifecycle stands. -/
def Lifecycle.rank : Lifecycle → ℕ
  | .available => 0
  | .reserved => 1
  | .closed => 2

/-- What a delivery keeps to. -/
structure Delivery.Moves (d d' : Delivery) : Prop where
  prepared : d'.prepared = d.prepared
  atMs : d'.disclosure.atMs = d.disclosure.atMs
  owner : d.ownerActive = false → d'.ownerActive = false
  lifecycle : d.lifecycle.rank ≤ d'.lifecycle.rank
  failed : d.failed = true → d'.failed = true
  invoked : d.disclosure.externalCommit ≠ .notInvoked → d'.disclosure.externalCommit ≠ .notInvoked
  settled : d.ownerActive = false → d.lifecycle = .closed → d.pending = false → d' = d

/-- What every step keeps to. -/
structure State.Moves (s t : State) : Prop where
  delivery : ∀ d, s.delivery = some d → ∃ d', t.delivery = some d' ∧ d.Moves d'
  registered : s.registered = true → t.registered = true

theorem Delivery.Moves.refl (d : Delivery) : d.Moves d :=
  ⟨rfl, rfl, id, le_rfl, id, id, fun _ _ _ => rfl⟩

theorem Delivery.Moves.trans {d d' d'' : Delivery} (h : d.Moves d') (h' : d'.Moves d'') :
    d.Moves d'' where
  prepared := h'.prepared.trans h.prepared
  atMs := h'.atMs.trans h.atMs
  owner hd := h'.owner (h.owner hd)
  lifecycle := h.lifecycle.trans h'.lifecycle
  failed hd := h'.failed (h.failed hd)
  invoked hd := h'.invoked (h.invoked hd)
  settled howner hclosed hpending := by
    obtain rfl := h.settled howner hclosed hpending
    exact h'.settled howner hclosed hpending

theorem State.Moves.refl (s : State) : s.Moves s := ⟨fun d hd => ⟨d, hd, .refl d⟩, id⟩

theorem State.Moves.trans (s t u : State) (h : s.Moves t) (h' : t.Moves u) : s.Moves u where
  delivery d hd := by
    obtain ⟨d', hd', hmoves⟩ := h.delivery d hd
    obtain ⟨d'', hd'', hmoves'⟩ := h'.delivery d' hd'
    exact ⟨d'', hd'', hmoves.trans hmoves'⟩
  registered hs := h'.registered (h.registered hs)

end Orders

section Entries

variable (k : Route)

/-- The read handed over what it had prepared, at the time of its last check. -/
def Handed (h : List Happening) (d : Delivery) : Prop :=
  ∃ e ∈ h, e.id = 0 ∧ e.outcome = .asked .deliver ∧ ∃ observed,
    e.log = [(.preparation, .prepared d.prepared), (.operationObserve .hostHandoff, observed),
      (.assertCurrent, .current d.disclosure.atMs)]

/-- The entry is one of a commit. -/
def Happening.isCommit (e : Happening) : Bool := e.call.isSome

/-- A commit that has the token asks. -/
def Holds (e : Happening) : Prop := e.isCommit = true ∧ ∃ q, e.outcome = .asked q

/-- A commit found the token. -/
def Takes (e : Happening) : Prop :=
  e.isCommit = true ∧ ((∃ q, e.outcome = .asked q) ∨
    ∃ r, e.outcome = .returned r ∧ r ≠ .protectionFailed .operationUntrusted none)

/-- The call has returned. -/
def Returned (h : List Happening) (id : ℕ) : Prop :=
  ∃ f ∈ h, f.id = id ∧ ∃ r, f.outcome = .returned r

/-- The commit succeeded. -/
def Result.isCommitted : Result → Bool
  | .committed _ _ => true
  | _ => false

/-- The entry is the first of the commits on the token, which is not released. -/
structure First (pre : List Happening) (e : Happening) : Prop where
  commit : e.isCommit = true
  stops : ∀ a, e.outcome ≠ .settled a
  token : e.call.any Call.operation = true
  waits : Waits 0 .deliver pre
  alone : ∀ f ∈ pre, ¬ Takes f
  live : e.state.disposed = false

/-- What the transport's observation of the Host says of a prepared read, as a commit accepts it
for an attempt at the time. -/
structure Permits (p : Prepared) (raw : Json) (attemptedAt : ℕ) (context : Context) : Prop where
  observed : ∃ revocations, (p.observe k revocations (some raw)).1 = .ok context
  host : context.hostId = p.hostId ∧ context.hostEpoch = p.hostEpoch
  within : p.Within context.scope
  handles : ∀ h ∈ p.handles, covers context h ∧ attemptedAt < h.expiresAt
  accepted : Accepted context
  unexpired : unexpiredAt k context attemptedAt

/-- The questions of a commit on its transport, before the operation is observed. -/
def inspection : Route → List (Query × Reply)
  | .browser => []
  | _ => [(.inspect, .value (.bool true))]

/-- What holds where the sink is invoked. -/
structure Sinks (pre : List Happening) (e : Happening) : Prop where
  once : ¬ EverAsked pre .sink
  open' : Waits 0 .deliver pre
  authority : ∃ d raw context observedAt attemptedAt, e.state.delivery = some d ∧
    e.log = inspection k ++ [(.operationObserve .transportCommit, .current observedAt),
      (.observeScope, .value raw), (.assertCurrent, .current attemptedAt)] ∧
    Handed pre d ∧ d.disclosure.atMs ≤ attemptedAt ∧ Permits k d.prepared raw attemptedAt context

/-- The log of a read that registers its handles. -/
def RegisterLog (log : List (Query × Reply)) : Prop :=
  ∃ before observedAt assertedAt, log = before ++ [(.deliver, .value (.bool true)),
    (.operationObserve .readReturn, .current observedAt), (.assertCurrent, .current assertedAt)]

/-- What holds of a delivery. -/
structure Delivery.Fits (h : List Happening) (d : Delivery) : Prop where
  handed : Handed h d
  active : d.ownerActive = true → Waits 0 .deliver h
  shut : d.ownerActive = false → d.lifecycle = .closed
  invoked : d.disclosure.externalCommit ≠ .notInvoked ↔ EverAsked h .sink
  spent : d.disclosure.externalCommit ≠ .notInvoked → d.lifecycle = .closed
  held : (∃ e ∈ h, Holds e) → d.lifecycle ≠ .available
  taken : d.ownerActive = true → d.lifecycle ≠ .available → ∃ e ∈ h, Takes e
  running : ∀ e ∈ h, Holds e → Returned h e.id ∨ d.pending = true

/-- The read took up `true` from `deliver`, with no commit pending or failed. -/
def TakenUp (h : List Happening) : Prop :=
  ∃ e ∈ h, e.id = 0 ∧ e.outcome = .asked (.operationObserve .readReturn) ∧
    (∃ log, e.log = log ++ [(.deliver, .value (.bool true))]) ∧
    ∃ d, e.state.delivery = some d ∧ d.ownerActive = false ∧ d.lifecycle = .closed ∧
      d.pending = false ∧ d.failed = false

/-- The read has returned with its handles registered, and no commit on the token has failed. -/
structure Registered (s : State) (h : List Happening) : Prop where
  returned : ∃ e ∈ h, e.id = 0 ∧ RegisterLog e.log ∧ ∃ r, e.outcome = .returned r
  takenUp : TakenUp h
  delivery : ∃ d, s.delivery = some d ∧ d.ownerActive = false ∧ d.pending = false ∧ d.failed = false

/-- What holds where a call returns. -/
structure Returns (pre : List Happening) (e : Happening) (r : Result) : Prop where
  reports : r.disclosure = e.state.history ∨
    e.isCommit = true ∧ r = .protectionFailed .operationUntrusted none
  first : First pre e → ∃ d, e.state.delivery = some d ∧ d.failed = true
  held : (∃ f ∈ pre, f.id = e.id ∧ Holds f) →
    r.isCommitted = true ∨ ∃ d, e.state.delivery = some d ∧ d.failed = true

/-- What holds at the last entry. -/
def EntryOk (pre : List Happening) (e : Happening) : Prop :=
  match e.outcome with
  | .asked .sink => Sinks k pre e
  | .returned r => Returns pre e r
  | _ => True

/-- The invariant of the state and the history. -/
structure Inv (s : State) (h : List Happening) : Prop where
  kind : ∀ e ∈ h, (∀ a, e.outcome ≠ .settled a) → (e.id = 0 ↔ e.isCommit = false)
  mine : ∀ e ∈ h, e.outcome = .asked .deliver → e.id = 0
  sinks : ∀ e ∈ h, e.outcome = .asked .sink → e.isCommit = true
  made : s.delivery.isSome = true ↔ EverAsked h .deliver
  held : ∀ e ∈ h, Holds e → s.delivery.isSome = true
  single : ∀ e ∈ h, ∀ e' ∈ h, Holds e → Holds e' → e.id = e'.id
  fits : ∀ d, s.delivery = some d → d.Fits h
  opened : Waits 0 .deliver h → s.disposed = false →
    ∃ d, s.delivery = some d ∧ d.ownerActive = true
  registered : s.registered = true → Registered s h
  last : ∀ pre e, h = pre ++ [e] → EntryOk k pre e

/-- The rules of a read and its commits. -/
def rules : Rules (Option Call) State Query Reply Result where
  inv := Inv k
  always := State.Moves
  turn := State.Moves
  nested _ _ := True

end Entries

end Kdna.ProtectedRead

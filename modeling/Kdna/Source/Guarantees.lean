import Kdna.Source.Sections

/-!
# What a source opening guarantees

The invariant of an opening and its calls over the state and the history, for both routes, and what
it says of the entries at which the sink is invoked and at which calls return.
-/

namespace Kdna.Source

open EventLoop Value Read Execution
open Reentrant (Prog)

/-- The ordinary route or the section route. -/
inductive Route
  | ordinary
  | sections
  deriving DecidableEq, Repr

/-- The opening call of the route. -/
def opening (config : Config) : Route → Prog State Query Reply Result
  | .ordinary => Ordinary.withProtectedSourceNode config
  | .sections => Sections.withProtectedSectionSourceNode config

/-- The calls of the route on what the opening hands out. -/
def body (config : Config) : Route → Call → Prog State Query Reply Result
  | .ordinary, .commit transport => Ordinary.commitProtectedSourceTransport transport
  | .ordinary, .preview draft => Ordinary.previewProtectedSourceRevision config draft
  | .ordinary, .produce draft => Ordinary.produceProtectedSourceRevision config draft
  | .sections, .commit transport => Sections.commitProtectedSectionSourceTransport config transport
  | .sections, .preview draft => Sections.previewProtectedSectionSourceRevision config draft
  | .sections, .produce draft => Sections.produceProtectedSectionSourceRevision config draft

/-- The state before the opening. -/
def initial (now : ℕ) : State := ⟨now, 0, false, none, none, none⟩

/-- The time moves. -/
def moveTime (now : ℕ) (s : State) : State := { s with now := now }

abbrev Happening := Entry (Option Call) State Query Reply Result

/-- An opening, whose id is 0, behind any calls, answers, settlements and moves of the time, in any
order. -/
def sourceRun (k : Route) (config : Config) (now : ℕ) (events : List (Event Call Reply ℕ)) :
    Loop (Option Call) State Query Reply Result :=
  events.foldl (Loop.step Query.sync some (body config k) moveTime)
    (Loop.start Query.sync (initial now) none (opening config k))

/-- Some call has asked the question. -/
def Asked (h : List Happening) (q : Query) : Prop := ∃ e ∈ h, e.outcome = .asked q

/-- A call that the sink answered with `true` has returned. -/
def Confirmed (h : List Happening) : Prop :=
  ∃ e ∈ h, (∃ r, e.outcome = .returned r) ∧ ∃ a, (Query.commit, a) ∈ e.log ∧ a.isTrue = true

/-- The opening has asked the question and has not taken up an answer, although one may have come. -/
def WaitsAt (q : Query) (h : List Happening) : Prop :=
  ∃ pre e, e.id = 0 ∧ e.outcome = .asked q ∧ Extends 0 (pre ++ [e]) h

/-- A stop of a call: the question that it asks, or `none` where it returns. -/
def stop? (e : Happening) : Option (Option Query) :=
  match e.outcome with
  | .asked q => some (some q)
  | .settled _ => none
  | .returned _ => some none

/-- The stops of the opening. -/
def trail (h : List Happening) : List (Option Query) :=
  (h.filter fun e => e.id = 0).filterMap stop?

section Orders

/-- Where an external commit stands. -/
def ExternalCommit.rank : ExternalCommit → ℕ
  | .notInvoked => 0
  | .outcomeUnknown _ => 1
  | .confirmed _ _ => 2

/-- Where a disclosure stands. -/
def rank : Disclosure → ℕ
  | none => 0
  | some h => h.externalCommit.rank + 1

/-- A part that exists goes on to exist, in the relation. -/
def Onward {τ : Type} (R : τ → τ → Prop) (x y : Option τ) : Prop :=
  ∀ a, x = some a → ∃ b, y = some b ∧ R a b

/-- What a delivery keeps to. -/
structure Delivery.Moves (d d' : Delivery) : Prop where
  closed : d.closed = true → d'.closed = true ∧ d'.handoff = d.handoff
  handoff : rank d.handoff ≤ rank d'.handoff

/-- What an owner keeps to. -/
structure Owner.Moves (o o' : Owner) : Prop where
  closed : o.closed = true → o'.closed = true
  original : ∀ x, o.originalExpiresAt = some x → o'.originalExpiresAt = some x ∧
    o'.contextId = o.contextId ∧ o'.epoch = o.epoch ∧ o.lastMs ≤ o'.lastMs

/-- What a context keeps to. -/
structure Context.Moves (c c' : Context) : Prop where
  taken : c.phase ≠ .available → c'.phase ≠ .available
  closed : c.phase = .closed → c'.phase = .closed

/-- What every step keeps to. -/
structure State.Moves (s t : State) : Prop where
  owner : Onward Owner.Moves s.owner t.owner
  delivery : Onward Delivery.Moves s.delivery t.delivery
  context : Onward Context.Moves s.context t.context
  deadline : s.owner.isSome = true → t.deadline = s.deadline

/-- What can happen while a synchronous callback runs: the time moves and a context is reserved. -/
structure State.Nested (s t : State) : Prop where
  owner : t.owner = s.owner
  delivery : t.delivery = s.delivery
  deadline : t.deadline = s.deadline
  context : Onward Context.Moves s.context t.context

theorem Onward.refl {τ : Type} {R : τ → τ → Prop} (hR : ∀ a, R a a) (x : Option τ) :
    Onward R x x := fun a ha => ⟨a, ha, hR a⟩

theorem Onward.trans {τ : Type} {R : τ → τ → Prop} (hR : ∀ a b c, R a b → R b c → R a c)
    {x y z : Option τ} (h : Onward R x y) (h' : Onward R y z) : Onward R x z := by
  intro a ha
  obtain ⟨b, hb, hab⟩ := h a ha
  obtain ⟨c, hc, hbc⟩ := h' b hb
  exact ⟨c, hc, hR a b c hab hbc⟩

theorem Onward.map {τ : Type} {R : τ → τ → Prop} {f : τ → τ} {x : Option τ}
    (hf : ∀ a, x = some a → R a (f a)) : Onward R x (x.map f) := by
  rintro a rfl
  exact ⟨f a, rfl, hf a rfl⟩

theorem Onward.none {τ : Type} {R : τ → τ → Prop} (y : Option τ) : Onward R none y :=
  fun _ h => nomatch h

theorem Delivery.Moves.refl (d : Delivery) : d.Moves d := ⟨fun h => ⟨h, rfl⟩, le_rfl⟩

theorem Delivery.Moves.trans (d d' d'' : Delivery) (h : d.Moves d') (h' : d'.Moves d'') :
    d.Moves d'' where
  closed hc :=
    let ⟨hc', hh⟩ := h.closed hc
    let ⟨hc'', hh'⟩ := h'.closed hc'
    ⟨hc'', hh'.trans hh⟩
  handoff := h.handoff.trans h'.handoff

theorem Owner.Moves.refl (o : Owner) : o.Moves o := ⟨id, fun _ hx => ⟨hx, rfl, rfl, le_rfl⟩⟩

theorem Owner.Moves.trans (o o' o'' : Owner) (h : o.Moves o') (h' : o'.Moves o'') : o.Moves o'' where
  closed hc := h'.closed (h.closed hc)
  original x hx :=
    let ⟨hx', hc, he, hl⟩ := h.original x hx
    let ⟨hx'', hc', he', hl'⟩ := h'.original x hx'
    ⟨hx'', hc'.trans hc, he'.trans he, hl.trans hl'⟩

theorem Context.Moves.refl (c : Context) : c.Moves c := ⟨id, id⟩

theorem Context.Moves.trans (c c' c'' : Context) (h : c.Moves c') (h' : c'.Moves c'') :
    c.Moves c'' := ⟨fun hc => h'.taken (h.taken hc), fun hc => h'.closed (h.closed hc)⟩

theorem State.Moves.refl (s : State) : s.Moves s :=
  ⟨.refl Owner.Moves.refl _, .refl Delivery.Moves.refl _, .refl Context.Moves.refl _, fun _ => rfl⟩

theorem State.Moves.trans (s t u : State) (h : s.Moves t) (h' : t.Moves u) : s.Moves u where
  owner := h.owner.trans Owner.Moves.trans h'.owner
  delivery := h.delivery.trans Delivery.Moves.trans h'.delivery
  context := h.context.trans Context.Moves.trans h'.context
  deadline hs := by
    obtain ⟨o, ho⟩ := Option.isSome_iff_exists.mp hs
    obtain ⟨o', ho', -⟩ := h.owner o ho
    rw [h'.deadline (Option.isSome_iff_exists.mpr ⟨o', ho'⟩), h.deadline hs]

theorem State.Nested.refl (s : State) : s.Nested s := ⟨rfl, rfl, rfl, .refl Context.Moves.refl _⟩

theorem State.Nested.trans (s t u : State) (h : s.Nested t) (h' : t.Nested u) : s.Nested u :=
  ⟨h'.owner.trans h.owner, h'.delivery.trans h.delivery, h'.deadline.trans h.deadline,
    h.context.trans Context.Moves.trans h'.context⟩

/-- What only moves the time and reserves contexts is a step. -/
theorem State.Nested.moves {s t : State} (h : s.Nested t) : s.Moves t where
  owner := h.owner ▸ .refl Owner.Moves.refl _
  delivery := h.delivery ▸ .refl Delivery.Moves.refl _
  context := h.context
  deadline _ := h.deadline

end Orders

section Entries

variable (k : Route) (config : Config)

/-- The observation that a route checks of what the Host returned: the value, or its copy. -/
def Checks : Route → Json → Json → Prop
  | .ordinary, raw, value => value = raw
  | .sections, raw, value => copyJson raw = .ok value

/-- The Host allowed the whole source of the asset under the context and the epoch of the owner, at
the time, which is before the expiry of the observation and before the original one. -/
def Allows (owner : Owner) (raw : Json) (currentMs : ℕ) : Prop :=
  ∃ value original, Checks k raw value ∧ owner.originalExpiresAt = some original ∧
    value.propIs "scope" "complete_source" = true ∧
    value.propIs "asset_digest" config.expectedA = true ∧
    value.propIs "permission" "allowed" = true ∧ isTrue value "revoked" = false ∧
    strictlySame (value.prop "context_id") owner.contextId = true ∧
    strictlySame (value.prop "epoch") owner.epoch = true ∧
    member? value "current_ms" uint? = some currentMs ∧ currentMs < original ∧
    ∃ expires, member? value "expires_at_ms" uint? = some expires ∧ currentMs < expires

/-- What the log of a commit shows at the sink. -/
def SinkLog (e : Happening) : Route → (raw : Json) → Prop
  | .ordinary, raw => ∃ current,
    e.log = [(.observeScope, .value raw), (.operationObserve .transportCommit, current)] ∧
      current.isCurrent = true
  | .sections, raw => ∃ unchanged current asserted,
    e.log = [(.observeScope, .value raw), (.assertUnchanged, unchanged),
      (.operationObserve .transportCommit, current), (.assertCurrent, asserted)] ∧
      current.isCurrent = true ∧ asserted.isCurrent = true

/-- The time that the commit accepted is not earlier than any that was accepted before it. -/
def Latest (pre : List Happening) (id currentMs : ℕ) : Prop :=
  ∃ earlier f later, pre = earlier ++ f :: later ∧ f.id = id ∧
    f.outcome = .asked (.operationObserve .transportCommit) ∧
    (∃ owner, f.state.owner = some owner ∧ owner.lastMs = currentMs) ∧
    ∀ g ∈ earlier, ∀ owner, g.state.owner = some owner → owner.originalExpiresAt.isSome = true →
      owner.lastMs ≤ currentMs

/-- What holds where the sink is invoked. The two routes check different facts behind their
awaits. -/
structure Sinks (pre : List Happening) (e : Happening) : Prop where
  once : ¬ Asked pre .commit
  open' : WaitsAt .deliver pre
  observed : ∃ raw, SinkLog e k raw ∧ match k with
    | .ordinary => allowedScope raw = true
    | .sections => e.state.now ≤ e.state.deadline ∧ ∃ owner currentMs, e.state.owner = some owner ∧
        Allows .sections config owner raw currentMs ∧ Latest pre e.id currentMs

/-- What the log of a revision shows where it succeeds: its last observation of the Host and its
last check of the operation. -/
def RevisionLog (e : Happening) : Route → (raw : Json) → Prop
  | .ordinary, raw => ∃ log purpose phase current asserted,
    e.log = log ++ [(.hostObserve purpose, .value raw), (.operationObserve phase, current),
      (.assertCurrent, asserted)] ∧ current.isCurrent = true ∧ asserted.isCurrent = true
  | .sections, raw => ∃ log purpose phase unchanged current asserted,
    e.log = log ++ [(.hostObserve purpose, .value raw), (.assertUnchanged, unchanged),
      (.operationObserve phase, current), (.assertCurrent, asserted)] ∧
      current.isCurrent = true ∧ asserted.isCurrent = true

/-- A call of a revision. -/
def isRevision : Option Call → Bool
  | some (.preview _) => true
  | some (.produce _) => true
  | _ => false

/-- The next assertion of the revision is its last, behind which it succeeds. -/
def lastAsserts (log : List (Query × Reply)) : Option Call → Bool
  | some (.preview draft) => draft.semantic.isNone
  | some (.produce _) => log.any fun x => x.1 = .hostObserve .publish
  | _ => false

/-- What holds where a revision succeeds: its last checks are of the owner's, whose opening has not
ended. On the ordinary route the opening may have taken up the result of `deliver`. -/
structure Revises (pre : List Happening) (e : Happening) : Prop where
  observed : ∃ raw owner currentMs, RevisionLog e k raw ∧ e.state.owner = some owner ∧
    Allows k config owner raw currentMs
  final : lastAsserts e.log.dropLast e.call = true
  owned : ∃ f ∈ pre, f.state.owner.isSome = true
  live : WaitsAt .deliver pre ∨ k = .ordinary ∧ WaitsAt (.operationObserve .readReturn) pre
  inTime : k = .sections → e.state.now ≤ e.state.deadline

/-- A result that says what the state says: a rejected revision, or a disclosure. -/
def Reports (c : Option Call) (r : Result) (s : State) : Prop :=
  if isRevision c = true then ∃ code stage, r = .rejected code stage
  else r = .thrown ∨ r.disclosure? = some s.history

/-- What holds where a call returns. -/
def Returns (pre : List Happening) (e : Happening) (r : Result) : Prop :=
  Reports e.call r e.state ∨
    isRevision e.call = true ∧ (r = .previewValid ∨ r = .revisionProduced) ∧ Revises k config pre e

/-- What holds at the last entry. -/
def EntryOk (pre : List Happening) (e : Happening) : Prop :=
  match e.outcome with
  | .asked .commit => Sinks k config pre e
  | .returned r => Returns k config pre e r
  | _ => True

/-- The entry is one of a revision that has the context. -/
def TakesContext (e : Happening) : Prop :=
  isRevision e.call = true ∧ ((∃ q, e.outcome = .asked q) ∨ ∃ r, e.outcome = .returned r ∧
    r ≠ .rejected .contextUntrusted .input ∧ r ≠ .rejected .contextClosed .input)

/-- The stops up to the one behind which the owner has its first observation. -/
def observedAt : Route → ℕ
  | .ordinary => 2
  | .sections => 3

/-- What holds of a delivery: it has a handoff while the opening waits for `deliver`, or is
closed. -/
structure Delivery.Fits (h : List Happening) (d : Delivery) : Prop where
  waits : d.handoff.isSome = true → d.closed = false → WaitsAt .deliver h
  owned : d.handoff.isSome = true → d.owned = true
  opened : ∀ x, d.handoff = some x → d.phase = .opened → x.externalCommit = .notInvoked
  plain : d.handoff = none → d.phase = .opened ∧ d.closed = false ∨ none ∈ trail h
  made : 1 < (trail h).length
  prepared : k = .sections → Asked h .deliver

/-- What holds of an owner, beside a context or none. -/
structure Owner.Fits (context : Option Context) (h : List Happening) (o : Owner) : Prop where
  made : 1 < (trail h).length
  observed : o.originalExpiresAt.isSome = true → observedAt k < (trail h).length
  live : k = .ordinary → o.closed = false → context.isSome = true →
    WaitsAt .deliver h ∨ WaitsAt (.operationObserve .readReturn) h

/-- What holds of a context. -/
structure Context.Fits (h : List Happening) (c : Context) : Prop where
  registered : Asked h .deliver
  live : k = .sections → c.phase ≠ .closed → WaitsAt .deliver h

/-- What holds of the parts of a state. -/
structure Parts (s : State) (h : List Happening) : Prop where
  delivery : ∀ d, s.delivery = some d → d.Fits k h
  owner : ∀ o, s.owner = some o → o.Fits k s.context h
  context : ∀ c, s.context = some c → c.Fits k h

/-- The invariant of the state and the history. -/
structure Inv (s : State) (h : List Happening) : Prop where
  mine : ∀ e ∈ h, e.outcome = .asked .deliver → e.id = 0
  handed : s.history.isSome = true ↔ Asked h .deliver
  parts : Parts k s h
  invoked : Asked h .commit ↔ 1 < rank s.history
  confirmed : Confirmed h ↔ 2 < rank s.history
  taken : ∀ e ∈ h, TakesContext e → ∃ c, s.context = some c ∧ c.phase ≠ .available
  single : ∀ e ∈ h, ∀ e' ∈ h, TakesContext e → TakesContext e' → e.id = e'.id
  last : ∀ pre e, h = pre ++ [e] → EntryOk k config pre e

/-- The rules of an opening and its calls. -/
def rules : Rules (Option Call) State Query Reply Result where
  inv := Inv k config
  always := State.Moves
  turn s t := s.Moves t ∧ t.now = s.now
  nested := State.Nested

end Entries

end Kdna.Source

import Kdna.ProtectedRead.Invariant

/-!
# The turns of a commit

A commit that has the token, from where it reserved it or went on: where it may stop, and what it
finds when it goes on again.
-/

namespace Kdna.ProtectedRead

open EventLoop Value Read

section Turns

variable (k : Route) (id : ℕ) (c : Option Call)

/-- What a computation of a call keeps to and ends in. -/
abbrev Does {ε γ : Type} (Q : Sight → γ → Prop) (E : Sight → ε → Prop)
    (x : EventLoop.Act State Query Reply ε γ) (v : Sight) : Prop :=
  Acts Query.sync (rules k) id c Q E x v

/-- A turn of a commit that has the token: it began in the state `s` with the delivery `d₀`, which
is now `d`. -/
structure Turn (v : Sight) (s : State) (d₀ d : Delivery) : Prop where
  called : id ≠ 0
  commit : c.isSome = true
  inv : Inv k s v.history
  past : ∀ e ∈ v.history, e.state.Moves s
  before : s.delivery = some d₀
  after : v.state.delivery = some d
  disposed : v.state.disposed = s.disposed
  unregistered : v.state.registered = false
  moves : d₀.Moves d
  owner : d.ownerActive = d₀.ownerActive
  pending : d.pending = true
  taken : d.lifecycle ≠ .available
  external : d.disclosure.externalCommit ≠ .notInvoked ↔
    d₀.disclosure.externalCommit ≠ .notInvoked
  alone : ∀ e ∈ v.history, Holds e → e.id = id
  was : s.registered = false

end Turns

variable {k : Route} {id : ℕ} {c : Option Call} {v : Sight} {s t : State} {d₀ d d' : Delivery}
  {h h' : List Happening} {o : Outcome Query Reply Result}

/-- A delivery that is pending is not registered. -/
theorem Inv.unregistered (hinv : Inv k s h) (hd : s.delivery = some d)
    (hne : d.pending = true ∨ d.ownerActive = true) : s.registered = false := by
  by_contra hr
  obtain ⟨d', hd', howner, hpending, -⟩ :=
    (hinv.registered (Bool.eq_true_of_not_eq_false hr)).delivery
  obtain rfl := Option.some.inj (hd.symm.trans hd')
  rcases hne with hne | hne
  · cases hne.symm.trans hpending
  · cases hne.symm.trans howner

theorem Turn.spent (ht : Turn k id c v s d₀ d) (hd : d.disclosure.externalCommit ≠ .notInvoked) :
    d.lifecycle = .closed :=
  Lifecycle.closed_of_le ((ht.inv.fits d₀ ht.before).spent (ht.external.mp hd)) ht.moves.lifecycle

/-- A turn may change the delivery, and the denials, in the order of the deliveries. -/
theorem Turn.step (ht : Turn k id c v s d₀ d) (hafter : t.delivery = some d')
    (hdisposed : t.disposed = v.state.disposed) (hregistered : t.registered = v.state.registered)
    (hm : d.Moves d') (howner : d'.ownerActive = d.ownerActive) (hpending : d'.pending = true)
    (hexternal : d'.disclosure.externalCommit ≠ .notInvoked ↔
      d.disclosure.externalCommit ≠ .notInvoked) :
    Turn k id c { v with state := t } s d₀ d' where
  called := ht.called
  commit := ht.commit
  inv := ht.inv
  past := ht.past
  before := ht.before
  after := hafter
  disposed := hdisposed.trans ht.disposed
  unregistered := hregistered.trans ht.unregistered
  moves := ht.moves.trans hm
  owner := howner.trans ht.owner
  pending := hpending
  taken := Lifecycle.taken_of_le ht.taken hm.lifecycle
  external := hexternal.trans ht.external
  alone := ht.alone
  was := ht.was

/-- The state of a turn comes behind its beginning. -/
theorem Turn.state_moves (ht : Turn k id c v s d₀ d) : s.Moves v.state := by
  refine ⟨fun x hx => ?_, fun hr => ?_⟩
  · obtain rfl := Option.some.inj (ht.before.symm.trans hx)
    exact ⟨d, ht.after, ht.moves⟩
  · rw [ht.was] at hr
    cases hr

/-- A stop of a turn. -/
theorem Turn.push (ht : Turn k id c v s d₀ d) (hafter : t.delivery = some d')
    (hdisposed : t.disposed = v.state.disposed) (hregistered : t.registered = v.state.registered)
    (hm : d.Moves d') (howner : d'.ownerActive = d.ownerActive)
    (hsettled : ∀ a, o ≠ .settled a) (hdeliver : o ≠ .asked .deliver)
    (hinvoked : d'.disclosure.externalCommit ≠ .notInvoked ↔
      d.disclosure.externalCommit ≠ .notInvoked ∨ o = .asked .sink)
    (hspent : d'.disclosure.externalCommit ≠ .notInvoked → d'.lifecycle = .closed)
    (hpending : d'.pending = true ∨ ∃ r, o = .returned r)
    (hreturned : ∀ r, o = .returned r → r ≠ .protectionFailed .operationUntrusted none)
    (hok : EntryOk k v.history ⟨id, c, v.log, o, t⟩) :
    Inv k t (v.history ++ [⟨id, c, v.log, o, t⟩]) := by
  have hfits := ht.inv.fits d₀ ht.before
  have hpasses : Passes 0 (⟨id, c, v.log, o, t⟩ : Happening) := fun hid => absurd hid ht.called
  have hmoves := ht.moves.trans hm
  have hactive : d'.ownerActive = d₀.ownerActive := howner.trans ht.owner
  have hmade : EverAsked v.history .deliver := ht.inv.made.mp (by rw [ht.before, Option.isSome_some])
  have hsome : t.delivery.isSome = true := by rw [hafter, Option.isSome_some]
  refine ht.inv.push (fun _ => ?_) (fun hd => absurd hd hdeliver) (fun _ => ht.commit) ?_
    (fun _ => hsome) (fun _ f hf hh => ht.alone f hf hh) (fun x hx => ?_) (fun hw hlive => ?_)
    (fun hr => ?_) hok
  · refine ⟨fun hid => absurd hid ht.called, fun hc => ?_⟩
    cases ht.commit.symm.trans hc
  · exact ⟨fun _ => everAsked_append.mpr (.inl hmade), fun _ => hsome⟩
  · obtain rfl := Option.some.inj (hafter.symm.trans hx)
    refine hfits.next hmoves (fun _ => hpasses) (fun hne => ?_) ?_ hspent (fun _ => ?_)
      (fun _ _ => .inr ⟨ht.commit, ?_⟩) fun f hf hh => ?_
    · exact Lifecycle.closed_of_le (hfits.shut (hactive ▸ hne)) hmoves.lifecycle
    · rw [← ht.external]
      exact hinvoked
    · exact Lifecycle.taken_of_le ht.taken hm.lifecycle
    · cases o with
      | asked q => exact .inl ⟨q, rfl⟩
      | settled a => exact absurd rfl (hsettled a)
      | returned r => exact .inr ⟨r, rfl, hreturned r rfl⟩
    · rcases hpending with hpending | ⟨r, rfl⟩
      · exact .inr hpending
      · have hid : f.id = id := by
          rcases mem_append_entry.mp hf with hf | rfl
          · exact ht.alone f hf hh
          · rfl
        exact .inl ⟨_, mem_append_entry.mpr (.inr rfl), hid.symm, r, rfl⟩
  · rw [waits_append hpasses] at hw
    obtain ⟨x, hx, hxactive⟩ := ht.inv.opened hw ((hdisposed.trans ht.disposed).symm.trans hlive)
    obtain rfl := Option.some.inj (ht.before.symm.trans hx)
    exact ⟨d', hafter, hactive.trans hxactive⟩
  · cases (hregistered.trans ht.unregistered).symm.trans hr

/-- A turn may stop at a quiet question. -/
theorem Turn.stop (ht : Turn k id c v s d₀ d) {q : Query} (hdeliver : q ≠ .deliver)
    (hsink : q ≠ .sink) : Inv k v.state (v.asking id c q) := by
  refine ht.push ht.after rfl rfl (.refl d) rfl (fun _ => Outcome.asked_ne_settled)
    (fun heq => ?_) ⟨.inl, fun hx => ?_⟩ ht.spent (.inl ht.pending)
    (fun _ hr => absurd hr Outcome.asked_ne_returned) ?_
  · exact hdeliver (Outcome.asked.inj heq)
  · exact hx.resolve_right fun heq => hsink (Outcome.asked.inj heq)
  · rw [EntryOk]
    cases q with
    | sink => exact absurd rfl hsink
    | _ => trivial

/-- A commit that stopped with the token has it when it goes on. -/
theorem Turn.resumes (ht : Turn k id c v s d₀ d) {q : Query} {u : State} (hud : u.delivery = some d')
    (htaken : d'.lifecycle ≠ .available)
    (hr : Resumes Query.sync (rules k) id q u
      (v.history ++ [⟨id, c, v.log, .asked q, u⟩]) t h) {fresh : Bool} {log : List (Query × Reply)} :
    ∃ d₁, Turn k id c ⟨fresh, log, h, t⟩ t d₁ d₁ ∧ d'.Moves d₁ ∧ (∃ f ∈ h, Takes f) := by
  obtain ⟨d₁, hd₁, hmoves⟩ := hr.always.delivery d' hud
  have hmem : (⟨id, c, v.log, .asked q, u⟩ : Happening) ∈ h := by
    obtain ⟨more, rfl, -⟩ := hr.history
    exact List.mem_append_left _ (mem_append_entry.mpr (.inr rfl))
  have hown : Holds (⟨id, c, v.log, .asked q, u⟩ : Happening) := ⟨ht.commit, q, rfl⟩
  have hpending₁ : d₁.pending = true := by
    rcases (hr.inv.fits d₁ hd₁).running _ hmem hown with ⟨f, hf, hid, r, hreturned⟩ | hpending
    · exact absurd hreturned (hr.alive f hf hid r)
    · exact hpending
  have hwas := hr.inv.unregistered hd₁ (.inl hpending₁)
  exact ⟨d₁, ⟨ht.called, ht.commit, hr.inv, hr.past, hd₁, hd₁, rfl, hwas, .refl d₁, rfl, hpending₁,
    Lifecycle.taken_of_le htaken hmoves.lifecycle, Iff.rfl,
    fun f hf hh => hr.inv.single f hf _ hmem hh hown, hwas⟩, hmoves, _, hmem, hown.takes⟩

/-- A quiet question of a turn. -/
theorem Turn.ask (ht : Turn k id c v s d₀ d) (q : Query) (hdeliver : q ≠ .deliver) (hsink : q ≠ .sink)
    {ε : Type} {Q : Sight → Reply → Prop} {E : Sight → ε → Prop}
    (hQ : ∀ a v' d', Turn k id c v' v'.state d' d' → d.Moves d' → (∃ f ∈ v'.history, Takes f) →
      v'.log = v.log ++ [(q, a)] → v.history <+: v'.history → Q v' a) :
    Does k id c Q E (Act.ask q) v := by
  refine acts_ask (ht.stop hdeliver hsink) fun a t h' hr => ?_
  obtain ⟨d', ht', hmoves, htakes⟩ := ht.resumes ht.after ht.taken hr
  refine hQ a _ d' ht' hmoves htakes rfl ?_
  obtain ⟨more, rfl, -⟩ := hr.history
  exact (List.prefix_append _ _).trans (List.prefix_append _ _)

end Kdna.ProtectedRead

import Kdna.Source.Observations

/-!
# What the shared checks establish

A specification of each check that the calls of a route share, from where a call may stop to where
it goes on.
-/

namespace Kdna.Source

open EventLoop Value Read Execution

/-- From the view, the call keeps to the rules of the route. -/
abbrev Does (k : Route) (config : Config) (id : ℕ) (c : Option Call) {ε γ : Type}
    (Q : Sight → γ → Prop) (E : Sight → ε → Prop) (x : Act State Query Reply ε γ) (v : Sight) : Prop :=
  Acts Query.sync (rules k config) id c Q E x v

variable {k : Route} {config : Config} {id : ℕ} {c : Option Call} {v : Sight}

/-- The owner is open. -/
def State.isOpen (s : State) : Bool := s.owner.any fun owner => !owner.closed

namespace Sections

variable {Q : Sight → Unit → Prop} {E : Sight → Failure → Prop} {stage : Stage}

theorem acts_checkLocal
    (hQ : v.state.isOpen = true → v.state.now ≤ v.state.deadline → Q v ()) (hE : ∀ f, E v f) :
    Does k config id c Q E (checkLocal stage) v := by
  refine acts_bind (acts_state (acts_bind (acts_check (fun hopen => ?_) fun _ => hE _)))
  exact acts_check (hQ hopen) fun _ => hE _

theorem acts_assertUnchanged (hv : Free k config id c v)
    (hQ : ∀ v' u, Good k config id c v' → Later v v' → v'.log = v.log ++ [(.assertUnchanged, u)] →
      Q v' ())
    (hE : ∀ v' f, Good k config id c v' → Later v v' → E v' f) :
    Does k config id c Q E assertUnchanged v := by
  refine acts_bind (hv.ask (q := .assertUnchanged) ⟨nofun, nofun, fun _ _ => nofun⟩ nofun
    fun a v' hv' hlater hlog _ _ => ?_)
  split
  · exact hQ v' _ hv' hlater hlog
  · exact hE v' _ hv' hlater
  · exact hE v' _ hv' hlater

/-- The observation of the Host up to its acceptance. -/
theorem acts_hostCurrent (hv : Free k config id c v) {q : Query} {initial : Bool}
    (hq : Mild k id c v.state (.asked q)) (hsync : q.sync = false) (hE : ∀ f, E v f)
    (hE' : ∀ v' f, Good k config id c v' → Later v v' → E v' f)
    (hQ : ∀ v' raw u, Good k config id c v' → Later v v' →
      v'.log = v.log ++ [(q, .value raw), (.assertUnchanged, u)] →
      v'.state.isOpen = true → v'.state.now ≤ v'.state.deadline →
      Does k config id c Q E (acceptObservation config raw initial) v') :
    Does k config id c Q E (hostCurrent config q stage initial) v := by
  refine acts_bind (acts_checkLocal (fun _ _ => ?_) hE)
  refine acts_bind (hv.ask hq (fun hs => absurd (hsync.symm.trans hs) nofun)
    fun a v₁ hv₁ hlater₁ hlog₁ _ _ => ?_)
  refine acts_bind (acts_need (fun raw hraw => ?_) fun _ => hE' v₁ _ hv₁ hlater₁)
  refine acts_bind (acts_checkLocal (fun _ _ => ?_) fun _ => hE' v₁ _ hv₁ hlater₁)
  refine acts_bind (acts_assertUnchanged hv₁.free (fun v₂ u hv₂ hlater₂ hlog₂ => ?_)
    fun v₂ f hv₂ hlater₂ => hE' v₂ f hv₂ (hlater₁.trans hlater₂))
  have hlater := hlater₁.trans hlater₂
  refine acts_bind (acts_checkLocal (fun hopen htime => ?_) fun _ => hE' v₂ _ hv₂ hlater)
  refine hQ v₂ raw u hv₂ hlater ?_ hopen htime
  cases a with
  | value w =>
    obtain rfl := Option.some.inj hraw
    rw [hlog₂, hlog₁, List.append_assoc, List.singleton_append]
  | _ => cases hraw

/-- The acceptance of a later observation. -/
theorem acts_acceptObservation (hv : Good .sections config id c v) {raw : Json} (hE : ∀ f, E v f)
    (hQ : ∀ v' currentMs, Good .sections config id c v' → Later v v' → v'.log = v.log →
      v'.history = v.history → Seen .sections config raw currentMs v'.state →
      (∃ o, v'.state.owner = some o ∧ o.lastMs = currentMs) → Q v' ()) :
    Does .sections config id c Q E (acceptObservation config raw false) v := by
  refine acts_bind (acts_state (acts_bind (acts_need (fun owner howner => ?_) fun _ => hE _)))
  cases hcheck : checkObservation config owner raw false with
  | error f => exact hE _
  | ok o =>
    obtain ⟨hallows, hlast⟩ := allows_of_checkObservation hcheck
    obtain ⟨hgood, hmoves⟩ := hv.record howner hlast (f := o.record false) fun _ => rfl
    have hfind : (v.state.own (o.record false)).owner = some { owner with lastMs := o.currentMs.1 } := by
      rw [State.own, howner]
      rfl
    refine acts_update ⟨hmoves, rfl⟩ (fun hfresh => absurd (hv.turned.symm.trans hfresh) nofun) ?_
    refine hQ _ o.currentMs.1 hgood ⟨hmoves, List.prefix_rfl⟩ rfl rfl ?_ ⟨_, hfind, rfl⟩
    exact ⟨_, hfind, hallows⟩

/-- The observation of the operation, and its assertion. -/
theorem acts_operationCurrent (hv : Free k config id c v) {p : OperationPhase}
    (hq : Mild k id c v.state (.asked (.operationObserve p))) (hE : ∀ f, E v f)
    (hE' : ∀ v' f, Good k config id c v' → Later v v' → E v' f)
    (hQ : ∀ v' current asserted, Good k config id c v' → Later v v' →
      v.asking id c (.operationObserve p) <+: v'.history →
      v'.log = v.log ++ [(.operationObserve p, current), (.assertCurrent, asserted)] →
      current.isCurrent = true → asserted.isCurrent = true → v'.state.isOpen = true →
      v'.state.now ≤ v'.state.deadline → Q v' ()) :
    Does k config id c Q E (operationCurrent p stage) v := by
  refine acts_bind (acts_checkLocal (fun _ _ => ?_) hE)
  refine acts_bind (hv.ask hq nofun fun a v₁ hv₁ hlater₁ hlog₁ hasked _ => ?_)
  refine acts_bind (acts_checkLocal (fun _ _ => ?_) fun _ => hE' v₁ _ hv₁ hlater₁)
  refine acts_bind (acts_check (fun hcurrent => ?_) fun _ => hE' v₁ _ hv₁ hlater₁)
  refine acts_bind (hv₁.free.ask (q := .assertCurrent) ⟨nofun, nofun, fun _ _ => nofun⟩
    (fun _ => hv₁.turned) fun b v₂ hv₂ hlater₂ hlog₂ _ _ => ?_)
  have hlater := hlater₁.trans hlater₂
  refine acts_bind (acts_check (fun hasserted => ?_) fun _ => hE' v₂ _ hv₂ hlater)
  refine acts_checkLocal (fun hopen htime => ?_) fun _ => hE' v₂ _ hv₂ hlater
  refine hQ v₂ a b hv₂ hlater (hasked.trans hlater₂.history) ?_ hcurrent hasserted hopen htime
  rw [hlog₂, hlog₁, List.append_assoc, List.singleton_append]

end Sections

end Kdna.Source

import Kdna.ProtectedRead.Commits

/-!
# The read that owns a token

`readProtectedNode`, `readProtectedSectionNode` and `readProtectedSectionBrowser` keep to the
rules: the token exists from the handoff on, and wherever the read stops behind `deliver`, its owner
has ended.
-/

namespace Kdna.ProtectedRead

open EventLoop Value Read

variable {k : Route} {v : Sight} {s t : State} {d d₀ : Delivery} {h : List Happening}
  {o : Outcome Query Reply Result}

section Stops

/-- A stop of the read takes no token. -/
theorem not_holds_read {log : List (Query × Reply)} :
    ¬ Holds (⟨0, none, log, o, t⟩ : Happening) := fun hh => absurd hh.1 Bool.false_ne_true

/-- Where the read returns, its disclosure is all there is to check. -/
theorem Inv.returns_read (hinv : Inv k s h) {log : List (Query × Reply)} {r : Result}
    (hr : r.disclosure = t.history) : Returns h ⟨0, none, log, o, t⟩ r := by
  refine ⟨.inl hr, fun hfirst => absurd hfirst.commit Bool.false_ne_true, fun ⟨f, hf, hid, hh⟩ => ?_⟩
  obtain ⟨hcommit, q, hq⟩ := hh
  cases ((hinv.kind f hf (by simp [hq])).mp hid).symm.trans hcommit

/-- The read before its handoff. -/
structure Before (k : Route) (v : Sight) : Prop where
  inv : Inv k v.state v.history
  past : ∀ e ∈ v.history, e.state.Moves v.state
  unasked : ¬ EverAsked v.history .deliver

/-- The read behind its handoff, its owner ended: in the state `s` the delivery was `d₀`. -/
structure Shut (k : Route) (v : Sight) (s : State) (d₀ : Delivery) : Prop where
  inv : Inv k s v.history
  past : ∀ e ∈ v.history, e.state.Moves s
  before : s.delivery = some d₀
  after : v.state.delivery = some (closeOwner d₀)
  unregistered : v.state.registered = false

theorem Before.unmade (hv : Before k v) : v.state.delivery = none := by
  by_contra hne
  exact hv.unasked (hv.inv.made.mp (Option.isSome_iff_ne_none.mpr hne))

theorem deliver_none {f : Delivery → Delivery} (hs : s.delivery = none) : s.deliver f = s := by
  rw [State.deliver, hs, Option.map_none, ← hs]

theorem Before.history (hv : Before k v) : v.state.history = none := by
  rw [State.history, hv.unmade, Option.map_none]

/-- The end of the owner, where there is one, is a step. -/
theorem State.Moves.close (s : State) : s.Moves (s.deliver closeOwner) :=
  ⟨fun d hd => ⟨closeOwner d, Option.map_eq_some_iff.mpr ⟨d, hd, rfl⟩, closeOwner_moves d⟩,
    fun hr => hr⟩

/-- A stop of the read before its handoff. -/
theorem Before.stop (hv : Before k v) (hdeliver : o ≠ .asked .deliver) (hsink : o ≠ .asked .sink) (hr : ∀ r, o = .returned r → r.disclosure = none) :
    Inv k v.state (v.history ++ [⟨0, none, v.log, o, v.state⟩]) := by
  have hdelivery (x : Delivery) : v.state.delivery ≠ some x := by
    rw [hv.unmade]
    exact (Option.some_ne_none x).symm
  have hnot : ¬ EverAsked (v.history ++ [⟨0, none, v.log, o, v.state⟩]) .deliver := by
    rw [everAsked_append]
    exact not_or.mpr ⟨hv.unasked, hdeliver⟩
  refine hv.inv.push (fun _ => ⟨fun _ => rfl, fun _ => rfl⟩) (fun _ => rfl)
    (fun hs => absurd hs hsink) ?_ (fun hh => absurd hh not_holds_read)
    (fun hh => absurd hh not_holds_read) (fun x hx => absurd hx (hdelivery x)) (fun hw => ?_)
    (fun hr => (hv.inv.registered hr).append rfl) ?_
  · rw [hv.unmade]
    exact ⟨fun hs => absurd hs Bool.false_ne_true, fun ha => absurd ha hnot⟩
  · exact absurd hw.everAsked hnot
  · rw [EntryOk]
    split
    · next hasked => exact absurd hasked hsink
    · next r hreturned => exact hv.inv.returns_read ((hr r hreturned).trans hv.history.symm)
    · trivial

/-- A stop of the read behind its handoff. -/
theorem stop_shut (hinv : Inv k s h) (hd : s.delivery = some d₀)
    (ht : t.delivery = some (closeOwner d₀)) {log : List (Query × Reply)}
    (hsettled : ∀ a, o ≠ .settled a) (hdeliver : o ≠ .asked .deliver) (hsink : o ≠ .asked .sink)
    (hr : ∀ r, o = .returned r → r.disclosure = t.history)
    (hregistered : t.registered = true → Registered t (h ++ [⟨0, none, log, o, t⟩])) :
    Inv k t (h ++ [⟨0, none, log, o, t⟩]) := by
  have hfits := hinv.fits d₀ hd
  have hsome : t.delivery.isSome = true := by rw [ht, Option.isSome_some]
  have hasked : EverAsked h .deliver := hinv.made.mp (by rw [hd, Option.isSome_some])
  refine hinv.push (fun _ => ⟨fun _ => rfl, fun _ => rfl⟩) (fun _ => rfl)
    (fun hs => absurd hs hsink) ?_ (fun hh => absurd hh not_holds_read)
    (fun hh => absurd hh not_holds_read) (fun x hx => ?_)
    (fun hw => absurd hw (not_waits_append rfl hsettled hdeliver)) hregistered ?_
  · exact ⟨fun _ => everAsked_append.mpr (.inl hasked), fun _ => hsome⟩
  · obtain rfl := Option.some.inj (ht.symm.trans hx)
    refine hfits.next (closeOwner_moves d₀) (fun ha => absurd ha Bool.false_ne_true) (fun _ => rfl)
      ⟨.inl, fun h => h.resolve_right hsink⟩ (fun _ => rfl) (fun hh => absurd hh not_holds_read)
      (fun ha => absurd ha Bool.false_ne_true) fun f hf hh => ?_
    rcases mem_append_entry.mp hf with hf | rfl
    · exact (hfits.running f hf hh).imp_left Returned.append
    · exact absurd hh not_holds_read
  · rw [EntryOk]
    split
    · next hasked => exact absurd hasked hsink
    · next r hreturned => exact hinv.returns_read (hr r hreturned)
    · trivial

theorem Shut.stop (hv : Shut k v s d₀) (hsettled : ∀ a, o ≠ .settled a)
    (hdeliver : o ≠ .asked .deliver) (hsink : o ≠ .asked .sink)
    (hr : ∀ r, o = .returned r → r.disclosure = v.state.history) :
    Inv k v.state (v.history ++ [⟨0, none, v.log, o, v.state⟩]) := by
  refine stop_shut hv.inv hv.before hv.after hsettled hdeliver hsink hr fun hregistered => ?_
  cases hv.unregistered.symm.trans hregistered

end Stops

section Asks

/-- A question that is neither the handoff nor the sink leaves the handoff unasked. -/
theorem unasked_of_resumes {u : State} {q : Query} (hq : q ≠ .deliver)
    (hbefore : ¬ EverAsked v.history .deliver)
    (hr : Resumes Query.sync (rules k) 0 q u (v.history ++ [⟨0, none, v.log, .asked q, u⟩]) t h) :
    ¬ EverAsked h .deliver := by
  rintro ⟨e, he, hasked⟩
  have hid := hr.inv.mine e he hasked
  obtain ⟨more, rfl, hmore⟩ := hr.history
  rcases List.mem_append.mp he with he | he
  · rcases mem_append_entry.mp he with he | rfl
    · exact hbefore ⟨e, he, hasked⟩
    · exact hq (Outcome.asked.inj hasked)
  · obtain ⟨a, ha⟩ := hmore e he hid
    cases ha.symm.trans hasked

theorem Before.ask (hv : Before k v) (q : Query) (hdeliver : q ≠ .deliver) (hsink : q ≠ .sink)
    {ε : Type} {Q : Sight → Reply → Prop} {E : Sight → ε → Prop}
    (hQ : ∀ a v', Before k v' → v'.log = v.log ++ [(q, a)] → Q v' a) :
    Does k 0 none Q E (Act.ask q) v := by
  refine acts_ask (hv.stop (o := .asked q) (fun heq => hdeliver (Outcome.asked.inj heq))
    (fun heq => hsink (Outcome.asked.inj heq))
    fun _ hr => absurd hr Outcome.asked_ne_returned) fun a t h' hr => ?_
  exact hQ a _ ⟨hr.inv, hr.past, unasked_of_resumes hdeliver hv.unasked hr⟩ rfl

/-- The read is not registered while it runs. -/
theorem unregistered_of_resumes {u : State} {q : Query} {g : List Happening}
    (hr : Resumes Query.sync (rules k) 0 q u g t h) : t.registered = false := by
  by_contra hregistered
  obtain ⟨e, he, hid, -, r, hreturned⟩ :=
    (hr.inv.registered (Bool.eq_true_of_not_eq_false hregistered)).returned
  exact hr.alive e he hid r hreturned

theorem Shut.ask (hv : Shut k v s d₀) (q : Query) (hdeliver : q ≠ .deliver) (hsink : q ≠ .sink)
    {ε : Type} {Q : Sight → Reply → Prop} {E : Sight → ε → Prop}
    (hQ : ∀ a v' d, Shut k v' v'.state d → (closeOwner d₀).Moves d → v'.log = v.log ++ [(q, a)] →
      v.asking 0 none q <+: v'.history → Q v' a) : Does k 0 none Q E (Act.ask q) v := by
  refine acts_ask (hv.stop (o := .asked q) (fun _ => Outcome.asked_ne_settled)
    (fun heq => hdeliver (Outcome.asked.inj heq)) (fun heq => hsink (Outcome.asked.inj heq))
    fun _ hr => absurd hr Outcome.asked_ne_returned) fun a t h' hr => ?_
  obtain ⟨d, hd, hmoves⟩ := hr.always.delivery _ hv.after
  have hclosed : closeOwner d = d :=
    closeOwner_of_closed (hmoves.owner rfl) (Lifecycle.closed_of_le rfl hmoves.lifecycle)
  refine hQ a _ d ⟨hr.inv, hr.past, hd, hclosed.symm ▸ hd, unregistered_of_resumes hr⟩ hmoves rfl ?_
  obtain ⟨more, rfl, -⟩ := hr.history
  exact List.prefix_append _ _

theorem Before.checkPhase (hv : Before k v) (p : Phase) {Q : Sight → ℕ → Prop}
    {E : Sight → Result → Prop}
    (hE : ∀ v' r, Before k v' → r.disclosure = v'.state.history → E v' r)
    (hQ : ∀ v' observed a, Before k v' →
      v'.log = v.log ++ [(.operationObserve p, observed), (.assertCurrent, .current a)] → Q v' a) :
    Does k 0 none Q E (checkPhase p) v := by
  refine acts_bind (hv.ask (.operationObserve p) nofun nofun fun observed v₁ hv₁ hlog₁ => ?_)
  refine acts_bind (acts_bind (acts_state (acts_check (fun _ => ?_) fun _ => hE v₁ _ hv₁ rfl)))
  refine acts_bind (hv₁.ask .assertCurrent nofun nofun fun asserted v₂ hv₂ hlog₂ => ?_)
  refine acts_bind (acts_state (acts_need (fun a ha => ?_) fun _ => hE v₂ _ hv₂ rfl))
  refine hQ v₂ observed a hv₂ ?_
  rw [hlog₂, hlog₁, checkedAt?_eq_some_iff.mp ha, List.append_assoc]
  rfl

/-- A read behind its handoff ends with the disclosure of the state. -/
def Closes (k : Route) (v : Sight) (r : Result) : Prop :=
  (∃ s d₀, Shut k v s d₀) ∧ r.disclosure = v.state.history

theorem Shut.checkPhase (hv : Shut k v s d₀) (p : Phase) {Q : Sight → ℕ → Prop}
    {E : Sight → Result → Prop} (hE : ∀ v' r, Closes k v' r → E v' r)
    (hQ : ∀ v' d observedAt a, Shut k v' v'.state d → (closeOwner d₀).Moves d →
      v.asking 0 none (.operationObserve p) <+: v'.history → v'.log = v.log ++ [(.operationObserve p, .current observedAt),
        (.assertCurrent, .current a)] → Q v' a) :
    Does k 0 none Q E (checkPhase p) v := by
  refine acts_bind (hv.ask (.operationObserve p) nofun nofun
    fun observed v₁ d₁ hv₁ hmoves₁ hlog₁ hasked => ?_)
  refine acts_bind (acts_bind (acts_state (acts_check (fun hcurrent => ?_)
    fun _ => hE v₁ _ ⟨⟨_, d₁, hv₁⟩, rfl⟩)))
  refine acts_bind (hv₁.ask .assertCurrent nofun nofun
    fun asserted v₂ d₂ hv₂ hmoves₂ hlog₂ hasked' => ?_)
  refine acts_bind (acts_state (acts_need (fun a ha => ?_)
    fun _ => hE v₂ _ ⟨⟨_, d₂, hv₂⟩, rfl⟩))
  obtain ⟨observedAt, hobserved⟩ := Option.isSome_iff_exists.mp hcurrent
  refine hQ v₂ d₂ observedAt a hv₂ (hmoves₁.trans ((closeOwner_moves d₁).trans hmoves₂))
    (hasked.trans ((List.prefix_append _ _).trans hasked')) ?_
  rw [hlog₂, hlog₁, checkedAt?_eq_some_iff.mp ha, checkedAt?_eq_some_iff.mp hobserved,
    List.append_assoc]
  rfl

end Asks

section Ends

/-- The end of a read, whose `finally` block ends its owner. -/
def Finishes (k : Route) (v : Sight) (r : Result) : Prop :=
  Ends k 0 none { v with state := v.state.deliver closeOwner } r

theorem Before.finishes (hv : Before k v) {r : Result} (hr : r.disclosure = none) :
    Finishes k v r := by
  rw [Finishes, Ends, deliver_none hv.unmade]
  refine hv.stop Outcome.returned_ne_asked Outcome.returned_ne_asked fun r' hr' => ?_
  rw [← Outcome.returned.inj hr']
  exact hr

/-- The read as it takes up the result of `deliver`. -/
structure Owned (k : Route) (v : Sight) (d : Delivery) : Prop where
  inv : Inv k v.state v.history
  past : ∀ e ∈ v.history, e.state.Moves v.state
  delivery : v.state.delivery = some d
  unregistered : v.state.registered = false

theorem history_close (s : State) : (s.deliver closeOwner).history = s.history := by
  rw [State.history, State.history, State.deliver, Option.map_map]
  rfl

theorem Owned.shut (hv : Owned k v d) :
    Shut k { v with state := v.state.deliver closeOwner } v.state d :=
  ⟨hv.inv, hv.past, hv.delivery, by rw [State.deliver, hv.delivery, Option.map_some],
    hv.unregistered⟩

theorem Shut.finishes (hv : Shut k v s d₀) {r : Result} (hr : r.disclosure = v.state.history) :
    Finishes k v r := by
  have hclosed : closeOwner (closeOwner d₀) = closeOwner d₀ := closeOwner_of_closed rfl rfl
  have hafter : (v.state.deliver closeOwner).delivery = some (closeOwner d₀) := by
    rw [State.deliver, hv.after, Option.map_some, hclosed]
  refine stop_shut hv.inv hv.before hafter (fun _ => Outcome.returned_ne_settled)
    Outcome.returned_ne_asked Outcome.returned_ne_asked (fun r' hr' => ?_) fun hregistered => ?_
  · rw [← Outcome.returned.inj hr', history_close]
    exact hr
  · cases hv.unregistered.symm.trans hregistered

theorem Closes.finishes {r : Result} (hr : Closes k v r) : Finishes k v r := by
  obtain ⟨⟨s, d₀, hv⟩, hreports⟩ := hr
  exact hv.finishes hreports

theorem Owned.finishes (hv : Owned k v d) {r : Result} (hr : r.disclosure = v.state.history) :
    Finishes k v r := by
  refine stop_shut hv.inv hv.delivery hv.shut.after (fun _ => Outcome.returned_ne_settled)
    Outcome.returned_ne_asked Outcome.returned_ne_asked (fun r' hr' => ?_)
    fun hregistered => ?_
  · rw [← Outcome.returned.inj hr', history_close]
    exact hr
  · cases hv.unregistered.symm.trans hregistered

/-- The handles are registered, and the read returns. -/
theorem Shut.registers (hv : Shut k v v.state d) (hpending : d.pending = false)
    (hfailed : d.failed = false) (htakenUp : TakenUp v.history) (hlog : RegisterLog v.log) :
    Finishes k { v with state := v.state.register } (.readResult v.state.history) := by
  have hsame : closeOwner d = d := Option.some.inj (hv.after.symm.trans hv.before)
  have hafter : (v.state.register.deliver closeOwner).delivery = some (closeOwner d) := by
    rw [State.deliver, State.register, hv.before, Option.map_some]
  refine stop_shut hv.inv hv.before hafter (fun _ => Outcome.returned_ne_settled)
    Outcome.returned_ne_asked Outcome.returned_ne_asked (fun r' hr' => ?_) fun _ => ⟨⟨_,
    mem_append_entry.mpr (.inr rfl), rfl, hlog, _, rfl⟩, ?_, closeOwner d, hafter, rfl, hpending, ?_⟩
  · rw [← Outcome.returned.inj hr', history_close]
    rfl
  · obtain ⟨e, he, hrest⟩ := htakenUp
    exact ⟨e, mem_append_entry.mpr (.inl he), hrest⟩
  · rw [hsame]
    exact hfailed

end Ends

section Handoff

/-- The delivery of a handoff. -/
theorem handOver_delivery (s : State) (p : Prepared) (atMs : ℕ) :
    ∃ d, (s.handOver k p atMs).delivery = some d ∧ d.prepared = p ∧
      d.disclosure = ⟨atMs, .notInvoked⟩ ∧
      (d.ownerActive = true ∧ d.lifecycle = .available ∨
        d.ownerActive = false ∧ d.lifecycle = .closed ∧ s.disposed = true) := by
  refine ⟨_, rfl, ?_⟩
  split
  · next hdisposed => exact ⟨rfl, rfl, .inr ⟨rfl, rfl, hdisposed.2⟩⟩
  · exact ⟨rfl, rfl, .inl ⟨rfl, rfl⟩⟩

/-- The handoff of what was prepared. -/
theorem Before.handsOver (hv : Before k v) (p : Prepared) {observed : Reply} {atMs : ℕ}
    (hlog : v.log = [(.preparation, .prepared p), (.operationObserve .hostHandoff, observed),
      (.assertCurrent, .current atMs)]) :
    Inv k (v.state.handOver k p atMs)
      (v.history ++ [⟨0, none, v.log, .asked .deliver, v.state.handOver k p atMs⟩]) := by
  obtain ⟨d, hd, hprepared, hdisclosure, howner⟩ := handOver_delivery (k := k) v.state p atMs
  have hunmade {P : Prop} (hs : v.state.delivery.isSome = true) : P := by
    rw [hv.unmade] at hs
    cases hs
  have hsome : (v.state.handOver k p atMs).delivery.isSome = true := by rw [hd, Option.isSome_some]
  have hnone : d.disclosure.externalCommit = .notInvoked := by rw [hdisclosure]
  have hholds (f : Happening)
      (hf : f ∈ v.history ++ [⟨0, none, v.log, .asked .deliver, v.state.handOver k p atMs⟩]) :
      ¬ Holds f := by
    intro hh
    rcases mem_append_entry.mp hf with hf | rfl
    · exact hunmade (hv.inv.held f hf hh)
    · exact not_holds_read hh
  refine hv.inv.push (fun _ => ⟨fun _ => rfl, fun _ => rfl⟩) (fun _ => rfl) nofun ?_ (fun _ => hsome)
    (fun hh => absurd hh not_holds_read) (fun x hx => ?_) (fun _ hlive => ⟨d, hd, ?_⟩)
    (fun hr => ?_) trivial
  · exact ⟨fun _ => everAsked_append.mpr (.inr rfl), fun _ => hsome⟩
  · obtain rfl := Option.some.inj (hd.symm.trans hx)
    refine ⟨⟨_, mem_append_entry.mpr (.inr rfl), rfl, rfl, observed, ?_⟩,
      fun _ => waits_asking rfl rfl, fun hne => ?_, ⟨fun hne => absurd hnone hne, fun ha => ?_⟩,
      fun hne => absurd hnone hne, fun ⟨f, hf, hh⟩ => absurd hh (hholds f hf), fun ha hne => ?_,
      fun f hf hh => absurd hh (hholds f hf)⟩
    · rw [hprepared, hdisclosure]
      exact hlog
    · rcases howner with ⟨ha, -⟩ | ⟨-, hclosed, -⟩
      · cases ha.symm.trans hne
      · exact hclosed
    · obtain ⟨f, hf, hasked⟩ := ha
      rcases mem_append_entry.mp hf with hmem | rfl
      · exact absurd ⟨hv.inv.sinks f hmem hasked, _, hasked⟩ (hholds f hf)
      · cases hasked
    · rcases howner with ⟨-, havailable⟩ | ⟨hinactive, -⟩
      · exact absurd havailable hne
      · cases ha.symm.trans hinactive
  · rcases howner with ⟨ha, -⟩ | ⟨-, -, hdisposed⟩
    · exact ha
    · cases hdisposed.symm.trans hlive
  · obtain ⟨x, hx, -⟩ := (hv.inv.registered hr).delivery
    exact hunmade (by rw [hx, Option.isSome_some])

/-- The handoff, and what the read finds behind it. -/
theorem Before.deliver (hv : Before k v) (p : Prepared) {observed : Reply} {atMs : ℕ}
    (hlog : v.log = [(.preparation, .prepared p), (.operationObserve .hostHandoff, observed),
      (.assertCurrent, .current atMs)]) {Q : Sight → Reply → Prop} {E : Sight → Result → Prop}
    (hQ : ∀ a v' d, Owned k v' d → v'.log = v.log ++ [(.deliver, a)] → Q v' a) :
    Does k 0 none Q E (Act.ask .deliver) { v with state := v.state.handOver k p atMs } := by
  refine acts_ask (hv.handsOver p hlog) fun a t h' hr => ?_
  obtain ⟨d, hd, -⟩ := hr.always.delivery _ rfl
  exact hQ a _ d ⟨hr.inv, hr.past, hd, unregistered_of_resumes hr⟩ rfl

/-- The read takes up the result of `deliver`. -/
theorem acts_takeUp (hv : Owned k v d) {acknowledged : Reply} {before : List (Query × Reply)}
    (hlog : v.log = before ++ [(.deliver, acknowledged)]) (p : Prepared) :
    Does k 0 none (Finishes k) (Finishes k) (takeUp k p acknowledged) v := by
  refine acts_bind (acts_state (acts_bind (acts_update (.close _) (fun _ => trivial) ?_)))
  have hv₁ := hv.shut
  refine acts_bind (acts_bind (acts_state (acts_check (fun _ => ?_) fun _ => hv₁.finishes rfl)))
  refine acts_bind (acts_state (acts_bind (acts_bind (acts_state (acts_check (fun haccepted => ?_)
    fun _ => hv₁.finishes rfl)))))
  obtain ⟨hrefused, htrue⟩ := haccepted
  refine acts_bind (hv₁.checkPhase .readReturn (fun v' r hr => hr.finishes)
    fun v₂ d₂ observedAt assertedAt hv₂ hmoves₂ hasked hlog₂ => ?_)
  refine acts_bind (acts_bind (acts_state (acts_check (fun _ => ?_) fun _ => hv₂.finishes rfl)))
  refine acts_bind (acts_bind (acts_state (acts_check (fun _ => ?_) fun _ => hv₂.finishes rfl)))
  refine acts_bind (acts_update ⟨fun x hx => ⟨x, hx, .refl x⟩, fun _ => rfl⟩ (fun _ => trivial)
    (acts_bind (acts_state ?_)))
  rw [hv.delivery, hv₁.after, Option.any_some, Option.any_some, Bool.or_eq_false_iff] at hrefused
  have hsame : d₂ = closeOwner d := hmoves₂.settled rfl rfl hrefused.1
  subst hsame
  rw [isTrue_iff.mp htrue] at hlog
  refine hv₂.registers hrefused.1 hrefused.2 ⟨_, hasked.subset (mem_append_entry.mpr (.inr rfl)), rfl,
    rfl, ⟨before, hlog⟩, closeOwner d, hv₁.after, rfl, rfl, hrefused⟩
    ⟨before, observedAt, assertedAt, ?_⟩
  rw [hlog₂, hlog, List.append_assoc]
  rfl

/-- The `try` block of a read. -/
theorem acts_deliverPrepared (hv : Before k v) (hlog : v.log = []) :
    Does k 0 none (Finishes k) (Finishes k) (deliverPrepared k) v := by
  refine acts_bind (hv.ask .preparation nofun nofun fun reply v₁ hv₁ hlog₁ => ?_)
  have hearly (e : Early) : Finishes k v₁ e.result := hv₁.finishes (by cases e <;> rfl)
  cases reply with
  | prepared p =>
    refine acts_bind (acts_return ?_)
    refine acts_bind (hv₁.checkPhase .hostHandoff
      (fun v' r hv' hr => hv'.finishes (hr.trans hv'.history)) fun v₂ observed atMs hv₂ hlog₂ => ?_)
    refine acts_bind (acts_bind (acts_state (acts_check (fun _ => ?_)
      fun _ => hv₂.finishes hv₂.history)))
    refine acts_bind (acts_check (fun _ => ?_) fun _ => hv₂.finishes rfl)
    refine acts_bind (acts_update ⟨fun x hx => ?_, fun hr => hr⟩ (fun _ => trivial) ?_)
    · rw [hv₂.unmade] at hx
      cases hx
    refine acts_bind (hv₂.deliver p (by rw [hlog₂, hlog₁, hlog]; rfl)
      fun acknowledged v₃ d₃ hv₃ hlog₃ => ?_)
    split
    · refine acts_bind (acts_bind (acts_state (acts_check (fun _ => ?_) fun _ => hv₃.finishes rfl)))
      exact acts_bind (acts_state (acts_throw (hv₃.finishes rfl)))
    · exact acts_takeUp hv₃ hlog₃ p
  | early e => exact acts_bind (acts_throw (hearly e))
  | threw => exact acts_bind (acts_throw (hearly .deliveryFailed))
  | value w => exact acts_bind (acts_throw (hearly .deliveryFailed))
  | current n => exact acts_bind (acts_throw (hearly .deliveryFailed))
  | ended n => exact acts_bind (acts_throw (hearly .deliveryFailed))

/-- Every read keeps to the rules. -/
theorem meets_protectedRead (hv : Before k v) (hlog : v.log = []) :
    Meets Query.sync (rules k) 0 none (protectedRead k) v := by
  refine meets_settled (acts_bind (acts_attempt ((acts_deliverPrepared hv hlog).imp
    (fun _ _ hr => ?_) fun _ _ hr => ?_)))
  · exact acts_bind (acts_update (.close _) (fun _ => trivial) hr)
  · exact acts_bind (acts_update (.close _) (fun _ => trivial) hr)

end Handoff

end Kdna.ProtectedRead

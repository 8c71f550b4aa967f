import Kdna.Source.Checks

/-!
# The commits keep the invariant

Where a commit invokes the sink, nothing else has, the delivery is open, and the observations of
its own log allow it; what it returns says what the delivery says.
-/

namespace Kdna.Source

open EventLoop Value Read Execution
open Reentrant (Prog)

variable {k : Route} {config : Config} {id : ℕ} {c : Option Call} {s : State} {h : List Happening}
  {v : Sight} {d : Delivery} {x : Handoff}

/-- A call ends here with the result. -/
def Ends (k : Route) (config : Config) (id : ℕ) (c : Option Call) (v : Sight) (r : Result) : Prop :=
  Inv k config v.state (v.history ++ [⟨id, c, v.log, .returned r, v.state⟩])

theorem meets_settled {x : Stops Result}
    (h : Does k config id c (Ends k config id c) (Ends k config id c) x v) :
    Meets Query.sync (rules k config) id c (settled x) v := by
  refine holds_bind (Holds.imp h fun v r hr => ?_)
  cases r with
  | ok b => exact hr
  | error b => exact hr

/-- A delivery that was handed over goes on to be. -/
theorem State.Moves.handed {t : State} (hst : s.Moves t) (hd : s.delivery = some d)
    (hh : d.handoff.isSome = true) : ∃ d' x, t.delivery = some d' ∧ d'.handoff = some x := by
  obtain ⟨d', hd', hmoves⟩ := hst.delivery d hd
  obtain ⟨x, hx⟩ := Option.isSome_iff_exists.mp hh
  have hrank := hmoves.handoff
  cases hx' : d'.handoff with
  | none =>
    rw [hx, hx', rank, rank] at hrank
    omega
  | some x' => exact ⟨d', x', hd', hx'⟩

/-- A commit has just been called. -/
theorem Inv.freeCommit (hinv : Inv k config s h) (hpast : ∀ e ∈ h, e.state.Moves s) (hid : id ≠ 0)
    (hc : isRevision c = false) : Free k config id c ⟨true, [], h, s⟩ := by
  refine Inv.free (v := ⟨true, [], h, s⟩) hinv hpast (fun _ => List.not_mem_nil)
    (fun hzero => absurd hzero hid) (fun hrevision => ?_) fun hzero => absurd hzero hid
  rw [hc] at hrevision
  cases hrevision

/-- The disclosure of the result is the one of the state. -/
theorem reports_of_disclosure {r : Result} (hc : isRevision c = false)
    (hr : r.disclosure? = some s.history) : Reports c r s := by
  rw [Reports, if_neg (by rw [hc]; exact Bool.false_ne_true)]
  exact .inr hr

section Sink

theorem Delivery.Moves.invoke (hd : d.closed = false) (hx : d.handoff = some x)
    (hnone : x.externalCommit = .notInvoked) (now : ℕ) : d.Moves (d.invoke now) where
  closed hc := by
    rw [hd] at hc
    cases hc
  handoff := by
    rw [Delivery.invoke, hx]
    simp [rank, hnone, ExternalCommit.rank]

theorem Delivery.Moves.conclude (hd : d.closed = false) (b : Bool) (now now' : ℕ) :
    (d.invoke now).Moves ((d.invoke now).conclude b now') where
  closed hc := by
    rw [Delivery.invoke, hd] at hc
    cases hc
  handoff := by
    cases b with
    | false => exact le_rfl
    | true =>
      cases hx : d.handoff with
      | none => simp [Delivery.conclude, Delivery.invoke, hx, rank]
      | some x =>
        simp [Delivery.conclude, Delivery.invoke, hx, rank, Handoff.confirm, ExternalCommit.rank]

/-- The delivery of a state moves on. -/
theorem State.Moves.replace {d' : Delivery} (hd : s.delivery = some d) (hmoves : d.Moves d') :
    s.Moves { s with delivery := some d' } where
  owner := .refl Owner.Moves.refl _
  delivery := by
    intro d₀ hd₀
    obtain rfl := Option.some.inj (hd.symm.trans hd₀)
    exact ⟨d', rfl, hmoves⟩
  context := .refl Context.Moves.refl _
  deadline _ := rfl

/-- An open delivery has not been committed, and the opening waits for `deliver`. -/
theorem Inv.undelivered (hinv : Inv k config s h) (hd : s.delivery = some d)
    (hx : d.handoff = some x) (hopen : d.phase = .opened) (hclosed : d.closed = false) :
    ¬ Asked h .commit ∧ WaitsAt .deliver h := by
  have hfits := hinv.parts.delivery d hd
  refine ⟨fun hasked => ?_, hfits.waits (Option.isSome_iff_exists.mpr ⟨x, hx⟩) hclosed⟩
  have hlt := hinv.invoked.mp hasked
  rw [State.history_of_delivery hd, hx, rank, hfits.opened x hx hopen, ExternalCommit.rank] at hlt
  omega

/-- What a commit finds behind the sink. -/
structure Sunk (k : Route) (config : Config) (id : ℕ) (c : Option Call) (d : Delivery) (now : ℕ)
    (a : Reply) (v : Sight) : Prop where
  delivery : v.state.delivery = some (d.invoke now)
  turned : v.fresh = false
  moves : ∀ n, v.state.Moves
    { v.state with delivery := some ((d.invoke now).conclude a.isTrue n) }
  ends : ∀ n r, r.disclosure? =
      some ({ v.state with delivery := some ((d.invoke now).conclude a.isTrue n) } : State).history →
    Ends k config id c
      { v with state := { v.state with delivery := some ((d.invoke now).conclude a.isTrue n) } } r

/-- The sink. -/
theorem acts_sink {ε : Type} {Q : Sight → Reply → Prop} {E : Sight → ε → Prop} {now : ℕ}
    (hv : Good k config id c v) (hid : id ≠ 0) (hc : isRevision c = false)
    (hd : v.state.delivery = some d) (hx : d.handoff = some x) (hopen : d.phase = .opened)
    (hclosed : d.closed = false)
    (hok : Sinks k config v.history ⟨id, c, v.log, .asked .commit,
      { v.state with delivery := some (d.invoke now) }⟩)
    (hQ : ∀ a v', Sunk k config id c d now a v' → Q v' a) :
    Does k config id c Q E (Act.ask .commit)
      { v with state := { v.state with delivery := some (d.invoke now) } } := by
  refine acts_ask (hv.inv.sink hd hx hopen rfl hid hc hok) fun a t h hr => ?_
  have hdelivery : t.delivery = some (d.invoke now) := (hr.nested rfl).delivery
  refine hQ a _ ⟨hdelivery, ?_, fun n => .replace hdelivery (.conclude hclosed _ now n),
    fun n r hdisclosure => ?_⟩
  · rw [hv.turned, Bool.false_and]
  · have hx' : (d.invoke now).handoff = some { x with externalCommit := .outcomeUnknown now } := by
      rw [Delivery.invoke, hx, Option.map_some]
    exact hr.inv.conclude hdelivery hx' rfl rfl rfl hv.clean hid hc
      (reports_of_disclosure hc hdisclosure)

end Sink

section Ordinary

theorem beginCommit_spec {begun : Delivery} {now : ℕ} (h : Ordinary.beginCommit d now = some begun) :
    ∃ x, d.handoff = some x ∧ d.closed = false ∧ d.phase = .opened ∧ begun = d.invoke now := by
  rw [Ordinary.beginCommit] at h
  split at h
  · cases h
  · next x hx =>
    split at h
    · next hopen =>
      obtain rfl := Option.some.inj h
      exact ⟨x, hx, hopen.1, hopen.2, by rw [Delivery.invoke, hx, Option.map_some]⟩
    · cases h

theorem settleCommit_invoke (d : Delivery) (now now' : ℕ) (b : Bool) :
    Ordinary.settleCommit (d.invoke now) b now' = (d.invoke now).conclude b now' := by
  rw [Ordinary.settleCommit, if_neg (by simp [Delivery.invoke]), Delivery.conclude]

theorem State.deliver_of_delivery (hd : s.delivery = some d) (f : Delivery → Delivery) :
    s.deliver f = { s with delivery := some (f d) } := by rw [State.deliver, hd, Option.map_some]

/-- A condition of a call, which reports the disclosure where it does not hold. -/
theorem acts_demand {p : Prop} [Decidable p] {code : Code} {stage : Stage} {Q : Sight → Unit → Prop}
    {E : Sight → Result → Prop} (hQ : p → Q v ()) (hE : E v (.sourceFailed code stage v.state.history)) :
    Does k config id c Q E (demand p code stage) v :=
  acts_bind (acts_state (acts_check hQ fun _ => hE))

theorem ordinary_commit (hinv : Inv .ordinary config s h) (hpast : ∀ e ∈ h, e.state.Moves s)
    (hid : id ≠ 0) (hc : isRevision c = false) (transport : Bool) :
    Meets Query.sync (rules .ordinary config) id c (Ordinary.commitProtectedSourceTransport transport)
      ⟨true, [], h, s⟩ := by
  have hv := hinv.freeCommit hpast hid hc
  have hends {v' : Sight} (hv' : Free .ordinary config id c v') (code : Code) (stage : Stage) :
      Ends .ordinary config id c v' (.sourceFailed code stage v'.state.history) :=
    hv'.returns (reports_of_disclosure hc rfl)
  refine meets_settled (acts_bind (acts_state (acts_bind (acts_need (fun d hd => ?_) fun hnone => ?_))))
  · refine acts_bind (acts_demand (fun _ => ?_) (hends hv _ _))
    refine acts_bind (acts_demand (fun hhanded => ?_) (hends hv _ _))
    refine acts_bind (acts_demand (fun _ => ?_) (hends hv _ _))
    refine acts_bind (hv.ask (q := .observeScope) ⟨nofun, nofun, fun _ _ => nofun⟩ nofun
      fun reply v₁ hv₁ hlater₁ hlog₁ _ _ => ?_)
    refine acts_bind (acts_demand (fun hreply => ?_) (hends hv₁.free _ _))
    obtain ⟨d₁, x₁, hd₁, hx₁⟩ := hlater₁.moves.handed hd hhanded.2
    have howned : v₁.state.delivery.any Delivery.owned = true := by
      rw [hd₁, Option.any_some]
      exact (hv₁.inv.parts.delivery d₁ hd₁).owned (Option.isSome_iff_exists.mpr ⟨x₁, hx₁⟩)
    refine acts_bind (acts_state (acts_bind (acts_demand (fun hallowed => ?_) (hends hv₁.free _ _))))
    dsimp only
    rw [if_pos howned]
    refine acts_bind (hv₁.free.ask (q := .operationObserve .transportCommit)
      ⟨nofun, nofun, fun hzero => absurd hzero hid⟩ nofun fun current v₂ hv₂ hlater₂ hlog₂ _ _ => ?_)
    refine acts_bind (acts_demand (fun hcurrent => ?_) (hends hv₂.free _ _))
    refine acts_bind (acts_state (acts_bind (acts_need (fun begun hbegun => ?_) fun _ => ?_)))
    · obtain ⟨d₂, hd₂, hbegun⟩ := Option.bind_eq_some_iff.mp hbegun
      obtain ⟨x₂, hx₂, hclosed, hopen, rfl⟩ := beginCommit_spec hbegun
      have hundelivered := hv₂.inv.undelivered hd₂ hx₂ hopen hclosed
      have hnone := (hv₂.inv.parts.delivery d₂ hd₂).opened x₂ hx₂ hopen
      refine acts_bind (acts_setState ⟨.replace hd₂ (.invoke hclosed hx₂ hnone _), rfl⟩
        (fun hfresh => absurd (hv₂.turned.symm.trans hfresh) nofun) ?_)
      refine acts_bind (acts_sink hv₂ hid hc hd₂ hx₂ hopen hclosed ⟨hundelivered.1, hundelivered.2, ?_⟩
        fun committed v₃ hv₃ => ?_)
      · obtain ⟨raw, hraw⟩ := Option.isSome_iff_exists.mp hreply
        refine ⟨raw, ⟨current, ?_, hcurrent⟩, ?_⟩
        · cases reply with
          | value w =>
            obtain rfl := Option.some.inj hraw
            exact hlog₂.trans (by rw [hlog₁]; rfl)
          | _ => cases hraw
        · have hall := hallowed howned
          rw [hraw, Option.any_some] at hall
          exact hall
      · have hstate : (v₃.state.deliver fun d => Ordinary.settleCommit d committed.isTrue v₃.state.now) =
            { v₃.state with
              delivery := some ((d₂.invoke v₂.state.now).conclude committed.isTrue v₃.state.now) } := by
          rw [State.deliver_of_delivery hv₃.delivery, settleCommit_invoke]
        refine acts_bind (acts_update ⟨hstate ▸ hv₃.moves _, rfl⟩
          (fun hfresh => absurd (hv₃.turned.symm.trans hfresh) nofun) ?_)
        rw [hstate]
        exact acts_bind (acts_demand (fun _ => acts_bind (acts_state (hv₃.ends _ _ rfl)))
          (hv₃.ends _ _ rfl))
    · exact hends hv₂.free _ _
  · have hhistory : s.history = none := by rw [State.history, hnone, Option.bind_none]
    exact hv.returns (reports_of_disclosure hc (congrArg some hhistory.symm))

end Ordinary

section Sections

variable {currentMs : ℕ}

/-- A time that a commit recorded stays the latest one before it. -/
theorem Latest.append {more : List Happening} (hl : Latest h id currentMs) :
    Latest (h ++ more) id currentMs := by
  obtain ⟨earlier, f, later, rfl, hrest⟩ := hl
  exact ⟨earlier, f, later ++ more, by rw [List.append_assoc, List.cons_append], hrest⟩

theorem Latest.later {h' : List Happening} (hl : Latest h id currentMs) (hh : h <+: h') :
    Latest h' id currentMs := by
  obtain ⟨more, rfl⟩ := hh
  exact hl.append

/-- The time that a commit has accepted is the latest one where it goes on. -/
theorem Good.latest (hv : Good k config id c v)
    (howner : ∃ o, v.state.owner = some o ∧ o.lastMs = currentMs) :
    Latest (v.asking id c (.operationObserve .transportCommit)) id currentMs := by
  obtain ⟨o, ho, rfl⟩ := howner
  refine ⟨v.history, _, [], rfl, rfl, rfl, ⟨o, ho, rfl⟩, fun g hg owner howner hsome => ?_⟩
  obtain ⟨original, horiginal⟩ := Option.isSome_iff_exists.mp hsome
  obtain ⟨o', ho', hmoves⟩ := (hv.past g hg).owner owner howner
  obtain rfl := Option.some.inj (ho.symm.trans ho')
  exact (hmoves.original original horiginal).2.2.2

theorem commitFailed_disclosure (history : Disclosure) (f : Sections.Failure) :
    (Sections.commitFailed history f).disclosure? = some history := by cases f <;> rfl

/-- The `try` block of a commit. -/
theorem acts_commitSource (hv : Free .sections config id c v) (hlog : v.log = []) (hid : id ≠ 0)
    (hc : isRevision c = false) (transport : Bool) :
    Does .sections config id c (Ends .sections config id c)
      (fun v f => Ends .sections config id c v (Sections.commitFailed v.state.history f))
      (Sections.commitSource config transport) v := by
  have hends {v' : Sight} (hv' : Free .sections config id c v') (f : Sections.Failure) :
      Ends .sections config id c v' (Sections.commitFailed v'.state.history f) :=
    hv'.returns (reports_of_disclosure hc (commitFailed_disclosure _ f))
  refine acts_bind (acts_check (fun _ => ?_) fun _ => hends hv _)
  refine acts_bind (acts_state (acts_bind (acts_need (fun d hd => ?_) fun _ => hends hv _)))
  refine acts_bind (acts_check (fun hhanded => ?_) fun _ => hends hv _)
  refine acts_bind (acts_check (fun _ => ?_) fun _ => hends hv _)
  refine acts_bind (Sections.acts_hostCurrent hv (q := .observeScope)
    ⟨nofun, nofun, fun _ _ => nofun⟩ rfl (fun f => hends hv f) (fun v' f hv' _ => hends hv'.free f)
    fun v₁ raw unchanged hv₁ hlater₁ hlog₁ _ _ => ?_)
  refine Sections.acts_acceptObservation hv₁ (fun f => hends hv₁.free f)
    fun v₂ currentMs hv₂ hlater₂ hlog₂ _ hseen howner => ?_
  refine acts_bind (Sections.acts_operationCurrent hv₂.free (p := .transportCommit)
    ⟨nofun, nofun, fun hzero => absurd hzero hid⟩ (fun f => hends hv₂.free f)
    (fun v' f hv' _ => hends hv'.free f)
    fun v₃ current asserted hv₃ hlater₃ hasked hlog₃ hcurrent hasserted _ _ => ?_)
  refine acts_bind (Sections.acts_checkLocal (fun _ htime => ?_) fun f => hends hv₃.free f)
  refine acts_bind (acts_state (acts_bind (acts_need (fun d₃ hd₃ => ?_) fun _ => hends hv₃.free _)))
  refine acts_bind (acts_check (fun hclosed => ?_) fun _ => hends hv₃.free _)
  refine acts_bind (acts_check (fun hopen => ?_) fun _ => hends hv₃.free _)
  obtain ⟨d', x, hd', hx⟩ := ((hlater₁.trans hlater₂).trans hlater₃).moves.handed hd hhanded.2
  obtain rfl := Option.some.inj (hd₃.symm.trans hd')
  have hundelivered := hv₃.inv.undelivered hd₃ hx hopen hclosed
  have hnone := (hv₃.inv.parts.delivery d₃ hd₃).opened x hx hopen
  have hstate : (v₃.state.deliver fun d => { d with
      phase := .pending
      handoff := d.handoff.map fun h => { h with externalCommit := .outcomeUnknown v₃.state.now } }) =
        { v₃.state with delivery := some (d₃.invoke v₃.state.now) } := State.deliver_of_delivery hd₃ _
  refine acts_bind (acts_update ⟨hstate ▸ .replace hd₃ (.invoke hclosed hx hnone _), rfl⟩
    (fun hfresh => absurd (hv₃.turned.symm.trans hfresh) nofun) ?_)
  rw [hstate]
  refine acts_bind (acts_sink hv₃ hid hc hd₃ hx hopen hclosed ⟨hundelivered.1, hundelivered.2, raw,
    ⟨unchanged, current, asserted, ?_, hcurrent, hasserted⟩, htime, ?_⟩ fun committed v₄ hv₄ => ?_)
  · exact hlog₃.trans (by rw [hlog₂, hlog₁, hlog]; rfl)
  · obtain ⟨owner, ho, hallows⟩ := hseen.moves hlater₃.moves
    exact ⟨owner, currentMs, ho, hallows, (hv₂.latest howner).later hasked⟩
  · have hfresh (hfresh : v₄.fresh = true) : False := absurd (hv₄.turned.symm.trans hfresh) nofun
    have hmoves := hv₄.moves v₄.state.now
    have hends₄ := hv₄.ends v₄.state.now
    dsimp only
    split
    · next hfalse =>
      have hstate : (v₄.state.deliver fun d => { d with phase := .failed }) =
          { v₄.state with
            delivery := some ((d₃.invoke v₃.state.now).conclude committed.isTrue v₄.state.now) } := by
        rw [State.deliver_of_delivery hv₄.delivery, hfalse]
        rfl
      refine acts_bind (acts_update ⟨hstate ▸ hmoves, rfl⟩ (fun hf => (hfresh hf).elim) ?_)
      rw [hstate]
      exact acts_bind (acts_throw (hends₄ _ (commitFailed_disclosure _ _)))
    · next htrue =>
      have hstate : (v₄.state.deliver fun d =>
            { d with
              phase := .committed, handoff := d.handoff.map fun h => h.confirm v₄.state.now }) =
          { v₄.state with
            delivery := some ((d₃.invoke v₃.state.now).conclude committed.isTrue v₄.state.now) } := by
        rw [State.deliver_of_delivery hv₄.delivery, Bool.eq_true_of_not_eq_false htrue]
        rfl
      refine acts_bind (acts_update ⟨hstate ▸ hmoves, rfl⟩ (fun hf => (hfresh hf).elim) ?_)
      rw [hstate]
      exact acts_bind (Sections.acts_checkLocal (fun _ _ => acts_bind (acts_state (hends₄ _ rfl)))
        fun f => hends₄ _ (commitFailed_disclosure _ f))

theorem sections_commit (hinv : Inv .sections config s h) (hpast : ∀ e ∈ h, e.state.Moves s)
    (hid : id ≠ 0) (hc : isRevision c = false) (transport : Bool) :
    Meets Query.sync (rules .sections config) id c
      (Sections.commitProtectedSectionSourceTransport config transport) ⟨true, [], h, s⟩ := by
  have hv := hinv.freeCommit hpast hid hc
  refine meets_settled (acts_bind (acts_state (acts_bind (acts_need (fun d hd => ?_) fun hnone => ?_))))
  · refine acts_bind (acts_attempt ((acts_commitSource hv rfl hid hc transport).imp
      (fun _ _ hr => hr) fun _ _ hf => ?_))
    exact acts_bind (acts_state hf)
  · have hhistory : s.history = none := by rw [State.history, hnone, Option.bind_none]
    exact hv.returns (reports_of_disclosure hc (congrArg some hhistory.symm))

end Sections

end Kdna.Source

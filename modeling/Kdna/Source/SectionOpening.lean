import Kdna.Source.Openings

/-!
# The opening of the section route keeps the invariant

Its delivery is created with the handoff, everything is closed behind `deliver` before the opening
waits again, and the capture is closed last.
-/

namespace Kdna.Source

open EventLoop Value Read Execution

variable {config : Config} {s t : State} {h : List Happening} {v : Sight}

section Closing

/-- Where the token and the context are closed, the opening may stop. -/
structure Closable (config : Config) (s : State) (v : Sight) : Prop where
  inv : Inv .sections config s v.history
  past : ∀ e ∈ v.history, e.state.Moves v.state
  clean : ∀ a, (Query.commit, a) ∉ v.log
  tracks : Tracks 0 v
  turned : v.fresh = false
  delivery : ∀ d, v.state.delivery = some d → ∃ d₀, s.delivery = some d₀ ∧ d.handoff = d₀.handoff ∧
    d.owned = d₀.owned ∧ d.phase = d₀.phase
  history : v.state.history = s.history
  owner : ∀ o, v.state.owner = some o → 0 < v.log.length ∧
    (o.originalExpiresAt.isSome = true → observedAt .sections ≤ v.log.length)
  context : Onward Context.Moves s.context v.state.context
  registered : ∀ c, v.state.context = some c → Asked v.history .deliver

theorem sections_close_moves (s : State) : s.Moves (Sections.State.close s) where
  owner := .refl Owner.Moves.refl _
  delivery := Onward.map fun _ _ => ⟨fun _ => ⟨rfl, rfl⟩, le_rfl⟩
  context := Onward.map fun _ _ => ⟨fun _ => nofun, fun _ => rfl⟩
  deadline _ := rfl

theorem sections_close_history (s : State) : (Sections.State.close s).history = s.history :=
  history_map (f := fun d => { d with closed := true }) (fun _ => rfl) rfl

theorem Closable.free (hv : Closable config s v) :
    Free .sections config 0 none { v with state := Sections.State.close v.state } := by
  have hmoves := sections_close_moves v.state
  have hlength : (trail v.history).length = v.log.length := by
    rw [hv.tracks rfl, List.length_map]
  have hshut : Shut .sections (Sections.State.close v.state) := by
    refine ⟨fun d hd _ => ?_, nofun, fun _ c hc => ?_⟩
    · obtain ⟨d₀, -, rfl⟩ := Option.map_eq_some_iff.mp hd
      rfl
    · obtain ⟨c₀, -, rfl⟩ := Option.map_eq_some_iff.mp hc
      rfl
  refine free_of_parts hv.inv ((sections_close_history _).trans hv.history)
    (hv.context.trans Context.Moves.trans hmoves.context) (fun o x hx => ?_)
    (fun e he => State.Moves.trans _ _ _ (hv.past e he) hmoves) hv.clean hv.tracks nofun
  refine parts_stop rfl hx (hshut.lives _) ?_ (fun d hd => ?_) (fun o ho hx => ?_) fun c hc => ?_
  · rintro (ho | hd)
    · obtain ⟨o, ho⟩ := Option.isSome_iff_exists.mp ho
      exact hlength ▸ (hv.owner o ho).1
    · obtain ⟨d, hd⟩ := Option.isSome_iff_exists.mp hd
      obtain ⟨d₁, hd₁, rfl⟩ := Option.map_eq_some_iff.mp hd
      obtain ⟨d₀, hd₀, -⟩ := hv.delivery d₁ hd₁
      exact Nat.zero_lt_of_lt (hv.inv.parts.delivery d₀ hd₀).made
  · obtain ⟨d₁, hd₁, rfl⟩ := Option.map_eq_some_iff.mp hd
    obtain ⟨d₀, hd₀, hhandoff, howned, hphase⟩ := hv.delivery d₁ hd₁
    have hfits := hv.inv.parts.delivery d₀ hd₀
    have hsome := hv.inv.handed.mpr (hfits.prepared rfl)
    rw [State.history_of_delivery hd₀] at hsome
    refine ⟨fun hh => howned ▸ hfits.owned hsome, fun y hy hopen => ?_, fun hnone => ?_,
      fun _ => hfits.prepared rfl⟩
    · exact hfits.opened y (hhandoff ▸ hy) (hphase ▸ hopen)
    · rw [← hhandoff, show d₁.handoff = none from hnone] at hsome
      cases hsome
  · exact hlength ▸ (hv.owner o ho).2 hx
  · obtain ⟨c₀, hc₀, -⟩ := Option.map_eq_some_iff.mp hc
    exact hv.registered c₀ hc₀

/-- Where the opening ends, with everything closed. -/
def SectionsEnds (config : Config) (v : Sight) : Prop :=
  v.fresh = false ∧ v.state.Moves (Sections.State.finish v.state) ∧
    Free .sections config 0 none { v with state := Sections.State.finish v.state }

theorem Closable.ends (hv : Closable config s v) : SectionsEnds config v := by
  have hown : v.state.Moves (v.state.own fun owner => { owner with closed := true }) :=
    ⟨Onward.map fun _ _ => ⟨fun _ => rfl, fun x hx => ⟨hx, rfl, rfl, le_rfl⟩⟩,
      .refl Delivery.Moves.refl _, .refl Context.Moves.refl _, fun _ => rfl⟩
  refine ⟨hv.turned, State.Moves.trans _ _ _ hown (sections_close_moves _), Closable.free
    (v := { v with state := v.state.own fun owner => { owner with closed := true } })
    { hv with
      past := fun e he => State.Moves.trans _ _ _ (hv.past e he) hown
      owner := fun o ho => ?_ }⟩
  obtain ⟨o₀, ho₀, rfl⟩ := Option.map_eq_some_iff.mp ho
  exact hv.owner o₀ ho₀

/-- Where the invariant holds, the opening may close everything. -/
theorem Good.closable (hv : Good .sections config 0 none v) (howner : t.owner = v.state.owner ∨
    ∀ o, t.owner = some o → 0 < v.log.length ∧
      (o.originalExpiresAt.isSome = true → observedAt .sections ≤ v.log.length))
    (hdelivery : t.delivery = v.state.delivery) (hcontext : t.context = v.state.context)
    (hmoves : v.state.Moves t) : Closable config v.state { v with state := t } where
  inv := hv.inv
  past e he := State.Moves.trans _ _ _ (hv.past e he) hmoves
  clean := hv.clean
  tracks := hv.tracks
  turned := hv.turned
  delivery d hd := ⟨d, hdelivery.symm.trans hd, rfl, rfl, rfl⟩
  history := by rw [State.history, State.history, show t.delivery = _ from hdelivery]
  owner := by
    have hlength : (trail v.history).length = v.log.length := by
      rw [hv.tracks rfl, List.length_map]
    rcases howner with howner | howner
    · intro o ho
      have hfits := hv.inv.parts.owner o (howner.symm.trans ho)
      exact ⟨hlength ▸ Nat.zero_lt_of_lt hfits.made, fun hx => hlength ▸ (hfits.observed hx).le⟩
    · exact howner
  context := hcontext ▸ .refl Context.Moves.refl _
  registered c hc := (hv.inv.parts.context c (hcontext.symm.trans hc)).registered

theorem Good.ends (hv : Good .sections config 0 none v) : SectionsEnds config v :=
  (hv.closable (t := v.state) (.inl rfl) rfl rfl (State.Moves.refl _)).ends

end Closing

section Opening

/-- Every failure of the opening closes everything. -/
abbrev SectionsFails (config : Config) (v : Sight) (_ : Sections.Failure) : Prop :=
  SectionsEnds config v

/-- A local check that holds. -/
theorem acts_checkLocal_of {k : Route} {id : ℕ} {c : Option Call} {stage : Stage}
    {Q : Sight → Unit → Prop} {E : Sight → Sections.Failure → Prop}
    (hopen : v.state.isOpen = true) (htime : v.state.now ≤ v.state.deadline) (hQ : Q v ()) :
    Does k config id c Q E (Sections.checkLocal stage) v :=
  acts_bind (acts_state (acts_bind (acts_check (fun _ => acts_check (fun _ => hQ)
    fun hlate => absurd htime hlate) fun hclosed => absurd hopen hclosed)))

/-- The acceptance of the first observation. -/
theorem acts_acceptInitial (hv : Good .sections config 0 none v)
    (hbefore : ∀ a, (Query.deliver, a) ∉ v.log) (hlog : v.log.length = observedAt .sections)
    {raw : Json} {Q : Sight → Unit → Prop}
    (hQ : ∀ v', Free .sections config 0 none v' → Later v v' → v'.log = v.log →
      v'.state.delivery = v.state.delivery → v'.fresh = false → SectionsEnds config v' → Q v' ()) :
    Does .sections config 0 none Q (SectionsFails config)
      (Sections.acceptObservation config raw true) v := by
  refine acts_bind (acts_state (acts_bind (acts_need (fun owner _ => ?_) fun _ => hv.ends)))
  cases Sections.checkObservation config owner raw true with
  | error f => exact hv.ends
  | ok o =>
    obtain ⟨hfree, hmoves⟩ := hv.authorize hbefore hlog (f := o.record true) fun _ => rfl
    refine acts_update ⟨hmoves, rfl⟩ (fun hfresh => absurd (hv.turned.symm.trans hfresh) nofun) ?_
    have hpos : 0 < v.log.length := by
      rw [hlog]
      decide
    exact hQ _ hfree ⟨hmoves, List.prefix_rfl⟩ rfl rfl hv.turned (hv.closable
      (t := v.state.own (o.record true)) (.inr fun _ _ => ⟨hpos, fun _ => hlog.ge⟩) rfl rfl hmoves).ends

/-- The section opening creates the owner. -/
theorem Good.own (hv : Good .sections config 0 none v) {a : Reply} (hlog : v.log = [(.admission, a)]) :
    v.state.Moves { v.state with owner := some ⟨false, none, none, none, 0⟩ } ∧
    Free .sections config 0 none
      { v with state := { v.state with owner := some ⟨false, none, none, none, 0⟩ } } ∧
    SectionsEnds config
      { v with state := { v.state with owner := some ⟨false, none, none, none, 0⟩ } } := by
  obtain ⟨howner, -⟩ := hv.unmade (by rw [hlog]; rfl)
  have hmoves : v.state.Moves { v.state with owner := some ⟨false, none, none, none, 0⟩ } := by
    refine ⟨howner ▸ .none _, .refl Delivery.Moves.refl _, .refl Context.Moves.refl _,
      fun hsome => ?_⟩
    rw [howner] at hsome
  have hone : 0 < v.log.length := by
    rw [hlog]
    exact Nat.one_pos
  refine ⟨hmoves, hv.renew (fun ha => ?_) hone (fun d hd => .inl hd) (fun o ho hx => ?_) rfl hmoves,
    (hv.closable (t := { v.state with owner := some ⟨false, none, none, none, 0⟩ })
      (.inr fun o ho => ⟨hone, fun hx => ?_⟩) rfl rfl hmoves).ends⟩
  · obtain ⟨r, hr⟩ := hv.asked ha
    simp [hlog] at hr
  · obtain rfl := Option.some.inj ho
    cases hx
  · obtain rfl := Option.some.inj ho
    cases hx

/-- The state in which the section opening hands over. -/
def handingOff (s : State) : State :=
  { s with
    context := some ⟨.available, false⟩
    delivery := some ⟨true, .opened, some ⟨s.now, .notInvoked⟩, false⟩ }

/-- What the section opening finds behind `deliver`. -/
structure Delivered (config : Config) (v : Sight) : Prop where
  inv : Inv .sections config v.state v.history
  past : ∀ e ∈ v.history, e.state.Moves v.state
  clean : ∀ a, (Query.commit, a) ∉ v.log
  tracks : Tracks 0 v
  turned : v.fresh = false

/-- The handoff of the section opening. -/
theorem Good.handOff (hv : Good .sections config 0 none v)
    (hbefore : ∀ a, (Query.deliver, a) ∉ v.log) :
    v.state.Moves (Sections.State.register v.state) ∧
      (Sections.State.register v.state).Moves (handingOff v.state) := by
  obtain ⟨-, hnocontext⟩ := hv.inv.before fun ha => (hv.asked ha).elim hbefore
  have hnodelivery : v.state.delivery = none := by
    by_contra hne
    obtain ⟨d, hd⟩ := Option.ne_none_iff_exists'.mp hne
    exact (hv.asked ((hv.inv.parts.delivery d hd).prepared rfl)).elim hbefore
  refine ⟨⟨.refl Owner.Moves.refl _, hnodelivery ▸ .none _, hnocontext ▸ .none _, fun _ => rfl⟩,
    .refl Owner.Moves.refl _, fun d hd => ⟨_, rfl, fun hc => ?_, ?_⟩, .refl Context.Moves.refl _,
    fun _ => rfl⟩
  · obtain rfl := Option.some.inj hd
    cases hc
  · obtain rfl := Option.some.inj hd
    exact Nat.zero_le _

theorem acts_deliver (hv : Good .sections config 0 none v) (hbefore : ∀ a, (Query.deliver, a) ∉ v.log)
    (hlog : observedAt .sections < v.log.length) {Q : Sight → Reply → Prop}
    {E : Sight → Sections.Failure → Prop} (hQ : ∀ v' r, Delivered config v' → Q v' r) :
    Does .sections config 0 none Q E (Act.ask .deliver) { v with state := handingOff v.state } := by
  obtain ⟨-, hnocontext⟩ := hv.inv.before fun ha => (hv.asked ha).elim hbefore
  have hlength : (trail v.history).length = v.log.length := by
    rw [hv.tracks rfl, List.length_map]
  refine acts_ask (hv.inv.handOff (d := ⟨true, .opened, some ⟨v.state.now, .notInvoked⟩, false⟩) rfl
    rfl rfl rfl (fun ha => (hv.asked ha).elim hbefore) (hlength ▸ hlog) (hnocontext ▸ .none _) rfl rfl
    rfl) fun r t h' hr => hQ _ r ⟨hr.inv, hr.past, fun y hy => ?_, fun _ => ?_, ?_⟩
  · rcases List.mem_append.mp hy with hy | hy
    · exact hv.clean y hy
    · simp at hy
  · rw [trail_extends hr.history, View.asking, trail_stop rfl (x := some .deliver) rfl, hv.tracks rfl,
      List.map_append]
    rfl
  · rw [hv.turned, Bool.false_and]

/-- Behind `deliver` the opening may close everything. -/
theorem Delivered.closable (hv : Delivered config v) (ht : t = v.state ∨ t = Sections.State.close v.state) :
    Closable config v.state { v with state := t } := by
  have hlength : (trail v.history).length = v.log.length := by
    rw [hv.tracks rfl, List.length_map]
  have howner (o : Owner) (ho : v.state.owner = some o) : 0 < v.log.length ∧
      (o.originalExpiresAt.isSome = true → observedAt .sections ≤ v.log.length) :=
    have hfits := hv.inv.parts.owner o ho
    ⟨hlength ▸ Nat.zero_lt_of_lt hfits.made, fun hx => hlength ▸ (hfits.observed hx).le⟩
  rcases ht with rfl | rfl
  · exact ⟨hv.inv, hv.past, hv.clean, hv.tracks, hv.turned, fun d hd => ⟨d, hd, rfl, rfl, rfl⟩, rfl,
      howner, .refl Context.Moves.refl _, fun c hc => (hv.inv.parts.context c hc).registered⟩
  · have hmoves := sections_close_moves v.state
    refine ⟨hv.inv, fun e he => State.Moves.trans _ _ _ (hv.past e he) hmoves, hv.clean, hv.tracks,
      hv.turned, fun d hd => ?_, sections_close_history _, howner, hmoves.context, fun c hc => ?_⟩
    · obtain ⟨d₀, hd₀, rfl⟩ := Option.map_eq_some_iff.mp hd
      exact ⟨d₀, hd₀, rfl, rfl, rfl⟩
    · obtain ⟨c₀, hc₀, -⟩ := Option.map_eq_some_iff.mp hc
      exact (hv.inv.parts.context c₀ hc₀).registered

/-- `deliver` was asked exactly where it is a stop of the opening. -/
theorem Inv.asked_iff {k : Route} (hinv : Inv k config s h) :
    Asked h .deliver ↔ some .deliver ∈ trail h := by
  refine ⟨fun ⟨e, he, hasked⟩ => mem_trail he (hinv.mine e he hasked) (by rw [stop?, hasked]),
    fun hmem => ?_⟩
  obtain ⟨e, he, hstop⟩ := List.mem_filterMap.mp hmem
  refine ⟨e, (List.mem_filter.mp he).1, ?_⟩
  rw [stop?] at hstop
  split at hstop
  · next q hq =>
    obtain rfl := Option.some.inj (Option.some.inj hstop)
    exact hq
  · cases hstop
  · cases hstop

/-- Where the delivery is closed, the history stays while the opening waits. -/
theorem Free.history (hv : Free .sections config 0 none v) {v' : Sight} {q : Query} {a : Reply}
    (hq : Mild .sections 0 none v.state (.asked q)) (hv' : Good .sections config 0 none v')
    (hlater : Later v v') (hlog : v'.log = v.log ++ [(q, a)])
    (hclosed : ∀ d, v.state.delivery = some d → d.closed = true) :
    v'.state.history = v.state.history := by
  cases hd : v.state.delivery with
  | some d =>
    obtain ⟨d', hd', hmoves⟩ := hlater.moves.delivery d hd
    rw [State.history_of_delivery hd, State.history_of_delivery hd',
      (hmoves.closed (hclosed d hd)).2]
  | none =>
    have hinv : Inv .sections config v.state (v.asking 0 none q) := hv.stop _ hq
    have hnone : v.state.history = none := by rw [State.history, hd, Option.bind_none]
    have htrail : trail v'.history = trail (v.asking 0 none q) := by
      rw [hv'.tracks rfl, hlog, View.asking, trail_stop rfl (x := some q) rfl, hv.tracks rfl,
        List.map_append]
      rfl
    rw [hnone, ← Option.not_isSome_iff_eq_none, hv'.inv.handed, hv'.inv.asked_iff, htrail,
      ← hinv.asked_iff, ← hinv.handed, hnone]
    exact Bool.false_ne_true

/-- The close of the capture, and the end of the opening. -/
theorem acts_finish (hv : SectionsEnds config v) {capture : Bool} {r : Result}
    (hr : r.disclosure? = some v.state.history) :
    Does .sections config 0 none (Ends .sections config 0 none) (Ends .sections config 0 none)
      (do
        if capture then Act.check ((← Act.ask .captureClose).returned = true) Result.thrown
        return r : Stops Result) { v with state := Sections.State.finish v.state } := by
  obtain ⟨-, -, hfree⟩ := hv
  have hhistory : (Sections.State.finish v.state).history = v.state.history :=
    sections_close_history _
  dsimp only
  split
  · have hq : Mild .sections 0 none (Sections.State.finish v.state) (.asked .captureClose) :=
      ⟨nofun, nofun, fun _ _ => nofun⟩
    refine acts_bind (hfree.ask hq nofun fun a v' hv' hlater hlog _ _ => ?_)
    have hsame := hfree.history hq hv' hlater hlog fun d hd => by
      obtain ⟨d₀, -, rfl⟩ := Option.map_eq_some_iff.mp hd
      rfl
    refine acts_bind (acts_check (fun _ => ?_) fun _ => hv'.free.returns (.inl rfl))
    exact hv'.free.returns (.inr (hr.trans (by rw [hsame, hhistory])))
  · exact hfree.returns (.inr (hr.trans (by rw [hhistory])))

theorem fromError_disclosure (history : Disclosure) (f : Sections.Failure) :
    (Sections.fromError history f).disclosure? = some history := by cases f <;> rfl

/-- The opening behind `deliver`. -/
theorem acts_behindDeliver (hv : Delivered config v) (r : Reply) :
    Does .sections config 0 none
      (fun v r => SectionsEnds config v ∧ r.disclosure? = some v.state.history) (SectionsFails config)
      (do
        Sections.demand (r.value?.isSome = true) .providerFailed .handedBack
        Act.update Sections.State.close
        Sections.checkLocal .handedBack
        let pending := (← Act.state).delivery.any fun d => d.phase = .pending
        Sections.demand (r.isTrue = true) (if pending then .handoffUnknown else .hostDenied) .handedBack
        Sections.hostCurrent config (.hostObserve .publish) .handedBack false
        Sections.operationCurrent .readReturn .handedBack
        Sections.checkLocal .handedBack
        return .sourceDelivered (← Act.state).history : Sections.Fails Result) v := by
  have hends := (hv.closable (.inr rfl)).ends
  have hfree := (hv.closable (t := v.state) (.inl rfl)).free
  refine acts_bind (acts_check (fun _ => ?_) fun _ => (hv.closable (.inl rfl)).ends)
  refine acts_bind (acts_update ⟨sections_close_moves _, rfl⟩
    (fun hfresh => absurd (hv.turned.symm.trans hfresh) nofun) ?_)
  refine acts_bind (Sections.acts_checkLocal (fun _ _ => ?_) fun _ => hends)
  refine acts_bind (acts_state (acts_bind (acts_check (fun _ => ?_) fun _ => hends)))
  refine acts_bind (Sections.acts_hostCurrent hfree (q := .hostObserve .publish)
    ⟨nofun, nofun, fun _ _ => nofun⟩ rfl (fun _ => hends) (fun v' f hv' _ => hv'.ends)
    fun v₁ raw _ hv₁ _ _ _ _ => ?_)
  refine Sections.acts_acceptObservation hv₁ (fun _ => hv₁.ends) fun v₂ _ hv₂ _ _ _ _ _ => ?_
  refine acts_bind (Sections.acts_operationCurrent hv₂.free (p := .readReturn)
    ⟨nofun, nofun, fun _ => nofun⟩ (fun _ => hv₂.ends) (fun v' f hv' _ => hv'.ends)
    fun v₃ _ _ hv₃ _ _ _ _ _ _ _ => ?_)
  exact acts_bind (Sections.acts_checkLocal (fun _ _ => acts_bind (acts_state ⟨hv₃.ends, rfl⟩))
    fun _ => hv₃.ends)

/-- The capture changes nothing else. -/
theorem Good.capture (hv : Good .sections config 0 none v) (b : Bool) :
    v.state.Moves { v.state with capture := b } ∧
      Good .sections config 0 none { v with state := { v.state with capture := b } } := by
  have hmoves : v.state.Moves { v.state with capture := b } := ⟨.refl Owner.Moves.refl _,
    .refl Delivery.Moves.refl _, .refl Context.Moves.refl _, fun _ => rfl⟩
  exact ⟨hmoves, hv.inv.congr rfl (.refl Context.Moves.refl _) (fun c hc => ⟨c, hc, fun h => h⟩)
    (fun o ho => ⟨o, ho, rfl, rfl⟩), fun e he => State.Moves.trans _ _ _ (hv.past e he) hmoves,
    hv.clean, hv.tracks, hv.alone,
    fun hid => ⟨(hv.shut hid).delivery, (hv.shut hid).owner, (hv.shut hid).context⟩, hv.turned⟩

theorem acts_sectionsSourceOf {a : Admission} {Q : Sight → String → Prop} (hQ : ∀ x, Q v x)
    {E : Sight → Sections.Failure → Prop} (hE : ∀ f, E v f) :
    Does .sections config 0 none Q E (Sections.sourceOf a) v := by
  cases a with
  | source asset bound => exact hQ _
  | _ => exact hE _

/-- The opening of the section route. -/
theorem sections_opening (config : Config) (now : ℕ) :
    Meets Query.sync (rules .sections config) 0 none
      (Sections.withProtectedSectionSourceNode config) ⟨false, [], [], initial now⟩ := by
  have hstart {v : Sight} (hv : v = ⟨false, [], [], initial now⟩ ∨
      v = ⟨false, [], [], { initial now with deadline := now + config.timeoutMs }⟩) :
      Good .sections config 0 none v := by
    rcases hv with rfl | rfl
    · exact ⟨inv_initial _ _ _ _, List.forall_mem_nil _, fun _ => List.not_mem_nil, fun _ => rfl, nofun,
        fun _ => ⟨nofun, fun _ => nofun, nofun⟩, rfl⟩
    · exact ⟨inv_initial _ _ _ _, List.forall_mem_nil _, fun _ => List.not_mem_nil, fun _ => rfl, nofun,
        fun _ => ⟨nofun, fun _ => nofun, nofun⟩, rfl⟩
  refine meets_settled (acts_bind (acts_attempt (Acts.imp (E := SectionsFails config)
    (Q := fun v r => SectionsEnds config v ∧ r.disclosure? = some v.state.history) ?_
    (fun v r hr => acts_bind (acts_state (acts_bind (acts_update ⟨hr.1.2.1, rfl⟩
      (fun hfresh => absurd (hr.1.1.symm.trans hfresh) nofun) (acts_finish hr.1 hr.2)))))
    fun v f hv => acts_bind (acts_state (acts_bind (acts_update ⟨hv.2.1, rfl⟩
      (fun hfresh => absurd (hv.1.symm.trans hfresh) nofun)
      (acts_finish hv (fromError_disclosure _ f))))))))
  refine acts_bind (acts_check (fun _ => ?_) fun _ => (hstart (.inl rfl)).ends)
  refine acts_bind (acts_check (fun _ => ?_) fun _ => (hstart (.inl rfl)).ends)
  refine acts_bind (acts_update ⟨⟨.none _, .none _, .none _, nofun⟩, rfl⟩ nofun ?_)
  refine acts_bind ((hstart (.inr rfl)).free.ask (q := .admission) ⟨nofun, nofun, fun _ _ => nofun⟩ nofun
    fun a v₁ hv₁ _ hlog₁ _ _ => ?_)
  replace hlog₁ : v₁.log = [(.admission, a)] := hlog₁
  obtain ⟨hcapture, hv₁'⟩ := hv₁.capture a.captured
  refine acts_bind (acts_update ⟨hcapture, rfl⟩
    (fun hfresh => absurd (hv₁.turned.symm.trans hfresh) nofun) ?_)
  refine acts_bind (acts_need (fun admitted _ => ?_) fun _ => hv₁'.ends)
  refine acts_bind (acts_sectionsSourceOf (fun asset => ?_) fun _ => hv₁'.ends)
  refine acts_bind (acts_check (fun _ => ?_) fun _ => hv₁'.ends)
  refine acts_bind (acts_state (acts_bind (acts_check (fun _ => ?_) fun _ => hv₁'.ends)))
  obtain ⟨hown, hfree₁, hends₁⟩ := hv₁'.own hlog₁
  refine acts_bind (acts_update ⟨hown, rfl⟩ (fun hfresh => absurd (hv₁.turned.symm.trans hfresh) nofun) ?_)
  refine acts_bind (Sections.acts_hostCurrent hfree₁ (q := .hostObserve .sourceOpening)
    ⟨nofun, nofun, fun _ _ => nofun⟩ rfl (fun _ => hends₁) (fun _ _ hv' _ => hv'.ends)
    fun v₂ raw u hv₂ _ hlog₂ _ _ => ?_)
  replace hlog₂ : v₂.log = [(.admission, a), (.hostObserve .sourceOpening, .value raw),
    (.assertUnchanged, u)] := hlog₂.trans (by rw [hlog₁]; rfl)
  refine acts_acceptInitial hv₂ (by simp [hlog₂]) (by rw [hlog₂]; rfl)
    fun v₃ hv₃ _ hlog₃ _ _ hends₃ => ?_
  refine acts_bind (Sections.acts_operationCurrent hv₃ (p := .hostHandoff)
    ⟨nofun, nofun, fun _ _ => nofun⟩ (fun _ => hends₃) (fun _ _ hv' _ => hv'.ends)
    fun v₄ current asserted hv₄ _ _ hlog₄ _ _ _ _ => ?_)
  rw [hlog₃, hlog₂] at hlog₄
  refine acts_bind (Sections.acts_checkLocal (fun hopen htime => ?_) fun _ => hv₄.ends)
  have hbefore (x : Reply) : (Query.deliver, x) ∉ v₄.log := by simp [hlog₄]
  obtain ⟨hregister, hhandOff⟩ := hv₄.handOff hbefore
  refine acts_bind (acts_update ⟨hregister, rfl⟩
    (fun hfresh => absurd (hv₄.turned.symm.trans hfresh) nofun) ?_)
  refine acts_bind (acts_checkLocal_of hopen htime ?_)
  refine acts_bind (acts_update ⟨hhandOff, rfl⟩
    (fun hfresh => absurd (hv₄.turned.symm.trans hfresh) nofun) ?_)
  refine acts_bind (acts_deliver hv₄ hbefore (by rw [hlog₄]; exact (by decide : 3 < 5))
    fun v₅ r hv₅ => ?_)
  exact acts_behindDeliver hv₅ r

end Opening

end Kdna.Source

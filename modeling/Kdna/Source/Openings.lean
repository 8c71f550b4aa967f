import Kdna.Source.Commits

/-!
# The openings keep the invariant

The opening of each route up to the handoff, behind it and at its end: the owner and the delivery
are created once, `deliver` is asked once, and everything is shut where the opening ends.
-/

namespace Kdna.Source

open EventLoop Value Read Execution

variable {k : Route} {config : Config} {c : Option Call} {s t : State} {h h' : List Happening}
  {e : Happening} {v : Sight}

section Before

theorem inv_initial (k : Route) (config : Config) (now deadline : ℕ) :
    Inv k config ⟨now, deadline, false, none, none, none⟩ [] where
  mine := List.forall_mem_nil _
  handed := ⟨nofun, fun ⟨_, he, _⟩ => absurd he List.not_mem_nil⟩
  parts := ⟨nofun, nofun, nofun⟩
  invoked := ⟨fun ⟨_, he, _⟩ => absurd he List.not_mem_nil, fun hlt => absurd hlt (Nat.not_lt_zero 1)⟩
  confirmed := ⟨fun ⟨_, he, _⟩ => absurd he List.not_mem_nil, fun hlt => absurd hlt (Nat.not_lt_zero 2)⟩
  taken := List.forall_mem_nil _
  single := List.forall_mem_nil _
  last _ _ heq := absurd heq.symm (List.append_ne_nil_of_right_ne_nil _ (List.cons_ne_nil _ _))

theorem mem_trail (he : e ∈ h) (hid : e.id = 0) {x : Option Query} (hx : stop? e = some x) :
    x ∈ trail h :=
  List.mem_filterMap.mpr ⟨e, List.mem_filter.mpr ⟨he, decide_eq_true hid⟩, hx⟩

/-- The opening has asked what its log shows. -/
theorem Good.asked (hv : Good k config 0 c v) (ha : Asked v.history .deliver) :
    ∃ a, (Query.deliver, a) ∈ v.log := by
  obtain ⟨e, he, hasked⟩ := ha
  have hmem := mem_trail he (hv.inv.mine e he hasked) (x := some .deliver) (by rw [stop?, hasked])
  rw [hv.tracks rfl, List.mem_map] at hmem
  obtain ⟨⟨q, a⟩, hqa, hq⟩ := hmem
  obtain rfl := Option.some.inj hq
  exact ⟨a, hqa⟩

/-- Before the handoff nothing is disclosed and there is no context. -/
theorem Inv.before (hinv : Inv k config s h) (hbefore : ¬ Asked h .deliver) :
    s.history = none ∧ s.context = none := by
  refine ⟨Option.not_isSome_iff_eq_none.mp (mt hinv.handed.mp hbefore), ?_⟩
  by_contra hne
  obtain ⟨c, hc⟩ := Option.ne_none_iff_exists'.mp hne
  exact hbefore (hinv.parts.context c hc).registered

/-- Behind the admission there is neither an owner nor a delivery. -/
theorem Good.unmade (hv : Good k config 0 c v) (hlog : v.log.length ≤ 1) :
    v.state.owner = none ∧ v.state.delivery = none := by
  have hlength : (trail v.history).length = v.log.length := by
    rw [hv.tracks rfl, List.length_map]
  constructor
  · by_contra hne
    obtain ⟨o, ho⟩ := Option.ne_none_iff_exists'.mp hne
    have := (hv.inv.parts.owner o ho).made
    omega
  · by_contra hne
    obtain ⟨d, hd⟩ := Option.ne_none_iff_exists'.mp hne
    have := (hv.inv.parts.delivery d hd).made
    omega

/-- Before the handoff the opening creates or authorises the owner. -/
theorem Good.renew (hv : Good k config 0 none v) (hbefore : ¬ Asked v.history .deliver)
    (hlog : 0 < v.log.length) (hdelivery : ∀ d, t.delivery = some d → v.state.delivery = some d ∨
      k = .ordinary ∧ d = ⟨false, .opened, none, false⟩)
    (howner : ∀ o, t.owner = some o → o.originalExpiresAt.isSome = true →
      observedAt k ≤ v.log.length)
    (hcontext : t.context = v.state.context) (hmoves : v.state.Moves t) :
    Free k config 0 none { v with state := t } := by
  obtain ⟨hnone, hnocontext⟩ := hv.inv.before hbefore
  have hlength : (trail v.history).length = v.log.length := by
    rw [hv.tracks rfl, List.length_map]
  have hhandoff (d : Delivery) (hd : t.delivery = some d) : d.handoff = none := by
    rcases hdelivery d hd with hd | ⟨-, rfl⟩
    · rw [← State.history_of_delivery hd, hnone]
    · rfl
  have hhistory : t.history = v.state.history := by
    rw [hnone, State.history]
    cases hd : t.delivery with
    | none => rfl
    | some d => exact hhandoff d hd
  have hshut : Shut k t := by
    refine ⟨fun d hd hh => ?_, fun _ _ _ _ => ?_, fun _ c hc => ?_⟩
    · rw [hhandoff d hd] at hh
      cases hh
    · rw [hcontext, hnocontext, Option.isSome_none]
    · rw [hcontext, hnocontext] at hc
      cases hc
  refine free_of_parts hv.inv hhistory (hcontext ▸ .refl Context.Moves.refl _) (fun o x hx => ?_)
    (fun e he => State.Moves.trans _ _ _ (hv.past e he) hmoves) hv.clean hv.tracks
    (fun hrevision => absurd hrevision Bool.false_ne_true)
  refine parts_stop rfl hx (hshut.lives _) (fun _ => hlength ▸ hlog) (fun d hd => ?_)
    (fun o ho hx => hlength ▸ howner o ho hx) fun c hc => ?_
  · rcases hdelivery d hd with hd | ⟨hk, rfl⟩
    · exact (hv.inv.parts.delivery d hd).sits x
    · refine ⟨fun hsome => ?_, fun y hy => ?_, fun _ => .inl ⟨rfl, rfl⟩, fun hk' => ?_⟩
      · exact absurd hsome Bool.false_ne_true
      · exact absurd hy.symm (Option.some_ne_none y)
      · exact absurd (hk.symm.trans hk') (by decide)
  · rw [hcontext, hnocontext] at hc
    cases hc

end Before

section Ordinary

/-- Every part of the state that the end of the ordinary opening closes moves on. -/
theorem ordinary_finish_moves (s : State) : s.Moves (Ordinary.State.finish s) where
  owner := Onward.map fun o _ => ⟨fun _ => rfl, fun x hx => ⟨hx, rfl, rfl, le_rfl⟩⟩
  delivery := Onward.map fun d _ => ⟨fun _ => ⟨rfl, rfl⟩, le_rfl⟩
  context := by
    refine Onward.map fun c _ => ⟨fun hne => ?_, fun hclosed => ?_⟩
    · simpa only [Ordinary.closeRevisionContext, if_neg hne] using hne
    · simp [Ordinary.closeRevisionContext, hclosed]
  deadline _ := rfl

theorem history_map {f : Delivery → Delivery} (hf : ∀ d, (f d).handoff = d.handoff)
    (ht : t.delivery = s.delivery.map f) : t.history = s.history := by
  rw [State.history, State.history, ht]
  cases s.delivery with
  | none => rfl
  | some d => exact hf d

/-- The ordinary opening ends, from where the invariant holds of the state or of the one before its
delivery was closed. -/
theorem ordinary_ends (hinv : Inv .ordinary config s v.history)
    (hclean : ∀ a, (Query.commit, a) ∉ v.log) (howner : v.state.owner = s.owner)
    (hcontext : v.state.context = s.context)
    (hdelivery : v.state.delivery = s.delivery ∨
      v.state.delivery = s.delivery.map Ordinary.closeSourceDelivery) {r : Result}
    (hr : r.disclosure? = some v.state.history) :
    Ends .ordinary config 0 none { v with state := Ordinary.State.finish v.state } r := by
  have hhistory : v.state.history = s.history := by
    rcases hdelivery with hd | hd
    · exact history_map (f := id) (fun _ => rfl) (hd.trans Option.map_id_apply.symm)
    · exact history_map (f := Ordinary.closeSourceDelivery) (fun _ => rfl) hd
  have hfinish : (Ordinary.State.finish v.state).history = v.state.history :=
    history_map (f := Ordinary.closeSourceDelivery) (fun _ => rfl) rfl
  have hclosed (d : Delivery) (hd : (Ordinary.State.finish v.state).delivery = some d) :
      ∃ d₀, s.delivery = some d₀ ∧ d.handoff = d₀.handoff ∧ d.owned = d₀.owned ∧ d.closed = true ∧
        d.phase ≠ .opened := by
    have hphase (d : Delivery) : (Ordinary.closeSourceDelivery d).phase ≠ .opened := by
      rw [Ordinary.closeSourceDelivery]
      split <;> simp [*]
    obtain ⟨d₁, hd₁, rfl⟩ := Option.map_eq_some_iff.mp hd
    rcases hdelivery with hd' | hd'
    · exact ⟨d₁, hd'.symm.trans hd₁, rfl, rfl, rfl, hphase _⟩
    · obtain ⟨d₂, hd₂, rfl⟩ := Option.map_eq_some_iff.mp (hd'.symm.trans hd₁)
      exact ⟨d₂, hd₂, rfl, rfl, rfl, hphase _⟩
  have howners (o : Owner) (ho : (Ordinary.State.finish v.state).owner = some o) :
      ∃ o₀, s.owner = some o₀ ∧ o.closed = true ∧ o.originalExpiresAt = o₀.originalExpiresAt := by
    obtain ⟨o₀, ho₀, rfl⟩ := Option.map_eq_some_iff.mp ho
    exact ⟨o₀, howner.symm.trans ho₀, rfl, rfl⟩
  have hmoves := (ordinary_finish_moves v.state).context
  have hlives (h : List Happening) : Lives .ordinary (Ordinary.State.finish v.state) h := by
    refine ⟨fun d hd _ hc => ?_, fun _ o ho hc => ?_, nofun⟩
    · obtain ⟨-, -, -, -, hc', -⟩ := hclosed d hd
      rw [hc'] at hc
      cases hc
    · obtain ⟨-, -, hc', -⟩ := howners o ho
      rw [hc'] at hc
      cases hc
  refine hinv.enter (hfinish.trans hhistory) (hcontext ▸ hmoves) ?_ ⟨nofun, nofun, hclean⟩
    (fun ht => absurd ht.1 Bool.false_ne_true) (entryOk_returned rfl (.inl (.inr (hr.trans (by rw [hfinish])))))
  refine parts_stop rfl (x := none) rfl (hlives _) ?_ (fun d hd => ?_) (fun o ho hx => ?_)
    fun c hc => ?_
  · rintro (ho | hd)
    · obtain ⟨o, ho⟩ := Option.isSome_iff_exists.mp ho
      obtain ⟨o₀, ho₀, -⟩ := howners o ho
      have := (hinv.parts.owner o₀ ho₀).made
      omega
    · obtain ⟨d, hd⟩ := Option.isSome_iff_exists.mp hd
      obtain ⟨d₀, hd₀, -⟩ := hclosed d hd
      have := (hinv.parts.delivery d₀ hd₀).made
      omega
  · obtain ⟨d₀, hd₀, hhandoff, howned, -, hphase⟩ := hclosed d hd
    exact ⟨fun hh => howned ▸ (hinv.parts.delivery d₀ hd₀).owned (hhandoff ▸ hh),
      fun _ _ hopen => absurd hopen hphase, fun _ => .inr (.inr rfl), nofun⟩
  · obtain ⟨o₀, ho₀, -, horiginal⟩ := howners o ho
    exact ((hinv.parts.owner o₀ ho₀).observed (horiginal ▸ hx)).le
  · obtain ⟨c₀, hc₀, -⟩ := Option.map_eq_some_iff.mp hc
    exact (hinv.parts.context c₀ (hcontext.symm.trans hc₀)).registered

/-- How the ordinary opening ends with a result. -/
def OrdinaryEnds (config : Config) (v : Sight) (r : Result) : Prop :=
  v.fresh = false ∧
    Ends .ordinary config 0 none { v with state := Ordinary.State.finish v.state } r

/-- How the ordinary opening ends with a failure. -/
def OrdinaryFails (config : Config) (v : Sight) (e : Option Result) : Prop :=
  OrdinaryEnds config v (Ordinary.outcome (.error e))

section Admission

variable {Q : Sight → Unit → Prop} {E : Sight → Option Result → Prop}

theorem acts_before {p : Prop} [Decidable p] {code : Code} {stage : Stage} (hQ : p → Q v ())
    (hE : ∀ code stage, E v (some (.sourceFailed code stage none))) :
    Does k config 0 c Q E (Ordinary.before p code stage) v := acts_check hQ fun _ => hE _ _

theorem acts_inTime {stage : Stage} (hQ : Q v ())
    (hE : ∀ code stage, E v (some (.sourceFailed code stage none))) :
    Does k config 0 c Q E (Ordinary.inTime stage) v :=
  acts_bind (acts_state (acts_before (fun _ => hQ) hE))

theorem acts_sourceOf {admitted : Admission} {Q : Sight → String × Bool → Prop} (hQ : ∀ x, Q v x)
    (hE : ∀ r, r.disclosure? = some none → E v (some r)) :
    Does k config 0 c Q E (Ordinary.sourceOf admitted) v := by
  cases admitted with
  | source asset bound => exact hQ _
  | _ => exact hE _ rfl

end Admission

/-- Before the handoff, a failure that discloses nothing ends the ordinary opening. -/
theorem Good.failsBefore (hv : Good .ordinary config 0 none v)
    (hbefore : ∀ a, (Query.deliver, a) ∉ v.log) {r : Result} (hr : r.disclosure? = some none) :
    OrdinaryEnds config v r := by
  have hnone := (hv.inv.before fun ha => (hv.asked ha).elim hbefore).1
  exact ⟨hv.turned, ordinary_ends hv.inv hv.clean rfl rfl (.inl rfl) (hr.trans (by rw [hnone]))⟩

/-- The owner has not had an observation before. -/
theorem Good.unobserved (hv : Good k config 0 c v) (hlog : v.log.length ≤ observedAt k) {o : Owner}
    (ho : v.state.owner = some o) : o.originalExpiresAt = none := by
  by_contra hne
  have hlt := (hv.inv.parts.owner o ho).observed (Option.isSome_iff_ne_none.mpr hne)
  rw [hv.tracks rfl, List.length_map] at hlt
  omega

/-- The owner has its first observation. -/
theorem Good.authorize (hv : Good k config 0 none v) (hbefore : ∀ a, (Query.deliver, a) ∉ v.log)
    (hlog : v.log.length = observedAt k) {f : Owner → Owner} (hf : ∀ o, (f o).closed = o.closed) :
    Free k config 0 none { v with state := v.state.own f } ∧ v.state.Moves (v.state.own f) := by
  have hmoves : v.state.Moves (v.state.own f) := by
    refine ⟨Onward.map fun o ho => ⟨fun hc => (hf o).trans hc, fun x hx => ?_⟩,
      .refl Delivery.Moves.refl _, .refl Context.Moves.refl _, fun _ => rfl⟩
    rw [hv.unobserved hlog.le ho] at hx
    cases hx
  have hpos : 0 < observedAt k := by cases k <;> decide
  refine ⟨hv.renew (fun ha => (hv.asked ha).elim hbefore) (hlog ▸ hpos) (fun d hd => .inl hd)
    (fun _ _ _ => hlog.ge) rfl hmoves, hmoves⟩

/-- The ordinary opening creates the owner and the delivery. -/
theorem Good.create (hv : Good .ordinary config 0 none v) {a : Reply} (hlog : v.log = [(.admission, a)]) :
    Free .ordinary config 0 none { v with state := { v.state with
      delivery := some ⟨false, .opened, none, false⟩
      owner := some ⟨false, none, none, none, 0⟩ } } ∧
    v.state.Moves { v.state with
      delivery := some ⟨false, .opened, none, false⟩
      owner := some ⟨false, none, none, none, 0⟩ } := by
  obtain ⟨howner, hdelivery⟩ := hv.unmade (by rw [hlog]; rfl)
  have hmoves : v.state.Moves { v.state with
      delivery := some ⟨false, .opened, none, false⟩
      owner := some ⟨false, none, none, none, 0⟩ } := by
    refine ⟨howner ▸ .none _, hdelivery ▸ .none _, .refl Context.Moves.refl _, fun hsome => ?_⟩
    rw [howner] at hsome
  refine ⟨hv.renew (fun ha => ?_) (by rw [hlog]; exact Nat.one_pos) (fun d hd => ?_)
    (fun o ho hx => ?_) rfl hmoves, hmoves⟩
  · obtain ⟨r, hr⟩ := hv.asked ha
    simp [hlog] at hr
  · exact .inr ⟨rfl, (Option.some.inj hd).symm⟩
  · obtain rfl := Option.some.inj ho
    cases hx

/-- The first observation of the ordinary opening. -/
theorem acts_authorize {w : Sight} (hw : Free .ordinary config 0 none w) {a : Reply}
    (hlog : w.log = [(.admission, a)]) {Q : Sight → Unit → Prop}
    (hQ : ∀ v' b, Free .ordinary config 0 none v' → Later w v' → v'.fresh = false →
      v'.log = [(.admission, a), (.hostObserve .sourceOpening, b)] → Q v' ()) :
    Does .ordinary config 0 none Q (OrdinaryFails config) (Ordinary.authorize config) w := by
  refine acts_bind (hw.ask (q := .hostObserve .sourceOpening) ⟨nofun, nofun, fun _ _ => nofun⟩ nofun
    fun b v hv hlater hlog' _ _ => ?_)
  rw [hlog, List.singleton_append] at hlog'
  have hbefore (x : Reply) : (Query.deliver, x) ∉ v.log := by simp [hlog']
  have hfails (code : Code) (stage : Stage) :
      OrdinaryFails config v (some (.sourceFailed code stage none)) := hv.failsBefore hbefore rfl
  refine acts_bind (acts_need (fun observation _ => ?_) fun _ => hfails _ _)
  refine acts_bind (acts_inTime ?_ hfails)
  refine acts_bind (acts_before (fun _ => ?_) hfails)
  refine acts_bind (acts_before (fun _ => ?_) hfails)
  refine acts_bind (acts_before (fun _ => ?_) hfails)
  refine acts_bind (acts_need (fun currentMs _ => ?_) fun _ => hfails _ _)
  refine acts_bind (acts_need (fun expiresAtMs _ => ?_) fun _ => hfails _ _)
  refine acts_bind (acts_before (fun _ => ?_) hfails)
  obtain ⟨hfree, hmoves⟩ := hv.authorize hbefore (by rw [hlog']; rfl)
    (f := Ordinary.authorized observation currentMs expiresAtMs) fun _ => rfl
  exact acts_update ⟨hmoves, rfl⟩ (fun hfresh => absurd (hv.turned.symm.trans hfresh) nofun)
    (hQ _ b hfree (hlater.trans ⟨hmoves, List.prefix_rfl⟩) hv.turned hlog')

theorem asked_of_extends {q : Query} {id : ℕ} (hext : Extends id (h ++ [e]) h')
    (he : e.outcome = .asked q) : Asked h' q := by
  obtain ⟨more, rfl, -⟩ := hext
  exact ⟨e, List.mem_append_left _ (List.mem_append_right _ (List.mem_singleton_self e)), he⟩

/-- What the ordinary opening finds behind `deliver`. -/
structure Handed (config : Config) (v : Sight) : Prop where
  inv : Inv .ordinary config v.state v.history
  past : ∀ e ∈ v.history, e.state.Moves v.state
  clean : ∀ a, (Query.commit, a) ∉ v.log
  turned : v.fresh = false
  asked : Asked v.history .deliver

/-- The handoff of the ordinary opening. -/
theorem acts_handOff (hv : Good .ordinary config 0 none v) {a b x : Reply}
    (hlog : v.log = [(.admission, a), (.hostObserve .sourceOpening, b), (.operationObserve .hostHandoff, x)])
    {d : Delivery} (hd : v.state.delivery = some d) :
    v.state.Moves (Ordinary.State.handOff v.state) ∧
      ∀ (Q : Sight → Reply → Prop) (E : Sight → Option Result → Prop),
        (∀ v' r, Handed config v' → Q v' r) → Does .ordinary config 0 none Q E (Act.ask .deliver)
          { v with state := Ordinary.State.handOff v.state } := by
  have hunasked : ¬ Asked v.history .deliver := by
    intro ha
    obtain ⟨r, hr⟩ := hv.asked ha
    simp [hlog] at hr
  obtain ⟨hnone, hnocontext⟩ := hv.inv.before hunasked
  have hhandoff : d.handoff = none := by rw [← State.history_of_delivery hd, hnone]
  have hplain := (hv.inv.parts.delivery d hd).plain hhandoff
  have hopen : d.phase = .opened ∧ d.closed = false := by
    refine hplain.resolve_right ?_
    rw [hv.tracks rfl, hlog]
    simp
  have hdelivery : (Ordinary.State.handOff v.state).delivery =
      some { d with owned := true, handoff := some ⟨v.state.now, .notInvoked⟩ } := by
    rw [Ordinary.State.handOff, hd, Option.map_some, Ordinary.recordHandoff, hhandoff]
  have hmoves : v.state.Moves (Ordinary.State.handOff v.state) := by
    refine ⟨.refl Owner.Moves.refl _, fun d' hd' => ?_, hnocontext ▸ .none _, fun _ => rfl⟩
    obtain rfl := Option.some.inj (hd.symm.trans hd')
    refine ⟨_, hdelivery, fun hc => absurd (hopen.2.symm.trans hc) nofun, ?_⟩
    rw [hhandoff]
    exact Nat.zero_le _
  refine ⟨hmoves, fun Q E hQ => acts_ask ?_ fun r t h' hr => hQ _ r ⟨hr.inv, hr.past, fun y hy => ?_, ?_, ?_⟩⟩
  · refine hv.inv.handOff (d := _) hdelivery rfl rfl rfl hunasked ?_ (hnocontext ▸ .none _) rfl rfl rfl
    rw [hv.tracks rfl, hlog]
    exact Nat.lt_succ_self 2
  · rcases List.mem_append.mp hy with hy | hy
    · exact hv.clean y hy
    · simp at hy
  · rw [hv.turned, Bool.false_and]
  · exact asked_of_extends hr.history rfl

/-- Behind `deliver` the ordinary opening reports what was handed over. -/
theorem Handed.ends (hv : Handed config v) {t : State} (ht : t = v.state ∨
    t = v.state.deliver Ordinary.closeSourceDelivery) {r : Result}
    (hr : r.disclosure? = some t.history) : OrdinaryEnds config { v with state := t } r := by
  refine ⟨hv.turned, ordinary_ends (v := { v with state := t }) hv.inv hv.clean ?_ ?_ ?_ hr⟩
  · rcases ht with rfl | rfl <;> rfl
  · rcases ht with rfl | rfl <;> rfl
  · rcases ht with rfl | rfl
    · exact .inl rfl
    · exact .inr rfl

/-- A condition of the opening behind the handoff. -/
theorem acts_behind {p : Prop} [Decidable p] {code : Code} {Q : Sight → Unit → Prop}
    {E : Sight → Option Result → Prop} (hQ : p → Q v ())
    (hE : ∀ r, r.disclosure? = some v.state.history → E v (some r)) :
    Does k config 0 c Q E (Ordinary.behind p code) v :=
  acts_bind (acts_state (acts_check hQ fun _ => hE _ rfl))

/-- The ordinary opening behind `deliver`. -/
theorem acts_readReturn (hv : Handed config v) {Q : Sight → Reply → Prop}
    {E : Sight → Option Result → Prop} (hQ : ∀ v' r, Handed config v' → Q v' r) :
    Does .ordinary config 0 none Q E (Act.ask (.operationObserve .readReturn))
      { v with state := v.state.deliver Ordinary.closeSourceDelivery } := by
  have hhistory : (v.state.deliver Ordinary.closeSourceDelivery).history = v.state.history :=
    history_map (f := Ordinary.closeSourceDelivery) (fun _ => rfl) rfl
  refine acts_ask (hv.inv.enter hhistory (.refl Context.Moves.refl _) ?_
    ⟨by simp, by simp, hv.clean⟩ (fun ht => absurd ht.1 Bool.false_ne_true)
    (entryOk_asked rfl (by decide))) fun r t h' hr => hQ _ r
      ⟨hr.inv, hr.past, fun y hy => ?_, ?_, ?_⟩
  · refine parts_stop rfl (x := some (.operationObserve .readReturn)) rfl
      ⟨fun d hd _ hc => ?_, fun _ _ _ _ _ => .inr (waitsAt_asking rfl rfl),
        fun hk => absurd hk (by decide)⟩ ?_ (fun d hd => ?_)
      (fun o ho hx => ((hv.inv.parts.owner o ho).observed hx).le)
      fun c hc => (hv.inv.parts.context c hc).registered
    · obtain ⟨d₀, -, rfl⟩ := Option.map_eq_some_iff.mp hd
      cases hc
    · intro _
      obtain ⟨e, he, hasked⟩ := hv.asked
      exact List.length_pos_of_mem (mem_trail he (hv.inv.mine e he hasked)
        (x := some .deliver) (by rw [stop?, hasked]))
    · obtain ⟨d₀, hd₀, rfl⟩ := Option.map_eq_some_iff.mp hd
      refine ⟨(hv.inv.parts.delivery d₀ hd₀).owned, fun _ _ hopen => ?_, fun hnone => ?_,
        fun hk => absurd hk (by decide)⟩
      · rw [Ordinary.closeSourceDelivery] at hopen
        split at hopen
        · cases hopen
        · next hne => exact absurd hopen hne
      · have hsome := hv.inv.handed.mpr hv.asked
        rw [State.history_of_delivery hd₀, show d₀.handoff = none from hnone] at hsome
        cases hsome
  · rcases List.mem_append.mp hy with hy | hy
    · exact hv.clean y hy
    · simp at hy
  · rw [hv.turned, Bool.false_and]
  · obtain ⟨more, hmore, -⟩ := hr.history
    obtain ⟨e, he, hasked⟩ := hv.asked
    exact ⟨e, hmore ▸ List.mem_append_left _ (List.mem_append_left _ he), hasked⟩

/-- The ordinary opening. -/
theorem ordinary_opening (config : Config) (now : ℕ) :
    Meets Query.sync (rules .ordinary config) 0 none (Ordinary.withProtectedSourceNode config)
      ⟨false, [], [], initial now⟩ := by
  have hinv := inv_initial .ordinary config now (now + config.timeoutMs)
  have hstart {v : Sight} (hv : v = ⟨false, [], [], initial now⟩ ∨
      v = ⟨false, [], [], { initial now with deadline := now + config.timeoutMs }⟩) :
      Free .ordinary config 0 none v := by
    rcases hv with rfl | rfl
    · exact Inv.free (v := ⟨false, [], [], _⟩) (inv_initial _ _ _ _) (List.forall_mem_nil _)
        (fun _ => List.not_mem_nil) (fun _ => rfl) nofun fun _ => ⟨nofun, fun _ => nofun, nofun⟩
    · exact Inv.free (v := ⟨false, [], [], _⟩) hinv (List.forall_mem_nil _)
        (fun _ => List.not_mem_nil) (fun _ => rfl) nofun fun _ => ⟨nofun, fun _ => nofun, nofun⟩
  refine meets_settled (acts_bind (acts_check (fun _ => ?_) fun _ =>
    (hstart (.inl rfl)).returns (.inr rfl)))
  refine acts_bind (acts_check (fun _ => ?_) fun _ => (hstart (.inl rfl)).returns (.inr rfl))
  refine acts_bind (acts_update ⟨⟨.none _, .none _, .none _, nofun⟩, rfl⟩ nofun ?_)
  refine acts_bind (acts_attempt (Acts.imp (Q := OrdinaryEnds config) (E := OrdinaryFails config) ?_
    (fun v r hr => acts_bind (acts_update ⟨ordinary_finish_moves _, rfl⟩
      (fun hfresh => absurd (hr.1.symm.trans hfresh) nofun) hr.2))
    fun v e he => acts_bind (acts_update ⟨ordinary_finish_moves _, rfl⟩
      (fun hfresh => absurd (he.1.symm.trans hfresh) nofun) he.2)))
  refine acts_bind ((hstart (.inr rfl)).ask (q := .admission) ⟨nofun, nofun, fun _ _ => nofun⟩ nofun
    fun a v hv _ hlog _ _ => ?_)
  replace hlog : v.log = [(.admission, a)] := hlog
  have hbefore (x : Reply) : (Query.deliver, x) ∉ v.log := by simp [hlog]
  have hfails (code : Code) (stage : Stage) :
      OrdinaryFails config v (some (.sourceFailed code stage none)) := hv.failsBefore hbefore rfl
  refine acts_bind (acts_need (fun admitted _ => ?_) fun _ => hv.failsBefore hbefore rfl)
  refine acts_bind (acts_inTime ?_ hfails)
  refine acts_bind (acts_sourceOf (fun x => ?_) fun r hr => hv.failsBefore hbefore hr)
  refine acts_bind (acts_before (fun _ => ?_) hfails)
  refine acts_bind (acts_before (fun _ => ?_) hfails)
  obtain ⟨hfree, hmoves⟩ := hv.create hlog
  refine acts_bind (acts_update ⟨hmoves, rfl⟩ (fun hfresh => absurd (hv.turned.symm.trans hfresh) nofun) ?_)
  refine acts_bind (acts_authorize hfree hlog fun v₁ b hv₁ hlater₁ hfresh₁ hlog₁ => ?_)
  refine acts_bind (hv₁.ask (q := .operationObserve .hostHandoff) ⟨nofun, nofun, fun _ _ => nofun⟩
    nofun fun x v₂ hv₂ hlater₂ hlog₂ _ _ => ?_)
  rw [hlog₁] at hlog₂
  refine acts_bind (acts_before (fun _ => ?_) fun _ _ => hv₂.failsBefore (by simp [hlog₂]) rfl)
  obtain ⟨d, hd, -⟩ := (hlater₁.trans hlater₂).moves.delivery _ rfl
  obtain ⟨hmoves₂, hdeliver⟩ := acts_handOff hv₂ hlog₂ hd
  refine acts_bind (acts_update ⟨hmoves₂, rfl⟩
    (fun hfresh => absurd (hv₂.turned.symm.trans hfresh) nofun) ?_)
  refine acts_bind (hdeliver _ _ fun v₃ r hv₃ => ?_)
  have hclose : v₃.state.Moves (v₃.state.deliver Ordinary.closeSourceDelivery) :=
    ⟨.refl Owner.Moves.refl _, Onward.map fun d _ => ⟨fun _ => ⟨rfl, rfl⟩, le_rfl⟩,
      .refl Context.Moves.refl _, fun _ => rfl⟩
  refine acts_bind (acts_state (acts_bind (acts_update ⟨hclose, rfl⟩
    (fun hfresh => absurd (hv₃.turned.symm.trans hfresh) nofun) ?_)))
  refine acts_bind (acts_behind (fun _ => ?_) fun r hr => hv₃.ends (.inr rfl) hr)
  refine acts_bind (acts_behind (fun _ => ?_) fun r hr => hv₃.ends (.inr rfl) hr)
  refine acts_bind (acts_readReturn hv₃ fun v₄ r hv₄ => ?_)
  refine acts_bind (acts_behind (fun _ => ?_) fun r hr => hv₄.ends (.inl rfl) hr)
  refine acts_bind (acts_state (acts_bind (acts_behind (fun _ => ?_)
    fun r hr => hv₄.ends (.inl rfl) hr)))
  exact hv₄.ends (.inl rfl) rfl

end Ordinary

end Kdna.Source

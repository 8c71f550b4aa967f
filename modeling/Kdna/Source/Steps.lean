import Kdna.Source.Invariant

/-!
# The steps of the calls

Where a call may stop, what it finds when it goes on, and what the checks that the calls share
establish: the local ones, the observation of the Host and the one of the operation.
-/

namespace Kdna.Source

open EventLoop Value Read Execution

abbrev Sight := View (Option Call) State Query Reply Result

section Stops

variable (k : Route) (config : Config) (id : ℕ) (c : Option Call)

/-- What the opening leaves behind wherever it waits neither for `deliver` nor, on the ordinary
route, for its own last observation. -/
structure Shut (s : State) : Prop where
  delivery : ∀ d, s.delivery = some d → d.handoff.isSome = true → d.closed = true
  owner : k = .ordinary → ∀ o, s.owner = some o → o.closed = false → s.context.isSome = false
  context : k = .sections → ∀ c, s.context = some c → c.phase = .closed

/-- What the clauses of the parts about where the opening waits come to. -/
structure Lives (s : State) (h : List Happening) : Prop where
  delivery : ∀ d, s.delivery = some d → d.handoff.isSome = true → d.closed = false →
    WaitsAt .deliver h
  owner : k = .ordinary → ∀ o, s.owner = some o → o.closed = false → s.context.isSome = true →
    WaitsAt .deliver h ∨ WaitsAt (.operationObserve .readReturn) h
  context : k = .sections → ∀ c, s.context = some c → c.phase ≠ .closed → WaitsAt .deliver h

/-- What is asked of a delivery where the opening stops. -/
structure Delivery.Sits (h : List Happening) (x : Option Query) (d : Delivery) : Prop where
  owned : d.handoff.isSome = true → d.owned = true
  opened : ∀ y, d.handoff = some y → d.phase = .opened → y.externalCommit = .notInvoked
  plain : d.handoff = none → d.phase = .opened ∧ d.closed = false ∨ none ∈ trail h ∨ x = none
  prepared : k = .sections → Asked h .deliver

/-- A stop that is neither the handoff nor the sink nor, on the ordinary route, the last
observation of the opening. -/
def Mild (s : State) : Outcome Query Reply Result → Prop
  | .asked q => q ≠ .deliver ∧ q ≠ .commit ∧
    (id = 0 → k = .ordinary → q ≠ .operationObserve .readReturn)
  | .settled _ => False
  | .returned r => Reports c r s

/-- The log of the opening is what it has asked. -/
def Tracks (v : Sight) : Prop := id = 0 → trail v.history = v.log.map fun x => some x.1

/-- A call that may stop here. -/
structure Free (v : Sight) : Prop where
  stop : ∀ o, Mild k id c v.state o →
    Inv k config v.state (v.history ++ [⟨id, c, v.log, o, v.state⟩])
  past : ∀ e ∈ v.history, e.state.Moves v.state
  clean : ∀ a, (Query.commit, a) ∉ v.log
  tracks : Tracks id v

/-- A call that goes on behind an await. -/
structure Good (v : Sight) : Prop where
  inv : Inv k config v.state v.history
  past : ∀ e ∈ v.history, e.state.Moves v.state
  clean : ∀ a, (Query.commit, a) ∉ v.log
  tracks : Tracks id v
  alone : isRevision c = true → (∃ x, v.state.context = some x ∧ x.phase ≠ .available) ∧
    ∀ e ∈ v.history, TakesContext e → e.id = id
  shut : id = 0 → Shut k v.state
  turned : v.fresh = false

/-- A view that comes after another one. -/
structure Later (v v' : Sight) : Prop where
  moves : v.state.Moves v'.state
  history : v.history <+: v'.history

/-- The owner has had the observation. -/
def Seen (raw : Json) (currentMs : ℕ) (s : State) : Prop :=
  ∃ owner, s.owner = some owner ∧ Allows k config owner raw currentMs

end Stops

variable {k : Route} {config : Config} {id : ℕ} {c : Option Call} {s t : State}
  {h h' : List Happening} {e : Happening} {v v' v'' : Sight}

section Views

theorem Later.refl (v : Sight) : Later v v := ⟨State.Moves.refl _, List.prefix_rfl⟩

theorem Later.trans (h : Later v v') (h' : Later v' v'') : Later v v'' :=
  ⟨State.Moves.trans _ _ _ h.moves h'.moves, h.history.trans h'.history⟩

theorem Seen.moves {raw : Json} {currentMs : ℕ} (hs : Seen k config raw currentMs s)
    (hst : s.Moves t) : Seen k config raw currentMs t := by
  obtain ⟨o, ho, value, original, hchecks, horiginal, hscope, hasset, hallowed, hrevoked, hcontext,
    hepoch, hrest⟩ := hs
  obtain ⟨o', ho', hmoves⟩ := hst.owner o ho
  obtain ⟨horiginal', hcontext', hepoch', -⟩ := hmoves.original original horiginal
  exact ⟨o', ho', value, original, hchecks, horiginal', hscope, hasset, hallowed, hrevoked,
    hcontext' ▸ hcontext, hepoch' ▸ hepoch, hrest⟩

theorem Shut.lives (hs : Shut k s) (h : List Happening) : Lives k s h := by
  refine ⟨fun d hd hh hc => ?_, fun hk o ho hc hx => ?_, fun hk c hc hne => ?_⟩
  · rw [hs.delivery d hd hh] at hc
    cases hc
  · rw [hs.owner hk o ho hc] at hx
    cases hx
  · exact absurd (hs.context hk c hc) hne

/-- The parts where the opening stops. -/
theorem parts_stop (hid : e.id = 0) {x : Option Query} (hx : stop? e = some x)
    (hlives : Lives k s (h ++ [e]))
    (hmade : s.owner.isSome = true ∨ s.delivery.isSome = true → 0 < (trail h).length)
    (hdelivery : ∀ d, s.delivery = some d → d.Sits k h x)
    (howner : ∀ o, s.owner = some o → o.originalExpiresAt.isSome = true →
      observedAt k ≤ (trail h).length)
    (hcontext : ∀ c, s.context = some c → Asked h .deliver) : Parts k s (h ++ [e]) := by
  have htrail := trail_stop (h := h) hid hx
  have hlength : (trail (h ++ [e])).length = (trail h).length + 1 := by
    rw [htrail, List.length_append, List.length_singleton]
  refine ⟨fun d hd => ?_, fun o ho => ?_, fun c hc => ?_⟩
  · have hsits := hdelivery d hd
    have hmade := hmade (.inr (Option.isSome_iff_exists.mpr ⟨d, hd⟩))
    refine ⟨hlives.delivery d hd, hsits.owned, hsits.opened, fun hnone => ?_, by omega,
      fun hk => Asked.append.mpr (.inl (hsits.prepared hk))⟩
    rw [htrail, List.mem_append, List.mem_singleton]
    exact (hsits.plain hnone).imp_right (Or.imp_right Eq.symm)
  · have hmade := hmade (.inl (Option.isSome_iff_exists.mpr ⟨o, ho⟩))
    refine ⟨by omega, fun hx => ?_, fun hk => hlives.owner hk o ho⟩
    have := howner o ho hx
    omega
  · exact ⟨Asked.append.mpr (.inl (hcontext c hc)), fun hk => hlives.context hk c hc⟩

theorem Delivery.Fits.sits {d : Delivery} (hd : d.Fits k h) (x : Option Query) : d.Sits k h x :=
  ⟨hd.owned, hd.opened, fun hnone => (hd.plain hnone).imp_right .inl, hd.prepared⟩

/-- The opening keeps the parts where it stops. -/
theorem Parts.stop (hs : Parts k s h) (hid : e.id = 0) {x : Option Query} (hx : stop? e = some x)
    (hlives : Lives k s (h ++ [e])) : Parts k s (h ++ [e]) := by
  refine parts_stop hid hx hlives ?_ (fun d hd => (hs.delivery d hd).sits x)
    (fun o ho hx => ((hs.owner o ho).observed hx).le) fun c hc => (hs.context c hc).registered
  rintro (ho | hd)
  · obtain ⟨o, ho⟩ := Option.isSome_iff_exists.mp ho
    have := (hs.owner o ho).made
    omega
  · obtain ⟨d, hd⟩ := Option.isSome_iff_exists.mp hd
    have := (hs.delivery d hd).made
    omega

/-- Where the opening waits elsewhere, everything is shut. -/
theorem Inv.shut (hinv : Inv k config s h) {l : List (Option Query)} {q : Query}
    (htrail : trail h = l ++ [some q]) (hdeliver : q ≠ .deliver)
    (hreturn : k = .ordinary → q ≠ .operationObserve .readReturn) : Shut k s := by
  have hwaits {q' : Query} (hne : q ≠ q') : ¬ WaitsAt q' h := by
    intro hw
    obtain ⟨ys, hys⟩ := hw.trail
    obtain ⟨-, hlast⟩ := List.append_inj' (htrail.symm.trans hys) rfl
    exact hne (Option.some.inj (List.singleton_inj.mp hlast))
  refine ⟨fun d hd hh => ?_, fun hk o ho hc => ?_, fun hk c hc => ?_⟩
  · by_contra hclosed
    exact hwaits hdeliver ((hinv.parts.delivery d hd).waits hh (Bool.eq_false_iff.mpr hclosed))
  · by_contra hsome
    rcases (hinv.parts.owner o ho).live hk hc (Bool.eq_true_of_not_eq_false hsome) with hw | hw
    · exact hwaits hdeliver hw
    · exact hwaits (hreturn hk) hw
  · by_contra hne
    exact hwaits hdeliver ((hinv.parts.context c hc).live hk hne)

/-- An entry at which the sink is not asked and nothing returns. -/
theorem entryOk_asked {q : Query} (he : e.outcome = .asked q) (hne : q ≠ .commit) :
    EntryOk k config h e := by
  rw [EntryOk, he]
  cases q with
  | commit => exact absurd rfl hne
  | _ => trivial

theorem entryOk_returned {r : Result} (he : e.outcome = .returned r)
    (hok : Returns k config h e r) : EntryOk k config h e := by
  rw [EntryOk, he]
  exact hok

/-- A call may stop where the parts of its state are as they should be. -/
theorem free_of_parts (hinv : Inv k config s v.history) (hhistory : v.state.history = s.history)
    (hcontext : Onward Context.Moves s.context v.state.context)
    (hparts : ∀ o x, stop? ⟨id, c, v.log, o, v.state⟩ = some x →
      Parts k v.state (v.history ++ [⟨id, c, v.log, o, v.state⟩]))
    (hpast : ∀ e ∈ v.history, e.state.Moves v.state) (hclean : ∀ a, (Query.commit, a) ∉ v.log)
    (htracks : Tracks id v) (halone : isRevision c = true → (∃ x, v.state.context = some x ∧
      x.phase ≠ .available) ∧ ∀ e ∈ v.history, TakesContext e → e.id = id) :
    Free k config id c v := by
  have halone' (o : Outcome Query Reply Result) :
      Alone v.state v.history ⟨id, c, v.log, o, v.state⟩ := fun ht => halone ht.1
  refine ⟨fun o ho => ?_, hpast, hclean, htracks⟩
  have henter := hinv.enter (e := ⟨id, c, v.log, o, v.state⟩) hhistory hcontext
  cases o with
  | asked q =>
    obtain ⟨hdeliver, hcommit, -⟩ := ho
    exact henter (hparts _ _ rfl) ⟨by simp [hdeliver], by simp [hcommit], hclean⟩ (halone' _)
      (entryOk_asked rfl hcommit)
  | settled a => exact ho.elim
  | returned r =>
    exact henter (hparts _ _ rfl) ⟨nofun, nofun, hclean⟩ (halone' _)
      (entryOk_returned rfl (.inl ho))

/-- A call may stop where the invariant holds. -/
theorem Inv.free (hinv : Inv k config v.state v.history)
    (hpast : ∀ e ∈ v.history, e.state.Moves v.state) (hclean : ∀ a, (Query.commit, a) ∉ v.log)
    (htracks : Tracks id v) (halone : isRevision c = true → (∃ x, v.state.context = some x ∧
      x.phase ≠ .available) ∧ ∀ e ∈ v.history, TakesContext e → e.id = id)
    (hshut : id = 0 → Shut k v.state) : Free k config id c v := by
  refine free_of_parts hinv rfl (.refl Context.Moves.refl _) (fun o x hx => ?_) hpast hclean htracks
    halone
  by_cases hid : id = 0
  · exact hinv.parts.stop hid hx ((hshut hid).lives _)
  · exact hinv.parts.append (.inl hid)

/-- A call behind an await may stop. -/
theorem Good.free (hv : Good k config id c v) : Free k config id c v :=
  hv.inv.free hv.past hv.clean hv.tracks hv.alone hv.shut

/-- What a call that stopped mildly finds when it goes on. -/
theorem Free.resumes (hv : Free k config id c v) {q : Query} (hq : Mild k id c v.state (.asked q))
    (hsync : q.sync = true → v.fresh = false) {a : Reply} {t : State}
    {h : List Happening} (hr : Resumes Query.sync (rules k config) id q v.state (v.asking id c q) t h) :
    Good k config id c ⟨v.fresh && q.sync, v.log ++ [(q, a)], h, t⟩ := by
  obtain ⟨hdeliver, hcommit, hreturn⟩ := hq
  have hmem : (⟨id, c, v.log, .asked q, v.state⟩ : Happening) ∈ h := by
    obtain ⟨more, rfl, -⟩ := hr.history
    exact List.mem_append_left _ (List.mem_append_right _ (List.mem_singleton_self _))
  have htracks : Tracks id ⟨v.fresh && q.sync, v.log ++ [(q, a)], h, t⟩ := by
    intro hzero
    subst hzero
    rw [trail_extends hr.history, View.asking, trail_stop rfl (x := some q) rfl, hv.tracks rfl,
      List.map_append]
    rfl
  refine ⟨hr.inv, hr.past, ?_, htracks, fun hc => ?_, fun hzero => ?_, ?_⟩
  · intro b hb
    rcases List.mem_append.mp hb with hb | hb
    · exact hv.clean b hb
    · exact hcommit (Prod.mk.inj (List.mem_singleton.mp hb)).1.symm
  · have ht : TakesContext ⟨id, c, v.log, .asked q, v.state⟩ := ⟨hc, .inl ⟨q, rfl⟩⟩
    exact ⟨hr.inv.taken _ hmem ht, fun e he hte => hr.inv.single e he _ hmem hte ht⟩
  · refine hr.inv.shut (l := v.log.map fun x => some x.1) (q := q) ?_ hdeliver (hreturn hzero)
    rw [htracks hzero, List.map_append]
    rfl
  · cases hsync' : q.sync with
    | false => exact Bool.and_false _
    | true => rw [hsync hsync', Bool.false_and]

/-- A mild question. -/
theorem Free.ask (hv : Free k config id c v) {q : Query} (hq : Mild k id c v.state (.asked q))
    (hsync : q.sync = true → v.fresh = false) {ε : Type} {Q : Sight → Reply → Prop}
    {E : Sight → ε → Prop}
    (h : ∀ a v', Good k config id c v' → Later v v' → v'.log = v.log ++ [(q, a)] →
      v.asking id c q <+: v'.history → (q.sync = true → v.state.Nested v'.state) → Q v' a) :
    Acts Query.sync (rules k config) id c Q E (Act.ask q) v := by
  refine acts_ask (hv.stop _ hq) fun a t h' hr => ?_
  have hprefix : v.asking id c q <+: h' := by
    obtain ⟨more, rfl, -⟩ := hr.history
    exact List.prefix_append _ _
  exact h a _ (hv.resumes hq hsync hr) ⟨hr.always, (List.prefix_append _ _).trans hprefix⟩ rfl
    hprefix hr.nested

/-- A call may return what the state says. -/
theorem Free.returns (hv : Free k config id c v) {r : Result} (hr : Reports c r v.state) :
    Inv k config v.state (v.history ++ [⟨id, c, v.log, .returned r, v.state⟩]) := hv.stop _ hr

end Views

end Kdna.Source

import Kdna.Source.Guarantees

/-!
# The invariant of a source opening

What keeps the invariant: a change of the owner or the time, an entry that neither hands over nor
invokes the sink, the handoff, and the sink with what follows it.
-/

namespace Kdna.Source

open EventLoop Value Read Execution

variable {k : Route} {config : Config} {s t : State} {h h' : List Happening} {e : Happening}

section Histories

theorem Asked.append {q : Query} : Asked (h ++ [e]) q ↔ Asked h q ∨ e.outcome = .asked q := by
  simp only [Asked, List.mem_append, List.mem_singleton, or_and_right, exists_or, exists_eq_left]

theorem Confirmed.append : Confirmed (h ++ [e]) ↔ Confirmed h ∨
    (∃ r, e.outcome = .returned r) ∧ ∃ a, (Query.commit, a) ∈ e.log ∧ a.isTrue = true := by
  simp only [Confirmed, List.mem_append, List.mem_singleton, or_and_right, exists_or, exists_eq_left]

/-- An entry of another call, or one of a settlement, leaves the opening where it waits. -/
theorem WaitsAt.append {q : Query} (hw : WaitsAt q h) (he : e.id ≠ 0 ∨ ∃ a, e.outcome = .settled a) :
    WaitsAt q (h ++ [e]) := by
  obtain ⟨pre, f, hid, hf, hext⟩ := hw
  refine ⟨pre, f, hid, hf, hext.trans ⟨[e], rfl, fun e' he' hid' => ?_⟩⟩
  obtain rfl := List.mem_singleton.mp he'
  exact he.resolve_left fun hne => hne hid'

theorem waitsAt_asking {q : Query} (hid : e.id = 0) (he : e.outcome = .asked q) :
    WaitsAt q (h ++ [e]) := ⟨h, e, hid, he, Extends.refl _⟩

theorem trail_append (h h' : List Happening) : trail (h ++ h') = trail h ++ trail h' := by
  rw [trail, List.filter_append, List.filterMap_append, ← trail, ← trail]

/-- An entry of another call, or one of a settlement, is no stop of the opening. -/
theorem trail_other (he : e.id ≠ 0 ∨ ∃ a, e.outcome = .settled a) : trail (h ++ [e]) = trail h := by
  have hnil : trail [e] = [] := by
    rcases he with hid | ⟨a, ha⟩
    · simp [trail, hid]
    · by_cases hid : e.id = 0
      · simp [trail, hid, stop?, ha]
      · simp [trail, hid]
  rw [trail_append, hnil, List.append_nil]

/-- A stop of the opening. -/
theorem trail_stop (hid : e.id = 0) {x : Option Query} (hx : stop? e = some x) :
    trail (h ++ [e]) = trail h ++ [x] := by
  rw [trail_append]
  simp [trail, hid, hx]

theorem trail_extends (hext : Extends 0 h h') : trail h' = trail h := by
  obtain ⟨more, rfl, hmore⟩ := hext
  induction more using List.reverseRecOn with
  | nil => rw [List.append_nil]
  | append_singleton more e ih =>
    have he : e.id ≠ 0 ∨ ∃ a, e.outcome = .settled a := by
      by_cases hid : e.id = 0
      · exact .inr (hmore e (List.mem_append_right _ (List.mem_singleton_self e)) hid)
      · exact .inl hid
    rw [← List.append_assoc, trail_other he]
    exact ih fun e' he' => hmore e' (List.mem_append_left _ he')

/-- Where the opening waits is its last stop. -/
theorem WaitsAt.trail {q : Query} (hw : WaitsAt q h) : ∃ xs, trail h = xs ++ [some q] := by
  obtain ⟨pre, e, hid, he, hext⟩ := hw
  have hstop : stop? e = some (some q) := by rw [stop?, he]
  exact ⟨Source.trail pre, (trail_extends hext).trans (trail_stop hid hstop)⟩

end Histories

section States

/-- The context of a state that keeps to the order stays taken. -/
theorem Onward.taken {x y : Option Context} (hxy : Onward Context.Moves x y)
    (hx : ∃ c, x = some c ∧ c.phase ≠ .available) : ∃ c, y = some c ∧ c.phase ≠ .available := by
  obtain ⟨c, hc, hne⟩ := hx
  obtain ⟨c', hc', hmoves⟩ := hxy c hc
  exact ⟨c', hc', hmoves.taken hne⟩

theorem State.history_of_delivery {d : Delivery} (hd : s.delivery = some d) :
    s.history = d.handoff := by rw [State.history, hd, Option.bind_some]

/-- A disclosure only moves on. -/
theorem State.Moves.history (hst : s.Moves t) : rank s.history ≤ rank t.history := by
  cases hd : s.delivery with
  | none =>
    rw [State.history, hd]
    exact Nat.zero_le _
  | some d =>
    obtain ⟨d', hd', hmoves⟩ := hst.delivery d hd
    rw [State.history_of_delivery hd, State.history_of_delivery hd']
    exact hmoves.handoff

end States

section Changes

/-- An entry of another call, or one of a settlement, leaves the parts as they are. -/
theorem Parts.append (hs : Parts k s h) (he : e.id ≠ 0 ∨ ∃ a, e.outcome = .settled a) :
    Parts k s (h ++ [e]) where
  delivery d hd :=
    have hfits := hs.delivery d hd
    { waits := fun hh hc => (hfits.waits hh hc).append he
      owned := hfits.owned
      opened := hfits.opened
      plain := fun hnone => (trail_other he).symm ▸ hfits.plain hnone
      made := (trail_other he).symm ▸ hfits.made
      prepared := fun hk => Asked.append.mpr (.inl (hfits.prepared hk)) }
  owner o ho :=
    have hfits := hs.owner o ho
    { made := (trail_other he).symm ▸ hfits.made
      observed := fun hx => (trail_other he).symm ▸ hfits.observed hx
      live := fun hk hc hx => (hfits.live hk hc hx).imp (·.append he) (·.append he) }
  context c hc :=
    have hfits := hs.context c hc
    { registered := Asked.append.mpr (.inl hfits.registered)
      live := fun hk hne => (hfits.live hk hne).append he }

/-- The invariant reads the delivery, and of the owner and the context what is named here. -/
theorem Inv.congr (hinv : Inv k config s h) (hdelivery : t.delivery = s.delivery)
    (hcontext : Onward Context.Moves s.context t.context)
    (hclosed : ∀ c, t.context = some c → ∃ c', s.context = some c' ∧
      (c.phase ≠ .closed → c'.phase ≠ .closed))
    (howner : ∀ o, t.owner = some o → ∃ o', s.owner = some o' ∧ o'.closed = o.closed ∧
      o'.originalExpiresAt = o.originalExpiresAt) :
    Inv k config t h := by
  have hhistory : t.history = s.history := by rw [State.history, State.history, hdelivery]
  refine ⟨hinv.mine, hhistory ▸ hinv.handed, ⟨hdelivery ▸ hinv.parts.delivery, fun o ho => ?_,
    fun c hc => ?_⟩, hhistory ▸ hinv.invoked, hhistory ▸ hinv.confirmed,
    fun e he ht => hcontext.taken (hinv.taken e he ht), hinv.single, hinv.last⟩
  · obtain ⟨o', ho', heq, heq'⟩ := howner o ho
    have hfits := hinv.parts.owner o' ho'
    refine ⟨hfits.made, heq' ▸ hfits.observed, fun hk hc hx => ?_⟩
    obtain ⟨c, hc'⟩ := Option.isSome_iff_exists.mp hx
    obtain ⟨c', hc', -⟩ := hclosed c hc'
    exact hfits.live hk (heq.trans hc) (Option.isSome_iff_exists.mpr ⟨c', hc'⟩)
  · obtain ⟨c', hc', himp⟩ := hclosed c hc
    have hfits := hinv.parts.context c' hc'
    exact ⟨hfits.registered, fun hk hne => hfits.live hk (himp hne)⟩

/-- The times of the owner move. -/
theorem Inv.own (hinv : Inv k config s h) {f : Owner → Owner} (hf : ∀ o, (f o).closed = o.closed)
    (hf' : ∀ o, (f o).originalExpiresAt = o.originalExpiresAt) : Inv k config (s.own f) h :=
  hinv.congr rfl (.refl Context.Moves.refl _) (fun c hc => ⟨c, hc, id⟩) fun _ ho =>
    let ⟨o', ho', heq⟩ := Option.map_eq_some_iff.mp ho
    ⟨o', ho', heq ▸ (hf o').symm, heq ▸ (hf' o').symm⟩

/-- A context that is available is reserved. -/
theorem Inv.reserve (hinv : Inv k config s h) {c : Context} (hc : s.context = some c)
    (havailable : c.phase = .available) :
    Inv k config (s.revise fun c => { c with phase := .reserved }) h := by
  have ht : (s.revise fun c => { c with phase := .reserved }).context =
      some { c with phase := .reserved } := by rw [State.revise, hc, Option.map_some]
  refine hinv.congr rfl ?_ (fun c' hc' => ⟨c, hc, fun _ => by simp [havailable]⟩)
    fun o ho => ⟨o, ho, rfl, rfl⟩
  intro c' hc'
  obtain rfl := Option.some.inj (hc.symm.trans hc')
  exact ⟨_, ht, nofun, fun hclosed => by simp [havailable] at hclosed⟩

end Changes

section Entries

/-- The last clause of the invariant behind one more entry. -/
theorem last_append (hok : EntryOk k config h e) (pre : List Happening) (e' : Happening)
    (heq : h ++ [e] = pre ++ [e']) : EntryOk k config pre e' := by
  obtain ⟨rfl, hlast⟩ := List.append_inj' heq rfl
  exact (List.singleton_inj.mp hlast) ▸ hok

/-- The entry takes the context only where it is taken and by nobody else. -/
def Alone (t : State) (h : List Happening) (e : Happening) : Prop :=
  TakesContext e → (∃ c, t.context = some c ∧ c.phase ≠ .available) ∧
    ∀ f ∈ h, TakesContext f → f.id = e.id

/-- One more entry. -/
theorem Inv.push (hinv : Inv k config s h) (hmine : e.outcome = .asked .deliver → e.id = 0)
    (hhanded : t.history.isSome = true ↔ Asked (h ++ [e]) .deliver)
    (hparts : Parts k t (h ++ [e])) (hinvoked : Asked (h ++ [e]) .commit ↔ 1 < rank t.history)
    (hconfirmed : Confirmed (h ++ [e]) ↔ 2 < rank t.history)
    (hcontext : Onward Context.Moves s.context t.context) (halone : Alone t h e)
    (hok : EntryOk k config h e) : Inv k config t (h ++ [e]) := by
  refine ⟨fun f hf hd => ?_, hhanded, hparts, hinvoked, hconfirmed, fun f hf ht => ?_,
    fun f hf f' hf' ht ht' => ?_, last_append hok⟩
  · rcases List.mem_append.mp hf with hf | hf
    · exact hinv.mine f hf hd
    · obtain rfl := List.mem_singleton.mp hf
      exact hmine hd
  · rcases List.mem_append.mp hf with hf | hf
    · exact hcontext.taken (hinv.taken f hf ht)
    · obtain rfl := List.mem_singleton.mp hf
      exact (halone ht).1
  · rcases List.mem_append.mp hf with hf | hf
    · rcases List.mem_append.mp hf' with hf' | hf'
      · exact hinv.single f hf f' hf' ht ht'
      · have heq := List.mem_singleton.mp hf'
        rw [heq] at ht' ⊢
        exact (halone ht').2 f hf ht
    · have heq := List.mem_singleton.mp hf
      rw [heq] at ht ⊢
      rcases List.mem_append.mp hf' with hf' | hf'
      · exact ((halone ht).2 f' hf' ht').symm
      · rw [List.mem_singleton.mp hf']

/-- An entry that neither hands over nor invokes the sink nor comes from it. -/
structure Quiet (e : Happening) : Prop where
  deliver : e.outcome ≠ .asked .deliver
  commit : e.outcome ≠ .asked .commit
  clean : ∀ a, (Query.commit, a) ∉ e.log

/-- A quiet entry. -/
theorem Inv.enter (hinv : Inv k config s h) (hhistory : t.history = s.history)
    (hcontext : Onward Context.Moves s.context t.context) (hparts : Parts k t (h ++ [e]))
    (hq : Quiet e) (halone : Alone t h e) (hok : EntryOk k config h e) :
    Inv k config t (h ++ [e]) := by
  refine hinv.push (fun hd => absurd hd hq.deliver) ?_ hparts ?_ ?_ hcontext halone hok
  · rw [Asked.append, or_iff_left hq.deliver, hhistory]
    exact hinv.handed
  · rw [Asked.append, or_iff_left hq.commit, hhistory]
    exact hinv.invoked
  · rw [Confirmed.append, or_iff_left, hhistory]
    · exact hinv.confirmed
    · rintro ⟨-, a, ha, -⟩
      exact hq.clean a ha

/-- A settlement. -/
theorem Inv.settled (hinv : Inv k config s h) (he : ∃ a, e.outcome = .settled a) :
    Inv k config s (h ++ [e]) := by
  have hparts := hinv.parts.append (.inr he)
  obtain ⟨a, ha⟩ := he
  have hne (q : Query) : e.outcome ≠ .asked q := by simp [ha]
  refine hinv.push (fun hd => absurd hd (hne _)) ?_ hparts ?_ ?_ (.refl Context.Moves.refl _) ?_ ?_
  · rw [Asked.append, or_iff_left (hne _)]
    exact hinv.handed
  · rw [Asked.append, or_iff_left (hne _)]
    exact hinv.invoked
  · rw [Confirmed.append, or_iff_left]
    · exact hinv.confirmed
    · rintro ⟨⟨r, hr⟩, -⟩
      simp [ha] at hr
  · rintro ⟨-, ⟨q, hq⟩ | ⟨r, hr, -⟩⟩
    · exact absurd hq (hne q)
    · simp [ha] at hr
  · simp [EntryOk, ha]

theorem lawful_rules (k : Route) (config : Config) : Lawful (rules k config) where
  refl := State.Moves.refl
  trans := State.Moves.trans
  turn_refl s := ⟨State.Moves.refl s, rfl⟩
  turn_trans _ _ _ h h' := ⟨State.Moves.trans _ _ _ h.1 h'.1, h'.2.trans h.2⟩
  always_of_turn _ _ h := h.1
  nested_refl := State.Nested.refl
  nested_trans := State.Nested.trans
  settled _ _ _ _ _ a hinv := Inv.settled hinv ⟨a, rfl⟩

end Entries

section Sink

variable {d : Delivery} {x : Handoff}

/-- The sink is about to be invoked. -/
def Delivery.invoke (d : Delivery) (now : ℕ) : Delivery :=
  { d with
    phase := .pending
    handoff := d.handoff.map fun x => { x with externalCommit := .outcomeUnknown now } }

/-- The sink has returned. -/
def Delivery.conclude (d : Delivery) (confirmed : Bool) (now : ℕ) : Delivery :=
  if confirmed then
    { d with phase := .committed, handoff := d.handoff.map fun x => x.confirm now }
  else { d with phase := .failed }

/-- An entry of a commit does not take the context. -/
theorem alone_of_commit (hcall : isRevision e.call = false) : Alone t h e := by
  intro ht
  rw [ht.1] at hcall
  cases hcall

/-- A delivery with a handoff whose phase is no longer `open` keeps what holds of it. -/
theorem Delivery.Fits.later {d' : Delivery} (hd : d.Fits k h)
    (hhandoff : d'.handoff.isSome = d.handoff.isSome) (hsome : d.handoff.isSome = true)
    (hclosed : d'.closed = d.closed) (howned : d'.owned = d.owned) (hphase : d'.phase ≠ .opened) :
    d'.Fits k h where
  waits _ hc := hd.waits hsome (hclosed ▸ hc)
  owned _ := howned ▸ hd.owned hsome
  opened _ _ hx := absurd hx hphase
  plain hnone := by
    rw [← hhandoff, hnone] at hsome
    cases hsome
  made := hd.made
  prepared := hd.prepared

/-- The delivery is replaced. -/
theorem Parts.replace (hs : Parts k s h) {d' : Delivery} (hd' : d'.Fits k h) :
    Parts k { s with delivery := some d' } h where
  delivery _ hd := Option.some.inj hd ▸ hd'
  owner := hs.owner
  context := hs.context

/-- The sink, where the delivery is open. -/
theorem Inv.sink (hinv : Inv k config s h) {now : ℕ} (hd : s.delivery = some d)
    (hx : d.handoff = some x) (hopen : d.phase = .opened) (he : e.outcome = .asked .commit)
    (hid : e.id ≠ 0) (hcall : isRevision e.call = false) (hok : Sinks k config h e) :
    Inv k config { s with delivery := some (d.invoke now) } (h ++ [e]) := by
  have hfits := (hinv.parts.append (e := e) (.inl hid)).delivery d hd
  have hnone : x.externalCommit = .notInvoked := hfits.opened x hx hopen
  have hrank : rank s.history = 1 := by
    rw [State.history_of_delivery hd, hx, rank, hnone, ExternalCommit.rank]
  have hrank' : rank ({ s with delivery := some (d.invoke now) } : State).history = 2 := by
    rw [State.history_of_delivery rfl, Delivery.invoke, hx]
    rfl
  have hsome : ((d.invoke now).handoff).isSome = d.handoff.isSome := Option.isSome_map
  have hne : e.outcome ≠ .asked .deliver := by simp [he]
  refine hinv.push (fun hd => absurd hd hne) ?_ ?_ ?_ ?_ (.refl Context.Moves.refl _)
    (alone_of_commit hcall) ?_
  · rw [Asked.append, or_iff_left hne, ← hinv.handed, State.history_of_delivery rfl, hsome,
      State.history_of_delivery hd]
  · exact (hinv.parts.append (.inl hid)).replace
      (hfits.later hsome (Option.isSome_iff_exists.mpr ⟨x, hx⟩) rfl rfl nofun)
  · rw [hrank', Asked.append]
    exact ⟨fun _ => by decide, fun _ => .inr he⟩
  · rw [hrank', Confirmed.append]
    refine ⟨fun hc => absurd hc ?_, fun hlt => absurd hlt (by decide)⟩
    rintro (hc | ⟨⟨r, hr⟩, -⟩)
    · have := hinv.confirmed.mp hc
      omega
    · simp [he] at hr
  · simp only [EntryOk, he]
    exact hok

/-- What follows the sink. -/
theorem Inv.conclude (hinv : Inv k config s h) {at' now : ℕ} (hd : s.delivery = some d)
    (hx : d.handoff = some x) (hunknown : x.externalCommit = .outcomeUnknown at') {r : Result}
    {log : List (Query × Reply)} {a : Reply} (he : e.outcome = .returned r)
    (hlog : e.log = log ++ [(.commit, a)]) (hclean : ∀ b, (Query.commit, b) ∉ log) (hid : e.id ≠ 0)
    (hcall : isRevision e.call = false)
    (hok : Reports e.call r e.state) :
    Inv k config { s with delivery := some (d.conclude a.isTrue now) } (h ++ [e]) := by
  have hfits := (hinv.parts.append (e := e) (.inl hid)).delivery d hd
  have hrank : rank s.history = 2 := by
    rw [State.history_of_delivery hd, hx, rank, hunknown, ExternalCommit.rank]
  have hrank' : rank ({ s with delivery := some (d.conclude a.isTrue now) } : State).history =
      if a.isTrue then 3 else 2 := by
    rw [State.history_of_delivery rfl, Delivery.conclude]
    split
    · simp only [hx, Option.map_some, rank, Handoff.confirm, hunknown, ExternalCommit.rank]
    · simp only [hx, rank, hunknown, ExternalCommit.rank]
  have hsome : (d.conclude a.isTrue now).handoff.isSome = d.handoff.isSome := by
    rw [Delivery.conclude]
    split
    · exact Option.isSome_map
    · rfl
  have hclosed : (d.conclude a.isTrue now).closed = d.closed ∧
      (d.conclude a.isTrue now).owned = d.owned ∧ (d.conclude a.isTrue now).phase ≠ .opened := by
    rw [Delivery.conclude]
    split
    · exact ⟨rfl, rfl, nofun⟩
    · exact ⟨rfl, rfl, nofun⟩
  have hne (q : Query) : e.outcome ≠ .asked q := by simp [he]
  refine hinv.push (fun hd => absurd hd (hne _)) ?_ ?_ ?_ ?_ (.refl Context.Moves.refl _)
    (alone_of_commit hcall) ?_
  · rw [Asked.append, or_iff_left (hne _), ← hinv.handed, State.history_of_delivery rfl, hsome,
      State.history_of_delivery hd]
  · exact (hinv.parts.append (.inl hid)).replace (hfits.later hsome
      (Option.isSome_iff_exists.mpr ⟨x, hx⟩) hclosed.1 hclosed.2.1 hclosed.2.2)
  · rw [hrank', Asked.append, or_iff_left (hne _), hinv.invoked, hrank]
    split <;> simp
  · rw [hrank', Confirmed.append, hinv.confirmed, hrank, hlog]
    constructor
    · rintro (hlt | ⟨-, b, hb, htrue⟩)
      · exact absurd hlt (by decide)
      · rcases List.mem_append.mp hb with hb | hb
        · exact absurd hb (hclean b)
        · obtain ⟨-, rfl⟩ := Prod.mk.inj (List.mem_singleton.mp hb)
          rw [if_pos htrue]
          decide
    · intro hlt
      refine .inr ⟨⟨r, he⟩, a, List.mem_append_right _ (List.mem_singleton_self _), ?_⟩
      by_contra hfalse
      rw [if_neg hfalse] at hlt
      exact absurd hlt (by decide)
  · simp only [EntryOk, he]
    exact .inl hok

/-- The handoff, where nothing was handed over before. -/
theorem Inv.handOff (hinv : Inv k config s h) (hdelivery : t.delivery = some d)
    (hx : d.handoff = some x) (hnone : x.externalCommit = .notInvoked) (howned : d.owned = true)
    (hbefore : ¬ Asked h .deliver) (htrail : observedAt k < (trail h).length)
    (hcontext : Onward Context.Moves s.context t.context) (he : e.outcome = .asked .deliver)
    (hid : e.id = 0) (hcall : e.call = none) : Inv k config t (h ++ [e]) := by
  have hstop : stop? e = some (some .deliver) := by rw [stop?, he]
  have hlength : (trail (h ++ [e])).length = (trail h).length + 1 := by
    rw [trail_stop hid hstop, List.length_append, List.length_singleton]
  have hone : 1 < (trail (h ++ [e])).length := by
    have : 1 < observedAt k := by cases k <;> decide
    omega
  have hwaits : WaitsAt .deliver (h ++ [e]) := waitsAt_asking hid he
  have hasked : Asked (h ++ [e]) .deliver := Asked.append.mpr (.inr he)
  have hrank : rank t.history = 1 := by
    rw [State.history_of_delivery hdelivery, hx, rank, hnone, ExternalCommit.rank]
  have hzero : rank s.history = 0 := by
    rw [Option.not_isSome_iff_eq_none.mp (mt hinv.handed.mp hbefore), rank]
  refine hinv.push (fun _ => hid) ⟨fun _ => hasked, fun _ => ?_⟩ ⟨fun d' hd' => ?_, fun o ho => ?_,
    fun c hc => ⟨hasked, fun _ _ => hwaits⟩⟩ ?_ ?_ hcontext (alone_of_commit (hcall ▸ rfl)) ?_
  · rw [State.history_of_delivery hdelivery, hx]
    rfl
  · obtain rfl := Option.some.inj (hdelivery.symm.trans hd')
    refine ⟨fun _ _ => hwaits, fun _ => howned, fun y hy _ => ?_, fun hn => ?_, hone, fun _ => hasked⟩
    · exact Option.some.inj (hx.symm.trans hy) ▸ hnone
    · exact absurd (hx.symm.trans hn) (Option.some_ne_none x)
  · exact ⟨hone, fun _ => by omega, fun _ _ _ => .inl hwaits⟩
  · rw [Asked.append, hinv.invoked, hzero, hrank]
    simp [he]
  · rw [Confirmed.append, hinv.confirmed, hzero, hrank]
    simp [he]
  · simp [EntryOk, he]

end Sink

end Kdna.Source

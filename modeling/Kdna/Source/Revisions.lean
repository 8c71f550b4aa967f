import Kdna.Source.SectionOpening

/-!
# The revisions keep the invariant

A revision reserves its context before it waits, so that no other one has it; where it succeeds its
last observations allow it, and the opening has not ended.
-/

namespace Kdna.Source

open EventLoop Value Read Execution

variable {k : Route} {config : Config} {id : ℕ} {c : Option Call} {s : State} {h : List Happening}
  {v : Sight}

section Context

/-- A revision that does not get the context takes nothing. -/
theorem Inv.refused (hinv : Inv k config s h) (hid : id ≠ 0) (hc : isRevision c = true) {code : Code}
    (hcode : code = .contextUntrusted ∨ code = .contextClosed) :
    Ends k config id c ⟨true, [], h, s⟩ (.rejected code .input) := by
  refine hinv.enter rfl (.refl Context.Moves.refl _) (hinv.parts.append (.inl hid))
    ⟨nofun, nofun, fun _ => List.not_mem_nil⟩ ?_ (entryOk_returned rfl (.inl ?_))
  · rintro ⟨-, ⟨q, hq⟩ | ⟨r, hr, huntrusted, hclosed⟩⟩
    · cases hq
    · obtain rfl := Outcome.returned.inj hr
      rcases hcode with rfl | rfl
      · exact absurd rfl huntrusted
      · exact absurd rfl hclosed
  · rw [Reports, if_pos hc]
    exact ⟨_, _, rfl⟩

/-- A revision that gets the context is the only one that has it. -/
theorem Inv.reserves (hinv : Inv k config s h) (hpast : ∀ e ∈ h, e.state.Moves s) (hid : id ≠ 0)
    {x : Context} (hx : s.context = some x) (havailable : x.phase = .available) :
    s.Nested (s.revise fun c => { c with phase := .reserved }) ∧
      Free k config id c ⟨true, [], h, s.revise fun c => { c with phase := .reserved }⟩ := by
  have hnested : s.Nested (s.revise fun c => { c with phase := .reserved }) := by
    refine ⟨rfl, rfl, rfl, Onward.map fun y hy => ⟨fun _ => nofun, fun hclosed => ?_⟩⟩
    obtain rfl := Option.some.inj (hx.symm.trans hy)
    cases havailable.symm.trans hclosed
  refine ⟨hnested, Inv.free (v := ⟨true, [], h, _⟩) (hinv.reserve hx havailable)
    (fun e he => State.Moves.trans _ _ _ (hpast e he) hnested.moves) (fun _ => List.not_mem_nil)
    (fun hzero => absurd hzero hid) (fun _ => ⟨⟨{ x with phase := .reserved }, ?_, nofun⟩,
      fun e he ht => ?_⟩) fun hzero => absurd hzero hid⟩
  · exact congrArg (Option.map _) hx
  · obtain ⟨y, hy, hne⟩ := hinv.taken e he ht
    obtain rfl := Option.some.inj (hx.symm.trans hy)
    exact absurd havailable hne

theorem reports_rejected (hc : isRevision c = true) (code : Code) (stage : Stage) :
    Reports c (.rejected code stage) s := by
  rw [Reports, if_pos hc]
  exact ⟨code, stage, rfl⟩

/-- A revision succeeds. -/
theorem Good.succeeds (hv : Good k config id c v) (hid : id ≠ 0) (hc : isRevision c = true) {r : Result}
    (hr : r = .previewValid ∨ r = .revisionProduced)
    (hrevises : Revises k config v.history ⟨id, c, v.log, .returned r, v.state⟩) :
    Ends k config id c v r :=
  hv.inv.enter rfl (.refl Context.Moves.refl _) (hv.inv.parts.append (.inl hid))
    ⟨nofun, nofun, hv.clean⟩ (fun ht => hv.alone ht.1) (entryOk_returned rfl (.inr ⟨hc, hr, hrevises⟩))

end Context

section Ordinary

variable {Q : Sight → Unit → Prop} {E : Sight → Result → Prop} {stage : Stage}

theorem acts_localCheck (hQ : v.state.isOpen = true → v.state.now ≤ v.state.deadline → Q v ())
    (hE : ∀ code stage, E v (.rejected code stage)) :
    Does k config id c Q E (Ordinary.checkLocal stage) v := by
  refine acts_bind (acts_state (acts_bind (acts_check (fun hopen => ?_) fun _ => hE _ _)))
  exact acts_check (hQ hopen) fun _ => hE _ _

theorem acts_bracketed (hv : Free k config id c v) {q : Query}
    (hq : Mild k id c v.state (.asked q)) (hsync : q.sync = false) {Q : Sight → Reply → Prop}
    (hE : ∀ v' code stage, Free k config id c v' → E v' (.rejected code stage))
    (hQ : ∀ v' a, Good k config id c v' → Later v v' → v'.log = v.log ++ [(q, a)] →
      v'.state.isOpen = true → v'.state.now ≤ v'.state.deadline → Q v' a) :
    Does k config id c Q E (Ordinary.bracketed stage q) v := by
  refine acts_bind (acts_localCheck (fun _ _ => ?_) fun _ _ => hE v _ _ hv)
  refine acts_bind (hv.ask hq (fun hs => absurd (hsync.symm.trans hs) nofun)
    fun a v₁ hv₁ hlater₁ hlog₁ _ _ => ?_)
  refine acts_bind (acts_check (fun _ => ?_) fun _ => hE v₁ _ _ hv₁.free)
  exact acts_bind (acts_localCheck (fun hopen htime => hQ v₁ a hv₁ hlater₁ hlog₁ hopen htime)
    fun _ _ => hE v₁ _ _ hv₁.free)

/-- Nothing but a value that the Host returned is an observation. -/
theorem value_of_verifyObservation {owner : Owner} {reply : Reply} {currentMs : ℕ}
    (h : Ordinary.verifyObservation config owner (reply.value?.getD .null) = .ok currentMs) :
    ∃ raw, reply = .value raw ∧ Ordinary.verifyObservation config owner raw = .ok currentMs := by
  cases reply with
  | value raw => exact ⟨raw, rfl, h⟩
  | _ =>
    rw [Ordinary.verifyObservation] at h
    exact absurd (require_bind_eq_ok_iff.mp h).1 Bool.false_ne_true

/-- The observation of the Host. -/
theorem acts_refreshHost (hv : Free .ordinary config id c v) {purpose : Purpose}
    (hE : ∀ v' code stage, Free .ordinary config id c v' → E v' (.rejected code stage))
    (hQ : ∀ v' raw currentMs, Good .ordinary config id c v' → Later v v' →
      v'.log = v.log ++ [(.hostObserve purpose, .value raw)] →
      Seen .ordinary config raw currentMs v'.state → Q v' ()) :
    Does .ordinary config id c Q E (Ordinary.refreshHost config purpose stage) v := by
  refine acts_bind (acts_bracketed hv (q := .hostObserve purpose) ⟨nofun, nofun, fun _ _ => nofun⟩
    rfl hE fun v₁ reply hv₁ hlater₁ hlog₁ _ _ => ?_)
  refine acts_bind (acts_state (acts_bind (acts_need (fun owner howner => ?_)
    fun _ => hE v₁ _ _ hv₁.free)))
  cases hcheck : Ordinary.verifyObservation config owner (reply.value?.getD .null) with
  | error f => exact hE v₁ _ _ hv₁.free
  | ok currentMs =>
    obtain ⟨raw, rfl, hcheck⟩ := value_of_verifyObservation hcheck
    obtain ⟨hallows, hlast⟩ := Ordinary.allows_of_verifyObservation hcheck
    obtain ⟨hgood, hmoves⟩ := hv₁.record howner hlast
      (f := fun owner => { owner with lastMs := currentMs }) fun _ => rfl
    refine acts_update ⟨hmoves, rfl⟩ (fun hfresh => absurd (hv₁.turned.symm.trans hfresh) nofun) ?_
    refine hQ _ raw currentMs hgood (hlater₁.trans ⟨hmoves, List.prefix_rfl⟩) hlog₁ ?_
    exact ⟨{ owner with lastMs := currentMs }, congrArg (Option.map _) howner, hallows⟩

/-- Where a call has asked behind an observation, the history shows the owner. -/
theorem Seen.before {raw : Json} {currentMs : ℕ} {v' : Sight} {q : Query}
    (hseen : Seen k config raw currentMs v.state) (hasked : v.asking id c q <+: v'.history) :
    ∃ f ∈ v'.history, f.state.owner.isSome = true := by
  obtain ⟨owner, howner, -⟩ := hseen
  refine ⟨⟨id, c, v.log, .asked q, v.state⟩, hasked.subset ?_,
    Option.isSome_iff_exists.mpr ⟨owner, howner⟩⟩
  exact List.mem_append_right _ (List.mem_singleton_self _)

/-- The observations of the Host and the operation. -/
theorem acts_refreshOwner (hv : Free .ordinary config id c v) (hid : id ≠ 0) {purpose : Purpose}
    {phase : OperationPhase}
    (hE : ∀ v' code stage, Free .ordinary config id c v' → E v' (.rejected code stage))
    (hQ : ∀ v' raw currentMs current asserted, Good .ordinary config id c v' → Later v v' →
      v'.log = v.log ++ [(.hostObserve purpose, .value raw), (.operationObserve phase, current),
        (.assertCurrent, asserted)] →
      current.isCurrent = true → asserted.isCurrent = true →
      Seen .ordinary config raw currentMs v'.state → v'.state.isOpen = true →
      (∃ f ∈ v'.history, f.state.owner.isSome = true) → Q v' ()) :
    Does .ordinary config id c Q E (Ordinary.refreshOwner config purpose stage phase) v := by
  refine acts_bind (acts_refreshHost hv hE fun v₁ raw currentMs hv₁ hlater₁ hlog₁ hseen => ?_)
  refine acts_bind (acts_bracketed hv₁.free (q := .operationObserve phase)
    ⟨nofun, nofun, fun hzero => absurd hzero hid⟩ rfl hE fun v₂ current hv₂ hlater₂ hlog₂ hopen _ => ?_)
  refine acts_bind (acts_check (fun hcurrent => ?_) fun _ => hE v₂ _ _ hv₂.free)
  refine acts_bind (hv₂.free.ask (q := .assertCurrent) ⟨nofun, nofun, fun _ _ => nofun⟩
    (fun _ => hv₂.turned) fun asserted v₃ hv₃ hlater₃ hlog₃ hasked hnested => ?_)
  refine acts_check (fun hasserted => ?_) fun _ => hE v₃ _ _ hv₃.free
  have hlater := hlater₂.trans hlater₃
  refine hQ v₃ raw currentMs current asserted hv₃ (hlater₁.trans hlater) ?_ hcurrent hasserted
    (hseen.moves hlater.moves) ?_ ((hseen.moves hlater₂.moves).before hasked)
  · rw [hlog₃, hlog₂, hlog₁, List.append_assoc, List.append_assoc]
    rfl
  · rw [State.isOpen, (hnested rfl).owner]
    exact hopen

/-- The context is reserved before anything is asked. -/
theorem acts_reserveContext (hinv : Inv k config s h) (hpast : ∀ e ∈ h, e.state.Moves s) (hid : id ≠ 0)
    (hc : isRevision c = true) {Q : Sight → Unit → Prop}
    (hQ : ∀ v', Free k config id c v' → v'.log = [] → Q v' ()) :
    Does k config id c Q (Ends k config id c) Ordinary.reserveContext ⟨true, [], h, s⟩ := by
  refine acts_bind (acts_state (acts_bind (acts_need (fun x hx => ?_)
    fun _ => hinv.refused hid hc (.inl rfl))))
  refine acts_bind (acts_check (fun havailable => ?_) fun _ => hinv.refused hid hc (.inr rfl))
  obtain ⟨hnested, hfree⟩ : _ ∧ Free k config id c _ := hinv.reserves hpast hid hx
    havailable.2
  exact acts_update ⟨hnested.moves, rfl⟩ (fun _ => hnested) (hQ _ hfree rfl)

/-- Behind its last observations a revision on the ordinary route succeeds. -/
theorem Good.revisesOrdinary (hv : Good .ordinary config id c v) (hc : isRevision c = true)
    {raw : Json} {currentMs : ℕ} {log : List (Query × Reply)} {purpose : Purpose} {phase : OperationPhase} {current asserted : Reply}
    (hlog : v.log = log ++ [(.hostObserve purpose, .value raw), (.operationObserve phase, current),
      (.assertCurrent, asserted)])
    (hcurrent : current.isCurrent = true) (hasserted : asserted.isCurrent = true)
    (hseen : Seen .ordinary config raw currentMs v.state) (hopen : v.state.isOpen = true)
    (howned : ∃ f ∈ v.history, f.state.owner.isSome = true) (hfinal : lastAsserts v.log.dropLast c = true) (r : Result) :
    Revises .ordinary config v.history ⟨id, c, v.log, .returned r, v.state⟩ := by
  obtain ⟨owner, howner, hallows⟩ := hseen
  refine ⟨⟨raw, owner, currentMs, ⟨log, purpose, phase, current, asserted, hlog, hcurrent, hasserted⟩,
    howner, hallows⟩, hfinal, howned, ?_, nofun⟩
  rw [State.isOpen, howner, Option.any_some, Bool.not_eq_true'] at hopen
  obtain ⟨x, hx, -⟩ := (hv.alone hc).1
  exact ((hv.inv.parts.owner owner howner).live rfl hopen (Option.isSome_iff_exists.mpr ⟨x, hx⟩)).imp_right
    fun hw => ⟨rfl, hw⟩

theorem acts_refused {draft : Option (Code × Stage)} {Q : Sight → Unit → Prop}
    {E : Sight → Result → Prop} (hQ : draft = none → Q v ())
    (hE : ∀ code stage, E v (.rejected code stage)) :
    Does k config id c Q E (Ordinary.refused draft) v := by
  cases draft with
  | none => exact hQ rfl
  | some f => exact hE _ _

theorem ordinary_preview (hinv : Inv .ordinary config s h) (hpast : ∀ e ∈ h, e.state.Moves s)
    (hid : id ≠ 0) (draft : Draft) :
    Meets Query.sync (rules .ordinary config) id (some (.preview draft))
      (Ordinary.previewProtectedSourceRevision config draft) ⟨true, [], h, s⟩ := by
  have hrejects {v : Sight} (hv : Free .ordinary config id (some (.preview draft)) v) (code : Code)
      (stage : Stage) : Ends .ordinary config id (some (.preview draft)) v (.rejected code stage) :=
    hv.returns (reports_rejected rfl code stage)
  refine meets_settled (acts_bind (acts_reserveContext hinv hpast hid rfl fun v hv hlog => ?_))
  refine acts_bind (acts_check (fun _ => ?_) fun _ => hrejects hv _ _)
  refine acts_bind (acts_refreshOwner hv hid (fun v' _ _ hv' => hrejects hv' _ _)
    fun v₁ raw currentMs current asserted hv₁ _ hlog₁ hcurrent hasserted hseen hopen howned => ?_)
  refine acts_bind (acts_refused (fun hsemantic => ?_) fun _ _ => hrejects hv₁.free _ _)
  refine hv₁.succeeds hid rfl (.inl rfl) (hv₁.revisesOrdinary rfl hlog₁ hcurrent hasserted hseen
    hopen howned ?_ _)
  rw [lastAsserts, hsemantic, Option.isNone_none]

theorem ordinary_produce (hinv : Inv .ordinary config s h) (hpast : ∀ e ∈ h, e.state.Moves s)
    (hid : id ≠ 0) (draft : Draft) :
    Meets Query.sync (rules .ordinary config) id (some (.produce draft))
      (Ordinary.produceProtectedSourceRevision config draft) ⟨true, [], h, s⟩ := by
  have hrejects {v : Sight} (hv : Free .ordinary config id (some (.produce draft)) v) (code : Code)
      (stage : Stage) : Ends .ordinary config id (some (.produce draft)) v (.rejected code stage) :=
    hv.returns (reports_rejected rfl code stage)
  refine meets_settled (acts_bind (acts_reserveContext hinv hpast hid rfl fun v hv hlog => ?_))
  refine acts_bind (acts_check (fun _ => ?_) fun _ => hrejects hv _ _)
  refine acts_bind (acts_refreshOwner hv hid (fun v' _ _ hv' => hrejects hv' _ _)
    fun v₁ _ _ _ _ hv₁ _ _ _ _ _ _ _ => ?_)
  refine acts_bind (hv₁.free.ask (q := .outputSecret) ⟨nofun, nofun, fun _ _ => nofun⟩ nofun
    fun a v₂ hv₂ _ _ _ _ => ?_)
  refine acts_bind (acts_check (fun _ => ?_) fun _ => hrejects hv₂.free _ _)
  refine acts_bind (acts_localCheck (fun _ _ => ?_) fun _ _ => hrejects hv₂.free _ _)
  refine acts_bind (acts_refused (fun _ => ?_) fun _ _ => hrejects hv₂.free _ _)
  refine acts_bind (acts_refused (fun _ => ?_) fun _ _ => hrejects hv₂.free _ _)
  refine acts_bind (acts_refreshOwner hv₂.free hid (fun v' _ _ hv' => hrejects hv' _ _)
    fun v₃ raw currentMs current asserted hv₃ _ hlog₃ hcurrent hasserted hseen hopen howned => ?_)
  refine hv₃.succeeds hid rfl (.inr rfl) (hv₃.revisesOrdinary rfl hlog₃ hcurrent hasserted hseen
    hopen howned ?_ _)
  rw [hlog₃]
  simp [lastAsserts, List.dropLast_append_of_ne_nil]

end Ordinary

section Sections

variable {Q : Sight → Unit → Prop} {E : Sight → Sections.Failure → Prop} {stage : Stage}

/-- The reservation is the one of an open owner. -/
structure Active (s : State) : Prop where
  reserved : ∃ x, s.context = some x ∧ x.phase = .reserved
  isOpen : s.isOpen = true
  inTime : s.now ≤ s.deadline

theorem acts_active (hQ : Active v.state → Q v ()) (hE : ∀ f, E v f) :
    Does k config id c Q E (Sections.active stage) v := by
  refine acts_bind (acts_state (acts_bind (acts_check (fun hactive => ?_) fun _ => hE _)))
  refine Sections.acts_checkLocal (fun hopen htime => hQ ⟨?_, hopen, htime⟩) hE
  obtain ⟨x, hx, hreserved⟩ := (Option.any_eq_true _ _).mp hactive.1
  exact ⟨x, hx, of_decide_eq_true hreserved⟩

/-- The observations of the Host and the operation, with the reservation checked between them. -/
theorem acts_current (hv : Free .sections config id c v) (hid : id ≠ 0) {purpose : Purpose}
    {phase : OperationPhase} (hE : ∀ v' f, Free .sections config id c v' → E v' f)
    (hQ : ∀ v' raw currentMs unchanged current asserted, Good .sections config id c v' →
      v'.log = v.log ++ [(.hostObserve purpose, .value raw), (.assertUnchanged, unchanged),
        (.operationObserve phase, current), (.assertCurrent, asserted)] →
      current.isCurrent = true → asserted.isCurrent = true →
      Seen .sections config raw currentMs v'.state → Active v'.state →
      (∃ f ∈ v'.history, f.state.owner.isSome = true) → Q v' ()) :
    Does .sections config id c Q E (Sections.current config purpose stage phase) v := by
  refine acts_bind (acts_active (fun _ => ?_) fun f => hE v f hv)
  refine acts_bind (Sections.acts_hostCurrent hv (q := .hostObserve purpose)
    ⟨nofun, nofun, fun _ _ => nofun⟩ rfl (fun f => hE v f hv) (fun v' f hv' _ => hE v' f hv'.free)
    fun v₁ raw unchanged hv₁ _ hlog₁ _ _ => ?_)
  refine Sections.acts_acceptObservation hv₁ (fun f => hE v₁ f hv₁.free)
    fun v₂ currentMs hv₂ _ hlog₂ _ hseen _ => ?_
  refine acts_bind (acts_active (fun _ => ?_) fun f => hE v₂ f hv₂.free)
  refine acts_bind (Sections.acts_operationCurrent hv₂.free (p := phase)
    ⟨nofun, nofun, fun hzero => absurd hzero hid⟩ (fun f => hE v₂ f hv₂.free)
    (fun v' f hv' _ => hE v' f hv'.free)
    fun v₃ current asserted hv₃ hlater₃ hasked hlog₃ hcurrent hasserted _ _ => ?_)
  refine acts_active (fun hactive => ?_) fun f => hE v₃ f hv₃.free
  refine hQ v₃ raw currentMs unchanged current asserted hv₃ ?_ hcurrent hasserted
    (hseen.moves hlater₃.moves) hactive (hseen.before hasked)
  rw [hlog₃, hlog₂, hlog₁, List.append_assoc]
  rfl

/-- The context is reserved before anything is asked. -/
theorem acts_reserveRevision (hinv : Inv k config s h) (hpast : ∀ e ∈ h, e.state.Moves s)
    (hid : id ≠ 0) (hc : isRevision c = true)
    (hE : ∀ code, code = .contextUntrusted ∨ code = .contextClosed →
      Ends k config id c ⟨true, [], h, s⟩ (.rejected code .input) →
      E ⟨true, [], h, s⟩ (.source code .input))
    (hQ : ∀ v', Free k config id c v' → v'.log = [] → Q v' ()) :
    Does k config id c Q E Sections.reserveRevision ⟨true, [], h, s⟩ := by
  refine acts_bind (acts_state (acts_bind (acts_need (fun x hx => ?_)
    fun _ => hE _ (.inl rfl) (hinv.refused hid hc (.inl rfl)))))
  refine acts_bind (acts_check (fun havailable => ?_)
    fun _ => hE _ (.inr rfl) (hinv.refused hid hc (.inr rfl)))
  obtain ⟨hnested, hfree⟩ : _ ∧ Free k config id c _ := hinv.reserves hpast hid hx
    havailable.1
  exact acts_update ⟨hnested.moves, rfl⟩ (fun _ => hnested) (hQ _ hfree rfl)

/-- Behind its last observations a revision on the section route succeeds. -/
theorem Good.revisesSections (hv : Good .sections config id c v) {raw : Json} {currentMs : ℕ}
    {log : List (Query × Reply)} {purpose : Purpose} {phase : OperationPhase}
    {unchanged current asserted : Reply}
    (hlog : v.log = log ++ [(.hostObserve purpose, .value raw), (.assertUnchanged, unchanged),
      (.operationObserve phase, current), (.assertCurrent, asserted)])
    (hcurrent : current.isCurrent = true) (hasserted : asserted.isCurrent = true)
    (hseen : Seen .sections config raw currentMs v.state) (hactive : Active v.state)
    (howned : ∃ f ∈ v.history, f.state.owner.isSome = true) (hfinal : lastAsserts v.log.dropLast c = true) (r : Result) :
    Revises .sections config v.history ⟨id, c, v.log, .returned r, v.state⟩ := by
  obtain ⟨owner, howner, hallows⟩ := hseen
  obtain ⟨x, hx, hreserved⟩ := hactive.reserved
  refine ⟨⟨raw, owner, currentMs,
    ⟨log, purpose, phase, unchanged, current, asserted, hlog, hcurrent, hasserted⟩, howner, hallows⟩,
    hfinal, howned, .inl ?_, fun _ => hactive.inTime⟩
  refine (hv.inv.parts.context x hx).live rfl ?_
  rw [hreserved]
  decide

theorem acts_refusedDraft {draft : Option (Code × Stage)} (hQ : draft = none → Q v ())
    (hE : ∀ f, E v f) : Does k config id c Q E (Sections.refused draft) v := by
  cases draft with
  | none => exact hQ rfl
  | some f => exact hE _

/-- A revision on the section route fails with a rejection. -/
theorem Free.rejects (hv : Free k config id c v) (hc : isRevision c = true) (stage : Stage)
    (f : Sections.Failure) : Ends k config id c v (Sections.failure stage f) := by
  cases f with
  | _ => exact hv.returns (reports_rejected hc _ _)

theorem sections_preview (hinv : Inv .sections config s h) (hpast : ∀ e ∈ h, e.state.Moves s)
    (hid : id ≠ 0) (draft : Draft) :
    Meets Query.sync (rules .sections config) id (some (.preview draft))
      (Sections.previewProtectedSectionSourceRevision config draft) ⟨true, [], h, s⟩ := by
  refine meets_settled (acts_bind (acts_mapError (acts_bind (acts_reserveRevision hinv hpast hid rfl
    (fun _ _ he => he) fun v hv hlog => acts_check (fun _ => ?_) fun _ => hv.rejects rfl _ _))))
  refine acts_bind (acts_mapError ?_)
  refine acts_bind (acts_current hv hid (fun v' f hv' => hv'.rejects rfl _ f)
    fun v₁ _ _ _ _ _ hv₁ _ _ _ _ _ _ => ?_)
  refine acts_bind (acts_refusedDraft (fun hsemantic => ?_) fun f => hv₁.free.rejects rfl _ f)
  refine acts_bind (acts_active (fun _ => ?_) fun f => hv₁.free.rejects rfl _ f)
  refine acts_bind (acts_current hv₁.free hid (fun v' f hv' => hv'.rejects rfl _ f)
    fun v₂ raw currentMs unchanged current asserted hv₂ hlog₂ hcurrent hasserted hseen _ howned => ?_)
  refine acts_active (fun hactive => ?_) fun f => hv₂.free.rejects rfl _ f
  refine hv₂.succeeds hid rfl (.inl rfl) (hv₂.revisesSections hlog₂ hcurrent hasserted hseen hactive
    howned ?_ _)
  rw [lastAsserts, hsemantic, Option.isNone_none]

theorem sections_produce (hinv : Inv .sections config s h) (hpast : ∀ e ∈ h, e.state.Moves s)
    (hid : id ≠ 0) (draft : Draft) :
    Meets Query.sync (rules .sections config) id (some (.produce draft))
      (Sections.produceProtectedSectionSourceRevision config draft) ⟨true, [], h, s⟩ := by
  refine meets_settled (acts_bind (acts_mapError (acts_bind (acts_reserveRevision hinv hpast hid rfl
    (fun _ _ he => he) fun v hv hlog => acts_check (fun _ => ?_) fun _ => hv.rejects rfl _ _))))
  have hrejects {v : Sight} (hv : Good .sections config id (some (.produce draft)) v) (stage : Stage)
      (f : Sections.Failure) := hv.free.rejects rfl stage f
  refine acts_bind (acts_mapError ?_)
  refine acts_bind (acts_current hv hid (fun v' f hv' => hv'.rejects rfl _ f)
    fun v₁ _ _ _ _ _ hv₁ _ _ _ _ _ _ => ?_)
  refine acts_bind (acts_active (fun _ => ?_) fun f => hrejects hv₁ _ f)
  refine acts_bind (hv₁.free.ask (q := .outputSecret) ⟨nofun, nofun, fun _ _ => nofun⟩ nofun
    fun a v₂ hv₂ _ _ _ _ => ?_)
  refine acts_bind (acts_check (fun _ => ?_) fun _ => hrejects hv₂ _ _)
  refine acts_bind (acts_active (fun _ => ?_) fun f => hrejects hv₂ _ f)
  refine acts_bind (acts_current hv₂.free hid (fun v' f hv' => hv'.rejects rfl _ f)
    fun v₃ _ _ _ _ _ hv₃ _ _ _ _ _ _ => ?_)
  refine acts_bind (acts_refusedDraft (fun _ => ?_) fun f => hrejects hv₃ _ f)
  refine acts_bind (acts_active (fun _ => ?_) fun f => hrejects hv₃ _ f)
  refine acts_active (fun _ => ?_) fun f => hrejects hv₃ _ f
  refine acts_bind (acts_mapError (acts_bind (acts_refusedDraft (fun _ => ?_)
    fun f => hrejects hv₃ _ f)))
  refine acts_active (fun _ => ?_) fun f => hrejects hv₃ _ f
  refine acts_bind (acts_mapError (acts_bind (acts_current hv₃.free hid
    (fun v' f hv' => hv'.rejects rfl _ f)
    fun v₄ raw currentMs unchanged current asserted hv₄ hlog₄ hcurrent hasserted hseen _ howned =>
      ?_)))
  refine acts_active (fun hactive => ?_) fun f => hrejects hv₄ _ f
  refine hv₄.succeeds hid rfl (.inr rfl) (hv₄.revisesSections hlog₄ hcurrent hasserted hseen hactive
    howned ?_ _)
  rw [hlog₄]
  simp [lastAsserts, List.dropLast_append_of_ne_nil]

end Sections

end Kdna.Source

import Kdna.ProtectedRead.Scopes
import Kdna.ProtectedRead.Turns

/-!
# The commits on a token

`commitProtectedTransport` keeps to the rules on every route: it takes the token before it asks
anything, and it invokes the sink only behind its own checks.
-/

namespace Kdna.ProtectedRead

open EventLoop Value Read

variable {k : Route} {id : ℕ} {c : Option Call} {call : Call} {v : Sight} {s t : State}
  {d₀ d d' : Delivery} {h : List Happening}

/-- A call ends with the invariant. -/
def Ends (k : Route) (id : ℕ) (c : Option Call) (v : Sight) (r : Result) : Prop :=
  Inv k v.state (v.history ++ [⟨id, c, v.log, .returned r, v.state⟩])

theorem meets_settled {x : Stops Result} (h : Does k id c (Ends k id c) (Ends k id c) x v) :
    Meets Query.sync (rules k) id c (settled x) v := by
  refine holds_bind (Holds.imp h fun v r hr => ?_)
  cases r with
  | ok b => exact hr
  | error b => exact hr

/-- A commit with the token refuses. -/
def Refuses (k : Route) (id : ℕ) (c : Option Call) (v : Sight) (_ : Refusal) : Prop :=
  ∃ s d₀ d, Turn k id c v s d₀ d

/-- A commit that goes on in a turn of its own. -/
abbrev Turn.Fresh (k : Route) (id : ℕ) (c : Option Call) (v : Sight) (d : Delivery) : Prop :=
  Turn k id c v v.state d d

theorem isTrue_iff {a : Reply} : a.isTrue = true ↔ a = .value (.bool true) := by
  cases a with
  | value v => cases v <;> simp [Reply.isTrue]
  | _ => simp [Reply.isTrue]

theorem checkedAt?_eq_some_iff {a : Reply} {n : ℕ} : a.checkedAt? = some n ↔ a = .current n := by
  cases a with
  | current m => simp [Reply.checkedAt?]
  | _ => simp [Reply.checkedAt?]

theorem value?_eq_some_iff {a : Reply} {v : Json} : a.value? = some v ↔ a = .value v := by
  cases a with
  | value w => simp [Reply.value?]
  | _ => simp [Reply.value?]

section Authority

/-- The shape of the transport. -/
theorem acts_transportShape (ht : Turn k id c v s d₀ d) (hlog : v.log = [])
    {Q : Sight → Unit → Prop}
    (hQ : ∀ v' s d₀ d', Turn k id c v' s d₀ d' → d.Moves d' → v'.log = inspection k → Q v' ()) :
    Does k id c Q (Refuses k id c) (transportShape k call) v := by
  rw [transportShape]
  split
  · next hbrowser =>
    refine acts_check (fun _ => hQ v s d₀ d ht (.refl d) ?_) fun _ => ⟨s, d₀, d, ht⟩
    rw [hlog, hbrowser, inspection]
  · next hother =>
    refine acts_bind (ht.ask .inspect nofun nofun fun a v' d' ht' hmoves _ hlog' _ => ?_)
    refine acts_check (fun htrue => hQ v' _ d' d' ht' hmoves ?_) fun _ => ⟨_, d', d', ht'⟩
    rw [hlog', hlog, isTrue_iff.mp htrue, List.nil_append]
    cases k with
    | browser => exact absurd rfl hother
    | _ => rfl

/-- The reservation still holds. -/
theorem acts_stillReserved (ht : Turn k id c v s d₀ d) {Q : Sight → Unit → Prop}
    (hQ : d.ownerActive = true → d.lifecycle = .reserved → Q v ()) :
    Does k id c Q (Refuses k id c) stillReserved v := by
  refine acts_bind (acts_state (acts_check (fun hvalid => ?_) fun _ => ⟨s, d₀, d, ht⟩))
  rw [ht.after, Option.any_some, Delivery.reserveValid, Bool.and_eq_true, decide_eq_true_eq] at hvalid
  exact hQ hvalid.1 hvalid.2

/-- The observation of the Host that the transport names. -/
theorem acts_observeTransport (ht : Turn k id c v s d₀ d) (p : Prepared)
    {Q : Sight → Except ReadError Context → Prop}
    (hQ : ∀ a v' s d₀ d' revocations standing result, Turn k id c v' s d₀ d' → d.Moves d' →
      v'.log = v.log ++ [(.observeScope, a)] →
      p.observe k revocations a.value? = (result, standing) → Q v' result) :
    Does k id c Q (Refuses k id c) (observeTransport k p) v := by
  refine acts_bind (ht.ask .observeScope nofun nofun fun a v' d' ht' hmoves _ hlog _ => ?_)
  refine acts_bind (acts_state ?_)
  cases hresult : p.observe k v'.state.revocations a.value? with
  | mk result standing =>
    have hstep := ht'.step (t := { v'.state with revocations := standing }) ht'.after rfl rfl
      (.refl d') rfl ht'.pending Iff.rfl
    refine acts_bind (acts_setState ?_ (fun _ => trivial)
      (hQ a _ _ d' d' _ standing result hstep hmoves hlog hresult))
    exact .same rfl rfl

/-- The checks of a commit up to its attempt. -/
theorem acts_authorizeCommit (ht : Turn k id c v s d₀ d) (hlog : v.log = [])
    {Q : Sight → ℕ → Prop}
    (hQ : ∀ v' d' raw context observedAt attemptedAt, Turn.Fresh k id c v' d' → d.Moves d' →
      d'.ownerActive = true → d'.lifecycle = .reserved →
      v'.log = inspection k ++ [(.operationObserve .transportCommit, .current observedAt),
        (.observeScope, .value raw), (.assertCurrent, .current attemptedAt)] →
      d.disclosure.atMs ≤ attemptedAt → Permits k d.prepared raw attemptedAt context →
      Q v' attemptedAt) :
    Does k id c Q (Refuses k id c) (authorizeCommit k call d) v := by
  refine acts_bind (acts_transportShape ht hlog fun v₁ s₁ d₁' d₁ ht₁ hmoves₁ hlog₁ => ?_)
  refine acts_bind (ht₁.ask (.operationObserve .transportCommit) nofun nofun fun current v₂ d₂ ht₂ hmoves₂ _ hlog₂ _ => ?_)
  refine acts_bind (acts_stillReserved ht₂ fun _ _ => ?_)
  refine acts_bind (acts_check (fun hcurrent => ?_) fun _ => ⟨_, d₂, d₂, ht₂⟩)
  refine acts_bind (acts_observeTransport ht₂ d.prepared
    fun reply v₃ s₃ d₃' d₃ revocations standing result ht₃ hmoves₃ hlog₃ hresult => ?_)
  refine acts_bind (acts_stillReserved ht₃ fun _ _ => ?_)
  have hrefuses : Refuses k id c v₃ .transport := ⟨s₃, d₃', d₃, ht₃⟩
  refine acts_bind (acts_need (fun context hcontext => ?_) fun _ => hrefuses)
  refine acts_bind (acts_check (fun hhost => ?_) fun _ => hrefuses)
  refine acts_bind (acts_state (acts_bind (acts_check (fun hscope => ?_) fun _ => hrefuses)))
  refine acts_bind (acts_check (fun hcovers => ?_) fun _ => hrefuses)
  refine acts_bind (ht₃.ask .assertCurrent nofun nofun fun final v₄ d₄ ht₄ hmoves₄ _ hlog₄ _ => ?_)
  refine acts_bind (acts_stillReserved ht₄ fun howner hreserved => ?_)
  have hrefuses' (r : Refusal) : Refuses k id c v₄ r := ⟨_, d₄, d₄, ht₄⟩
  refine acts_bind (acts_need (fun attemptedAt hattempted => ?_) fun _ => hrefuses' _)
  refine acts_bind (acts_check (fun hexpiry => ?_) fun _ => hrefuses' _)
  refine acts_bind (acts_check (fun hunexpired => ?_) fun _ => hrefuses' _)
  refine acts_bind (acts_check (fun hlater => ?_) fun _ => hrefuses' _)
  obtain ⟨observedAt, hobserved⟩ := Option.isSome_iff_exists.mp hcurrent
  have hok : result = .ok context := by
    cases result with
    | ok value => exact congrArg Except.ok (Option.some.inj hcontext)
    | error e => cases hcontext
  subst hok
  obtain ⟨⟨raw, hraw⟩, haccepted⟩ := accepted_of_observe hresult
  refine hQ v₄ d₄ raw context observedAt attemptedAt ht₄
    (((hmoves₁.trans hmoves₂).trans hmoves₃).trans hmoves₄) howner hreserved ?_ hlater
    ⟨⟨revocations, ?_⟩, hhost, within_of_observe hresult hscope,
      fun handle hh => ⟨hcovers handle hh, hexpiry handle hh⟩, haccepted, hunexpired⟩
  · rw [hlog₄, hlog₃, hlog₂, hlog₁, checkedAt?_eq_some_iff.mp hobserved, value?_eq_some_iff.mp hraw,
      checkedAt?_eq_some_iff.mp hattempted, List.append_assoc, List.append_assoc]
    rfl
  · rw [← hraw, hresult]

end Authority

section Attempt

/-- The attempt of an owner that is active. -/
theorem attempt_moves (howner : d.ownerActive = true) (attemptedAt : ℕ) :
    d.Moves (d.attempt attemptedAt) where
  prepared := rfl
  atMs := rfl
  owner h := h
  lifecycle := Lifecycle.rank_le_closed _
  failed h := h
  invoked _ := nofun
  settled hd := absurd (howner.symm.trans hd) (by decide)

/-- The attempt is recorded, and the sink is asked. -/
theorem Turn.sink (ht : Turn.Fresh k id c v d) (howner : d.ownerActive = true)
    (hreserved : d.lifecycle = .reserved) {attemptedAt : ℕ}
    (hsinks : ¬ EverAsked v.history .sink → Waits 0 .deliver v.history → Handed v.history d →
      Sinks k v.history ⟨id, c, v.log, .asked .sink,
        { v.state with delivery := some (d.attempt attemptedAt) }⟩)
    {ε : Type} {Q : Sight → Reply → Prop} {E : Sight → ε → Prop}
    (hQ : ∀ a v' d', Turn.Fresh k id c v' d' → (∃ f ∈ v'.history, Takes f) → Q v' a) :
    Does k id c Q E (Act.ask .sink)
      { v with state := { v.state with delivery := some (d.attempt attemptedAt) } } := by
  have hfits := ht.inv.fits d ht.before
  have hnone : ¬ d.disclosure.externalCommit ≠ .notInvoked := by
    intro hne
    cases hreserved.symm.trans (hfits.spent hne)
  have hpush := ht.push (t := { v.state with delivery := some (d.attempt attemptedAt) })
    (o := .asked .sink) rfl rfl rfl (attempt_moves howner attemptedAt) rfl
    (fun _ => Outcome.asked_ne_settled) (fun heq => Query.noConfusion (Outcome.asked.inj heq))
    ⟨fun _ => .inr rfl, fun _ => nofun⟩ (fun _ => rfl) (.inl ht.pending)
    (fun _ hr => absurd hr Outcome.asked_ne_returned)
    (hsinks (fun hasked => hnone (hfits.invoked.mpr hasked)) (hfits.active howner) hfits.handed)
  refine acts_ask hpush fun a t h' hr => ?_
  have htaken : (d.attempt attemptedAt).lifecycle ≠ .available := nofun
  obtain ⟨d', ht', -, htakes⟩ := ht.resumes rfl htaken hr
  exact hQ a _ d' ht' htakes

theorem Turn.confirm_step (ht : Turn k id c v s d₀ d) (confirmedAt : Option ℕ) :
    Turn k id c { v with state := v.state.deliver fun d => d.confirm confirmedAt } s d₀
      (d.confirm confirmedAt) ∧ v.state.Moves (v.state.deliver fun d => d.confirm confirmedAt) := by
  have hdelivery : (v.state.deliver fun d => d.confirm confirmedAt).delivery =
      some (d.confirm confirmedAt) := by rw [State.deliver, ht.after, Option.map_some]
  have hinvoked : (d.confirm confirmedAt).disclosure.externalCommit ≠ .notInvoked ↔
      d.disclosure.externalCommit ≠ .notInvoked := by
    rw [Delivery.confirm]
    cases d.disclosure.externalCommit with
    | notInvoked => exact Iff.rfl
    | outcomeUnknown a => simp [ExternalCommit.confirm]
    | confirmed a b => simp [ExternalCommit.confirm]
  have hmoves : d.Moves (d.confirm confirmedAt) :=
    { prepared := rfl
      atMs := rfl
      owner := fun howner => howner
      lifecycle := le_rfl
      failed := fun hfailed => hfailed
      invoked := hinvoked.mpr
      settled := fun _ _ hpending => absurd (ht.pending.symm.trans hpending) (by decide) }
  refine ⟨ht.step hdelivery rfl rfl hmoves rfl ht.pending hinvoked, fun x hx => ?_, fun hr => hr⟩
  obtain rfl := Option.some.inj (ht.after.symm.trans hx)
  exact ⟨_, hdelivery, hmoves⟩

/-- A commit that succeeds. -/
structure Commits' (k : Route) (id : ℕ) (c : Option Call) (v : Sight) (r : Result) : Prop where
  turn : ∃ s d₀ d, Turn k id c v s d₀ d
  committed : r.isCommitted = true
  reports : r.disclosure = v.state.history
  takes : ∃ f ∈ v.history, Takes f

/-- The attempt of a commit and what follows it. -/
theorem acts_attemptCommit (ht : Turn.Fresh k id c v d) (howner : d.ownerActive = true)
    (hreserved : d.lifecycle = .reserved) {attemptedAt : ℕ}
    (hsinks : ¬ EverAsked v.history .sink → Waits 0 .deliver v.history → Handed v.history d →
      Sinks k v.history ⟨id, c, v.log, .asked .sink,
        { v.state with delivery := some (d.attempt attemptedAt) }⟩) :
    Does k id c (Commits' k id c) (Refuses k id c) (attemptCommit attemptedAt) v := by
  have hstate : (v.state.deliver fun d => d.attempt attemptedAt) =
      { v.state with delivery := some (d.attempt attemptedAt) } := by
    rw [State.deliver, ht.after, Option.map_some]
  have hmoves : v.state.Moves (v.state.deliver fun d => d.attempt attemptedAt) := by
    refine ⟨fun x hx => ⟨x.attempt attemptedAt, ?_, ?_⟩, fun hr => hr⟩
    · rw [State.deliver, hx, Option.map_some]
    · obtain rfl := Option.some.inj (ht.after.symm.trans hx)
      exact attempt_moves howner attemptedAt
  refine acts_bind (acts_update hmoves (fun _ => trivial) ?_)
  rw [hstate]
  refine acts_bind (ht.sink howner hreserved hsinks fun a v₁ d₁ ht₁ _ => ?_)
  refine acts_bind (acts_check (fun _ => ?_) fun _ => ⟨_, d₁, d₁, ht₁⟩)
  obtain ⟨hconfirmed, hmoves₁⟩ := ht₁.confirm_step none
  refine acts_bind (acts_update hmoves₁ (fun _ => trivial) ?_)
  refine acts_bind (hconfirmed.ask .assertCurrent nofun nofun fun after v₂ d₂ ht₂ _ htakes _ _ => ?_)
  cases hafter : after.checkedAt? with
  | none =>
    obtain ⟨hended, hmoves₂⟩ := ht₂.confirm_step (after.endedAt?.filter fun ms => attemptedAt ≤ ms)
    exact acts_bind (acts_update hmoves₂ (fun _ => trivial) (acts_throw ⟨_, _, _, hended⟩))
  | some confirmedAt =>
    refine acts_bind (acts_check (fun _ => ?_) fun _ => ⟨_, d₂, d₂, ht₂⟩)
    obtain ⟨hdone, hmoves₂⟩ := ht₂.confirm_step (some confirmedAt)
    refine acts_bind (acts_update hmoves₂ (fun _ => trivial) (acts_bind (acts_state ?_)))
    exact ⟨⟨_, _, _, hdone⟩, rfl, rfl, htakes⟩

end Attempt

section Commit

/-- A commit with the token returns. -/
theorem Turn.returns (ht : Turn k id c v s d₀ d) {f : Delivery → Delivery} {r : Result}
    (hm : d.Moves (f d)) (howner : (f d).ownerActive = d.ownerActive)
    (hdisclosure : (f d).disclosure = d.disclosure)
    (hr : r ≠ .protectionFailed .operationUntrusted none) (hreports : r.disclosure = v.state.history)
    (hend : (f d).failed = true ∨ r.isCommitted = true ∧ ∃ e ∈ v.history, Takes e) :
    v.state.Moves (v.state.deliver f) ∧ Ends k id c { v with state := v.state.deliver f } r := by
  have hafter : (v.state.deliver f).delivery = some (f d) := by
    rw [State.deliver, ht.after, Option.map_some]
  have hhistory : (v.state.deliver f).history = v.state.history := by
    rw [State.history, State.history, hafter, ht.after, Option.map_some, Option.map_some, hdisclosure]
  refine ⟨⟨fun x hx => ?_, fun hr => hr⟩, ?_⟩
  · obtain rfl := Option.some.inj (ht.after.symm.trans hx)
    exact ⟨_, hafter, hm⟩
  · refine ht.push hafter rfl rfl hm howner (fun _ => Outcome.returned_ne_settled)
      Outcome.returned_ne_asked ?_ (fun hne => ?_) (.inr ⟨r, rfl⟩) (fun r' hr' => ?_) ⟨.inl (hreports.trans hhistory.symm), fun hfirst => ?_, fun _ => ?_⟩
    · rw [hdisclosure]
      exact ⟨.inl, fun h => h.resolve_right Outcome.returned_ne_asked⟩
    · exact Lifecycle.closed_of_le (ht.spent (hdisclosure ▸ hne)) hm.lifecycle
    · obtain rfl := Outcome.returned.inj hr'
      exact hr
    · rcases hend with hfailed | ⟨-, e, he, htakes⟩
      · exact ⟨f d, hafter, hfailed⟩
      · exact absurd htakes (hfirst.alone e he)
    · exact hend.symm.imp And.left fun hfailed => ⟨f d, hafter, hfailed⟩

theorem refusal_ne (refusal : Refusal) (history : Option Disclosure) :
    refusal.result history ≠ .protectionFailed .operationUntrusted none := by
  cases refusal <;> simp [Refusal.result]

theorem refusal_disclosure (refusal : Refusal) (history : Option Disclosure) :
    (refusal.result history).disclosure = history := by cases refusal <;> rfl

/-- A commit that finds the token takes it. -/
theorem Inv.reserves (hinv : Inv k s h) (hpast : ∀ e ∈ h, e.state.Moves s) (hid : id ≠ 0)
    (hc : c.isSome = true) (hd : s.delivery = some d) (howner : d.ownerActive = true)
    (havailable : d.lifecycle = .available) :
    Turn k id c ⟨true, [], h, s.deliver fun d => { d with lifecycle := .reserved, pending := true }⟩
      s d { d with lifecycle := .reserved, pending := true } where
  called := hid
  commit := hc
  inv := hinv
  past := hpast
  before := hd
  after := by rw [State.deliver, hd, Option.map_some]
  disposed := rfl
  unregistered := hinv.unregistered hd (.inr howner)
  moves :=
    { prepared := rfl
      atMs := rfl
      owner := fun h => h
      lifecycle := by
        rw [havailable]
        exact Nat.zero_le _
      failed := fun h => h
      invoked := fun h => h
      settled := fun hd => absurd (howner.symm.trans hd) (by decide) }
  owner := rfl
  pending := rfl
  taken := nofun
  external := Iff.rfl
  alone e he hh := absurd havailable ((hinv.fits d hd).held ⟨e, he, hh⟩)
  was := hinv.unregistered hd (.inr howner)

/-- A commit that has taken the token of a delivery `d'`. -/
theorem acts_reservedCommit (ht : Turn k id c v s d₀ d) (hlog : v.log = [])
    (hprepared : d'.prepared = d.prepared) (hdisclosure : d'.disclosure = d.disclosure) :
    Does k id c (Ends k id c) (Ends k id c)
      (do
        match ← Act.attempt (do attemptCommit (← authorizeCommit k call d')) with
        | .ok result =>
          Act.update fun s => s.deliver fun d => { d with pending := false }
          return result
        | .error refusal =>
          Act.update fun s => s.deliver fun d =>
            { d with failed := true, lifecycle := .closed, pending := false }
          return refusal.result (← Act.state).history : Stops Result) v := by
  rw [show authorizeCommit k call d' = authorizeCommit k call d by
    rw [authorizeCommit, authorizeCommit, hprepared, hdisclosure]]
  refine acts_bind (acts_attempt ?_)
  have hdone (v' : Sight) (r : Result) (hr : Commits' k id c v' r) :
      Does k id c (Ends k id c) (Ends k id c)
        (do
          Act.update fun s => s.deliver fun d => { d with pending := false }
          return r : Stops Result) v' := by
    obtain ⟨s', d₁, d', ht'⟩ := hr.turn
    have hm : d'.Moves { d' with pending := false } :=
      ⟨rfl, rfl, fun h => h, le_rfl, fun h => h, fun h => h,
        fun _ _ hp => absurd (ht'.pending.symm.trans hp) (by decide)⟩
    obtain ⟨hmoves, hends⟩ := ht'.returns (f := fun d => { d with pending := false }) hm rfl rfl
      (fun heq => by rw [heq] at hr; cases hr.committed) hr.reports (.inr ⟨hr.committed, hr.takes⟩)
    exact acts_bind (acts_update hmoves (fun _ => trivial) hends)
  have hrefused (v' : Sight) (refusal : Refusal) (hr : Refuses k id c v' refusal) :
      Does k id c (Ends k id c) (Ends k id c)
        (do
          Act.update fun s => s.deliver fun d =>
            { d with failed := true, lifecycle := .closed, pending := false }
          return refusal.result (← Act.state).history : Stops Result) v' := by
    obtain ⟨s', d₁, d', ht'⟩ := hr
    have hm : d'.Moves { d' with failed := true, lifecycle := .closed, pending := false } :=
      ⟨rfl, rfl, fun h => h, Lifecycle.rank_le_closed _, fun _ => rfl, fun h => h,
        fun _ _ hp => absurd (ht'.pending.symm.trans hp) (by decide)⟩
    have hhistory : (v'.state.deliver fun d =>
        { d with failed := true, lifecycle := .closed, pending := false }).history =
          v'.state.history := by
      rw [State.history, State.history, State.deliver, ht'.after]
      rfl
    obtain ⟨hmoves, hends⟩ := ht'.returns
      (f := fun d => { d with failed := true, lifecycle := .closed, pending := false }) hm rfl rfl
      (refusal_ne refusal _) (refusal_disclosure refusal _) (.inl rfl)
    refine acts_bind (acts_update hmoves (fun _ => trivial) (acts_bind (acts_state ?_)))
    dsimp only
    rw [hhistory]
    exact hends
  refine (acts_bind (acts_authorizeCommit ht hlog
    fun v' d' raw context observedAt attemptedAt ht' hmoves howner hreserved hlog' hlater hpermits =>
      ?_)).imp hdone hrefused
  refine acts_attemptCommit ht' howner hreserved fun honce hwaits hhanded => ⟨honce, hwaits,
    d'.attempt attemptedAt, raw, context, observedAt, attemptedAt, rfl, hlog', ?_, ?_, ?_⟩
  · exact hhanded
  · rw [← hmoves.atMs] at hlater
    exact hlater
  · rw [← hmoves.prepared] at hpermits
    exact hpermits

/-- A commit that does not find the token changes nothing. -/
theorem Inv.turnsAway (hinv : Inv k s h) (hid : id ≠ 0) (hc : c.isSome = true) {r : Result}
    (hok : Returns h ⟨id, c, [], .returned r, s⟩ r) :
    Inv k s (h ++ [⟨id, c, [], .returned r, s⟩]) := by
  have hpasses : Passes 0 (⟨id, c, [], .returned r, s⟩ : Happening) := fun h => absurd h hid
  have hholds : ¬ Holds (⟨id, c, [], .returned r, s⟩ : Happening) := fun ⟨_, _, hq⟩ => nomatch hq
  have hquiet : Quiet (⟨id, c, [], .returned r, s⟩ : Happening) := ⟨nofun, nofun⟩
  refine hinv.push (fun _ => ?_) (fun hd => absurd hd hquiet.deliver)
    (fun hs => absurd hs hquiet.sink) ?_ (fun hh => absurd hh hholds)
    (fun hh => absurd hh hholds) (fun d hd => ?_) ?_ (fun hr => (hinv.registered hr).append rfl) hok
  · refine ⟨fun h => absurd h hid, fun hn => ?_⟩
    cases hc.symm.trans hn
  · rw [hquiet.deliver_iff]
    exact hinv.made
  · have hfits := hinv.fits d hd
    refine hfits.next (.refl d) (fun _ => hpasses) hfits.shut ?_ hfits.spent
      (fun hh => absurd hh hholds) (fun _ hne => .inl hne) fun f hf hh => ?_
    · exact ⟨.inl, fun h => h.resolve_right hquiet.sink⟩
    · rcases mem_append_entry.mp hf with hf | rfl
      · exact (hfits.running f hf hh).imp_left Returned.append
      · exact absurd hh hholds
  · rw [waits_append hpasses]
    exact hinv.opened

/-- Every commit keeps to the rules. -/
theorem meets_commit (hinv : Inv k s h) (hpast : ∀ e ∈ h, e.state.Moves s)
    (hnew : ∀ e ∈ h, e.id ≠ id) (hid : id ≠ 0) (call : Call) :
    Meets Query.sync (rules k) id (some call) (commitProtectedTransport k call) ⟨true, [], h, s⟩ := by
  refine meets_settled (acts_bind (acts_state (acts_bind (acts_need (fun d hd => ?_)
    fun hnone => ?_))))
  · obtain ⟨hd, -⟩ := Option.filter_eq_some_iff.mp hd
    refine acts_bind (acts_check (fun hfree => ?_) fun htaken => ?_)
    · have ht := hinv.reserves hpast hid (c := some call) rfl hd hfree.1 hfree.2
      refine acts_bind (acts_update ⟨fun x hx => ?_, fun hr => hr⟩ (fun _ => trivial) ?_)
      · obtain rfl := Option.some.inj (hd.symm.trans hx)
        exact ⟨_, ht.after, ht.moves⟩
      · exact acts_reservedCommit ht rfl rfl rfl
    · refine hinv.turnsAway hid rfl ⟨.inl rfl, fun hfirst => ?_, fun ⟨e, he, heq, _⟩ =>
        absurd heq (hnew e he)⟩
      obtain ⟨x, hx, hactive⟩ := hinv.opened hfirst.waits hfirst.live
      obtain rfl := Option.some.inj (hd.symm.trans hx)
      refine absurd ⟨hactive, ?_⟩ htaken
      by_contra hne
      obtain ⟨e, he, htakes⟩ := (hinv.fits d hd).taken hactive hne
      exact hfirst.alone e he htakes
  · refine hinv.turnsAway hid rfl ⟨.inr ⟨rfl, rfl⟩, fun hfirst => ?_, fun ⟨e, he, heq, _⟩ =>
      absurd heq (hnew e he)⟩
    obtain ⟨x, hx, -⟩ := hinv.opened hfirst.waits hfirst.live
    have htoken : call.operation = true := hfirst.token
    rw [show s.delivery = some x from hx, Option.filter_some, htoken, if_pos rfl] at hnone
    cases hnone

end Commit

end Kdna.ProtectedRead

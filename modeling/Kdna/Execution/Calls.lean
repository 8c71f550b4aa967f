import Kdna.Execution.Host

/-!
# What the steps of a call do

A specification of a step of `consume` says of its value, its events, its log and the state behind
it what the next step may use. While the step waits, the state only keeps to what other calls and the
environment leave of it.
-/

namespace Kdna.Execution

open Value Read Reentrant Act

/-- The questions of a call with their answers. -/
abbrev Log := List (Query × Reply)

/-- What the other calls and the environment leave: ids stay reserved, and time does not go back. -/
structure Keeps (s t : HostState) : Prop where
  requests : s.seenRequests ⊆ t.seenRequests
  runs : s.seenRuns ⊆ t.seenRuns
  time : s.lastTime.1 ≤ t.lastTime.1

theorem Keeps.refl (s : HostState) : Keeps s s := ⟨List.Subset.refl _, List.Subset.refl _, le_rfl⟩

theorem Keeps.trans {s t u : HostState} (h : Keeps s t) (h' : Keeps t u) : Keeps s u :=
  ⟨List.Subset.trans h.requests h'.requests, List.Subset.trans h.runs h'.runs, h.time.trans h'.time⟩

/-- From the events, the log and the state, the step only asks what `G` allows, and ends in what `Q`
says of its value or `E` of its error. -/
def Act.Meets {β : Type} (G : Log → HostState → Query → Prop) (x : Act β)
    (Q : β → List TraceEvent → Log → HostState → Prop)
    (E : Thrown → List TraceEvent → Log → HostState → Prop) (events : List TraceEvent) (log : Log)
    (s : HostState) : Prop :=
  Prog.Meets Keeps G (fun log s p =>
    match p.1 with
    | .ok b => Q b p.2 log s
    | .error e => E e p.2 log s) (x.run.run events) log s

section Rules

variable {β γ : Type} {G : Log → HostState → Query → Prop}
  {Q : β → List TraceEvent → Log → HostState → Prop}
  {E : Thrown → List TraceEvent → Log → HostState → Prop} {events : List TraceEvent} {log : Log}
  {s : HostState}

theorem meets_bind {x : Act γ} {f : γ → Act β}
    (h : x.Meets G (fun c events log s => (f c).Meets G Q E events log s) E events log s) :
    (x >>= f).Meets G Q E events log s := by
  refine Prog.meets_bind (h.imp fun log s p hp => ?_)
  obtain ⟨result, events⟩ := p
  cases result with
  | ok c => exact hp
  | error e => exact hp

theorem meets_return {b : β} (h : Q b events log s) : (pure b : Act β).Meets G Q E events log s := h

theorem meets_fail {c : Code} (h : E (.code c) events log s) :
    (fail c : Act β).Meets G Q E events log s := h

theorem meets_throw {e : Thrown} (h : E e events log s) :
    (throw e : Act β).Meets G Q E events log s := h

theorem meets_check {p : Prop} [Decidable p] {c : Code}
    {Q : Unit → List TraceEvent → Log → HostState → Prop} (h : p → Q () events log s)
    (he : ¬ p → E (.code c) events log s) : (check p c).Meets G Q E events log s := by
  unfold check
  split
  · next hp => exact h hp
  · next hp => exact he hp

theorem meets_need {c : Code} {value : Option β} (h : ∀ b, value = some b → Q b events log s)
    (he : value = none → E (.code c) events log s) : (need c value).Meets G Q E events log s := by
  cases value with
  | none => exact he rfl
  | some b => exact h b rfl

theorem meets_settled {value : Except Code β} (h : ∀ b, value = .ok b → Q b events log s)
    (he : ∀ c, value = .error c → E (.code c) events log s) :
    (settled value).Meets G Q E events log s := by
  cases value with
  | error c => exact he c rfl
  | ok b => exact h b rfl

theorem meets_ask {q : Query} {Q : Reply → List TraceEvent → Log → HostState → Prop}
    (hg : G log s q) (h : ∀ a t, Keeps s t → Q a events (log ++ [(q, a)]) t) :
    (ask q).Meets G Q E events log s := ⟨hg, h⟩

theorem meets_host {Q : HostState → List TraceEvent → Log → HostState → Prop}
    (h : Q s events log s) : host.Meets G Q E events log s := h

theorem meets_setHost {t : HostState} {Q : Unit → List TraceEvent → Log → HostState → Prop}
    (ht : Keeps s t) (h : Q () events log t) : (setHost t).Meets G Q E events log s := ⟨ht, h⟩

theorem meets_event {kind : Kind} {id : Option Identifier} {time : UInt}
    {Q : Unit → List TraceEvent → Log → HostState → Prop}
    (h : Q () (events ++ [⟨count events.length, time, kind, eventSources kind, id⟩]) log s) :
    (event kind id time).Meets G Q E events log s := h

theorem meets_events {Q : List TraceEvent → List TraceEvent → Log → HostState → Prop}
    (h : Q events events log s) : (getThe (List TraceEvent) : Act _).Meets G Q E events log s := h

theorem meets_map {f : γ → β} {x : Act γ} (h : x.Meets G (fun c => Q (f c)) E events log s) :
    (f <$> x).Meets G Q E events log s := meets_bind h

theorem meets_tryCatch {x : Act β} {handle : Thrown → Act β}
    (h : x.Meets G Q (fun e events log s => (handle e).Meets G Q E events log s) events log s) :
    (tryCatch x handle).Meets G Q E events log s := by
  refine Prog.meets_bind (h.imp fun log s p hp => ?_)
  obtain ⟨result, events⟩ := p
  cases result with
  | ok c => exact hp
  | error e => exact hp

end Rules

section Steps

variable {k : Route} {β : Type} {G : Log → HostState → Query → Prop}
  {E : Thrown → List TraceEvent → Log → HostState → Prop} {events : List TraceEvent} {log : Log}
  {s : HostState}

/-- The clock may be asked from the state on. -/
def Clocked (G : Log → HostState → Query → Prop) (s : HostState) : Prop :=
  ∀ log t, Keeps s t → G log t .clock

theorem Clocked.keeps {t : HostState} (h : Clocked G s) (ht : Keeps s t) : Clocked G t :=
  fun log u hu => h log u (ht.trans hu)

theorem meets_now {Q : UInt → List TraceEvent → Log → HostState → Prop} (hclock : Clocked G s)
    (h : ∀ reply t s', reply.time? = some t → Keeps s s' → s.lastTime.1 ≤ t.1 → s'.lastTime = t →
      Q t events (log ++ [(.clock, reply)]) s')
    (he : ∀ c log s', c = .providerFailed ∨ c = .hostInvalid → Keeps s s' →
      E (.code c) events log s') :
    now.Meets G Q E events log s := by
  refine meets_bind (meets_ask (hclock log s (Keeps.refl s)) fun reply t ht => ?_)
  refine meets_bind (meets_check (fun _ => ?_) fun _ => he _ _ _ (.inl rfl) ht)
  refine meets_bind (meets_need (fun value hvalue => ?_) fun _ => he _ _ _ (.inr rfl) ht)
  refine meets_bind (meets_host ?_)
  refine meets_bind (meets_check (fun hle => ?_) fun _ => he _ _ _ (.inr rfl) ht)
  have hset : Keeps t { t with lastTime := value } :=
    ⟨List.Subset.refl _, List.Subset.refl _, hle⟩
  exact meets_bind (meets_setHost hset
    (meets_return (h reply value _ hvalue (ht.trans hset) (ht.time.trans hle) rfl)))

/-- What `exactRecord` reads in an answer. -/
def Records (fields : List String) (reply : Reply) (v : Json) : Prop :=
  ∃ w, reply = .value w ∧ copyJson w = .ok v ∧ Ir.closedObject v fields [] = true

theorem meets_exactRecord {fields : List String} {reply : Reply}
    {Q : Json → List TraceEvent → Log → HostState → Prop}
    (h : ∀ v, Records fields reply v → Q v events log s)
    (he : ∀ e, E e events log s) :
    (exactRecord k fields reply).Meets G Q E events log s := by
  cases reply with
  | threw => exact meets_fail (he _)
  | foreign => exact meets_fail (he _)
  | hostile t => exact meets_throw (he _)
  | value w =>
    refine meets_bind (meets_need (fun v hv => ?_) fun _ => he _)
    refine meets_bind (meets_check (fun hclosed => ?_) fun _ => he _)
    cases hcopy : copyJson w with
    | error e =>
      rw [hcopy] at hv
      cases hv
    | ok u =>
      rw [hcopy] at hv
      obtain rfl := Option.some.inj hv
      exact meets_return (h u ⟨w, rfl, hcopy, hclosed⟩)

variable {digest : Bytes → Digest} {config : Config} {r : Admitted k}

/-- The answer is a response that allows the request, and the clock was within its times. -/
structure Granted (digest : Bytes → Digest) (config : Config) (r : Admitted k) (reply : Reply)
    (a : Authorization) : Prop where
  response : ∃ v g, Records grantNames reply v ∧
    grant? config (digestCanonical digest (r.wire.json k)) v = some g ∧ g.allows = true ∧
    g.authorizationId = a.authorizationId ∧ g.expiresAt = a.expiresAt ∧
    g.issuedAt.1 ≤ a.verifiedAt.1
  unexpired : a.verifiedAt.1 < a.expiresAt.1

theorem meets_authorize {phase : Phase}
    {Q : Authorization → List TraceEvent → Log → HostState → Prop} (hclock : Clocked G s)
    (hg : G log s (.authorize phase))
    (h : ∀ reply clock a s', Granted digest config r reply a → clock.time? = some a.verifiedAt →
      Keeps s s' → s.lastTime.1 ≤ a.verifiedAt.1 → s'.lastTime = a.verifiedAt →
      Q a (events ++ [⟨count events.length, a.verifiedAt, phase.kind, eventSources phase.kind,
          some a.authorizationId⟩]) (log ++ [(.authorize phase, reply), (.clock, clock)]) s')
    (he : ∀ e log s', Keeps s s' → E e events log s') :
    (authorize digest config r phase).Meets G Q E events log s := by
  refine meets_bind (meets_ask hg fun reply t ht => ?_)
  refine meets_bind (meets_exactRecord (fun v hv => ?_) fun e => he _ _ _ ht)
  refine meets_bind (meets_need (fun g hgrant => ?_) fun _ => he _ _ _ ht)
  refine meets_bind (meets_check (fun hallows => ?_) fun _ => he _ _ _ ht)
  refine meets_bind (meets_now (hclock.keeps ht) (fun clock time s' htime hs' hle hlast => ?_)
    fun c log s' _ hs' => he _ _ _ (ht.trans hs'))
  refine meets_bind (meets_check (fun hwindow => ?_) fun _ => he _ _ _ (ht.trans hs'))
  refine meets_bind (meets_event (meets_return ?_))
  rw [List.append_assoc]
  exact h reply clock ⟨g.authorizationId, g.expiresAt, time⟩ s'
    ⟨⟨v, g, hv, hgrant, hallows, rfl, rfl, hwindow.1⟩, hwindow.2⟩ htime (ht.trans hs')
    (ht.time.trans hle) hlast

theorem meets_observeDelivery {Q : Delivery → List TraceEvent → Log → HostState → Prop}
    (hclock : Clocked G s) (hg : G log s .observeDelivery)
    (h : ∀ reply clock id t s', r.wire.capsuleDigest = digestCanonical digest r.capsule →
      Keeps s s' → s.lastTime.1 ≤ t.1 → s'.lastTime = t →
      Q ⟨id, r.wire.capsuleDigest, r.wire.capsuleDigest, r.wire.capsuleDigest⟩
        (events ++ [⟨count events.length, t, .deliveryVerified, .deliveryProvider, some id⟩])
        (log ++ [(.observeDelivery, reply), (.clock, clock)]) s')
    (he : ∀ e log s', Keeps s s' → E e events log s') :
    (observeDelivery digest r).Meets G Q E events log s := by
  refine meets_bind (meets_ask hg fun reply t ht => ?_)
  refine meets_bind (meets_exactRecord (fun v _ => ?_) fun e => he _ _ _ ht)
  refine meets_bind (meets_need (fun id _ => ?_) fun _ => he _ _ _ ht)
  refine meets_bind (meets_check (fun hbound => ?_) fun _ => he _ _ _ ht)
  refine meets_bind (meets_now (hclock.keeps ht) (fun clock time s' _ hs' hle hlast => ?_)
    fun c log s' _ hs' => he _ _ _ (ht.trans hs'))
  refine meets_bind (meets_event (meets_return ?_))
  rw [List.append_assoc, ← hbound.2.2.2]
  exact h reply clock id time s' hbound.2.2.2 (ht.trans hs') (ht.time.trans hle) hlast

theorem meets_observeOutcome {Q : String → List TraceEvent → Log → HostState → Prop}
    (hclock : Clocked G s) (hg : G log s .observeOutcome)
    (h : ∀ reply clock output id t s',
      (Utf8.encode output).length ≤ r.plan.budget.outputBytes.1 →
      (∃ v, Records ["observation_id", "status", "output"] reply v ∧
        member? v "output" text? = some output) →
      Keeps s s' → s.lastTime.1 ≤ t.1 → s'.lastTime = t →
      Q output (events ++ [⟨count events.length, t, .outcomeObserved, .outcomeProvider, some id⟩])
        (log ++ [(.observeOutcome, reply), (.clock, clock)]) s')
    (he : ∀ e log s', Keeps s s' → E e events log s') :
    (observeOutcome r).Meets G Q E events log s := by
  refine meets_bind (meets_ask hg fun reply t ht => ?_)
  refine meets_bind (meets_exactRecord (fun v hv => ?_) fun e => he _ _ _ ht)
  refine meets_bind (meets_need (fun id _ => ?_) fun _ => he _ _ _ ht)
  refine meets_bind (meets_need (fun completed _ => ?_) fun _ => he _ _ _ ht)
  cases completed with
  | false => exact meets_bind (meets_check (fun _ => meets_fail (he _ _ _ ht)) fun _ => he _ _ _ ht)
  | true =>
    refine meets_bind (meets_need (fun output houtput => ?_) fun _ => he _ _ _ ht)
    refine meets_bind (meets_check (fun hbytes => ?_) fun _ => he _ _ _ ht)
    refine meets_bind (meets_now (hclock.keeps ht) (fun clock time s' _ hs' hle hlast => ?_)
      fun c log s' _ hs' => he _ _ _ (ht.trans hs'))
    refine meets_bind (meets_event (meets_return ?_))
    rw [List.append_assoc]
    exact h reply clock output id time s' hbytes ⟨v, hv, houtput⟩ (ht.trans hs')
      (ht.time.trans hle) hlast

end Steps

end Kdna.Execution

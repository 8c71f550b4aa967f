import Kdna.Execution.Calls

/-!
# At most one execution

A host asks its providers at most once about a request and a run, whatever calls interleave, and
an output that it returns was allowed before the run and before its release. The second
authorization is unexpired at the release. The first one is only unexpired where it is observed.
-/

namespace Kdna.Execution

open Value Read Reentrant Act

variable {k : Route} {digest : Bytes → Digest} {config : Config}

/-- The ids of a request are reserved. -/
def Reserved (r : Admitted k) (s : HostState) : Prop :=
  r.wire.requestId ∈ s.seenRequests ∧ r.wire.runId ∈ s.seenRuns

theorem Reserved.keeps {r : Admitted k} {s t : HostState} (h : Reserved r s) (ht : Keeps s t) :
    Reserved r t := ⟨ht.requests h.1, ht.runs h.2⟩

/-- Every question of a call finds its ids reserved, and no provider is asked twice. -/
def Asks (token : Option (Admitted k)) (log : Log) (s : HostState) (q : Query) : Prop :=
  ∃ r, token = some r ∧ Reserved r s ∧ (q ≠ .clock → q ∉ log.map Prod.fst)

theorem clocked_asks {r : Admitted k} {s : HostState} (h : Reserved r s) :
    Clocked (Asks (some r)) s :=
  fun _ _ ht => ⟨r, rfl, h.keeps ht, fun hne => absurd rfl hne⟩

/-- What the log of a call shows that returns the output: `a` allowed the run where it was observed,
and `b` allowed the output where it was observed and was unexpired at the release. -/
structure Shows (digest : Bytes → Digest) (config : Config) (r : Admitted k) (log : Log)
    (output : String) (a b : Authorization) (release : UInt) : Prop where
  log_eq : ∃ c₀ d c₁ x c₂ o c₃ y c₄ c₅,
    log = [(.clock, c₀), (.observeDelivery, d), (.clock, c₁), (.authorize .execution, x),
      (.clock, c₂), (.observeOutcome, o), (.clock, c₃), (.authorize .output, y), (.clock, c₄),
      (.clock, c₅)] ∧
    Granted digest config r x a ∧ c₂.time? = some a.verifiedAt ∧
    (∃ v, Records ["observation_id", "status", "output"] o v ∧
      member? v "output" text? = some output) ∧
    Granted digest config r y b ∧ c₄.time? = some b.verifiedAt ∧ c₅.time? = some release
  ordered : a.verifiedAt.1 ≤ b.verifiedAt.1 ∧ b.verifiedAt.1 ≤ release.1
  unexpired : release.1 < b.expiresAt.1

/-- What a call answers: an output only behind two authorizations. -/
def Answers (digest : Bytes → Digest) (config : Config) (token : Option (Admitted k)) (log : Log)
    (_ : HostState) (response : Response) : Prop :=
  ∀ status body output bytes, response = .answered status body (some output) bytes →
    ∃ r a b release, token = some r ∧ Shows digest config r log output a b release

/-- What is left to show behind the providers. -/
def Passed (digest : Bytes → Digest) (config : Config) (r : Admitted k) (c₀ : Reply)
    (completed : Completed) (log : Log) (s : HostState) : Prop :=
  ∃ d c₁ x c₂ o c₃ y c₄ a,
    log = [(.clock, c₀), (.observeDelivery, d), (.clock, c₁), (.authorize .execution, x),
      (.clock, c₂), (.observeOutcome, o), (.clock, c₃), (.authorize .output, y), (.clock, c₄)] ∧
    Granted digest config r x a ∧ c₂.time? = some a.verifiedAt ∧
    (∃ v, Records ["observation_id", "status", "output"] o v ∧
      member? v "output" text? = some completed.output) ∧
    Granted digest config r y completed.authorization ∧
    c₄.time? = some completed.authorization.verifiedAt ∧
    a.verifiedAt.1 ≤ completed.authorization.verifiedAt.1 ∧
    completed.authorization.verifiedAt.1 ≤ s.lastTime.1

theorem meets_execute {r : Admitted k} {events : List TraceEvent} {c₀ : Reply} {s : HostState}
    (hr : Reserved r s) :
    (execute digest config r).Meets (Asks (some r))
      (fun completed _ log s => Reserved r s ∧ Passed digest config r c₀ completed log s)
      (fun _ _ _ s => Reserved r s) events [(.clock, c₀)] s := by
  have hask {log : Log} {t : HostState} {q : Query} (ht : Keeps s t)
      (hq : q ∉ log.map Prod.fst) : Asks (some r) log t q := ⟨r, rfl, hr.keeps ht, fun _ => hq⟩
  have hclock {t : HostState} (ht : Keeps s t) : Clocked (Asks (some r)) t :=
    clocked_asks (hr.keeps ht)
  refine meets_bind (meets_observeDelivery (hclock (Keeps.refl s)) (hask (Keeps.refl s) ?_)
    (fun d c₁ id t₁ s₁ _ hs₁ _ _ => ?_) fun _ _ _ => hr.keeps)
  · simp
  refine meets_bind (meets_authorize (hclock hs₁) (hask hs₁ ?_)
    (fun x c₂ a s₂ ha hc₂ hk₂ hle₂ hlast₂ => ?_) fun _ _ _ hk => hr.keeps (hs₁.trans hk))
  · simp
  have hs₂ := hs₁.trans hk₂
  refine meets_bind (meets_observeOutcome (hclock hs₂) (hask hs₂ ?_)
    (fun o c₃ output id t₃ s₃ _ houtput hk₃ hle₃ hlast₃ => ?_)
    fun _ _ _ hk => hr.keeps (hs₂.trans hk))
  · simp
  have hs₃ := hs₂.trans hk₃
  refine meets_bind (meets_authorize (hclock hs₃) (hask hs₃ ?_)
    (fun y c₄ b s₄ hb hc₄ hk₄ hle₄ hlast₄ => ?_) fun _ _ _ hk => hr.keeps (hs₃.trans hk))
  · simp
  refine meets_return ⟨hr.keeps (hs₃.trans hk₄), ?_⟩
  have hab : a.verifiedAt.1 ≤ b.verifiedAt.1 := by
    rw [← hlast₂]
    exact hk₃.time.trans hle₄
  exact ⟨d, c₁, x, c₂, o, c₃, y, c₄, a, rfl, ha, hc₂, houtput, hb, hc₄, hab,
    (congrArg Subtype.val hlast₄).ge⟩

/-- A completed execution answers as it should, and every other one without an output. -/
theorem meets_finish {r : Admitted k} {decided : Decided} {time : UInt} {events : List TraceEvent}
    {log : Log} {s : HostState}
    (h : ∀ completed, decided = .ok completed → ∃ a, Shows digest config r log completed.output a
      completed.authorization time) :
    (finish digest r decided time).Meets (Asks (some r))
      (fun response _ log s => Answers digest config (some r) log s response)
      (fun _ _ _ _ => True) events log s := by
  refine meets_bind (meets_event (meets_bind (meets_events (meets_bind (meets_host ?_)))))
  have houtput {status : Status} {completed : Option Completed} {failure : Option Code}
      {response : Response} (hresponse : respond digest r s.current status completed failure time
        (events ++ [⟨count events.length, time, .ended decided.status,
          eventSources (.ended decided.status), none⟩]) = .ok response)
      (hcompleted : ∀ c, completed = some c → decided = .ok c) :
      Answers digest config (some r) log s response := by
    intro status' body output bytes hanswered
    simp only [respond, bind_eq_ok_iff, require_eq_ok_iff, pure_eq_ok, Except.ok.injEq,
      exists_const] at hresponse
    obtain ⟨-, -, _, -, -, rfl⟩ := hresponse
    obtain ⟨-, -, hsome, -⟩ := Response.answered.inj hanswered
    obtain ⟨c, hc, rfl⟩ := Option.map_eq_some_iff.mp hsome
    obtain ⟨a, ha⟩ := h c (hcompleted c hc)
    exact ⟨r, a, c.authorization, time, rfl, ha⟩
  cases decided with
  | error failure =>
    cases failure with
    | none => exact meets_throw trivial
    | some c =>
      exact meets_settled (fun response hresponse => houtput hresponse fun _ hc => nomatch hc)
        fun _ _ => trivial
  | ok completed =>
    exact meets_settled
      (fun response hresponse => houtput hresponse fun _ hc => congrArg _ (Option.some.inj hc))
      fun _ _ => trivial

theorem meets_consumption (token : Option (Admitted k)) (s : HostState) :
    (consumption digest config token).Meets (Asks token)
      (fun response _ log s => Answers digest config token log s response)
      (fun _ _ _ _ => True) [] [] s := by
  refine meets_bind (meets_bind (meets_need (fun r hr => ?_) fun _ => trivial))
  subst hr
  refine meets_bind (meets_host (meets_bind (meets_check (fun _ => meets_return ?_) fun _ => trivial)))
  refine meets_bind (meets_check (fun _ => ?_) fun _ => trivial)
  refine meets_bind (meets_bind (meets_host (meets_bind (meets_check (fun _ => ?_)
    fun _ => trivial))))
  refine meets_setHost ⟨List.subset_cons_self _ _, List.subset_cons_self _ _, le_rfl⟩ ?_
  have hr : Reserved r { s with
      seenRequests := r.wire.requestId :: s.seenRequests
      seenRuns := r.wire.runId :: s.seenRuns } := ⟨List.mem_cons_self, List.mem_cons_self⟩
  generalize ({ s with
      seenRequests := r.wire.requestId :: s.seenRequests
      seenRuns := r.wire.runId :: s.seenRuns } : HostState) = s₀ at hr
  refine meets_bind (meets_check (fun _ => ?_) fun _ => trivial)
  refine meets_bind (meets_now (clocked_asks hr) (fun c₀ t₀ s₁ _ hs₁ _ _ => ?_)
    fun _ _ _ _ _ => trivial)
  refine meets_bind (meets_event ?_)
  -- Whatever the providers did, only the clock is asked behind them.
  have hsettled : (settle (execute digest config r)).Meets (Asks (some r))
      (fun decided _ log s => Reserved r s ∧
        ∀ completed, decided = .ok completed → Passed digest config r c₀ completed log s)
      (fun _ _ _ _ => True) ([] ++ [⟨count ([] : List TraceEvent).length, t₀, .requestAdmitted,
        eventSources .requestAdmitted, none⟩]) ([] ++ [(.clock, c₀)]) s₁ := by
    refine meets_tryCatch (meets_map ((meets_execute (hr.keeps hs₁)).imp ?_))
    rintro log s ⟨result, events⟩ h
    cases result with
    | ok completed =>
      exact ⟨h.1, fun c hc => Except.ok.inj hc ▸ h.2⟩
    | error e =>
      cases e with
      | code c => exact meets_return ⟨h, fun _ hc => nomatch hc⟩
      | other => exact meets_return ⟨h, fun _ hc => nomatch hc⟩
      | escape => exact meets_throw trivial
  refine meets_bind (hsettled.imp ?_)
  rintro log s ⟨result, events⟩ h
  cases result with
  | error e => trivial
  | ok decided =>
    obtain ⟨hreserved, hpassed⟩ := h
    refine meets_bind (meets_tryCatch (meets_now (clocked_asks hreserved)
      (fun c₅ time s' htime hs' hle hlast => ?_) fun c log' s' _ hs' => ?_))
    · refine meets_finish fun completed hcompleted => ?_
      cases decided with
      | error failure => exact nomatch hcompleted
      | ok completed' =>
        rw [Decided.expire] at hcompleted
        split at hcompleted
        · exact nomatch hcompleted
        · next hlive =>
          obtain rfl := Except.ok.inj hcompleted
          obtain ⟨d, c₁, x, c₂, o, c₃, y, c₄, a, rfl, ha, hc₂, houtput, hb, hc₄, hab, hlt⟩ :=
            hpassed _ rfl
          exact ⟨a, ⟨⟨c₀, d, c₁, x, c₂, o, c₃, y, c₄, c₅, rfl, ha, hc₂, houtput, hb, hc₄, htime⟩,
            ⟨hab, hlt.trans hle⟩, Nat.lt_of_not_le hlive⟩⟩
    · cases decided with
      | ok completed => exact meets_throw trivial
      | error failure =>
        dsimp only
        split
        · exact meets_fail trivial
        · refine meets_bind (meets_host (meets_return ?_))
          exact meets_finish fun completed hcompleted => nomatch hcompleted

theorem meets_consume (token : Option (Admitted k)) (s : HostState) :
    (consume digest config token).Meets Keeps (Asks token) (Answers digest config token) [] s := by
  refine Prog.meets_bind ((meets_consumption token s).imp ?_)
  rintro log s ⟨result, events⟩ h
  cases result with
  | ok response => exact h
  | error e =>
    cases e with
    | code c => exact fun _ _ _ _ hresponse => nomatch hresponse
    | other => exact fun _ _ _ _ hresponse => nomatch hresponse
    | escape => exact fun _ _ _ _ hresponse => nomatch hresponse

/-- Two calls share a request or a run. -/
def Shares (token token' : Option (Admitted k)) : Prop :=
  ∃ r r', token = some r ∧ token' = some r' ∧
    (r.wire.requestId = r'.wire.requestId ∨ r.wire.runId = r'.wire.runId)

theorem Shares.symm {token token' : Option (Admitted k)} (h : Shares token token') :
    Shares token' token :=
  let ⟨r, r', hr, hr', hshared⟩ := h
  ⟨r', r, hr', hr, hshared.imp Eq.symm Eq.symm⟩

/-- A call about a request or a run that is reserved asks nothing. -/
theorem consume_reserved {r r' : Admitted k} {s : HostState} (hr : Reserved r s)
    (hshared : r.wire.requestId = r'.wire.requestId ∨ r.wire.runId = r'.wire.runId)
    (q : Query) (next : Reply → Prog HostState Query Reply Response) (t : HostState) :
    (consume digest config (some r')).run s ≠ (.asked q next, t) := by
  have hmeets : (consumption digest config (some r')).Meets (fun _ _ _ => False)
      (fun _ _ _ _ => False) (fun _ _ _ _ => True) [] [] s := by
    refine meets_bind (meets_bind (meets_need (fun r₀ hr₀ => ?_) fun _ => trivial))
    obtain rfl := Option.some.inj hr₀
    refine meets_bind (meets_host (meets_bind (meets_check (fun _ => meets_return ?_)
      fun _ => trivial)))
    refine meets_bind (meets_check (fun _ => ?_) fun _ => trivial)
    refine meets_bind (meets_bind (meets_host (meets_bind (meets_check (fun hfresh => ?_)
      fun _ => trivial))))
    rcases hshared with hrequest | hrun
    · exact absurd (hrequest ▸ hr.1) hfresh.1
    · exact absurd (hrun ▸ hr.2) hfresh.2.1
  have hconsume : (consume digest config (some r')).Meets Keeps (fun _ _ _ => False)
      (fun _ _ _ => True) [] s := by
    refine Prog.meets_bind (hmeets.imp ?_)
    rintro log s ⟨result, events⟩ h
    cases result with
    | ok response => exact h.elim
    | error e => cases e <;> trivial
  exact fun hrun => (hconsume.asked Keeps.refl (fun _ _ _ => Keeps.trans) hrun).2.1

/-- Each request and each run reaches the providers in at most one call, which asks each of them
at most once. -/
structure AtMostOnce (history : List (Entry (Option (Admitted k)) Query Reply Response)) :
    Prop where
  exclusive : ∀ e ∈ history, ∀ e' ∈ history, ∀ q q' r r', e.outcome = .inl q →
    e'.outcome = .inl q' → e.call = some r → e'.call = some r' →
    (r.wire.requestId = r'.wire.requestId ∨ r.wire.runId = r'.wire.runId) → e.id = e'.id
  once : history.Pairwise fun e e' =>
    e.id = e'.id → ∀ q, q ≠ .clock → e.outcome = .inl q → e'.outcome ≠ .inl q

/-- A host before its first call. -/
def fresh (current : ℕ → Bool) : HostState := ⟨[], [], ⟨0, zero_lt_bound⟩, current⟩

/-- What the environment does to the sources: only those of the ordinary route can cease to be
current. -/
def environment : Route → (ℕ → Bool) → HostState → HostState
  | .ordinary, current, s => { s with current := current }
  | .sections _, _, s => s

/-- The host behind a run of calls, answers and steps of the environment. -/
def hostRun (digest : Bytes → Digest) (config : Config) (current : ℕ → Bool)
    (events : List (Event (Option (Admitted k)) Reply (ℕ → Bool))) :
    Machine (Option (Admitted k)) HostState Query Reply Response :=
  events.foldl (Machine.step (consume digest config) (environment k)) (.initial (fresh current))

theorem keeps_environment (current : ℕ → Bool) (s : HostState) :
    Keeps s (environment k current s) := by
  cases k with
  | ordinary => exact ⟨List.Subset.refl _, List.Subset.refl _, le_rfl⟩
  | sections d => exact Keeps.refl s

/-- In every run of a host, nested in any way, a request and a run reach the providers at most
once, and an output is returned only behind an authorization of the run and one of the output that
is unexpired at the release. -/
theorem consume_once (digest : Bytes → Digest) (config : Config) (current : ℕ → Bool)
    (events : List (Event (Option (Admitted k)) Reply (ℕ → Bool))) :
    AtMostOnce (hostRun digest config current events).history ∧
      ∀ e ∈ (hostRun digest config current events).history, ∀ status body output bytes,
        e.outcome = .inr (.answered status body (some output) bytes) →
          ∃ r a b release, e.call = some r ∧ Shows digest config r e.log output a b release := by
  have hconsume (token : Option (Admitted k)) (s : HostState) :
      (consume digest config token).Meets Keeps (Asks token) (Answers digest config token) [] s :=
    meets_consume token s
  have hsound := Machine.sound_run Keeps.refl (fun _ _ _ => Keeps.trans)
    (keeps_environment (k := k)) hconsume (fresh current) events
  have hexclusive := Machine.exclusive_run (C := Shares)
    (H := fun token s => ∃ r, token = some r ∧ Reserved r s) Keeps.refl
    (fun _ _ _ => Keeps.trans) (keeps_environment (k := k))
    hconsume (fun _ _ => Shares.symm)
    (fun _ _ _ _ ⟨r, hr, hreserved, _⟩ => ⟨r, hr, hreserved⟩)
    (fun _ _ _ ht ⟨r, hr, hreserved⟩ => ⟨r, hr, hreserved.keeps ht⟩)
    (fun _ _ _ ⟨_, _, hr, hr', hshared⟩ ⟨_, hr₀, hreserved⟩ => by
      subst hr'
      obtain rfl := Option.some.inj (hr.symm.trans hr₀)
      exact consume_reserved hreserved hshared) (fresh current) events
  refine ⟨⟨fun e he e' he' q q' r r' hq hq' hr hr' hshared => ?_, ?_⟩, ?_⟩
  · by_contra hid
    exact hexclusive e he e' he' q q' hq hq' hid ⟨r, r', hr, hr', hshared⟩
  · refine hsound.ordered.imp_of_mem fun {e e'} _ he' h hid q hq heq heq' => ?_
    obtain ⟨s, -, r, -, -, hnew⟩ := hsound.asked e' he' q heq'
    exact hnew hq (h hid q heq)
  · intro e he status body output bytes houtcome
    obtain ⟨s, -, hanswers⟩ := hsound.returned e he _ houtcome
    exact hanswers status body output bytes rfl

end Kdna.Execution

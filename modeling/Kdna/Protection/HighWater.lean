import Kdna.Protection.Freshness

/-!
# The high-water mark

Every state of the provider that an operation records stays behind all that it records
later, whatever the provider answers and however often the grant is refreshed. An advance
succeeds only for an active grant of the recorded version, and no grant of a version that
was recorded as revoked or expired is advanced again.
-/

namespace Kdna.Protection

variable {op : Operation} {s : State}

/-- A state of the provider that may follow another one. -/
structure HighWater.Follows (later earlier : HighWater) : Prop where
  version : earlier.highestStatusVersion ≤ later.highestStatusVersion
  revision : earlier.revision ≤ later.revision
  time : earlier.lastTrustedTimeMs ≤ later.lastTrustedTimeMs
  status : earlier.highestStatusVersion = later.highestStatusVersion →
    earlier.status = later.status

namespace HighWater.Follows

theorem refl (p : HighWater) : p.Follows p := ⟨le_rfl, le_rfl, le_rfl, fun _ => rfl⟩

theorem trans {p q u : HighWater} (hqp : q.Follows p) (huq : u.Follows q) : u.Follows p := by
  refine ⟨hqp.version.trans huq.version, hqp.revision.trans huq.revision,
    hqp.time.trans huq.time, fun hversion => ?_⟩
  have hmiddle : p.highestStatusVersion = q.highestStatusVersion := by
    have hfirst := hqp.version
    have hsecond := huq.version
    omega
  exact (hqp.status hmiddle).trans (huq.status (hmiddle ▸ hversion))

end HighWater.Follows

/-- An answer that is behind neither the grant nor the time follows the recorded state. -/
theorem behind_eq_false_iff {prior : Option HighWater} {g : Verified} {now : ℕ}
    {state : HighWater} :
    behind prior g now state = false ↔ g.statusVersion ≤ state.highestStatusVersion ∧
      state.lastTrustedTimeMs = now ∧ ∀ p ∈ prior, state.Follows p := by
  cases prior with
  | none => simp [behind]
  | some p =>
    simp only [behind, ne_eq, decide_not, Option.any_some, Bool.or_eq_false_iff, not_lt,
      decide_eq_false_iff_not, Bool.not_eq_eq_eq_not, Bool.not_false, decide_eq_true_eq,
      Bool.and_eq_false_imp, Option.mem_def, Option.some.injEq, forall_eq', and_assoc]
    constructor
    · rintro ⟨hgrant, htime, hversion, hrevision, htimes, hstatus⟩
      exact ⟨hgrant, htime, hversion, hrevision, htimes, fun h => (hstatus h.symm).symm⟩
    · rintro ⟨hgrant, htime, hfollows⟩
      exact ⟨hgrant, htime, hfollows.version, hfollows.revision, hfollows.time,
        fun h => (hfollows.status h.symm).symm⟩

/-- What `advance` does not fail with: the state is active at the grant's own version. -/
theorem stateCode_eq_none_iff {g : Verified} {state : HighWater}
    (hversion : g.statusVersion ≤ state.highestStatusVersion) :
    stateCode g state = none ↔ state.status = .active ∧ g.status = .active ∧
      g.statusVersion = state.highestStatusVersion := by
  have hcases : state.status = .active ∨ state.status = .revoked ∨ state.status = .expired := by
    cases state.status <;> simp
  rw [stateCode]
  rcases hcases with h | h | h
  · simp only [h, reduceCtorEq, if_false, true_and]
    split_ifs with hlater hother
    · simp only [false_iff, not_and]
      omega
    · exact ⟨nofun, fun hboth => absurd hboth.1.symm hother⟩
    · exact ⟨fun _ => ⟨(not_not.mp hother).symm, by omega⟩, fun _ => rfl⟩
  · simp [h]
  · simp [h]

/-- The rejection behind the record: an active state at the version of a grant that is not
active. -/
theorem stateCode_eq_stateRollback_iff {g : Verified} {state : HighWater}
    (hversion : g.statusVersion ≤ state.highestStatusVersion) :
    stateCode g state = some .stateRollback ↔ state.status = .active ∧ g.status ≠ .active ∧
      g.statusVersion = state.highestStatusVersion := by
  have hcases : state.status = .active ∨ state.status = .revoked ∨ state.status = .expired := by
    cases state.status <;> simp
  rw [stateCode]
  rcases hcases with h | h | h
  · simp only [h, reduceCtorEq, if_false, true_and]
    split_ifs with hlater hother
    · simp only [Option.some.injEq, reduceCtorEq, false_iff, not_and]
      omega
    · exact ⟨fun _ => ⟨fun hactive => hother hactive.symm, by omega⟩, fun _ => rfl⟩
    · exact ⟨nofun, fun hboth => absurd (not_not.mp hother).symm hboth.1⟩
  · simp [h]
  · simp [h]

/-- A step keeps the high-water mark. -/
def KeepsMark (s t : State) : Prop := t.record.highWater = s.record.highWater

section Handlers

variable (s) (r : Running)

theorem keepsMark_enterClock (point : Point) : KeepsMark s (s.enterClock r point) := by
  rw [State.enterClock]
  split <;> rfl

theorem keepsMark_afterFirstClock (now : ℕ) : KeepsMark s (s.afterFirstClock op r now) := by
  rw [State.afterFirstClock]
  split
  · split_ifs <;> rfl
  · rfl
  · rfl

theorem keepsMark_afterLastClock (now : ℕ) : KeepsMark s (s.afterLastClock op r now) := by
  rw [State.afterLastClock]
  split <;> rfl

theorem keepsMark_observeClock (generation : ℕ) (reply : ClockReply) :
    KeepsMark s (s.observeClock op r generation reply) := by
  rw [State.observeClock]
  cases clock s.record generation reply with
  | error e => rfl
  | ok now =>
    dsimp only
    split
    · exact keepsMark_afterFirstClock _ _ now
    · split <;> rfl
    · exact keepsMark_afterLastClock _ _ now
    · rfl

theorem keepsMark_assertClock (cp : Checkpoint) (generation : ℕ) (reply : ClockReply) :
    KeepsMark s (s.assertClock op cp generation reply) := by
  unfold State.assertClock
  cases clock s.record generation reply with
  | error e => rfl
  | ok now =>
    dsimp only
    split <;> rfl

theorem keepsMark_clockReturns (reply : ClockReply) : KeepsMark s (s.clockReturns op reply) := by
  rw [State.clockReturns]
  split
  · exact keepsMark_assertClock _ _ _ _
  · exact keepsMark_observeClock _ _ _ _
  · rfl

theorem keepsMark_afterRefresh (g : Verified) (raw : Option Bytes) :
    KeepsMark s (s.afterRefresh op r g raw) := by
  unfold State.afterRefresh
  split
  · rfl
  · rfl
  · split
    · rfl
    · split_ifs
      · rfl
      · rfl
      · exact keepsMark_enterClock _ r _

theorem keepsMark_next : KeepsMark s s.next := by
  rw [State.next]
  split
  · rfl
  · exact keepsMark_enterClock _ _ _
  · split
    · split
      · rfl
      · exact keepsMark_enterClock s _ _
    · rw [State.conclude]
      split_ifs <;> rfl
    · rfl

theorem keepsMark_assertCurrent (cp : Checkpoint) : KeepsMark s (s.assertCurrent cp) := by
  rw [State.assertCurrent]
  split_ifs
  · split <;> rfl
  · rfl

theorem keepsMark_dispose : KeepsMark s s.dispose := by
  rw [State.dispose]
  split_ifs <;> rfl

end Handlers

/-- An advance waits for the provider's answer, with the time and the grant that it asked
for. -/
structure Awaits (s : State) (r : Running) (now : ℕ) (g : Verified) : Prop where
  stack : s.stack = []
  running : s.running = some r
  point : r.point = .advance now g

/-- The provider's answer is accepted: the operation is current, and the state is in the
grant's scope and behind nothing. -/
structure Accepted (s : State) (r : Running) (now : ℕ) (g : Verified)
    (state : HighWater) : Prop where
  current : overtaken s.record r.generation = none
  scope : state.scope = g.scope
  ahead : behind s.record.highWater g now state = false

/-- What the answer to an advance does: it is accepted, recorded and judged, or it is
rejected and the high-water mark is kept. -/
theorem advanceReply_cases {r : Running} {now : ℕ} {g : Verified} (hawaits : Awaits s r now g)
    (answer : Option HighWater) :
    (∃ state, answer = some state ∧ Accepted s r now g state ∧
      s.step op (.advanceReply answer) =
        let kept := { s with record := { s.record with highWater := some state } }
        match stateCode g state with
        | some code => kept.fail r code (stageFor r.phase)
        | none => kept.goOn r .advanced) ∨
    ∃ code, s.step op (.advanceReply answer) = s.fail r code (stageFor r.phase) := by
  obtain ⟨hstack, hrunning, hpoint⟩ := hawaits
  have hstep : s.step op (.advanceReply answer) = s.afterAdvance r now g answer := by
    simp only [State.step, hstack, hrunning, hpoint]
  rw [hstep]
  unfold State.afterAdvance
  cases hcurrent : overtaken s.record r.generation with
  | some code => exact .inr ⟨code, rfl⟩
  | none =>
    cases answer with
    | none => exact .inr ⟨.providerFailed, rfl⟩
    | some state =>
      dsimp only
      split_ifs with hscope hbehind
      · exact .inr ⟨.providerFailed, rfl⟩
      · exact .inr ⟨.stateRollback, rfl⟩
      · exact .inl ⟨state, rfl, ⟨hcurrent, not_not.mp hscope, by simpa using hbehind⟩, rfl⟩

/-- A state that an operation goes on to record follows the one before. -/
def State.Since (s t : State) : Prop :=
  ∀ p ∈ s.record.highWater, ∃ q ∈ t.record.highWater, q.Follows p

theorem since_of_keepsMark {t : State} (h : KeepsMark s t) : s.Since t :=
  fun p hp => ⟨p, h.symm ▸ hp, .refl p⟩

theorem State.Since.trans {s t u : State} (hst : s.Since t) (htu : t.Since u) : s.Since u := by
  intro p hp
  obtain ⟨q, hq, hqp⟩ := hst p hp
  obtain ⟨v, hv, hvq⟩ := htu q hq
  exact ⟨v, hv, hqp.trans hvq⟩

theorem since_advanceReply (s : State) (answer : Option HighWater) :
    s.Since (s.step op (.advanceReply answer)) := by
  by_cases hawaits : ∃ r now g, Awaits s r now g
  · obtain ⟨r, now, g, hawaits⟩ := hawaits
    rcases advanceReply_cases hawaits answer with
      ⟨state, rfl, haccepted, hstep⟩ | ⟨code, hstep⟩
    · have hmark : (s.step op (.advanceReply (some state))).record.highWater = some state := by
        rw [hstep]
        dsimp only
        split <;> rfl
      exact fun p hp => ⟨state, hmark, (behind_eq_false_iff.mp haccepted.ahead).2.2 p hp⟩
    · exact since_of_keepsMark (by rw [KeepsMark, hstep, State.fail])
  · have hidle : s.step op (.advanceReply answer) = s := by
      rw [State.step]
      split
      · rename_i r hstack hrunning
        split
        · rename_i now g hpoint
          exact absurd ⟨r, now, g, hstack, hrunning, hpoint⟩ hawaits
        · rfl
      · rfl
    exact since_of_keepsMark (by rw [KeepsMark, hidle])

/-- One step: the high-water mark is kept, or it moves on. -/
theorem since_step (s : State) (e : Event) : s.Since (s.step op e) := by
  cases e with
  | observe phase => exact since_of_keepsMark rfl
  | assertCurrent cp => exact since_of_keepsMark (keepsMark_assertCurrent s cp)
  | dispose => exact since_of_keepsMark (keepsMark_dispose s)
  | clockReturns reply => exact since_of_keepsMark (keepsMark_clockReturns s reply)
  | advanceReply answer => exact since_advanceReply s answer
  | refreshReply raw =>
    apply since_of_keepsMark
    rw [State.step]
    split
    · split
      · exact keepsMark_afterRefresh s _ _ raw
      · rfl
    · rfl
  | next =>
    apply since_of_keepsMark
    rw [State.step]
    split_ifs
    · exact keepsMark_next s
    · rfl

/-- The high-water marks of a run, the oldest first. -/
def marks (op : Operation) (s : State) (events : List Event) : List HighWater :=
  (events.scanl (State.step op) s).filterMap fun t => t.record.highWater

theorem since_refl (s : State) : s.Since s := since_of_keepsMark rfl

/-- A run: each mark follows all earlier ones. -/
theorem marks_pairwise (s : State) (events : List Event) :
    (marks op s events).Pairwise fun earlier later => later.Follows earlier := by
  rw [marks, List.pairwise_filterMap]
  have hruns := pairwise_scanl (f := State.step op) since_refl (fun _ _ _ => State.Since.trans)
    since_step s events
  refine hruns.imp fun {t u} hsince p hp q hq => ?_
  obtain ⟨q', hq', hfollows⟩ := hsince p hp
  rw [Option.mem_unique hq hq']
  exact hfollows

/-- The mark behind a run follows all the marks of the run. -/
theorem since_marks {events : List Event} {p : HighWater} (hp : p ∈ marks op s events) :
    ∃ q ∈ (events.foldl (State.step op) s).record.highWater, q.Follows p := by
  obtain ⟨t, ht, htp⟩ := List.mem_filterMap.mp hp
  exact rel_foldl_of_mem_scanl since_refl (fun _ _ _ => State.Since.trans) since_step ht
    p htp

/-- An advance that succeeds: the state is recorded, and it is active at the version of an
active grant. -/
theorem accepted_of_advanced {r : Running} {now : ℕ} {g : Verified} {answer : Option HighWater}
    (hawaits : Awaits s r now g)
    (hadvanced : (s.step op (.advanceReply answer)).running = some { r with point := .advanced }) :
    ∃ state, answer = some state ∧ Accepted s r now g state ∧
      (s.step op (.advanceReply answer)).record.highWater = some state ∧
      state.status = .active ∧ g.status = .active ∧
      g.statusVersion = state.highestStatusVersion := by
  rcases advanceReply_cases hawaits answer with
    ⟨state, rfl, haccepted, hstep⟩ | ⟨code, hstep⟩
  · have hversion := (behind_eq_false_iff.mp haccepted.ahead).1
    rw [hstep] at hadvanced ⊢
    dsimp only at hadvanced ⊢
    cases hcode : stateCode g state with
    | some code =>
      rw [hcode] at hadvanced
      exact absurd hadvanced nofun
    | none => exact ⟨state, rfl, haccepted, rfl, (stateCode_eq_none_iff hversion).mp hcode⟩
  · rw [hstep] at hadvanced
    exact absurd hadvanced nofun

/-- The observation failed with a rollback. -/
def RollsBack (s t : State) (r : Running) : Prop :=
  ∃ stage, t.reports = .failed r.phase ⟨.stateRollback, stage, r.checkedAt⟩ :: s.reports

/-- An answer that is rejected as a rollback is not recorded, up to an active state at the
version of a grant that is not active. -/
theorem kept_of_rollsBack {r : Running} {now : ℕ} {g : Verified} {answer : Option HighWater}
    (hawaits : Awaits s r now g) (hback : RollsBack s (s.step op (.advanceReply answer)) r) :
    (s.step op (.advanceReply answer)).record.highWater = s.record.highWater ∨
    ∃ state, answer = some state ∧
      (s.step op (.advanceReply answer)).record.highWater = some state ∧
      state.status = .active ∧ g.status ≠ .active ∧
      g.statusVersion = state.highestStatusVersion := by
  rcases advanceReply_cases hawaits answer with
    ⟨state, rfl, haccepted, hstep⟩ | ⟨code, hstep⟩
  · have hversion := (behind_eq_false_iff.mp haccepted.ahead).1
    obtain ⟨stage, hreports⟩ := hback
    right
    rw [hstep] at hreports ⊢
    dsimp only at hreports ⊢
    cases hcode : stateCode g state with
    | some code =>
      rw [hcode] at hreports
      have hrollback : code = .stateRollback := by
        injection (List.cons.inj hreports).1 with _ hfailure
        exact congrArg Failure.code hfailure
      rw [hrollback] at hcode
      exact ⟨state, rfl, rfl, (stateCode_eq_stateRollback_iff hversion).mp hcode⟩
    | none =>
      rw [hcode] at hreports
      exact absurd hreports (List.cons_ne_self _ _).symm
  · exact .inl (by rw [hstep, State.fail])

/-- Over every run of an operation, with every answer of its provider and every refreshed
grant, the recorded version, revision and time never decrease. An advance succeeds only for
an active grant at the highest version of the provider, above each version that was
recorded as revoked or expired. An answer that is rejected as a rollback leaves the mark,
unless it is an active state at the version of a grant that is not active: that one is
recorded before it is rejected. -/
theorem noGrant_survives (op : Operation) (s : State) (events : List Event) :
    (marks op s events).Pairwise (fun earlier later => later.Follows earlier) ∧
    ∀ r now g answer, Awaits (events.foldl (State.step op) s) r now g →
      let t := events.foldl (State.step op) s
      let u := t.step op (.advanceReply answer)
      (u.running = some { r with point := .advanced } →
        ∃ state, answer = some state ∧ u.record.highWater = some state ∧
          state.status = .active ∧ g.status = .active ∧
          g.statusVersion = state.highestStatusVersion ∧
          (∀ p ∈ marks op s events, state.Follows p) ∧
          ∀ p ∈ marks op s events, p.status ≠ .active →
            p.highestStatusVersion < g.statusVersion) ∧
      (RollsBack t u r → u.record.highWater = t.record.highWater ∨
        ∃ state, answer = some state ∧ u.record.highWater = some state ∧
          state.status = .active ∧ g.status ≠ .active ∧
          g.statusVersion = state.highestStatusVersion) := by
  refine ⟨marks_pairwise s events, fun r now g answer hawaits => ⟨fun hadvanced => ?_,
    kept_of_rollsBack hawaits⟩⟩
  obtain ⟨state, hanswer, haccepted, hmark, hstate, hgrant, hversion⟩ :=
    accepted_of_advanced hawaits hadvanced
  have hfollows : ∀ p ∈ marks op s events, state.Follows p := by
    intro p hp
    obtain ⟨q, hq, hqp⟩ := since_marks hp
    exact hqp.trans ((behind_eq_false_iff.mp haccepted.ahead).2.2 q hq)
  refine ⟨state, hanswer, hmark, hstate, hgrant, hversion, hfollows, fun p hp hinactive => ?_⟩
  have hle := (hfollows p hp).version
  have hne : p.highestStatusVersion ≠ state.highestStatusVersion :=
    fun heq => hinactive (((hfollows p hp).status heq).trans hstate)
  omega

/-- The scope of the sample grants. -/
def sampleGrantScope : Scope := ⟨"issuer", "account", "entitlement"⟩

/-- A sample grant of a version, with a refresh due at the time 10. -/
def sampleVersionedGrant (statusVersion : ℕ) (status : Status) : Verified :=
  ⟨sampleGrantScope, statusVersion, status, 0, 10, 20, 30⟩

/-- An online operation whose provider refreshes every grant to a revoked one. -/
def sampleOnline : Operation :=
  ⟨.externalGrant .online, true, fun _ => .ok (sampleVersionedGrant 2 .revoked), fun _ => true⟩

/-- An observation up to the provider's answer. -/
def sampleAdvanceEvents : List Event :=
  [.observe .execution, .next, .clockReturns (.time 5)]

/-- A record with the version 1 revoked, and an active grant of the version 2. -/
def sampleRevokedMark : State :=
  .issue 0 (some ⟨sampleGrantScope, 1, .revoked, 3, 3⟩) (some (sampleVersionedGrant 2 .active))

theorem noGrant_survives_sample :
    ∃ state : HighWater, state.status = .active ∧
      ∀ p ∈ marks sampleOnline sampleRevokedMark sampleAdvanceEvents, p.status ≠ .active →
        p.highestStatusVersion < 2 := by
  obtain ⟨-, hadvance⟩ := noGrant_survives sampleOnline sampleRevokedMark sampleAdvanceEvents
  obtain ⟨state, -, -, hstate, -, -, -, habove⟩ :=
    (hadvance ⟨.execution, 0, some 5, .advance 5 (sampleVersionedGrant 2 .active)⟩ 5
      (sampleVersionedGrant 2 .active) (some ⟨sampleGrantScope, 2, .active, 5, 4⟩)
      ⟨rfl, rfl, rfl⟩).1 rfl
  exact ⟨state, hstate, habove⟩

/-- The grant is refreshed to a revoked one of the version 2, for which the provider answers
with an active state. -/
def sampleRevokedEvents : List Event :=
  [.observe .execution, .next, .clockReturns (.time 15), .refreshReply (some []),
    .clockReturns (.time 15)]

theorem noGrant_survives_counterexample : ¬ ∀ (op : Operation) (s : State) (events : List Event)
    (r : Running) (now : ℕ) (g : Verified) (answer : Option HighWater),
    Awaits (events.foldl (State.step op) s) r now g →
    RollsBack (events.foldl (State.step op) s)
      ((events.foldl (State.step op) s).step op (.advanceReply answer)) r →
    ((events.foldl (State.step op) s).step op (.advanceReply answer)).record.highWater =
      (events.foldl (State.step op) s).record.highWater := by
  intro hall
  have hkept := hall sampleOnline (.issue 0 none (some (sampleVersionedGrant 1 .active)))
    sampleRevokedEvents
    ⟨.execution, 0, some 15, .advance 15 (sampleVersionedGrant 2 .revoked)⟩ 15
    (sampleVersionedGrant 2 .revoked) (some ⟨sampleGrantScope, 2, .active, 15, 1⟩)
    ⟨rfl, rfl, rfl⟩ ⟨.authorization, rfl⟩
  exact absurd hkept (by decide)

end Kdna.Protection

import Kdna.Protection.Freshness

/-!
# Revocation

An observation that fails because of the state of its grant or its provider keeps the
generation, and an assertion looks at the verified grant only. A failure therefore reaches
the checkpoints before it as far as it is backed by that grant. This file states which
answers of a provider are, and follows them through every run.
-/

namespace Kdna.Protection

variable {op : Operation} {s : State} {r : Running}

/-- The codes of a revoked, an expired and a rolled back state. -/
def Code.ofState (code : Code) : Prop :=
  code = .authorizationRevoked ∨ code = .authorizationExpired ∨ code = .stateRollback

/-- An observation failed with such a code after it had issued the checkpoint. -/
def FailedSince (cp : Checkpoint) : List Report → Prop
  | [] => False
  | .failed _ failure :: rest =>
    (failure.code.ofState ∧ ∃ now, .observed cp now ∈ rest) ∨ FailedSince cp rest
  | _ :: rest => FailedSince cp rest

/-- No checkpoint is asserted once an observation has failed since it. -/
def Reaches : List Report → Prop
  | [] => True
  | .asserted cp _ :: rest => ¬ FailedSince cp rest ∧ Reaches rest
  | _ :: rest => Reaches rest

/-- A grant that stays invalid from a time on. -/
def Verified.lapsed (mode : Mode) (v : Verified) (time : ℕ) : Prop :=
  v.status ≠ .active ∨ v.expires ≤ time ∨ (mode = .offline ∧ v.grace < time)

/-- The grant of an operation has lapsed. -/
def Lapsed (op : Operation) (r : Record) : Prop :=
  ∃ mode v, op.credential = .externalGrant mode ∧ r.verified = some v ∧ v.lapsed mode r.lastTime

/-- The provider's answer to the observation at hand: its clock does not go back, and it
refreshes a grant with none of a lower version or from the future, and its state is neither
behind nor revoked nor expired. -/
def Vouched (op : Operation) (s : State) : Event → Prop
  | .clockReturns (.time now) => ∀ g rest r, s.stack = .observation g :: rest → s.running = some r →
    s.record.lastTime ≤ now ∧
      (r.point = .lastClock → ∀ v, s.record.verified = some v → v.issued ≤ now)
  | .refreshReply (some raw) => ∀ r g v, s.stack = [] → s.running = some r →
    r.point = .refresh g → op.verifyGrant raw = .ok v → g.statusVersion ≤ v.statusVersion
  | .advanceReply (some state) => ∀ r now g, s.stack = [] → s.running = some r →
    r.point = .advance now g → state.scope = g.scope →
      behind s.record.highWater g now state = false ∧ state.status = .active
  | _ => True

/-- Nothing that could still be asserted depends on the answer. -/
def Moot (op : Operation) (s : State) : Prop := s.issued = [] ∨ Lapsed op s.record

/-- Each answer is one that the provider vouches for, unless the operation is disposed,
has issued no checkpoint yet, or has a grant that has lapsed. -/
def Backed (op : Operation) (s : State) (e : Event) : Prop :=
  s.record.disposed = true ∨ Moot op s ∨ Vouched op s e

/-- The steps with answers that are backed. -/
def BackedSteps (op : Operation) (s : State) (e : Event) (t : State) : Prop :=
  Backed op s e ∧ Steps op s e t

section Reports

variable {cp : Checkpoint} {new reports : List Report}

/-- A failure since a checkpoint comes after the observation that issued it. -/
theorem FailedSince.observed (h : FailedSince cp reports) : ∃ now, .observed cp now ∈ reports := by
  induction reports with
  | nil => exact h.elim
  | cons report rest ih =>
    have hrest (h : FailedSince cp rest) : ∃ now, .observed cp now ∈ report :: rest :=
      (ih h).imp fun _ hmem => .tail _ hmem
    cases report with
    | failed phase failure =>
      rcases h with ⟨-, now, hmem⟩ | h
      · exact ⟨now, .tail _ hmem⟩
      · exact hrest h
    | _ => exact hrest h

/-- Another report issues no checkpoint. -/
theorem observed_of_mem_cons {report : Report} (hother : ∀ cp now, report ≠ .observed cp now)
    (cp : Checkpoint) (now : ℕ) (hmem : .observed cp now ∈ report :: reports) :
    .observed cp now ∈ reports :=
  (List.mem_cons.mp hmem).resolve_left fun heq => hother cp now heq.symm

theorem reaches_append (h : ∀ r ∈ new, r.isFailure) : Reaches (new ++ reports) ↔ Reaches reports := by
  induction new with
  | nil => exact Iff.rfl
  | cons r new ih =>
    rw [List.forall_mem_cons] at h
    cases r with
    | failed phase failure => exact ih h.2
    | refused cp failure => exact ih h.2
    | _ => exact h.1.elim

end Reports

section Grants

variable {mode : Mode} {v : Verified} {now : ℕ}

theorem Verified.lapsed.mono {time : ℕ} (h : v.lapsed mode time) (htime : time ≤ now) :
    v.lapsed mode now := by
  rcases h with hstatus | hexpires | ⟨hmode, hgrace⟩
  · exact .inl hstatus
  · exact .inr (.inl (hexpires.trans htime))
  · exact .inr (.inr ⟨hmode, hgrace.trans_le htime⟩)

/-- A lapsed grant is not valid. -/
theorem grantValidity_ne_none (h : v.lapsed mode now) : grantValidity mode v now ≠ none := by
  unfold grantValidity
  split
  · exact Option.some_ne_none _
  split
  · exact Option.some_ne_none _
  · rename_i hvalid
    simp only [not_or, not_not, not_le, not_lt] at hvalid
    rcases h with hstatus | hexpires | ⟨rfl, hgrace⟩
    · exact absurd hvalid.1 hstatus
    · exact absurd hexpires (by omega)
    · simp [hgrace]

/-- A grant that is refused with a code of a state has lapsed, or is from the future. -/
theorem lapsed_of_grantValidity {code : Code} (h : grantValidity mode v now = some code)
    (hcode : code.ofState) (hissued : v.issued ≤ now) : v.lapsed mode now := by
  unfold grantValidity at h
  split at h
  · rename_i hrevoked
    exact .inl (by simp [hrevoked])
  split at h
  · rename_i hexpired
    rcases hexpired with hstatus | hexpires | hfuture
    · exact .inl hstatus
    · exact .inr (.inl hexpires)
    · omega
  · cases mode with
    | offline =>
      dsimp only at h
      split_ifs at h with hgrace
      exact .inr (.inr ⟨rfl, hgrace⟩)
    | online =>
      dsimp only at h
      split_ifs at h
      cases h
      simp [Code.ofState] at hcode

/-- A lapsed grant is not refreshed. -/
theorem refreshDue_eq_false (hcredential : op.credential = .externalGrant mode)
    (h : v.lapsed mode now) : refreshDue op v now = false := by
  rw [refreshDue, hcredential, Bool.eq_false_iff]
  intro hdue
  simp only [Bool.and_eq_true, decide_eq_true_eq, Credential.externalGrant.injEq] at hdue
  obtain ⟨⟨⟨rfl, -⟩, hactive⟩, hexpires⟩ := hdue
  rcases h with hstatus | hle | ⟨hmode, -⟩
  · exact hstatus hactive
  · omega
  · cases hmode

theorem Lapsed.tick {r : Record} (h : Lapsed op r) (htime : r.lastTime ≤ now) :
    Lapsed op { r with lastTime := now } := by
  obtain ⟨mode, v, hcredential, hverified, hlapsed⟩ := h
  exact ⟨mode, v, hcredential, hverified, hlapsed.mono htime⟩

theorem Lapsed.validity_ne_none {r : Record} (h : Lapsed op r) (htime : r.lastTime ≤ now) :
    validity op r now ≠ none := by
  obtain ⟨mode, v, hcredential, hverified, hlapsed⟩ := h
  rw [validity, hcredential, hverified]
  exact grantValidity_ne_none (hlapsed.mono htime)

end Grants

/-- The grant that an observation works with at a point. -/
def Point.grant : Point → Option Verified
  | .refresh g => some g
  | .advance _ g => some g
  | _ => none

/-- Only an observation with an external grant reaches the point. -/
def Point.external : Point → Prop
  | .refresh _ => True
  | .refreshedClock => True
  | .advance _ _ => True
  | _ => False

/-- What the observation at hand knows of the record. -/
structure Follows (op : Operation) (record : Record) (reports : List Report) (r : Running) : Prop where
  generation : r.generation = record.generation
  grant : ∀ g, r.point.grant = some g → record.verified = some g
  external : r.point.external → ∃ mode, op.credential = .externalGrant mode
  /-- A grant is refreshed only while no failure concerns a checkpoint that could still be
  asserted. -/
  refresh : ∀ g, r.point = .refresh g → ∀ cp, FailedSince cp reports →
    cp.generation < record.generation

/-- What the record and the reports of an operation say while it is not disposed. -/
structure Watched (op : Operation) (s : State) : Prop where
  observed_le : ∀ cp now, .observed cp now ∈ s.reports → cp.generation ≤ s.record.generation
  observed_issued : ∀ cp now, .observed cp now ∈ s.reports → cp ∈ s.issued
  frames : ∀ g, .observation g ∈ s.stack → g = s.record.generation
  /-- Each failure concerns checkpoints that were overtaken, or the grant has lapsed. -/
  failed : ∀ cp, FailedSince cp s.reports →
    cp.generation < s.record.generation ∨ Lapsed op s.record

/-- What holds of an operation that is not disposed, while its provider's answers are
backed. -/
structure Followed (op : Operation) (s : State) : Prop where
  watched : Watched op s
  running : ∀ r, s.running = some r → Follows op s.record s.reports r

namespace Watched

theorem issue (op : Operation) (lastTime : ℕ) (highWater : Option HighWater)
    (verified : Option Verified) : Watched op (.issue lastTime highWater verified) :=
  ⟨fun _ _ h => absurd h List.not_mem_nil, fun _ _ h => absurd h List.not_mem_nil,
    fun _ h => absurd h List.not_mem_nil, fun _ h => h.elim⟩

/-- The observation fails, with a code of a state only when that is moot. -/
theorem fail (h : Watched op s) {code : Code} {stage : Stage}
    (hcode : code.ofState → Moot op s) : Followed op (s.fail r code stage) := by
  refine ⟨⟨?_, ?_, h.frames, ?_⟩, by simp [State.fail]⟩
  · intro cp now hmem
    exact h.observed_le cp now (observed_of_mem_cons (by simp) cp now hmem)
  · intro cp now hmem
    exact h.observed_issued cp now (observed_of_mem_cons (by simp) cp now hmem)
  · intro cp hfailed
    rcases hfailed with ⟨hstate, now, hmem⟩ | hbefore
    · rcases hcode hstate with hissued | hlapsed
      · have hcp := h.observed_issued cp now hmem
        rw [hissued] at hcp
        exact absurd hcp List.not_mem_nil
      · exact .inr hlapsed
    · exact h.failed cp hbefore

/-- The observation fails with another code. -/
theorem fail_other (h : Watched op s) {code : Code} {stage : Stage} (hcode : ¬ code.ofState) :
    Followed op (s.fail r code stage) :=
  h.fail fun hstate => absurd hstate hcode

theorem goOn (h : Watched op s) {point : Point}
    (hr : Follows op s.record s.reports { r with point := point }) :
    Followed op (s.goOn r point) := by
  refine ⟨⟨h.observed_le, h.observed_issued, h.frames, h.failed⟩, fun r' hrunning => ?_⟩
  cases hrunning
  exact hr

theorem enterClock (h : Watched op s) (halive : s.record.disposed = false) {point : Point}
    (hr : Follows op s.record s.reports { r with checkedAt := none, point := point }) :
    Followed op (s.enterClock r point) := by
  rw [State.enterClock, if_neg (by simp [halive])]
  refine ⟨⟨h.observed_le, h.observed_issued, ?_, h.failed⟩, fun r' hrunning => ?_⟩
  · intro g hmem
    rcases List.mem_cons.mp hmem with heq | htail
    · exact Frame.observation.inj heq
    · exact h.frames g htail
  · cases hrunning
    exact hr

theorem tick (h : Watched op s) {now : ℕ} (htime : s.record.lastTime ≤ now) :
    Watched op { s with record := { s.record with lastTime := now } } :=
  ⟨h.observed_le, h.observed_issued, h.frames, fun cp hfailed =>
    (h.failed cp hfailed).imp_right fun hlapsed => hlapsed.tick htime⟩

theorem pop (h : Watched op s) {frame : Frame} {rest : List Frame} (hstack : s.stack = frame :: rest) :
    Watched op { s with stack := rest } :=
  ⟨h.observed_le, h.observed_issued, fun g hmem => h.frames g (hstack ▸ .tail _ hmem), h.failed⟩

/-- A refreshed grant, while no failure concerns a checkpoint that could be asserted. -/
theorem setVerified (h : Watched op s) (v : Verified)
    (hfailed : ∀ cp, FailedSince cp s.reports → cp.generation < s.record.generation) :
    Watched op { s with record := { s.record with verified := some v } } :=
  ⟨h.observed_le, h.observed_issued, h.frames, fun cp hcp => .inl (hfailed cp hcp)⟩

theorem setHighWater (h : Watched op s) (state : HighWater) :
    Watched op { s with record := { s.record with highWater := some state } } :=
  ⟨h.observed_le, h.observed_issued, h.frames, h.failed⟩

end Watched

/-- A point without a grant of its own asks for the generation only. -/
theorem Follows.plain {record : Record} {reports : List Report} {point : Point}
    (hgeneration : r.generation = record.generation) (hgrant : point.grant = none)
    (hexternal : ¬ point.external) (hrefresh : ∀ g, point ≠ .refresh g) :
    Follows op record reports { r with point := point } :=
  ⟨hgeneration, fun g hg => by simp [hgrant] at hg, fun h => absurd h hexternal,
    fun g hpoint => absurd hpoint (hrefresh g)⟩

/-- The codes of a clock that is asked in the current generation. -/
theorem clock_error_code {record : Record} {reply : ClockReply} {code : Code} {sample : Option ℕ}
    (h : clock record record.generation reply = .error (code, sample))
    (halive : record.disposed = false) :
    code = .providerFailed ∨ ∃ now, reply = .time now ∧ now < record.lastTime := by
  cases reply with
  | threw =>
    rw [clock, halive] at h
    cases h
    exact .inl rfl
  | invalid =>
    cases h
    exact .inl rfl
  | time now =>
    rw [clock, halive] at h
    split_ifs at h with hback hgeneration
    · exact .inr ⟨now, rfl, hback⟩
    · exact absurd hgeneration (by simp)
    · exact absurd rfl ‹_›

section Calls

variable (h : Watched op s) (hgeneration : r.generation = s.record.generation)

include h hgeneration

theorem followed_afterFirstClock :
    Followed op (s.afterFirstClock op r s.record.lastTime) := by
  rw [State.afterFirstClock]
  split
  · rename_i mode v hcredential hverified
    split_ifs with hdue hrefreshable
    · refine h.goOn ⟨hgeneration, ?_, fun _ => ⟨mode, hcredential⟩, ?_⟩
      · exact fun g hg => Option.some.inj hg ▸ hverified
      · intro g hpoint cp hfailed
        refine (h.failed cp hfailed).resolve_right ?_
        rintro ⟨mode', v', hcredential', hverified', hlapsed⟩
        rw [hverified] at hverified'
        cases hverified'
        rw [refreshDue_eq_false hcredential' hlapsed] at hdue
        exact absurd hdue (by simp)
    · exact h.fail_other (by simp [Code.ofState])
    · refine h.goOn ⟨hgeneration, ?_, fun _ => ⟨mode, hcredential⟩, by simp⟩
      exact fun g hg => Option.some.inj hg ▸ hverified
  · exact h.fail_other (by simp [Code.ofState])
  · exact h.goOn (.plain hgeneration rfl id (by simp))

/-- What the last clock fails with is backed by the grant. -/
theorem followed_afterLastClock
    (hissued : Moot op s ∨ ∀ v, s.record.verified = some v → v.issued ≤ s.record.lastTime) :
    Followed op (s.afterLastClock op r s.record.lastTime) := by
  rw [State.afterLastClock]
  cases hvalid : validity op s.record s.record.lastTime with
  | none => exact h.goOn (.plain hgeneration rfl id (by simp))
  | some code =>
    refine h.fail fun hcode => ?_
    rcases hissued with hmoot | hissued
    · exact hmoot
    · rw [validity] at hvalid
      split at hvalid
      · rename_i mode v hcredential hverified
        have hlapsed := lapsed_of_grantValidity hvalid hcode (hissued v hverified)
        exact .inr ⟨mode, v, hcredential, hverified, hlapsed⟩
      · cases hvalid
        simp [Code.ofState] at hcode
      · cases hvalid

end Calls

theorem Moot.tick {now : ℕ} (h : Moot op s) (htime : s.record.lastTime ≤ now) :
    Moot op { s with record := { s.record with lastTime := now } } :=
  h.imp_right fun hlapsed => hlapsed.tick htime

/-- The observation behind a clock that does not go back, or whose failure is moot. -/
theorem followed_observeClock (h : Watched op s) (halive : s.record.disposed = false)
    (hr : Follows op s.record s.reports r) (reply : ClockReply)
    (hrunning : s.running = some r)
    (hvouched : Moot op s ∨ ∀ now, reply = .time now → s.record.lastTime ≤ now ∧
      (r.point = .lastClock → ∀ v, s.record.verified = some v → v.issued ≤ now)) :
    Followed op (s.observeClock op r s.record.generation reply) := by
  rw [State.observeClock]
  cases hclock : clock s.record s.record.generation reply with
  | error err =>
    obtain ⟨code, sample⟩ := err
    rcases clock_error_code hclock halive with rfl | ⟨now, hreply, hback⟩
    · exact h.fail_other (by simp [Code.ofState])
    · refine h.fail fun _ => hvouched.resolve_right fun hnever => ?_
      exact absurd (hnever now hreply).1 (by omega)
  | ok now =>
    obtain ⟨hreply, htime, -, -⟩ := clock_eq_ok_iff.mp hclock
    have hticked := h.tick htime
    dsimp only
    split
    · exact followed_afterFirstClock (r := { r with checkedAt := some now }) hticked hr.generation
    · rename_i hpoint
      split
      · rename_i v hverified
        refine hticked.goOn ⟨hr.generation, ?_, fun _ => hr.external (by simp [hpoint, Point.external]),
          by simp⟩
        exact fun g hg => Option.some.inj hg ▸ hverified
      · exact hticked.fail_other (by simp [Code.ofState])
    · rename_i hpoint
      refine followed_afterLastClock (r := { r with checkedAt := some now }) hticked hr.generation ?_
      rcases hvouched with hmoot | hvouched
      · exact .inl (hmoot.tick htime)
      · exact .inr ((hvouched now hreply).2 hpoint)
    · refine ⟨h, fun r' hrunning' => ?_⟩
      rw [hrunning] at hrunning'
      exact Option.some.inj hrunning' ▸ hr

/-- The observation behind a refresh of a version that is not lower. -/
theorem followed_afterRefresh (h : Watched op s) (halive : s.record.disposed = false)
    (hr : Follows op s.record s.reports r) {g : Verified} (hpoint : r.point = .refresh g)
    (raw : Option Bytes)
    (hvouched : Moot op s ∨ ∀ bytes v, raw = some bytes → op.verifyGrant bytes = .ok v →
      g.statusVersion ≤ v.statusVersion) :
    Followed op (s.afterRefresh op r g raw) := by
  unfold State.afterRefresh
  rw [overtaken_eq_none_iff.mpr ⟨halive, hr.generation⟩]
  cases raw with
  | none => exact h.fail_other (by simp [Code.ofState])
  | some bytes =>
    dsimp only
    cases hverify : op.verifyGrant bytes with
    | error fault =>
      cases fault with
      | invalid => exact h.fail_other (by simp [Code.ofState, GrantFault.code])
      | bindingMismatch => exact h.fail_other (by simp [Code.ofState, GrantFault.code])
    | ok v =>
      dsimp only
      split_ifs with hlower hunwraps
      · refine h.fail fun _ => hvouched.resolve_right fun hnever => ?_
        exact absurd (hnever bytes v rfl hverify) (by omega)
      · exact h.fail_other (by simp [Code.ofState])
      · refine (h.setVerified v (hr.refresh g hpoint)).enterClock halive
          ⟨hr.generation, by simp [Point.grant],
            fun _ => hr.external (by simp [hpoint, Point.external]), by simp⟩

/-- The observation behind a state of the provider that is neither behind nor revoked nor
expired. -/
theorem followed_afterAdvance (h : Watched op s) (halive : s.record.disposed = false)
    (hr : Follows op s.record s.reports r) {now : ℕ} {g : Verified}
    (hpoint : r.point = .advance now g) (state : Option HighWater)
    (hvouched : Moot op s ∨ ∀ answer, state = some answer → answer.scope = g.scope →
      behind s.record.highWater g now answer = false ∧ answer.status = .active) :
    Followed op (s.afterAdvance r now g state) := by
  unfold State.afterAdvance
  rw [overtaken_eq_none_iff.mpr ⟨halive, hr.generation⟩]
  cases state with
  | none => exact h.fail_other (by simp [Code.ofState])
  | some answer =>
    dsimp only
    split_ifs with hscope hbehind
    · exact h.fail_other (by simp [Code.ofState])
    · refine h.fail fun _ => hvouched.resolve_right fun hnever => ?_
      simp [(hnever answer rfl (not_not.mp hscope)).1] at hbehind
    · have hkept := h.setHighWater answer
      cases hcode : stateCode g answer with
      | none => exact hkept.goOn (.plain hr.generation rfl id (by simp))
      | some code =>
        refine hkept.fail fun hstate => ?_
        rcases hvouched with hmoot | hvouched
        · exact hmoot
        · -- The state is active, so that the grant is what failed.
          have hactive := (hvouched answer rfl (not_not.mp hscope)).2
          rw [stateCode, hactive, if_neg (by decide), if_neg (by decide)] at hcode
          split_ifs at hcode with hversion hstatus
          · cases hcode
            simp [Code.ofState] at hstate
          · obtain ⟨mode, hcredential⟩ := hr.external (by simp [hpoint, Point.external])
            have hverified := hr.grant g (by rw [hpoint]; rfl)
            exact .inr ⟨mode, g, hcredential, hverified, .inl (Ne.symm hstatus)⟩

/-- A concluded observation overtakes every checkpoint before it. -/
theorem followed_conclude (h : Watched op s) (halive : s.record.disposed = false)
    (hstack : s.stack = []) (now : ℕ) : Followed op (s.conclude r now) := by
  rw [State.conclude, if_neg (by simp [halive])]
  refine ⟨⟨?_, ?_, ?_, ?_⟩, by simp⟩
  · intro cp time hmem
    rcases List.mem_cons.mp hmem with heq | hold
    · rw [(Report.observed.inj heq).1]
    · exact Nat.le_succ_of_le (h.observed_le cp time hold)
  · intro cp time hmem
    rcases List.mem_cons.mp hmem with heq | hold
    · rw [(Report.observed.inj heq).1]
      exact List.mem_cons_self
    · exact .tail _ (h.observed_issued cp time hold)
  · intro g hmem
    rw [hstack] at hmem
    exact absurd hmem List.not_mem_nil
  · intro cp hfailed
    have hbefore : FailedSince cp s.reports := hfailed
    obtain ⟨time, hmem⟩ := hbefore.observed
    exact .inl (Nat.lt_succ_of_le (h.observed_le cp time hmem))

/-- What is only reported about an assertion, with a later time or another stack. -/
theorem Followed.frame {t : State} (h : Followed op s)
    (hgeneration : t.record.generation = s.record.generation)
    (hverified : t.record.verified = s.record.verified)
    (htime : s.record.lastTime ≤ t.record.lastTime) (hissued : t.issued = s.issued)
    (hrunning : t.running = s.running)
    (hframes : ∀ g, .observation g ∈ t.stack → .observation g ∈ s.stack)
    (hobserved : ∀ cp now, .observed cp now ∈ t.reports → .observed cp now ∈ s.reports)
    (hfailed : ∀ cp, FailedSince cp t.reports → FailedSince cp s.reports) : Followed op t := by
  constructor
  case watched =>
    refine ⟨?_, ?_, ?_, ?_⟩
    · exact fun cp now hmem => hgeneration ▸ h.watched.observed_le cp now (hobserved cp now hmem)
    · exact fun cp now hmem => hissued ▸ h.watched.observed_issued cp now (hobserved cp now hmem)
    · exact fun g hmem => hgeneration ▸ h.watched.frames g (hframes g hmem)
    · intro cp hcp
      rw [hgeneration]
      refine (h.watched.failed cp (hfailed cp hcp)).imp_right ?_
      rintro ⟨mode, v, hcredential, hv, hlapsed⟩
      exact ⟨mode, v, hcredential, hverified.trans hv, hlapsed.mono htime⟩
  case running =>
    intro r hr
    have hfollows := h.running r (hrunning ▸ hr)
    refine ⟨hgeneration ▸ hfollows.generation, fun g hg => hverified ▸ hfollows.grant g hg,
      hfollows.external, fun g hpoint cp hcp => ?_⟩
    exact hgeneration ▸ hfollows.refresh g hpoint cp (hfailed cp hcp)

theorem followed_assertClock (h : Followed op s) {cp : Checkpoint} {g : ℕ} {rest : List Frame}
    (hstack : s.stack = .assertion cp g :: rest) (reply : ClockReply) :
    Followed op ({ s with stack := rest }.assertClock op cp g reply) := by
  have hframes (g' : ℕ) (hmem : .observation g' ∈ rest) : .observation g' ∈ s.stack :=
    hstack ▸ .tail _ hmem
  unfold State.assertClock
  cases hclock : clock s.record g reply with
  | error err =>
    exact h.frame rfl rfl le_rfl rfl rfl hframes (observed_of_mem_cons (by simp))
      fun _ hcp => hcp
  | ok now =>
    obtain ⟨-, htime, -, -⟩ := clock_eq_ok_iff.mp hclock
    dsimp only
    split
    · exact h.frame rfl rfl htime rfl rfl hframes (observed_of_mem_cons (by simp))
        fun _ hcp => hcp
    · exact h.frame rfl rfl htime rfl rfl hframes (observed_of_mem_cons (by simp))
        fun _ hcp => hcp
    · exact h.frame rfl rfl htime rfl rfl hframes (observed_of_mem_cons (by simp))
        fun _ hcp => hcp

theorem followed_assertCurrent (h : Followed op s) (cp : Checkpoint) :
    Followed op (s.assertCurrent cp) := by
  rw [State.assertCurrent]
  split_ifs with hissued
  · cases overtaken s.record cp.generation with
    | some code =>
      exact h.frame rfl rfl le_rfl rfl rfl (fun _ hmem => hmem)
        (observed_of_mem_cons (by simp)) fun _ hcp => hcp
    | none =>
      refine h.frame rfl rfl le_rfl rfl rfl (fun g hmem => ?_) (fun _ _ hmem => hmem)
        fun _ hcp => hcp
      exact (List.mem_cons.mp hmem).resolve_left (by simp)
  · exact h.frame rfl rfl le_rfl rfl rfl (fun _ hmem => hmem)
      (observed_of_mem_cons (by simp)) fun _ hcp => hcp

theorem followed_next (h : Followed op s) (halive : s.record.disposed = false)
    (hstack : s.stack = []) : Followed op s.next := by
  rw [State.next]
  split
  · exact h
  · rename_i phase rest _ _
    have hqueue : Watched op { s with queue := rest } :=
      ⟨h.watched.observed_le, h.watched.observed_issued, h.watched.frames, h.watched.failed⟩
    exact hqueue.enterClock halive
      (.plain (r := ⟨phase, _, none, .firstClock⟩) rfl rfl id (by simp))
  · rename_i r hrunning
    have hr := h.running r hrunning
    split
    · rw [overtaken_eq_none_iff.mpr ⟨halive, hr.generation⟩]
      exact h.watched.enterClock halive
        (.plain (r := { r with checkedAt := none }) hr.generation rfl id (by simp))
    · exact followed_conclude h.watched halive hstack _
    · exact h

/-- Every step with a backed answer keeps following an operation that is not disposed. -/
theorem followed_step {e : Event} (h : Followed op s) (halive : s.record.disposed = false)
    (hbacked : Backed op s e) (hdispose : e ≠ .dispose) : Followed op (s.step op e) := by
  have hvouched : Moot op s ∨ Vouched op s e := hbacked.resolve_left (by simp [halive])
  cases e with
  | observe phase =>
    exact h.frame rfl rfl le_rfl rfl rfl (fun _ hmem => hmem) (fun _ _ hmem => hmem) fun _ hcp => hcp
  | assertCurrent cp => exact followed_assertCurrent h cp
  | dispose => exact absurd rfl hdispose
  | clockReturns reply =>
    rw [State.step, State.clockReturns]
    split
    · rename_i hstack
      exact followed_assertClock h hstack reply
    · rename_i g rest r hstack hrunning
      have hg : g = s.record.generation := h.watched.frames g (hstack ▸ List.mem_cons_self)
      rw [hg]
      refine followed_observeClock (h.watched.pop hstack) halive (h.running r hrunning) reply
        hrunning (hvouched.imp_right fun hv now hreply => ?_)
      rw [hreply] at hv
      exact hv g rest r hstack hrunning
    · exact h
  | refreshReply raw =>
    rw [State.step]
    split
    · rename_i r hstack hrunning
      split
      · rename_i g hpoint
        refine followed_afterRefresh h.watched halive (h.running r hrunning) hpoint raw
          (hvouched.imp_right fun hv bytes v hraw hverify => ?_)
        rw [hraw] at hv
        exact hv r g v hstack hrunning hpoint hverify
      · exact h
    · exact h
  | advanceReply state =>
    rw [State.step]
    split
    · rename_i r hstack hrunning
      split
      · rename_i now g hpoint
        refine followed_afterAdvance h.watched halive (h.running r hrunning) hpoint state
          (hvouched.imp_right fun hv answer hstate hscope => ?_)
        rw [hstate] at hv
        exact hv r now g hstack hrunning hpoint hscope
      · exact h
    · exact h
  | next =>
    rw [State.step]
    split_ifs with hstack
    · exact followed_next h halive hstack
    · exact h

/-- What holds of an operation in every run with backed answers. -/
structure Sheltered (op : Operation) (s : State) : Prop where
  reaches : Reaches s.reports
  followed : s.record.disposed = false → Followed op s

theorem sheltered_issue (op : Operation) (lastTime : ℕ) (highWater : Option HighWater)
    (verified : Option Verified) : Sheltered op (.issue lastTime highWater verified) :=
  ⟨trivial, fun _ => ⟨.issue .., by simp [State.issue]⟩⟩

/-- A disposed operation stays disposed. -/
theorem alive_of_step {t : State} {e : Event} (hstep : Steps op s e t)
    (halive : t.record.disposed = false) : s.record.disposed = false := by
  cases stepCase_of_step hstep with
  | quiet h => exact h.disposed ▸ halive
  | asserted _ _ hdisposed _ _ => exact hdisposed
  | concluded _ _ _ _ hdisposed => exact hdisposed
  | disposed hdisposed => exact hdisposed

theorem sheltered_step {t : State} {e : Event} (hs : Sheltered op s) (hstep : BackedSteps op s e t) :
    Sheltered op t := by
  obtain ⟨hbacked, hstep⟩ := hstep
  refine ⟨?reaches, fun halive => ?followed⟩
  case reaches =>
    cases stepCase_of_step hstep with
    | quiet h =>
      obtain ⟨new, hnew, hfailures⟩ := h.reports
      rw [hnew, reaches_append hfailures]
      exact hs.reaches
    | @asserted cp g now rest hstack htime hdisposed hcurrent hvalid =>
      refine ⟨fun hfailed => ?_, hs.reaches⟩
      rcases (hs.followed hdisposed).watched.failed cp hfailed with hovertaken | hlapsed
      · omega
      · exact hlapsed.validity_ne_none htime hvalid
    | concluded _ _ _ _ hdisposed =>
      rw [State.conclude, if_neg (by simp [hdisposed])]
      exact hs.reaches
    | disposed hdisposed =>
      rw [State.dispose, if_neg (by simp [hdisposed])]
      exact hs.reaches
  case followed =>
    have hbefore := alive_of_step hstep halive
    have hdispose : e ≠ .dispose := by
      rintro rfl
      rw [← hstep, State.step, State.dispose, if_neg (by simp [hbefore])] at halive
      simp at halive
    rw [← hstep]
    exact followed_step (hs.followed hbefore) hbefore hbacked hdispose

/-- In every run in which the provider's answers to the observations are backed, no
checkpoint is asserted once an observation has failed since it because the state was
revoked, expired or rolled back. -/
theorem revocation (op : Operation) (lastTime : ℕ) (highWater : Option HighWater)
    (verified : Option Verified) (events : List Event) (s : State)
    (hrun : Run (BackedSteps op) (.issue lastTime highWater verified) events s) :
    Reaches s.reports :=
  (Run.preserves (p := Sheltered op) (fun _ _ _ hs hstep => sheltered_step hs hstep) hrun
    (sheltered_issue op lastTime highWater verified)).reaches

/-- A grant that expires at the time 3000. -/
def sampleGrant : Verified := ⟨⟨"i", "a", "e"⟩, 3, .active, 0, 1000, 2000, 3000⟩

/-- An operation with an external grant and no way to refresh it. -/
def sampleExternal : Operation :=
  ⟨.externalGrant .online, false, fun _ => .error .invalid, fun _ => false⟩

/-- The state that the provider returns at a time. -/
def sampleHighWater (version : ℕ) (status : Status) (now revision : ℕ) : HighWater :=
  ⟨⟨"i", "a", "e"⟩, version, status, now, revision⟩

/-- An observation that succeeds at the time 11. -/
def sampleObservation : List Event :=
  [.observe .execution, .next, .clockReturns (.time 10),
    .advanceReply (some (sampleHighWater 3 .active 10 1)), .next, .clockReturns (.time 11), .next]

/-- Behind it an observation of the expired grant, and an assertion. -/
def sampleExpiry : List Event :=
  [.observe .execution, .next, .clockReturns (.time 4000),
    .advanceReply (some (sampleHighWater 3 .active 4000 2)), .next, .clockReturns (.time 4001),
    .assertCurrent ⟨1, .authorization⟩, .clockReturns (.time 4002)]

theorem revocation_sample : ∃ s, Run (BackedSteps sampleExternal) (.issue 0 none (some sampleGrant))
    (sampleObservation ++ sampleExpiry) s ∧
    s.reports = [.refused ⟨1, .authorization⟩ ⟨.authorizationExpired, .authorization, some 4002⟩,
      .failed .execution ⟨.authorizationExpired, .authorization, some 4001⟩,
      .observed ⟨1, .authorization⟩ 11] ∧
    Reaches s.reports := by
  have hnone {s : State} {e : Event} (h : s.issued = []) : Backed sampleExternal s e :=
    .inr (.inl (.inl h))
  have hexpired {s : State} {e : Event} (hverified : s.record.verified = some sampleGrant)
      (htime : 3000 ≤ s.record.lastTime) : Backed sampleExternal s e :=
    .inr (.inl (.inr ⟨.online, sampleGrant, rfl, hverified, .inr (.inl htime)⟩))
  have hrun : Run (BackedSteps sampleExternal) (.issue 0 none (some sampleGrant))
      (sampleObservation ++ sampleExpiry)
      ((sampleObservation ++ sampleExpiry).foldl (State.step sampleExternal)
        (.issue 0 none (some sampleGrant))) := by
    refine .cons ⟨hnone rfl, rfl⟩ (.cons ⟨hnone rfl, rfl⟩ (.cons ⟨hnone rfl, rfl⟩
      (.cons ⟨hnone rfl, rfl⟩ (.cons ⟨hnone rfl, rfl⟩ (.cons ⟨hnone rfl, rfl⟩
        (.cons ⟨hnone rfl, rfl⟩ ?expiry))))))
    refine .cons ⟨.inr (.inr trivial), rfl⟩ (.cons ⟨.inr (.inr trivial), rfl⟩
      (.cons ⟨.inr (.inr ?clock), rfl⟩ (.cons ⟨hexpired rfl (by decide), rfl⟩
        (.cons ⟨hexpired rfl (by decide), rfl⟩ (.cons ⟨hexpired rfl (by decide), rfl⟩
          (.cons ⟨hexpired rfl (by decide), rfl⟩ (.cons ⟨hexpired rfl (by decide), rfl⟩
            (.nil _))))))))
    case clock =>
      intro g rest r _ hrunning
      cases hrunning
      exact ⟨by decide, fun hpoint => nomatch hpoint⟩
  exact ⟨_, hrun, rfl, revocation sampleExternal 0 none (some sampleGrant) _ _ hrun⟩

/-- Behind the observation one that fails because the provider's state is revoked, and an
assertion of the checkpoint before it. -/
def sampleRevocation : List Event :=
  [.observe .execution, .next, .clockReturns (.time 20),
    .advanceReply (some (sampleHighWater 4 .revoked 20 2)),
    .assertCurrent ⟨1, .authorization⟩, .clockReturns (.time 30)]

theorem revocation_counterexample : ¬ ∀ (op : Operation) (lastTime : ℕ)
    (highWater : Option HighWater) (verified : Option Verified) (events : List Event) (s : State),
    Run (Steps op) (.issue lastTime highWater verified) events s → Reaches s.reports := by
  intro hall
  have hrun := Run.of_foldl (State.step sampleExternal) (.issue 0 none (some sampleGrant))
    (sampleObservation ++ sampleRevocation)
  have hreaches := hall sampleExternal 0 none (some sampleGrant) _ _ hrun
  have hreports : ((sampleObservation ++ sampleRevocation).foldl (State.step sampleExternal)
      (State.issue 0 none (some sampleGrant))).reports =
      [.asserted ⟨1, .authorization⟩ 30,
        .failed .execution ⟨.authorizationRevoked, .authorization, some 20⟩,
        .observed ⟨1, .authorization⟩ 11] := rfl
  rw [hreports] at hreaches
  exact hreaches.1 (.inl ⟨.inl rfl, 11, List.mem_singleton_self _⟩)

end Kdna.Protection

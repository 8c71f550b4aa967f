import Kdna.Protection.Operation

/-!
# Freshness

Over every interleaving of the calls on an operation, only the checkpoint of the latest
observation is asserted, and nothing is reported current after the disposal. The times of
the reports do not decrease as long as an observation concludes at the time that it
checked.
-/

namespace Kdna.Protection

variable {op : Operation}

/-- The checkpoint of the latest successful observation. -/
def latest : List Report → Option Checkpoint
  | [] => none
  | .observed cp _ :: _ => some cp
  | _ :: rest => latest rest

/-- Each asserted checkpoint was the latest when it was asserted. -/
def OnlyLatest : List Report → Prop
  | [] => True
  | .asserted cp _ :: rest => latest rest = some cp ∧ OnlyLatest rest
  | _ :: rest => OnlyLatest rest

/-- The time of a report that something is current. -/
def Report.time? : Report → Option ℕ
  | .observed _ now => some now
  | .asserted _ now => some now
  | _ => none

/-- Nothing is reported current after the disposal. -/
def SilentOnceDisposed : List Report → Prop
  | [] => True
  | r :: rest => (r.time?.isSome → .disposed ∉ rest) ∧ SilentOnceDisposed rest

/-- The times of the reports that something is current, the newest first. -/
def currentTimes (reports : List Report) : List ℕ := reports.filterMap Report.time?

/-- No report was made before one of a later time. -/
def TimesOrdered (reports : List Report) : Prop :=
  (currentTimes reports).Pairwise fun later earlier => earlier ≤ later

/-- A report of a failure. -/
def Report.isFailure : Report → Prop
  | .failed _ _ => True
  | .refused _ _ => True
  | _ => False

/-- A step that changes neither the generation nor the disposal and reports nothing but
failures. -/
structure Quiet (s t : State) : Prop where
  generation : t.record.generation = s.record.generation
  disposed : t.record.disposed = s.record.disposed
  issued : t.issued = s.issued
  lastTime : s.record.lastTime ≤ t.record.lastTime
  frames : ∀ cp g, .assertion cp g ∈ t.stack → .assertion cp g ∈ s.stack ∨ cp ∈ s.issued
  reports : ∃ new, t.reports = new ++ s.reports ∧ ∀ r ∈ new, r.isFailure

namespace Quiet

variable {s t u : State} {r : Running}

theorem refl (s : State) : Quiet s s :=
  ⟨rfl, rfl, rfl, le_rfl, fun _ _ h => .inl h, [], rfl, List.forall_mem_nil _⟩

theorem trans (hst : Quiet s t) (htu : Quiet t u) : Quiet s u := by
  obtain ⟨new, hnew, hfailures⟩ := hst.reports
  obtain ⟨new', hnew', hfailures'⟩ := htu.reports
  refine ⟨htu.generation.trans hst.generation, htu.disposed.trans hst.disposed,
    htu.issued.trans hst.issued, hst.lastTime.trans htu.lastTime, ?_, new' ++ new, ?_, ?_⟩
  · intro cp g hmem
    rcases htu.frames cp g hmem with hframe | hissued
    · exact hst.frames cp g hframe
    · exact .inr (hst.issued ▸ hissued)
  · rw [hnew', hnew, List.append_assoc]
  · exact List.forall_mem_append.mpr ⟨hfailures', hfailures⟩

theorem fail (s : State) (r : Running) (code : Code) (stage : Stage) :
    Quiet s (s.fail r code stage) :=
  ⟨rfl, rfl, rfl, le_rfl, fun _ _ h => .inl h, [_], rfl, List.forall_mem_singleton.mpr trivial⟩

theorem refuse (s : State) (cp : Checkpoint) (code : Code) (checkedAt : Option ℕ) :
    Quiet s (s.refuse cp code checkedAt) :=
  ⟨rfl, rfl, rfl, le_rfl, fun _ _ h => .inl h, [_], rfl, List.forall_mem_singleton.mpr trivial⟩

theorem goOn (s : State) (r : Running) (point : Point) : Quiet s (s.goOn r point) :=
  ⟨rfl, rfl, rfl, le_rfl, fun _ _ h => .inl h, [], rfl, List.forall_mem_nil _⟩

theorem enterClock (s : State) (r : Running) (point : Point) : Quiet s (s.enterClock r point) := by
  rw [State.enterClock]
  split
  · exact fail s _ _ _
  · refine ⟨rfl, rfl, rfl, le_rfl, fun cp g hmem => ?_, [], rfl, List.forall_mem_nil _⟩
    rcases List.mem_cons.mp hmem with heq | htail
    · exact nomatch heq
    · exact .inl htail

/-- A later time of the clock. -/
theorem tick {now : ℕ} (h : s.record.lastTime ≤ now) :
    Quiet s { s with record := { s.record with lastTime := now } } :=
  ⟨rfl, rfl, rfl, h, fun _ _ h => .inl h, [], rfl, List.forall_mem_nil _⟩

/-- A refreshed grant. -/
theorem setVerified (s : State) (v : Verified) :
    Quiet s { s with record := { s.record with verified := some v } } :=
  ⟨rfl, rfl, rfl, le_rfl, fun _ _ h => .inl h, [], rfl, List.forall_mem_nil _⟩

/-- A new state of the provider. -/
theorem setHighWater (s : State) (state : HighWater) :
    Quiet s { s with record := { s.record with highWater := some state } } :=
  ⟨rfl, rfl, rfl, le_rfl, fun _ _ h => .inl h, [], rfl, List.forall_mem_nil _⟩

/-- Another queue. -/
theorem setQueue (s : State) (queue : List Phase) : Quiet s { s with queue := queue } :=
  ⟨rfl, rfl, rfl, le_rfl, fun _ _ h => .inl h, [], rfl, List.forall_mem_nil _⟩

/-- The innermost call ends. -/
theorem pop {frame : Frame} {rest : List Frame} (h : s.stack = frame :: rest) :
    Quiet s { s with stack := rest } :=
  ⟨rfl, rfl, rfl, le_rfl, fun _ _ hmem => .inl (h ▸ .tail _ hmem), [], rfl, List.forall_mem_nil _⟩

end Quiet

/-- An accepted time of the clock. -/
theorem clock_eq_ok_iff {r : Record} {generation now : ℕ} {reply : ClockReply} :
    clock r generation reply = .ok now ↔
      reply = .time now ∧ r.lastTime ≤ now ∧ r.disposed = false ∧ generation = r.generation := by
  cases reply with
  | threw => simp [clock]
  | invalid => simp [clock]
  | time t =>
    rw [clock]
    split_ifs with hback hdisposed hgeneration
    · simp only [ClockReply.time.injEq, false_iff]
      omega
    · simp [hdisposed]
    · simp [hgeneration]
    · simp only [Except.ok.injEq, ClockReply.time.injEq]
      constructor
      · rintro rfl
        exact ⟨rfl, by omega, by simpa using hdisposed, by simpa using hgeneration⟩
      · exact fun h => h.1

theorem overtaken_eq_none_iff {r : Record} {generation : ℕ} :
    overtaken r generation = none ↔ r.disposed = false ∧ generation = r.generation := by
  rw [overtaken]
  split_ifs with hdisposed hgeneration
  · simp [hdisposed]
  · simp [hgeneration]
  · simp only [true_iff]
    exact ⟨by simpa using hdisposed, by simpa using hgeneration⟩

section Steps

variable {s : State} {r : Running}

theorem quiet_afterFirstClock (s : State) (r : Running) (now : ℕ) :
    Quiet s (s.afterFirstClock op r now) := by
  rw [State.afterFirstClock]
  split
  · split_ifs
    · exact .goOn s r _
    · exact .fail s r _ _
    · exact .goOn s r _
  · exact .fail s r _ _
  · exact .goOn s r _

theorem quiet_afterLastClock (s : State) (r : Running) (now : ℕ) :
    Quiet s (s.afterLastClock op r now) := by
  rw [State.afterLastClock]
  split
  · exact .fail s r _ _
  · exact .goOn s r _

theorem quiet_observeClock (s : State) (r : Running) (generation : ℕ) (reply : ClockReply) :
    Quiet s (s.observeClock op r generation reply) := by
  rw [State.observeClock]
  cases hclock : clock s.record generation reply with
  | error e => exact .fail s _ _ _
  | ok now =>
    have htick := Quiet.tick (s := s) (clock_eq_ok_iff.mp hclock).2.1
    dsimp only
    split
    · exact htick.trans (quiet_afterFirstClock _ _ _)
    · split
      · exact htick.trans (.goOn _ _ _)
      · exact htick.trans (.fail _ _ _ _)
    · exact htick.trans (quiet_afterLastClock _ _ _)
    · exact .refl s

theorem quiet_afterRefresh (s : State) (r : Running) (g : Verified) (raw : Option Bytes) :
    Quiet s (s.afterRefresh op r g raw) := by
  unfold State.afterRefresh
  cases overtaken s.record r.generation with
  | some code => exact .fail s r _ _
  | none =>
    cases raw with
    | none => exact .fail s r _ _
    | some raw =>
      dsimp only
      cases op.verifyGrant raw with
      | error e => exact .fail s r _ _
      | ok v =>
        dsimp only
        split_ifs
        · exact .fail s r _ _
        · exact .fail s r _ _
        · exact (Quiet.setVerified s _).trans (.enterClock _ _ _)

theorem quiet_afterAdvance (s : State) (r : Running) (now : ℕ) (g : Verified)
    (state : Option HighWater) : Quiet s (s.afterAdvance r now g state) := by
  unfold State.afterAdvance
  cases overtaken s.record r.generation with
  | some code => exact .fail s r _ _
  | none =>
    cases state with
    | none => exact .fail s r _ _
    | some state =>
      dsimp only
      split_ifs
      · exact .fail s r _ _
      · exact .fail s r _ _
      · cases stateCode g state with
        | some code => exact (Quiet.setHighWater s _).trans (.fail _ _ _ _)
        | none => exact (Quiet.setHighWater s _).trans (.goOn _ _ _)

/-- Pushing an assertion takes an issued checkpoint that is not overtaken. -/
theorem quiet_assertCurrent (s : State) (cp : Checkpoint) : Quiet s (s.assertCurrent cp) := by
  rw [State.assertCurrent]
  by_cases hissued : cp ∈ s.issued
  · rw [if_neg (not_not.mpr hissued)]
    cases overtaken s.record cp.generation with
    | some code => exact .refuse s cp _ _
    | none =>
      refine ⟨rfl, rfl, rfl, le_rfl, fun cp' g hmem => ?_, [], rfl, List.forall_mem_nil _⟩
      rcases List.mem_cons.mp hmem with heq | htail
      · rw [(Frame.assertion.inj heq).1]
        exact .inr hissued
      · exact .inl htail
  · rw [if_pos hissued]
    exact ⟨rfl, rfl, rfl, le_rfl, fun _ _ h => .inl h, [_], rfl,
      List.forall_mem_singleton.mpr trivial⟩

end Steps

/-- What a step can do: it is quiet, it asserts the checkpoint of the innermost call, it
concludes an observation, or it disposes of the operation. -/
inductive StepCase (op : Operation) (s : State) (e : Event) : State → Prop
  | quiet {t : State} (h : Quiet s t) : StepCase op s e t
  | asserted {cp : Checkpoint} {g now : ℕ} {rest : List Frame} (hstack : s.stack = .assertion cp g :: rest)
    (htime : s.record.lastTime ≤ now) (hdisposed : s.record.disposed = false)
    (hcurrent : cp.generation = s.record.generation) (hvalid : validity op s.record now = none) :
    StepCase op s e { s with record := { s.record with lastTime := now }
                             stack := rest
                             reports := .asserted cp now :: s.reports }
  | concluded {r : Running} {now : ℕ} (hnext : e = .next) (hstack : s.stack = [])
    (hrunning : s.running = some r) (hpoint : r.point = .returned now)
    (hdisposed : s.record.disposed = false) :
    StepCase op s e (s.conclude r now)
  | disposed (hdisposed : s.record.disposed = false) : StepCase op s e s.dispose

theorem stepCase_assertClock {s : State} {e : Event} {cp : Checkpoint} {g : ℕ} {rest : List Frame}
    (hstack : s.stack = .assertion cp g :: rest) (reply : ClockReply) :
    StepCase op s e ({ s with stack := rest }.assertClock op cp g reply) := by
  unfold State.assertClock
  have hpop := Quiet.pop hstack
  cases hclock : clock s.record g reply with
  | error err =>
    exact .quiet (hpop.trans (.refuse _ _ _ _))
  | ok now =>
    obtain ⟨-, htime, -, -⟩ := clock_eq_ok_iff.mp hclock
    have htick : Quiet s { s with record := { s.record with lastTime := now }, stack := rest } :=
      hpop.trans (Quiet.tick (s := { s with stack := rest }) htime)
    dsimp only
    cases hovertaken : overtaken s.record cp.generation with
    | some code => exact .quiet (htick.trans (.refuse _ _ _ _))
    | none =>
      obtain ⟨hdisposed, hcurrent⟩ := overtaken_eq_none_iff.mp hovertaken
      cases hvalid : validity op s.record now with
      | some code => exact .quiet (htick.trans (.refuse _ _ _ _))
      | none => exact .asserted hstack htime hdisposed hcurrent hvalid

theorem stepCase_next {s : State} (hstack : s.stack = []) : StepCase op s .next s.next := by
  rw [State.next]
  split
  · exact .quiet (.refl s)
  · exact .quiet ((Quiet.setQueue s _).trans (.enterClock _ _ _))
  · rename_i r hrunning
    split
    · split
      · exact .quiet (.fail s r _ _)
      · exact .quiet (.enterClock s r _)
    · rename_i now hpoint
      by_cases hdisposed : s.record.disposed = true
      · rw [State.conclude, if_pos hdisposed]
        exact .quiet (.fail s r _ _)
      · exact .concluded rfl hstack hrunning hpoint (by simpa using hdisposed)
    · exact .quiet (.refl s)

/-- Every step is one of the cases. -/
theorem stepCase_of_step {s t : State} {e : Event} (hstep : Steps op s e t) : StepCase op s e t := by
  rw [← hstep]
  cases e with
  | observe phase => exact .quiet (.setQueue s _)
  | assertCurrent cp => exact .quiet (quiet_assertCurrent s cp)
  | dispose =>
    by_cases hdisposed : s.record.disposed = true
    · rw [State.step, State.dispose, if_pos hdisposed]
      exact .quiet (.refl s)
    · exact .disposed (by simpa using hdisposed)
  | clockReturns reply =>
    rw [State.step, State.clockReturns]
    split
    · rename_i hstack
      exact stepCase_assertClock hstack reply
    · rename_i hstack _
      exact .quiet ((Quiet.pop hstack).trans (quiet_observeClock _ _ _ _))
    · exact .quiet (.refl s)
  | refreshReply raw =>
    rw [State.step]
    split
    · split
      · exact .quiet (quiet_afterRefresh s _ _ raw)
      · exact .quiet (.refl s)
    · exact .quiet (.refl s)
  | advanceReply state =>
    rw [State.step]
    split
    · split
      · exact .quiet (quiet_afterAdvance s _ _ _ state)
      · exact .quiet (.refl s)
    · exact .quiet (.refl s)
  | next =>
    rw [State.step]
    split_ifs with hstack
    · exact stepCase_next hstack
    · exact .quiet (.refl s)

section Reports

variable {new reports : List Report}

/-- Failures change nothing about what is current. -/
theorem latest_append (h : ∀ r ∈ new, r.isFailure) : latest (new ++ reports) = latest reports := by
  induction new with
  | nil => rfl
  | cons r new ih =>
    rw [List.forall_mem_cons] at h
    cases r with
    | failed phase failure => exact ih h.2
    | refused cp failure => exact ih h.2
    | _ => exact h.1.elim

theorem onlyLatest_append (h : ∀ r ∈ new, r.isFailure) :
    OnlyLatest (new ++ reports) ↔ OnlyLatest reports := by
  induction new with
  | nil => exact Iff.rfl
  | cons r new ih =>
    rw [List.forall_mem_cons] at h
    cases r with
    | failed phase failure => exact ih h.2
    | refused cp failure => exact ih h.2
    | _ => exact h.1.elim

theorem silent_append (h : ∀ r ∈ new, r.isFailure) :
    SilentOnceDisposed (new ++ reports) ↔ SilentOnceDisposed reports := by
  induction new with
  | nil => exact Iff.rfl
  | cons r new ih =>
    rw [List.forall_mem_cons] at h
    rw [List.cons_append, SilentOnceDisposed, ih h.2]
    cases r with
    | failed phase failure => simp [Report.time?]
    | refused cp failure => simp [Report.time?]
    | _ => exact h.1.elim

theorem currentTimes_append (h : ∀ r ∈ new, r.isFailure) :
    currentTimes (new ++ reports) = currentTimes reports := by
  rw [currentTimes, List.filterMap_append, currentTimes]
  have hnone : new.filterMap Report.time? = [] := by
    rw [List.filterMap_eq_nil_iff]
    intro r hr
    have hfailure := h r hr
    cases r with
    | failed phase failure => rfl
    | refused cp failure => rfl
    | _ => exact hfailure.elim
  rw [hnone, List.nil_append]

theorem disposed_mem_append (h : ∀ r ∈ new, r.isFailure) :
    .disposed ∈ new ++ reports ↔ .disposed ∈ reports := by
  have hnot : .disposed ∉ new := fun hmem => h _ hmem
  rw [List.mem_append]
  exact or_iff_right hnot

end Reports

/-- What holds of an operation over every interleaving. -/
structure Sound (s : State) : Prop where
  issued_le : ∀ cp ∈ s.issued, cp.generation ≤ s.record.generation
  latest : s.record.disposed = false → ∀ cp ∈ s.issued, cp.generation = s.record.generation →
    latest s.reports = some cp
  frames : ∀ cp g, .assertion cp g ∈ s.stack → cp ∈ s.issued
  marked : .disposed ∈ s.reports → s.record.disposed = true
  onlyLatest : OnlyLatest s.reports
  silent : SilentOnceDisposed s.reports

theorem sound_issue (lastTime : ℕ) (highWater : Option HighWater) (verified : Option Verified) :
    Sound (.issue lastTime highWater verified) :=
  ⟨List.forall_mem_nil _, fun _ => List.forall_mem_nil _, fun _ _ h => absurd h List.not_mem_nil,
    fun h => absurd h List.not_mem_nil, trivial, trivial⟩

theorem Quiet.sound {s t : State} (h : Quiet s t) (hs : Sound s) : Sound t := by
  obtain ⟨new, hnew, hfailures⟩ := h.reports
  constructor
  case issued_le =>
    rw [h.issued, h.generation]
    exact hs.issued_le
  case latest =>
    rw [h.disposed, h.issued, h.generation, hnew, latest_append hfailures]
    exact hs.latest
  case frames =>
    intro cp g hmem
    rw [h.issued]
    rcases h.frames cp g hmem with hframe | hissued
    · exact hs.frames cp g hframe
    · exact hissued
  case marked =>
    rw [h.disposed, hnew, disposed_mem_append hfailures]
    exact hs.marked
  case onlyLatest =>
    rw [hnew, onlyLatest_append hfailures]
    exact hs.onlyLatest
  case silent =>
    rw [hnew, silent_append hfailures]
    exact hs.silent

/-- Every step keeps an operation sound. -/
theorem sound_step {s t : State} {e : Event} (hs : Sound s) (hstep : Steps op s e t) : Sound t := by
  cases stepCase_of_step hstep with
  | quiet h => exact h.sound hs
  | @asserted cp g now rest hstack htime hdisposed hcurrent hvalid =>
    have hissued : cp ∈ s.issued := hs.frames cp g (hstack ▸ List.mem_cons_self)
    refine ⟨hs.issued_le, hs.latest, ?_, ?_, ?_, ?_⟩
    · exact fun cp' g' hmem => hs.frames cp' g' (hstack ▸ .tail _ hmem)
    · exact fun hmem => hs.marked ((List.mem_cons.mp hmem).resolve_left (fun heq => nomatch heq))
    · exact ⟨hs.latest hdisposed cp hissued hcurrent, hs.onlyLatest⟩
    · refine ⟨fun _ hmem => ?_, hs.silent⟩
      exact absurd (hs.marked hmem) (by simp [hdisposed])
  | @concluded r now hnext hstack hrunning hpoint hdisposed =>
    rw [State.conclude, if_neg (by simp [hdisposed])]
    refine ⟨?_, ?_, ?_, ?_, hs.onlyLatest, ?_⟩
    · intro cp hcp
      rcases List.mem_cons.mp hcp with rfl | hold
      · exact le_rfl
      · exact Nat.le_succ_of_le (hs.issued_le cp hold)
    · intro _ cp hcp hcurrent
      rcases List.mem_cons.mp hcp with rfl | hold
      · rfl
      · have hle := hs.issued_le cp hold
        have hnew : cp.generation = s.record.generation + 1 := hcurrent
        omega
    · exact fun cp g hmem => .tail _ (hs.frames cp g hmem)
    · exact fun hmem => hs.marked ((List.mem_cons.mp hmem).resolve_left (fun heq => nomatch heq))
    · refine ⟨fun _ hmem => ?_, hs.silent⟩
      exact absurd (hs.marked hmem) (by simp [hdisposed])
  | disposed hdisposed =>
    rw [State.dispose, if_neg (by simp [hdisposed])]
    refine ⟨?_, (fun hfalse => nomatch hfalse), hs.frames, fun _ => rfl, hs.onlyLatest, ?_⟩
    · exact fun cp hcp => Nat.le_succ_of_le (hs.issued_le cp hcp)
    · exact ⟨(fun hsome => nomatch hsome), hs.silent⟩

/-- An observation concludes at the time that it checked: no other call of the operation was
given a later time since. -/
def Prompt (s : State) (e : Event) : Prop :=
  e = .next → s.stack = [] → ∀ r now, s.running = some r → r.point = .returned now →
    s.record.lastTime = now

/-- The steps at which observations conclude in time. -/
def PromptSteps (op : Operation) (s : State) (e : Event) (t : State) : Prop :=
  Prompt s e ∧ Steps op s e t

/-- What holds of the times of the reports. -/
structure Timely (s : State) : Prop where
  bounded : ∀ now ∈ currentTimes s.reports, now ≤ s.record.lastTime
  ordered : TimesOrdered s.reports

theorem timely_step {s t : State} {e : Event} (hs : Timely s) (hstep : PromptSteps op s e t) :
    Timely t := by
  obtain ⟨hprompt, hstep⟩ := hstep
  cases stepCase_of_step hstep with
  | quiet h =>
    obtain ⟨new, hnew, hfailures⟩ := h.reports
    constructor
    · rw [hnew, currentTimes_append hfailures]
      exact fun now hnow => (hs.bounded now hnow).trans h.lastTime
    · rw [hnew, TimesOrdered, currentTimes_append hfailures]
      exact hs.ordered
  | asserted hstack htime hdisposed hcurrent hvalid =>
    constructor
    · intro now' hmem
      rcases List.mem_cons.mp hmem with rfl | hold
      · exact le_rfl
      · exact (hs.bounded now' hold).trans htime
    · exact List.pairwise_cons.mpr ⟨fun now' hold => (hs.bounded now' hold).trans htime, hs.ordered⟩
  | @concluded r now hnext hstack hrunning hpoint hdisposed =>
    have hlast : s.record.lastTime = now := hprompt hnext hstack r now hrunning hpoint
    rw [State.conclude, if_neg (by simp [hdisposed])]
    constructor
    · intro now' hmem
      rcases List.mem_cons.mp hmem with rfl | hold
      · exact hlast.ge
      · exact hs.bounded now' hold
    · exact List.pairwise_cons.mpr
        ⟨fun now' hold => (hs.bounded now' hold).trans hlast.le, hs.ordered⟩
  | disposed hdisposed =>
    rw [State.dispose, if_neg (by simp [hdisposed])]
    exact ⟨hs.bounded, hs.ordered⟩

/-- Over every interleaving of calls on an operation and every behaviour of its provider only
the checkpoint of the latest observation is asserted, and nothing is reported current after
the disposal; and as long as observations conclude at the time that they checked, the times
of the reports never decrease. -/
theorem freshness (op : Operation) (lastTime : ℕ) (highWater : Option HighWater)
    (verified : Option Verified) (events : List Event) (s : State) :
    (Run (Steps op) (.issue lastTime highWater verified) events s →
      OnlyLatest s.reports ∧ SilentOnceDisposed s.reports) ∧
    (Run (PromptSteps op) (.issue lastTime highWater verified) events s →
      OnlyLatest s.reports ∧ SilentOnceDisposed s.reports ∧ TimesOrdered s.reports) := by
  have hissued := sound_issue lastTime highWater verified
  constructor
  · intro hrun
    have hsound := Run.preserves (p := Sound) (fun _ _ _ hs hstep => sound_step hs hstep)
      hrun hissued
    exact ⟨hsound.onlyLatest, hsound.silent⟩
  · intro hrun
    have hsound := Run.preserves (p := Sound) (fun _ _ _ hs hstep => sound_step hs hstep.2)
      hrun hissued
    have htimely := Run.preserves (p := Timely) (fun _ _ _ hs hstep => timely_step hs hstep)
      hrun ⟨List.forall_mem_nil _, .nil⟩
    exact ⟨hsound.onlyLatest, hsound.silent, htimely.ordered⟩

/-- An operation whose credential is a password. -/
def samplePassword : Operation :=
  ⟨.password, false, fun _ => .error .invalid, fun _ => false⟩

/-- An observation, and an assertion of its checkpoint. -/
def samplePromptEvents : List Event :=
  [.observe .execution, .next, .clockReturns (.time 10), .next,
    .assertCurrent ⟨1, .authorization⟩, .clockReturns (.time 11)]

theorem freshness_sample : ∃ s, Run (PromptSteps samplePassword) (.issue 5 none none)
    samplePromptEvents s ∧ currentTimes s.reports = [11, 10] ∧
    OnlyLatest s.reports ∧ SilentOnceDisposed s.reports ∧ TimesOrdered s.reports := by
  have hother {s : State} {e : Event} (h : e ≠ .next) : Prompt s e := fun heq => absurd heq h
  have hrun : Run (PromptSteps samplePassword) (.issue 5 none none) samplePromptEvents
      (samplePromptEvents.foldl (State.step samplePassword) (.issue 5 none none)) := by
    refine .cons ⟨hother (by simp), rfl⟩ (.cons ⟨?idle, rfl⟩ (.cons ⟨hother (by simp), rfl⟩
      (.cons ⟨?returned, rfl⟩ (.cons ⟨hother (by simp), rfl⟩ (.cons ⟨hother (by simp), rfl⟩
        (.nil _))))))
    case idle => exact fun _ _ _ _ hrunning => nomatch hrunning
    case returned =>
      intro _ _ r now hrunning hpoint
      cases hrunning
      cases hpoint
      rfl
  exact ⟨_, hrun, rfl, (freshness samplePassword 5 none none samplePromptEvents _).2 hrun⟩

/-- The second observation has checked the time 10 when the first checkpoint is asserted at
the time 11, and concludes with the time 10 all the same. -/
def sampleStaleEvents : List Event :=
  [.observe .execution, .next, .clockReturns (.time 10), .next,
    .observe .execution, .next, .clockReturns (.time 10),
    .assertCurrent ⟨1, .authorization⟩, .clockReturns (.time 11), .next]

theorem freshness_counterexample : ¬ ∀ (op : Operation) (lastTime : ℕ)
    (highWater : Option HighWater) (verified : Option Verified) (events : List Event) (s : State),
    Run (Steps op) (.issue lastTime highWater verified) events s →
      OnlyLatest s.reports ∧ SilentOnceDisposed s.reports ∧ TimesOrdered s.reports := by
  intro hall
  have hrun := Run.of_foldl (State.step samplePassword) (.issue 5 none none) sampleStaleEvents
  have htimes := (hall samplePassword 5 none none sampleStaleEvents _ hrun).2.2
  have hreports : currentTimes (sampleStaleEvents.foldl (State.step samplePassword)
      (State.issue 5 none none)).reports = [10, 11, 10] := rfl
  rw [TimesOrdered, hreports] at htimes
  exact absurd htimes (by decide)

end Kdna.Protection

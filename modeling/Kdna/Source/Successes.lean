import Kdna.Source.Runs

/-!
# Runs with revisions

A context is taken by one call. A revision of the section route succeeds only while the opening
waits for `deliver`, before the deadline. On the ordinary route it may also succeed behind the
answer to its last assertion, which is not followed by another check: what it does then is right
where that answer does not come late.
-/

namespace Kdna.Source

open EventLoop Value Read Execution

variable {k : Route} {config : Config} {h pre : List Happening} {e : Happening}

abbrev SourceLoop := Loop (Option Call) State Query Reply Result

/-- A revision gets the answer that lets it succeed while the opening waits for its own last
observation, or past the deadline. -/
def late (m : SourceLoop) : Event Call Reply ℕ → Bool
  | .answer a =>
    match m.stack with
    | f :: _ => f.question = .assertCurrent && a.isCurrent && lastAsserts f.log f.call &&
      ((trail m.history).getLast? = some (some (.operationObserve .readReturn)) ||
        m.state.deadline < m.state.now)
    | [] => false
  | _ => false

/-- No answer to a revision of the ordinary route comes late. -/
def timely (k : Route) (config : Config) (m : SourceLoop) : List (Event Call Reply ℕ) → Bool
  | [] => true
  | ev :: events => (k ≠ .ordinary || !late m ev) &&
    timely k config (m.step Query.sync some (body config k) moveTime ev) events

/-- What holds where a revision succeeds. -/
structure Succeeds (k : Route) (config : Config) (pre : List Happening) (e : Happening) : Prop where
  waits : WaitsAt .deliver pre
  inTime : e.state.now ≤ e.state.deadline
  observed : ∃ raw owner currentMs, RevisionLog e k raw ∧ e.state.owner = some owner ∧
    Allows k config owner raw currentMs

/-- The entry is one at which a revision succeeds. -/
def isSuccess (e : Happening) : Prop :=
  e.outcome = .returned .previewValid ∨ e.outcome = .returned .revisionProduced

/-- The log of a revision that succeeds ends with its assertion. -/
theorem RevisionLog.last {raw : Json} (hlog : RevisionLog e k raw) : ∃ asserted,
    e.log = e.log.dropLast ++ [(.assertCurrent, asserted)] ∧ asserted.isCurrent = true := by
  cases k with
  | ordinary =>
    obtain ⟨log, purpose, phase, current, asserted, heq, -, hasserted⟩ := hlog
    refine ⟨asserted, ?_, hasserted⟩
    rw [heq]
    simp [List.dropLast_append_of_ne_nil]
  | sections =>
    obtain ⟨log, purpose, phase, unchanged, current, asserted, heq, -, hasserted⟩ := hlog
    refine ⟨asserted, ?_, hasserted⟩
    rw [heq]
    simp [List.dropLast_append_of_ne_nil]

/-- An entry at which a revision succeeds. -/
theorem revises_of_success (he : Entered (rules k config) pre e) (hsuccess : isSuccess e) :
    Revises k config pre e := by
  have hok := he.inv.last pre e rfl
  have hno {r : Result} (hr : r = .previewValid ∨ r = .revisionProduced) :
      ¬ Reports e.call r e.state := by
    intro hreports
    rw [Reports] at hreports
    split at hreports
    · obtain ⟨code, stage, rfl⟩ := hreports
      simp at hr
    · rcases hr with rfl | rfl <;> simp [Result.disclosure?] at hreports
  rcases hsuccess with hr | hr
  · rw [EntryOk, hr] at hok
    exact (hok.resolve_left (hno (.inl rfl))).2.2
  · rw [EntryOk, hr] at hok
    exact (hok.resolve_left (hno (.inr rfl))).2.2

/-- A step behind which a revision has succeeded. -/
theorem succeeds_step {m : SourceLoop} (hm : Sound Query.sync (rules k config) m)
    (hcount : 0 < m.count) {ev : Event Call Reply ℕ} (hlate : k = .ordinary → late m ev = false)
    (hall : Always (fun pre e => isSuccess e → Succeeds k config pre e) m.history) :
    Always (fun pre e => isSuccess e → Succeeds k config pre e)
      (m.step Query.sync some (body config k) moveTime ev).history := by
  rcases hm.step_entry (obeys k config) hcount ev with hsame | ⟨e, hhistory, hentry⟩
  · rw [hsame]
    exact hall
  · have he := (hm.step (obeys k config) hcount ev).each m.history e [] hhistory
    rw [hhistory]
    refine hall.append fun hsuccess => ?_
    have hrevises := revises_of_success he hsuccess
    obtain ⟨raw, owner, currentMs, hlog, howner, hallows⟩ := hrevises.observed
    suffices htime : WaitsAt .deliver m.history ∧ e.state.now ≤ e.state.deadline from
      ⟨htime.1, htime.2, raw, owner, currentMs, hlog, howner, hallows⟩
    cases k with
    | sections => exact ⟨hrevises.live.resolve_right nofun, hrevises.inTime rfl⟩
    | ordinary =>
      obtain ⟨asserted, heq, hasserted⟩ := hlog.last
      obtain ⟨f, below, rfl, hstack, hquestion, hbefore, hcall, hmoves, hnow⟩ :=
        hentry _ _ _ heq rfl fun x hx => by rcases hsuccess with hr | hr <;> simp [hr] at hx
      have hfinal := hrevises.final
      rw [← hbefore, ← hcall] at hfinal
      have hprompt := hlate rfl
      simp only [late, hstack, hquestion, hasserted, hfinal, decide_true, Bool.true_and,
        Bool.or_eq_false_iff, decide_eq_false_iff_not] at hprompt
      obtain ⟨hnotreturn, hnotlate⟩ := hprompt
      refine ⟨hrevises.live.resolve_right fun hreturn => ?_, ?_⟩
      · obtain ⟨xs, hxs⟩ := hreturn.2.trail
        rw [hxs, List.getLast?_append_of_ne_nil _ (List.cons_ne_nil _ _),
          List.getLast?_singleton] at hnotreturn
        exact hnotreturn rfl
      · obtain ⟨g, hg, hsome⟩ := hrevises.owned
        obtain ⟨o, ho⟩ := Option.isSome_iff_exists.mp hsome
        obtain ⟨o', ho', -⟩ := (hm.past g hg).owner o ho
        rw [hnow, hmoves.deadline (Option.isSome_iff_exists.mpr ⟨o', ho'⟩)]
        exact Nat.le_of_not_lt hnotlate

theorem succeeds_run {m : SourceLoop} (hm : Sound Query.sync (rules k config) m)
    (hcount : 0 < m.count) {events : List (Event Call Reply ℕ)}
    (htimely : timely k config m events = true)
    (hall : Always (fun pre e => isSuccess e → Succeeds k config pre e) m.history) :
    Always (fun pre e => isSuccess e → Succeeds k config pre e)
      (events.foldl (Loop.step Query.sync some (body config k) moveTime) m).history := by
  induction events generalizing m with
  | nil => exact hall
  | cons ev events ih =>
    rw [timely, Bool.and_eq_true, Bool.or_eq_true, decide_eq_true_eq, Bool.not_eq_true'] at htimely
    refine ih (hm.step (obeys k config) hcount ev) (Nat.lt_of_lt_of_le hcount (count_le_step ev))
      htimely.2 (succeeds_step hm hcount (fun hk => ?_) hall)
    exact htimely.1.resolve_left fun hne => hne hk

/-- In every run of either route in which no answer to a revision of the ordinary route comes late,
a revision succeeds only while the opening waits for `deliver`, before the deadline and under its
own last observations; and in every run at all one call has the context. -/
theorem revisions_sourceRun (k : Route) (config : Config) (now : ℕ)
    (events : List (Event Call Reply ℕ)) :
    (timely k config (sourceRun k config now []) events = true →
      Always (fun pre e => isSuccess e → Succeeds k config pre e)
        (sourceRun k config now events).history) ∧
    ∀ e ∈ (sourceRun k config now events).history, ∀ f ∈ (sourceRun k config now events).history,
      TakesContext e → TakesContext f → e.id = f.id := by
  refine ⟨fun htimely => ?_, (sound_sourceRun k config now events).inv.single⟩
  have hstart := sound_sourceRun k config now []
  refine succeeds_run hstart ?_ htimely fun pre e post heq hsuccess => ?_
  · rw [sourceRun, List.foldl_nil, count_start]
    exact Nat.one_pos
  · obtain ⟨f, hf, -⟩ := (revises_of_success (hstart.each pre e post heq) hsuccess).owned
    obtain ⟨e', hstart'⟩ : ∃ e', (Loop.start Query.sync (initial now) none
        (opening config k)).history = [e'] := history_start _ _ _
    have hlength := congrArg List.length (heq.symm.trans hstart')
    rw [List.length_append, List.length_cons, List.length_singleton] at hlength
    have := List.length_pos_of_mem hf
    omega

/-- A preview behind `deliver`, whose last assertion is answered when the opening does what the
events say. -/
def previewAt (settlement : List (Event Call Reply ℕ)) : List (Event Call Reply ℕ) :=
  upToDeliver ++ [.call (.preview ⟨true, none, none⟩), .settle 1 (.value allowedObservation),
    .resume 1, .settle 1 (.current true)] ++ settlement ++ [.resume 1, .answer (.current true)]

/-- A preview that is answered while the opening waits for `deliver` succeeds as it should. -/
theorem preview_in_time : timely .ordinary openingOfA (sourceRun .ordinary openingOfA 0 [])
      (previewAt []) = true ∧
    Always (fun pre e => isSuccess e → Succeeds .ordinary openingOfA pre e)
      (sourceRun .ordinary openingOfA 0 (previewAt [])).history := by
  have htimely : timely .ordinary openingOfA (sourceRun .ordinary openingOfA 0 []) (previewAt []) =
      true := by decide +kernel
  exact ⟨htimely, (revisions_sourceRun .ordinary openingOfA 0 (previewAt [])).1 htimely⟩

/-- The entry returns from a preview that is valid. -/
def previewed (e : Happening) : Bool :=
  match e.outcome with
  | .returned r => r = .previewValid
  | _ => false

theorem previewed_iff : previewed e = true ↔ e.outcome = .returned .previewValid := by
  rw [previewed]
  split
  · next r hr => rw [hr, decide_eq_true_eq, Outcome.returned.injEq]
  · next hne => exact ⟨nofun, fun he => absurd he (hne _)⟩

/-- On the ordinary route a preview may succeed behind the settlement of `deliver`, while the opening
waits for its own last observation. -/
theorem preview_behind_deliver : ¬ ∀ k config now events,
    Always (fun pre e => isSuccess e → Succeeds k config pre e) (sourceRun k config now events).history := by
  intro h
  have hrun := h .ordinary openingOfA 0 (previewAt [.settle 0 (.value (.bool true)), .resume 0])
  obtain ⟨xs, hxs⟩ := (hrun.get 14 (by decide +kernel)
    (.inl (previewed_iff.mp (by decide +kernel)))).waits.trail
  have hlast := congrArg List.getLast? hxs
  rw [List.getLast?_append_of_ne_nil _ (List.cons_ne_nil _ _), List.getLast?_singleton] at hlast
  revert hlast
  decide +kernel

end Kdna.Source

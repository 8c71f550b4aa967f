import Kdna.Source.Revisions

/-!
# Runs of a source opening

In every run of an opening and of any calls on what it hands out, the sink is invoked at most once
and under the authority that the route checks, and no result says less than what was disclosed.
-/

namespace Kdna.Source

open EventLoop Value Read Execution

variable {k : Route} {config : Config} {s : State} {h pre : List Happening} {e f : Happening}

/-- What a delivered transport is asked for: every call keeps to the rules. -/
theorem obeys (k : Route) (config : Config) :
    Obeys Query.sync (rules k config) some (body config k) moveTime where
  lawful := lawful_rules k config
  body call id s h hinv hpast _ hpos := by
    have hid : id ≠ 0 := Nat.pos_iff_ne_zero.mp hpos
    cases k with
    | ordinary =>
      cases call with
      | commit transport => exact ordinary_commit hinv hpast hid rfl transport
      | preview draft => exact ordinary_preview hinv hpast hid draft
      | produce draft => exact ordinary_produce hinv hpast hid draft
    | sections =>
      cases call with
      | commit transport => exact sections_commit hinv hpast hid rfl transport
      | preview draft => exact sections_preview hinv hpast hid draft
      | produce draft => exact sections_produce hinv hpast hid draft
  env now s h hinv _ := by
    have hnested : s.Nested (moveTime now s) := ⟨rfl, rfl, rfl, .refl Context.Moves.refl _⟩
    exact ⟨hinv.congr rfl (.refl Context.Moves.refl _) (fun c hc => ⟨c, hc, fun h => h⟩)
      fun o ho => ⟨o, ho, rfl, rfl⟩, hnested.moves, hnested⟩

theorem sound_sourceRun (k : Route) (config : Config) (now : ℕ)
    (events : List (Event Call Reply ℕ)) :
    Sound Query.sync (rules k config) (sourceRun k config now events) := by
  refine sound_run (obeys k config) (inv_initial k config now 0) ?_ events
  cases k with
  | ordinary => exact ordinary_opening config now
  | sections => exact sections_opening config now

section Transport

/-- In every run of either route, wherever the sink is invoked, it has not been before, the opening
has not taken up the result of `deliver`, and the log of the commit shows the authority that the
route checks. -/
theorem sinks_sourceRun (k : Route) (config : Config) (now : ℕ)
    (events : List (Event Call Reply ℕ)) :
    Always (fun pre e => e.outcome = .asked .commit → Sinks k config pre e)
      (sourceRun k config now events).history := by
  refine (sound_sourceRun k config now events).each.imp fun pre e he hasked => ?_
  have hok := he.inv.last pre e rfl
  rw [EntryOk, hasked] at hok
  exact hok

/-- The opening has asked the question, and what it awaits has not been settled. -/
def Unsettled (q : Query) (h : List Happening) : Prop :=
  ∃ before e after, h = before ++ e :: after ∧ e.id = 0 ∧ e.outcome = .asked q ∧
    ∀ f ∈ after, f.id ≠ 0

/-- The entry asks the question. -/
def asks (q : Query) (e : Happening) : Bool :=
  match e.outcome with
  | .asked q' => q' = q
  | _ => false

theorem asks_iff {q : Query} : asks q e = true ↔ e.outcome = .asked q := by
  rw [asks]
  split
  · next q' hq => rw [hq, decide_eq_true_eq, Outcome.asked.injEq]
  · next hne => exact ⟨nofun, fun he => absurd he (hne q)⟩

/-- What is not settled is the last that the opening did. -/
theorem Unsettled.last {q : Query} (hq : Unsettled q h) :
    (h.filter fun e => e.id = 0).getLast?.any (asks q) = true := by
  obtain ⟨before, e, after, rfl, hid, he, hafter⟩ := hq
  have hnil : after.filter (fun e => e.id = 0) = [] :=
    List.filter_eq_nil_iff.mpr fun f hf => by simpa using hafter f hf
  rw [List.filter_append, List.filter_cons_of_pos (by simpa using hid), hnil,
    List.getLast?_append_of_ne_nil _ (List.cons_ne_nil _ _), List.getLast?_singleton, Option.any_some]
  exact asks_iff.mpr he

/-- An observation that allows the whole source of the asset `a`. -/
def allowedObservation : Json :=
  .obj [("context_id", .str "c"), ("epoch", .str "e"), ("asset_digest", .str "a"),
    ("permission", .str "allowed"), ("scope", .str "complete_source"),
    ("current_ms", UInt.json ⟨1, by decide⟩), ("expires_at_ms", UInt.json ⟨5, by decide⟩),
    ("revoked", .bool false)]

/-- An opening of the asset `a`. -/
def openingOfA : Config := ⟨true, true, "a", 10⟩

/-- The opening goes on up to `deliver`. -/
def upToDeliver : List (Event Call Reply ℕ) :=
  [.settle 0 (.admitted (.source "a" true) true), .resume 0, .settle 0 (.value allowedObservation),
    .resume 0, .settle 0 (.current true), .resume 0]

/-- `deliver` is settled before the commit goes on, which goes on before the opening. -/
def commitBehindDeliver : List (Event Call Reply ℕ) :=
  upToDeliver ++ [.call (.commit true), .settle 1 (.value allowedObservation), .resume 1,
    .settle 1 (.current true), .settle 0 (.value (.bool true)), .resume 1]

/-- The sink may be invoked behind the settlement of `deliver`, before the opening takes it up. -/
theorem sink_behind_settlement : ¬ ∀ k config now events,
    Always (fun pre e => e.outcome = .asked .commit → Unsettled .deliver pre)
      (sourceRun k config now events).history := by
  intro h
  have hrun := h .ordinary openingOfA 0 commitBehindDeliver
  have hlast := (hrun.get 12 (by decide +kernel) (asks_iff.mp (by decide +kernel))).last
  revert hlast
  decide +kernel

end Transport

section Disclosures

/-- The disclosure says that the sink was confirmed. -/
def Confirms (d : Disclosure) : Prop := ∃ x a b, d = some x ∧ x.externalCommit = .confirmed a b

/-- What holds where a call stops, of what is disclosed. -/
structure Discloses (pre : List Happening) (e : Happening) : Prop where
  reports : ∀ r, e.outcome = .returned r → isRevision e.call = false → r = .thrown ∨
    ∃ d, r.disclosure? = some d ∧ (Asked pre .deliver → d.isSome = true) ∧
      (Asked pre .commit → ∃ x, d = some x ∧ x.externalCommit ≠ .notInvoked) ∧
      (Confirms d ↔ Confirmed (pre ++ [e]))
  onward : ∀ f ∈ pre, ∀ r r' d d', f.outcome = .returned r → e.outcome = .returned r' →
    r.disclosure? = some d → r'.disclosure? = some d' → rank d ≤ rank d'
  frozen : e.outcome = .asked .commit → ∀ f ∈ pre, f.id = 0 → ∀ r, f.outcome ≠ .returned r

theorem confirms_iff {d : Disclosure} : Confirms d ↔ 2 < rank d := by
  cases d with
  | none => simp [Confirms, rank]
  | some x =>
    obtain ⟨atMs, commit⟩ := x
    cases commit with
    | notInvoked => simp [Confirms, rank, ExternalCommit.rank]
    | outcomeUnknown a => simp [Confirms, rank, ExternalCommit.rank]
    | confirmed a b => simp [Confirms, rank, ExternalCommit.rank]

theorem invoked_iff {d : Disclosure} :
    (∃ x, d = some x ∧ x.externalCommit ≠ .notInvoked) ↔ 1 < rank d := by
  cases d with
  | none => simp [rank]
  | some x =>
    obtain ⟨atMs, commit⟩ := x
    cases commit <;> simp [rank, ExternalCommit.rank]

/-- A result that reports a disclosure reports the one of the state. -/
theorem disclosure_eq (he : Entered (rules k config) pre e) {r : Result}
    (hr : e.outcome = .returned r) {d : Disclosure} (hd : r.disclosure? = some d) :
    d = e.state.history := by
  have hok := he.inv.last pre e rfl
  rw [EntryOk, hr] at hok
  rcases hok with hreports | ⟨-, rfl | rfl, -⟩
  · rw [Reports] at hreports
    split at hreports
    · obtain ⟨code, stage, rfl⟩ := hreports
      cases hd
    · rcases hreports with rfl | hreports
      · cases hd
      · exact Option.some.inj (hd.symm.trans hreports)
  · cases hd
  · cases hd

/-- In every run of either route, every result of the opening and of a commit discloses what has
happened, results only move onward, and nothing reaches the sink behind the end of the opening. -/
theorem discloses_sourceRun (k : Route) (config : Config) (now : ℕ)
    (events : List (Event Call Reply ℕ)) :
    Always Discloses (sourceRun k config now events).history := by
  have heach := (sound_sourceRun k config now events).each
  intro pre e post heq
  have he := heach pre e post heq
  refine ⟨fun r hr hcall => ?_, fun f hf r r' d d' hr hr' hd hd' => ?_, fun hasked f hf hid r hr => ?_⟩
  · have hok := he.inv.last pre e rfl
    rw [EntryOk, hr] at hok
    have hreports := hok.resolve_right fun hrevision => by
      rw [hcall] at hrevision
      cases hrevision.1
    rw [Reports, if_neg (by rw [hcall]; exact Bool.false_ne_true)] at hreports
    refine hreports.imp_right fun hd => ⟨_, hd, fun hdeliver => ?_, fun hcommit => ?_, ?_⟩
    · exact he.inv.handed.mpr (Asked.append.mpr (.inl hdeliver))
    · exact invoked_iff.mpr (he.inv.invoked.mp (Asked.append.mpr (.inl hcommit)))
    · rw [confirms_iff]
      exact he.inv.confirmed.symm
  · obtain ⟨before, after, rfl⟩ := List.append_of_mem hf
    have hf' := heach before f (after ++ e :: post) (by rw [heq, List.append_assoc, List.cons_append])
    rw [disclosure_eq hf' hr hd, disclosure_eq he hr' hd']
    exact (he.past f hf).history
  · have hok := he.inv.last pre e rfl
    rw [EntryOk, hasked] at hok
    obtain ⟨before, g, hg, hdeliver, more, hmore, hsettled⟩ := hok.open'
    rw [hmore] at hf
    rcases List.mem_append.mp hf with hf | hf
    · rcases List.mem_append.mp hf with hf | hf
      · -- the opening had returned before it asked
        have hg' := heach before g (more ++ e :: post) (by
          rw [heq, hmore, List.append_assoc, List.append_assoc, List.singleton_append])
        exact hg'.alive f hf (hid.trans hg.symm) r hr
      · rw [List.mem_singleton.mp hf, hdeliver] at hr
        cases hr
    · obtain ⟨a, ha⟩ := hsettled f hf hid
      rw [ha] at hr
      cases hr

end Disclosures

end Kdna.Source

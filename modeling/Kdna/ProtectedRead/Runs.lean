import Kdna.ProtectedRead.Returns

/-!
# Runs of a protected read

In every run of a protected read and of any commits on its token, the sink is invoked at most once
and under the authority of its own commit, the read's result says whether it was, and the handles
are registered only behind a delivery whose commits have succeeded.
-/

namespace Kdna.ProtectedRead

open EventLoop Value Read

variable {k : Route} {s : State} {h pre post : List Happening} {e f g : Happening}

theorem inv_initial (k : Route) (revocations : List Denial) (folding : Bool) :
    Inv k (initial revocations folding) [] where
  kind := List.forall_mem_nil _
  mine := List.forall_mem_nil _
  sinks := List.forall_mem_nil _
  made := ⟨fun h => absurd h Bool.false_ne_true, fun ⟨_, he, _⟩ => absurd he List.not_mem_nil⟩
  held := List.forall_mem_nil _
  single := List.forall_mem_nil _
  fits _ hd := absurd hd.symm (Option.some_ne_none _)
  opened hw _ := absurd hw.everAsked fun ⟨_, he, _⟩ => absurd he List.not_mem_nil
  registered hr := absurd hr Bool.false_ne_true
  last _ _ heq := absurd heq.symm (List.append_ne_nil_of_right_ne_nil _ (List.cons_ne_nil _ _))

theorem reading_eq (k : Route) : reading k = protectedRead k := by cases k <;> rfl

/-- Every call keeps to the rules. -/
theorem obeys (k : Route) :
    Obeys Query.sync (rules k) some (commitProtectedTransport k) (change k) where
  lawful := lawful_rules k
  body call _ _ _ hinv hpast hnew hpos :=
    meets_commit hinv hpast (fun e he => Nat.ne_of_lt (hnew e he)) (Nat.pos_iff_ne_zero.mp hpos) call
  env c _ _ hinv _ := ⟨(hinv.change c).1, (hinv.change c).2, trivial⟩

theorem sound_readRun (k : Route) (revocations : List Denial) (folding : Bool)
    (events : List (Event Call Reply Change)) :
    Sound Query.sync (rules k) (readRun k revocations folding events) := by
  have hinv := inv_initial k revocations folding
  refine sound_run (obeys k) hinv ?_ events
  rw [reading_eq]
  exact meets_protectedRead ⟨hinv, List.forall_mem_nil _,
    fun ⟨_, he, _⟩ => absurd he List.not_mem_nil⟩ rfl

section Delivered

/-- A result that reports an external commit. -/
def Discloses (r : Result) : Prop :=
  ∃ x, r.disclosure = some x ∧ x.externalCommit ≠ .notInvoked

/-- The call has returned, having committed. -/
def Committed (h : List Happening) (id : ℕ) : Prop :=
  ∃ e ∈ h, e.id = id ∧ ∃ n d, e.outcome = .returned (.committed n d)

/-- What makes the handles of an envelope usable: the read took up `true` from `deliver` where every
commit that has the token, and the first of the commits on it, had succeeded, and then found the
operation current. -/
def Usable (h : List Happening) : Prop :=
  (∃ e ∈ h, e.id = 0 ∧ RegisterLog e.log) ∧
    ∃ before e after, h = before ++ e :: after ∧ e.id = 0 ∧
      e.outcome = .asked (.operationObserve .readReturn) ∧
      (∃ log, e.log = log ++ [(.deliver, .value (.bool true))]) ∧
      (∀ f ∈ h, Holds f → Committed before f.id) ∧
      ∀ pre f post, h = pre ++ f :: post → First pre f → Committed before f.id

/-- What a run of a protected read keeps to: at the sink, at the end of the read, and where the
handles are registered. -/
structure Delivers (k : Route) (h : List Happening) : Prop where
  sinks : Always (fun pre e => e.outcome = .asked .sink → Sinks k pre e) h
  history : ∀ e ∈ h, e.id = 0 → ∀ r, e.outcome = .returned r → (Discloses r ↔ EverAsked h .sink)
  usable : Always (fun pre e => e.state.registered = true → Usable (pre ++ [e])) h

theorem sinks_of_entered (he : Entered (rules k) pre e) (hasked : e.outcome = .asked .sink) :
    Sinks k pre e := by
  have hok := he.inv.last pre e rfl
  rw [EntryOk, hasked] at hok
  exact hok

/-- The sink is not invoked behind the end of the read. -/
theorem not_sink_behind (heach : Always (Entered (rules k)) h) (heq : h = pre ++ e :: post)
    (hid : e.id = 0) {r : Result} (hr : e.outcome = .returned r) (hf : f ∈ post) :
    f.outcome ≠ .asked .sink := by
  intro hasked
  obtain ⟨between, after, rfl⟩ := List.append_of_mem hf
  have hsplit : h = (pre ++ e :: between) ++ f :: after := by rw [heq, List.append_assoc]; rfl
  have hsinks := sinks_of_entered (heach _ _ _ hsplit) hasked
  refine not_waits_of_returned (e := e) (hsplit ▸ heach).of_append ?_ hid hr hsinks.open'
  exact List.mem_append_right _ List.mem_cons_self

/-- An entry of a commit is none of another call. -/
theorem not_holds_of_read (he : ¬ e.isCommit = true) : ¬ Holds e := fun hh => he hh.1

/-- A commit that held the token and returned was committed, where the delivery has not failed. -/
theorem committed_of_returned (heach : Always (Entered (rules k)) h) (heq : h = pre ++ f :: post)
    {r : Result} (hr : f.outcome = .returned r) (hg : g ∈ pre) (hid : f.id = g.id)
    (hholds : Holds g) (hfailed : ∀ d, f.state.delivery = some d → d.failed = false) :
    ∃ n d, r = .committed n d := by
  have hok := (heach pre f post heq).inv.last pre f rfl
  rw [EntryOk, hr] at hok
  rcases hok.held ⟨g, hg, hid.symm, hholds⟩ with hcommitted | ⟨d, hd, hfail⟩
  · cases r with
    | committed n d => exact ⟨n, d, rfl⟩
    | _ => cases hcommitted
  · cases hfail.symm.trans (hfailed d hd)

/-- A commit that asks behind an entry where the delivery is settled is none that holds the
token. -/
theorem mem_of_holds (heach : Always (Entered (rules k)) h) (heq : h = pre ++ e :: post)
    {d : Delivery} (hd : e.state.delivery = some d) (howner : d.ownerActive = false)
    (hclosed : d.lifecycle = .closed) (hpending : d.pending = false) (hg : g ∈ h)
    (hholds : Holds g) : g ∈ pre ++ [e] := by
  by_contra hnot
  have hmem : g ∈ post := by
    rw [heq, ← List.singleton_append, ← List.append_assoc] at hg
    exact (List.mem_append.mp hg).resolve_left hnot
  obtain ⟨between, after, rfl⟩ := List.append_of_mem hmem
  have hg' := heach (pre ++ e :: between) g after (by rw [heq, List.append_assoc]; rfl)
  obtain ⟨d', hd', hmoves⟩ :=
    (hg'.past e (List.mem_append_right _ List.mem_cons_self)).delivery d hd
  obtain rfl := hmoves.settled howner hclosed hpending
  rcases (hg'.inv.fits d' hd').running g (mem_append_entry.mpr (.inr rfl)) hholds with hr | hr
  · obtain ⟨f, hf, hid, r, hr⟩ := hr
    rcases mem_append_entry.mp hf with hf | rfl
    · exact hg'.alive f hf hid r hr
    · obtain ⟨q, hq⟩ := hholds.2
      cases hr.symm.trans hq
  · cases hpending.symm.trans hr

/-- Every commit that held the token was committed before an entry of the read where the delivery
is settled and has not failed. -/
theorem committed_of_holds (heach : Always (Entered (rules k)) h) (heq : h = pre ++ e :: post)
    {d : Delivery} (hd : e.state.delivery = some d) (howner : d.ownerActive = false)
    (hclosed : d.lifecycle = .closed) (hpending : d.pending = false) (hfailed : d.failed = false)
    (he : ¬ e.isCommit = true) (hasked : ∀ r, e.outcome ≠ .returned r) (hg : g ∈ h)
    (hholds : Holds g) : Committed pre g.id := by
  have hentered := heach pre e post heq
  have hbefore := mem_of_holds heach heq hd howner hclosed hpending hg hholds
  have hmem : g ∈ pre := by
    rcases mem_append_entry.mp hbefore with hmem | rfl
    · exact hmem
    · exact absurd hholds (not_holds_of_read he)
  rcases (hentered.inv.fits d hd).running g hbefore hholds with ⟨f, hf, hid, r, hr⟩ | hr
  · rcases mem_append_entry.mp hf with hf | rfl
    · obtain ⟨before, after, rfl⟩ := List.append_of_mem hf
      have hsplit : h = before ++ f :: (after ++ e :: post) := by rw [heq, List.append_assoc]; rfl
      have hgBefore : g ∈ before := by
        rcases List.mem_append.mp hmem with hmem | hmem
        · exact hmem
        · rcases List.mem_cons.mp hmem with rfl | hmem
          · obtain ⟨q, hq⟩ := hholds.2
            cases hr.symm.trans hq
          · obtain ⟨between, rest, rfl⟩ := List.append_of_mem hmem
            have hlater := heach (before ++ f :: between) g (rest ++ e :: post) (by
              rw [hsplit, List.append_assoc, List.append_assoc]; rfl)
            exact absurd hr (hlater.alive f (List.mem_append_right _ List.mem_cons_self) hid r)
      obtain ⟨n, x, rfl⟩ := committed_of_returned heach hsplit hr hgBefore hid hholds
        fun d' hd' => by
          obtain ⟨d'', hd'', hmoves⟩ := (hentered.past f hf).delivery d' hd'
          obtain rfl := Option.some.inj (hd.symm.trans hd'')
          by_contra hfail
          cases hfailed.symm.trans (hmoves.failed (Bool.eq_true_of_not_eq_false hfail))
      exact ⟨f, hf, hid, n, x, hr⟩
    · exact absurd hr (hasked r)
  · cases hpending.symm.trans hr

/-- The handles are usable where they are registered. -/
theorem usable_of_registered (heach : Always (Entered (rules k)) (pre ++ [e]))
    (hregistered : e.state.registered = true) : Usable (pre ++ [e]) := by
  have hentered := heach pre e [] rfl
  obtain ⟨⟨f, hf, hid, hlog, -⟩, ⟨u, hu, huid, huasked, hulog, d, hd, howner, hclosed, hpending,
    hfailed⟩, dᵣ, hdᵣ, -, -, hfailedᵣ⟩ := hentered.inv.registered hregistered
  obtain ⟨before, after, heq⟩ := List.append_of_mem hu
  have hread : ¬ u.isCommit = true := by
    have hkind := hentered.inv.kind u hu (fun a ha => by rw [huasked] at ha; cases ha)
    rw [hkind.mp huid]
    exact Bool.false_ne_true
  have hnone (r : Result) : u.outcome ≠ .returned r := by
    rw [huasked]
    exact nofun
  have hholds (g : Happening) (hg : g ∈ pre ++ [e]) (hh : Holds g) : Committed before g.id :=
    committed_of_holds heach heq hd howner hclosed hpending hfailed hread hnone hg hh
  refine ⟨⟨f, hf, hid, hlog⟩, before, u, after, heq, huid, huasked, hulog, hholds,
    fun pre' g post' hsplit hfirst => ?_⟩
  have hg : g ∈ pre ++ [e] := by
    rw [hsplit]
    exact List.mem_append_right _ List.mem_cons_self
  cases hout : g.outcome with
  | asked q => exact hholds g hg ⟨hfirst.commit, q, hout⟩
  | settled a => exact absurd hout (hfirst.stops a)
  | returned r =>
    have hok := (heach pre' g post' hsplit).inv.last pre' g rfl
    rw [EntryOk, hout] at hok
    obtain ⟨d', hd', hfail⟩ := hok.first hfirst
    have hlast : g.state.Moves e.state := by
      rcases mem_append_entry.mp hg with hg | rfl
      · exact hentered.past g hg
      · exact .refl _
    obtain ⟨d'', hd'', hmoves⟩ := hlast.delivery d' hd'
    obtain rfl := Option.some.inj (hdᵣ.symm.trans hd'')
    cases hfailedᵣ.symm.trans (hmoves.failed hfail)

/-- At the end of the read its result says whether the sink was invoked. -/
theorem discloses_iff (heach : Always (Entered (rules k)) h) (he : e ∈ h) (hid : e.id = 0)
    {r : Result} (hr : e.outcome = .returned r) : Discloses r ↔ EverAsked h .sink := by
  obtain ⟨pre, post, rfl⟩ := List.append_of_mem he
  have hentered := heach pre e post rfl
  have hok := hentered.inv.last pre e rfl
  rw [EntryOk, hr] at hok
  have hread : e.isCommit = false :=
    (hentered.inv.kind e (mem_append_entry.mpr (.inr rfl)) (fun a ha => by
      rw [hr] at ha; cases ha)).mp hid
  have hreports : r.disclosure = e.state.history :=
    hok.reports.resolve_right fun hc => by cases hread.symm.trans hc.1
  have hever : EverAsked (pre ++ e :: post) .sink ↔ EverAsked (pre ++ [e]) .sink := by
    constructor
    · rintro ⟨f, hf, hasked⟩
      rcases List.mem_append.mp hf with hf | hf
      · exact ⟨f, List.mem_append_left _ hf, hasked⟩
      · rcases List.mem_cons.mp hf with rfl | hf
        · exact ⟨f, mem_append_entry.mpr (.inr rfl), hasked⟩
        · exact absurd hasked (not_sink_behind heach rfl hid hr hf)
    · exact fun ha => ha.mono (List.append_subset.mpr ⟨List.subset_append_left _ _, fun f hf =>
        List.mem_append_right _ (List.mem_singleton.mp hf ▸ List.mem_cons_self)⟩)
  rw [hever, Discloses, hreports, State.history]
  cases hd : e.state.delivery with
  | none =>
    constructor
    · rintro ⟨x, hx, -⟩
      cases hx
    · rintro ⟨f, hf, hasked⟩
      have hsome := hentered.inv.held f hf ⟨hentered.inv.sinks f hf hasked, _, hasked⟩
      rw [hd] at hsome
      cases hsome
  | some d =>
    rw [← (hentered.inv.fits d hd).invoked, Option.map_some]
    constructor
    · rintro ⟨x, hx, hne⟩
      exact Option.some.inj hx ▸ hne
    · exact fun hne => ⟨_, rfl, hne⟩

/-- Every run of a protected read, and of any commits on its token, invokes the sink at most once
and under the authority of its own commit, reports it, and registers the handles only behind a
delivery that succeeded. -/
theorem delivers_readRun (k : Route) (revocations : List Denial) (folding : Bool)
    (events : List (Event Call Reply Change)) :
    Delivers k (readRun k revocations folding events).history := by
  have heach := (sound_readRun k revocations folding events).each
  refine ⟨fun pre e post heq => sinks_of_entered (heach pre e post heq),
    fun e he hid r hr => discloses_iff heach he hid hr, fun pre e post heq hregistered => ?_⟩
  rw [heq, ← List.singleton_append, ← List.append_assoc] at heach
  exact usable_of_registered heach.of_append hregistered

end Delivered

section Settled

/-- An observation of a Host that allows a read of nothing. -/
def allowedObservation : Json :=
  .obj [("host_id", .str "h"), ("host_epoch", .str "e"), ("decision_id", .str "d"),
    ("request_id", .str "r"), ("snapshot_id", .str "s"), ("A", .str "A"), ("C", .str "C"),
    ("scope", .arr []), ("issued_at", msZero), ("expires_at", msOne), ("decision", .str "allow"),
    ("policy_id", .str "p"), ("current_ms", msZero)]

/-- A prepared read that shows nothing. -/
def preparedNothing : Prepared :=
  .whole
    { request := ⟨"r", 0, .wholeAsset, none, none⟩
      view := ⟨"s", "a", "1", "A", "C",
        ⟨.null, .null, .null, [], [], [], [], [], [], [], [], []⟩⟩
      envelope := ⟨"r", "a", "1", "s", "A", "C", ⟨[], [], none, [], [], [], [], "full", [], []⟩,
        [], "receipt", "h", "e", "d", 0, 0⟩
      omissions := [] }

/-- `deliver` is settled before the commit goes on, which goes on before the read. -/
def commitBehindDeliver : List (Event Call Reply Change) :=
  [.settle 0 (.prepared preparedNothing), .resume 0, .settle 0 (.current 0), .resume 0,
    .answer (.current 0), .call ⟨true, true⟩, .answer (.value (.bool true)),
    .settle 1 (.current 0), .resume 1, .settle 1 (.value allowedObservation),
    .settle 0 (.value (.bool true)), .resume 1, .answer (.current 0)]

/-- The sink may be invoked behind the settlement of `deliver`, before the read takes it up. -/
theorem sink_behind_deliver : ¬ ∀ k revocations folding events,
    Always (fun pre e => e.outcome = .asked .sink → Unsettled 0 .deliver pre)
      (readRun k revocations folding events).history := by
  intro h
  have hrun := h .ordinary [] false commitBehindDeliver
  have hlast := (hrun.get 13 (by decide +kernel) (asks_iff.mp (by decide +kernel))).last
  revert hlast
  decide +kernel

end Settled

end Kdna.ProtectedRead

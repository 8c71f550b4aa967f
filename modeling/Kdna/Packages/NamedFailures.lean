import Kdna.Packages.Admitted
import Kdna.Packages.NativeRead
import Mathlib.Data.List.Induction

/-!
# The cause of a failed read

What the own Host latches before a step fails, what its history shows of the sink and of the
rechecks, and that an outcome of the native route without a delivery names its cause.
-/

namespace Kdna.Packages

/-- The code of an error can be read. -/
def ObserverReply.handled : ObserverReply → Bool
  | .rejected error => error.failureCode.isSome
  | _ => true

/-- What the observer returns is a Host context. -/
def ObserverReply.captured : ObserverReply → Bool
  | .returned raw => (captureHostContext raw).isSome
  | _ => true

namespace Own

variable {o : Installed} {s : Own}

/-- What the steps of an own Host keep, apart from its sink. -/
structure Kept (o : Installed) (P : Own → Prop) : Prop where
  latch : ∀ s code, P s → P (s.latch code)
  memberRecheck : ∀ s check, P s → P (s.memberRecheck o check).2
  countObserver : ∀ s, P s → P s.countObserver
  setContext : ∀ s context observed, P s → P { s with lastContext := context, observed := observed }
  setPipeline : ∀ s, P s →
    P { s with facts := { s.facts with pipelineConfirmedDelivery := true } }

namespace Kept

variable {P : Own → Prop}

theorem accept (hkept : Kept o P) (check : Check) (value : HostContext) (hs : P s) :
    P (s.accept o check value).2 := by
  have ht := hkept.memberRecheck s check hs
  rw [Own.accept]
  split
  · next code t heq =>
    rw [heq] at ht
    exact hkept.latch t code ht
  · next t heq =>
    rw [heq] at ht
    split
    · exact hkept.setContext t _ t.observed ht
    · exact hkept.latch t _ ht

/-- An observation keeps what its steps keep. -/
theorem observe (hkept : Kept o P) (reply : ObserveReply) (hs : P s) :
    P (s.observe o reply).2 := by
  have hseen : P { s with observed := true } := hkept.setContext s _ true hs
  have ht := hkept.memberRecheck _ reply.before hseen
  rw [Own.observe]
  split
  · exact hkept.latch _ _ hseen
  · split
    · next code t heq =>
      rw [heq] at ht
      exact hkept.latch t code ht
    · next t heq =>
      rw [heq] at ht
      have hcalled := hkept.countObserver t ht
      rw [receive]
      split
      · exact hkept.latch _ _ hcalled
      · split
        · exact hcalled
        · exact hkept.latch _ _ hcalled
      · split
        · exact hcalled
        · exact hkept.accept _ _ hcalled

theorem register (hkept : Kept o P) (check : Check) (hs : P s) : P (s.register o check).2 := by
  have ht := hkept.memberRecheck s check hs
  rw [Own.register]
  split
  · next t heq =>
    rw [heq] at ht
    exact ht
  · next t heq =>
    rw [heq] at ht
    exact hkept.setPipeline t ht

/-- So does what a delivery does behind a confirming sink. -/
theorem confirm (hkept : Kept o P) (reply : DeliverReply) (hs : P s) :
    P (s.confirm o reply).2 := by
  have ht := hkept.memberRecheck s reply.second hs
  rw [Own.confirm]
  split
  · exact hkept.latch _ _ hs
  · split
    · next t heq =>
      rw [heq] at ht
      exact ht
    · next t heq =>
      rw [heq] at ht
      split
      · exact hkept.latch _ _ ht
      · have hcalled := hkept.countObserver t ht
        rw [compare]
        split
        · exact hcalled
        · exact hkept.latch _ _ hcalled
        · split
          · exact hkept.latch _ _ hcalled
          · exact hkept.register _ hcalled

end Kept

/-- The answers of the sink. -/
def sinks (s : Own) : List SinkReply :=
  s.history.filterMap fun asked => match asked with
    | .sink answer => some answer
    | .recheck _ => none

@[simp] theorem sinks_latch (code : String) : (s.latch code).sinks = s.sinks := rfl

@[simp] theorem sinks_recheck (answer : Recheck) : (s.ask (.recheck answer)).sinks = s.sinks := by
  simp [sinks, ask]

@[simp] theorem sinks_sink (answer : SinkReply) :
    (s.ask (.sink answer)).sinks = s.sinks ++ [answer] := by
  simp [sinks, ask]

@[simp] theorem sinks_settle (answer : Recheck) : (s.settle answer).sinks = s.sinks := by
  cases answer <;> rfl

@[simp] theorem sinks_memberRecheck (check : Check) :
    (s.memberRecheck o check).2.sinks = s.sinks := by
  rw [memberRecheck]
  split
  · rfl
  · rw [sinks_settle, sinks_recheck]
    rfl

/-- No step but the sink adds an answer of it. -/
theorem kept_sinks (l : List SinkReply) : Kept o fun s => s.sinks = l where
  latch := fun _ _ hs => hs
  memberRecheck := fun _ check hs => (sinks_memberRecheck check).trans hs
  countObserver := fun _ hs => hs
  setContext := fun _ _ _ hs => hs
  setPipeline := fun _ hs => hs

theorem named_latch (code : String) : (s.latch code).facts.Named := by
  left
  cases h : s.facts.localFailure <;> simp [latch, h]

theorem named_revoke (diagnostic : Diagnostic) : (s.revoke diagnostic).facts.Named := by
  right
  cases h : s.facts.revocation <;> simp [revoke, h]

/-- A cause that is latched stays. -/
theorem named_settle (answer : Recheck) (hs : s.facts.Named) : (s.settle answer).facts.Named := by
  cases answer with
  | allowed => exact hs
  | rejected diagnostic => exact named_revoke diagnostic
  | failed code => exact named_latch code.text

/-- A recheck that is refused leaves its cause. -/
theorem named_settle_of_ne {answer : Recheck} (h : answer ≠ .allowed) :
    (s.settle answer).facts.Named := by
  cases answer with
  | allowed => exact absurd rfl h
  | rejected diagnostic => exact named_revoke diagnostic
  | failed code => exact named_latch code.text

theorem named_memberRecheck (check : Check) (hs : s.facts.Named) :
    (s.memberRecheck o check).2.facts.Named := by
  rw [memberRecheck]
  split
  · exact named_latch _
  · exact named_settle _ hs

/-- No step takes a latched cause back. -/
theorem kept_named : Kept o fun s => s.facts.Named where
  latch := fun _ code _ => named_latch code
  memberRecheck := fun _ check hs => named_memberRecheck check hs
  countObserver := fun _ hs => hs
  setContext := fun _ _ _ hs => hs
  setPipeline := fun _ hs => hs

/-- A recheck that is not allowed leaves its cause. -/
theorem named_of_memberRecheck {check : Check} {code : String} {t : Own}
    (h : s.memberRecheck o check = (some code, t)) : t.facts.Named := by
  rw [memberRecheck] at h
  split at h
  · obtain ⟨-, rfl⟩ := Prod.mk.inj h
    exact named_latch _
  · obtain ⟨hcode, rfl⟩ := Prod.mk.inj h
    refine named_settle_of_ne fun hallowed => ?_
    rw [hallowed] at hcode
    exact nomatch hcode

/-- What holds of an own Host: a recheck that was not allowed left its cause, and the sink was
confirmed only by its own answer. -/
structure Sound (s : Own) : Prop where
  refused : ∀ answer, .recheck answer ∈ s.history → answer ≠ .allowed → s.facts.Named
  confirmed : s.facts.sinkConfirmed = true → .confirmed ∈ s.sinks

theorem sound_initial : initial.Sound := ⟨fun _ hmem => (nomatch hmem), fun h => (nomatch h)⟩

theorem Sound.latch (hs : s.Sound) (code : String) : (s.latch code).Sound :=
  ⟨fun _ _ _ => named_latch code, hs.confirmed⟩

theorem sinkConfirmed_settle (answer : Recheck) :
    (s.settle answer).facts.sinkConfirmed = s.facts.sinkConfirmed := by
  cases answer <;> rfl

theorem history_settle (answer : Recheck) : (s.settle answer).history = s.history := by
  cases answer <;> rfl

/-- A recheck is settled by what it latches. -/
theorem Sound.settle (hs : s.Sound) (answer : Recheck) :
    ((s.ask (.recheck answer)).settle answer).Sound := by
  constructor
  · intro earlier hmem hne
    rw [history_settle, ask, List.mem_append, List.mem_singleton] at hmem
    rcases hmem with hold | hnew
    · exact named_settle answer (hs.refused earlier hold hne)
    · rw [Asked.recheck.injEq] at hnew
      exact named_settle_of_ne (hnew ▸ hne)
  · intro h
    rw [sinkConfirmed_settle] at h
    rw [sinks_settle, sinks_recheck]
    exact hs.confirmed h

theorem Sound.countMember (hs : s.Sound) : s.countMember.Sound := ⟨hs.refused, hs.confirmed⟩

theorem Sound.memberRecheck (hs : s.Sound) (check : Check) : (s.memberRecheck o check).2.Sound := by
  rw [Own.memberRecheck]
  split
  · exact hs.countMember.latch _
  · exact hs.countMember.settle _

/-- Every step but the sink keeps the own Host sound. -/
theorem kept_sound : Kept o Sound where
  latch := fun _ code hs => hs.latch code
  memberRecheck := fun _ check hs => hs.memberRecheck check
  countObserver := fun _ hs => ⟨hs.refused, hs.confirmed⟩
  setContext := fun _ _ _ hs => ⟨hs.refused, hs.confirmed⟩
  setPipeline := fun _ hs => ⟨hs.refused, hs.confirmed⟩

/-- The sink is confirmed by its own answer. -/
theorem Sound.callSink (hs : s.Sound) (answer : SinkReply) : (s.callSink answer).Sound := by
  constructor
  · intro earlier hmem hne
    rw [Own.callSink, ask, List.mem_append, List.mem_singleton] at hmem
    exact hs.refused earlier (hmem.resolve_right fun h => nomatch h) hne
  · intro h
    rw [Own.callSink, sinks_sink]
    exact List.mem_append_left _ (hs.confirmed h)

theorem Sound.deliver (hs : s.Sound) (reply : DeliverReply) : (s.deliver o reply).2.Sound := by
  rw [Own.deliver]
  split
  · exact hs
  · split
    · exact hs.latch _
    · split
      · next t hfirst =>
        have ht := hs.memberRecheck (o := o) reply.first
        rw [hfirst] at ht
        exact ht
      · next t hfirst =>
        have ht := hs.memberRecheck (o := o) reply.first
        rw [hfirst] at ht
        split
        · have hcalled := ht.callSink reply.sink
          split
          · next hconfirmed =>
            refine kept_sound.confirm reply ⟨hcalled.refused, fun _ => ?_⟩
            change SinkReply.confirmed ∈ (t.callSink reply.sink).sinks
            rw [Own.callSink, sinks_sink, hconfirmed]
            exact List.mem_append_right _ (List.mem_singleton_self _)
          · exact hcalled.latch _
        · exact ht.latch _

/-- A delivery asks the sink at most once. -/
theorem sinks_deliver (reply : DeliverReply) :
    (s.deliver o reply).2.sinks = s.sinks ∨ (s.deliver o reply).2.sinks = s.sinks ++ [reply.sink] := by
  rw [deliver]
  split
  · exact .inl rfl
  · split
    · exact .inl rfl
    · have hfirst := sinks_memberRecheck (o := o) (s := s) reply.first
      split
      · next t heq =>
        rw [heq] at hfirst
        exact .inl hfirst
      · next t heq =>
        rw [heq] at hfirst
        have hcalled : (t.callSink reply.sink).sinks = s.sinks ++ [reply.sink] := by
          rw [callSink, sinks_sink]
          exact congrArg (· ++ [reply.sink]) hfirst
        split
        · split
          · exact .inr ((kept_sinks _).confirm reply hcalled)
          · exact .inr hcalled
        · exact .inl hfirst

/-- What is received fails with a cause, where it can be handled. -/
theorem named_of_receive {reply : ObserveReply} (hhandled : reply.observer.handled = true)
    (hcaptured : reply.observer.captured = true) (h : (s.receive o reply).1 = none) :
    (s.receive o reply).2.facts.Named := by
  rw [receive] at h ⊢
  cases hobserver : reply.observer with
  | threw => exact named_latch _
  | rejected error =>
    rw [hobserver, ObserverReply.handled, Option.isSome_iff_exists] at hhandled
    obtain ⟨code, hcode⟩ := hhandled
    simp only [hcode]
    exact named_latch code
  | returned raw =>
    rw [hobserver, ObserverReply.captured, Option.isSome_iff_exists] at hcaptured
    obtain ⟨value, hvalue⟩ := hcaptured
    simp only [hobserver, hvalue] at h ⊢
    rw [accept] at h ⊢
    split
    · exact named_latch _
    · next t heq =>
      simp only [heq] at h
      split
      · next hhost =>
        rw [if_pos hhost] at h
        exact nomatch h
      · exact named_latch _

/-- An observation that fails leaves a cause, unless its observer returns what is no Host context
or is rejected with an error that cannot be read. -/
theorem named_of_observe {reply : ObserveReply} (hhandled : reply.observer.handled = true)
    (hcaptured : reply.observer.captured = true) (h : (s.observe o reply).1 = none) :
    (s.observe o reply).2.facts.Named := by
  rw [observe] at h ⊢
  split
  · exact named_latch _
  · next hopen =>
    simp only [if_neg hopen] at h
    split
    · exact named_latch _
    · next t heq =>
      rw [heq] at h
      exact named_of_receive hhandled hcaptured h

/-- Otherwise it fails without latching anything behind its first recheck. -/
theorem observe_unhandled {r : ObserveReply} {t : Own} (hopen : s.facts.hostClosed = false)
    (hbefore : { s with observed := true }.memberRecheck o r.before = (none, t))
    (hreply : (r.observer.handled && r.observer.captured) = false) :
    s.observe o r = (none, t.countObserver) := by
  rw [observe, hbefore]
  simp only [hopen, Bool.false_eq_true, if_false, receive]
  cases hobserver : r.observer with
  | threw => simp [hobserver, ObserverReply.handled, ObserverReply.captured] at hreply
  | rejected error =>
    have hcode : error.failureCode = none := by
      simpa [hobserver, ObserverReply.handled, ObserverReply.captured] using hreply
    simp only [hcode]
  | returned raw =>
    have hraw : captureHostContext raw = none := by
      simpa [hobserver, ObserverReply.handled, ObserverReply.captured] using hreply
    simp only [hraw]

theorem named_of_register {check : Check} (h : (s.register o check).1 = false) :
    (s.register o check).2.facts.Named := by
  rw [register] at h ⊢
  split
  · next code t heq => exact named_of_memberRecheck heq
  · next t heq =>
    rw [heq] at h
    exact nomatch h

theorem named_of_compare {reply : DeliverReply} {last : HostContext}
    (hhandled : reply.observer.handled = true) (h : (s.compare o reply last).1 = false) :
    (s.compare o reply last).2.facts.Named := by
  have hfresh : observeFresh reply.observer ≠ .error none := by
    cases hobserver : reply.observer with
    | threw => simp [observeFresh]
    | rejected error =>
      rw [hobserver, ObserverReply.handled, Option.isSome_iff_ne_none] at hhandled
      simpa [observeFresh] using hhandled
    | returned raw => cases hraw : captureHostContext raw <;> simp [observeFresh, hraw]
  rw [compare] at h ⊢
  split
  · next heq => exact absurd heq hfresh
  · exact named_latch _
  · next fresh heq =>
    simp only [heq] at h
    split
    · exact named_latch _
    · next hnone =>
      simp only [hnone] at h
      exact named_of_register h

theorem named_of_confirm {reply : DeliverReply} (hhandled : reply.observer.handled = true)
    (h : (s.confirm o reply).1 = false) : (s.confirm o reply).2.facts.Named := by
  rw [confirm] at h ⊢
  split
  · exact named_latch _
  · next hrunning =>
    rw [if_neg hrunning] at h
    split
    · next code t heq => exact named_of_memberRecheck heq
    · next t heq =>
      simp only [heq] at h
      split
      · exact named_latch _
      · next last hlast =>
        simp only [hlast] at h
        exact named_of_compare hhandled h

/-- A delivery of an open own Host that fails leaves a cause, unless its observer is rejected with
an error that cannot be read. -/
theorem named_of_deliver {reply : DeliverReply} (hopen : s.facts.hostClosed = false)
    (hhandled : reply.observer.handled = true) (h : (s.deliver o reply).1 = false) :
    (s.deliver o reply).2.facts.Named := by
  rw [deliver] at h ⊢
  simp only [hopen, Bool.false_eq_true, if_false] at h ⊢
  split
  · exact named_latch _
  · next hrunning =>
    rw [if_neg hrunning] at h
    split
    · next code t heq => exact named_of_memberRecheck heq
    · next t heq =>
      simp only [heq] at h
      split
      · next hsink =>
        simp only [if_pos hsink] at h
        split
        · next hconfirmed =>
          rw [if_pos hconfirmed] at h
          exact named_of_confirm hhandled h
        · exact named_latch _
      · exact named_latch _

/-- No step closes the own Host. -/
theorem kept_open : Kept o fun s => s.facts.hostClosed = false where
  latch := fun _ _ hs => hs
  memberRecheck := by
    intro s check hs
    rw [memberRecheck]
    split
    · exact hs
    · cases recheck o.tuples o.standing check.member <;> exact hs
  countObserver := fun _ hs => hs
  setContext := fun _ _ _ hs => hs
  setPipeline := fun _ hs => hs

/-- What every step keeps holds behind any observations. -/
theorem Kept.observations {P : Own → Prop} (hkept : Kept o P) (hs : P initial)
    (replies : List ObserveReply) : P (observations o replies) := by
  induction replies using List.reverseRecOn with
  | nil => exact hs
  | append_singleton replies reply ih =>
    rw [Own.observations, List.foldl_append]
    exact hkept.observe reply ih

end Own

/-- What a read of `readPackageSetNode` owes: an observation or a delivery of its own Host that
fails leaves a cause before it does, the sink is asked at most once, and a token is minted only
behind a sink that confirmed and rechecks that were all allowed. -/
structure NodeAccountable (o : Installed) (replies : NodeReplies) : Prop where
  observe : ∀ front reply back, replies.observations = front ++ reply :: back →
    ((Own.observations o front).observe o reply).1 = none →
      ((Own.observations o front).observe o reply).2.facts.Named
  deliver : replies.prepared = some .ready →
    ((Own.observations o replies.observations).deliver o replies.delivery).1 = false →
      ((Own.observations o replies.observations).deliver o replies.delivery).2.facts.Named
  sink : (readPackageSetNode o replies).own.sinks.length ≤ 1
  token : (readPackageSetNode o replies).delivered = true →
    .confirmed ∈ (readPackageSetNode o replies).own.sinks ∧
      ∀ answer, .recheck answer ∈ (readPackageSetNode o replies).own.history → answer = .allowed

/-- Every observer of a read is handled, and those that `observe` captures return Host contexts. -/
structure NodeReplies.Handled (replies : NodeReplies) : Prop where
  observations : ∀ reply ∈ replies.observations,
    reply.observer.handled = true ∧ reply.observer.captured = true
  delivery : replies.delivery.observer.handled = true

section Node

variable {o : Installed} {s : Own}

/-- The delivery of a read keeps the own Host sound. -/
theorem Own.Sound.deliverResult (hs : s.Sound) (reply : DeliverReply) (prepared : Prepared) :
    (s.deliverResult o reply prepared).2.Sound := by
  have ht := hs.deliver (o := o) reply
  rw [Own.deliverResult]
  split
  · split
    · next t heq =>
      rw [heq] at ht
      exact ht
    · next t heq =>
      rw [heq] at ht
      exact ht
  · exact hs

/-- The delivery of a read asks the sink at most once. -/
theorem Own.sinks_deliverResult (reply : DeliverReply) (prepared : Prepared) :
    (s.deliverResult o reply prepared).2.sinks = s.sinks ∨
      (s.deliverResult o reply prepared).2.sinks = s.sinks ++ [reply.sink] := by
  have ht := sinks_deliver (o := o) (s := s) reply
  rw [Own.deliverResult]
  split
  · split
    · next t heq =>
      rw [heq] at ht
      exact ht
    · next t heq =>
      rw [heq] at ht
      exact ht
  · exact .inl rfl

/-- The own Host of a read before its last recheck. -/
def Own.delivered (o : Installed) (replies : NodeReplies) : Option Prepared × Own :=
  match replies.prepared with
  | none => (none, Own.observations o replies.observations)
  | some prepared =>
    let (result, s) :=
      (Own.observations o replies.observations).deliverResult o replies.delivery prepared
    (some result, s)

theorem Own.sound_delivered (replies : NodeReplies) : (Own.delivered o replies).2.Sound := by
  have hs := kept_sound.observations (o := o) sound_initial replies.observations
  rw [Own.delivered]
  split
  · exact hs
  · exact hs.deliverResult _ _

theorem Own.sinks_delivered (replies : NodeReplies) :
    (Own.delivered o replies).2.sinks.length ≤ 1 := by
  have hs := (kept_sinks []).observations (o := o) rfl replies.observations
  rw [Own.delivered]
  split
  · rw [hs]
    exact Nat.zero_le _
  · rcases sinks_deliverResult (o := o) (s := Own.observations o replies.observations)
      replies.delivery _ with h | h
    · exact (congrArg List.length (h.trans hs)).trans_le (Nat.zero_le 1)
    · rw [hs] at h
      exact (congrArg List.length h).le

theorem Own.sinks_lastRecheck (check : Check) : (s.lastRecheck o check).2.sinks = s.sinks := by
  rw [lastRecheck]
  split
  · rfl
  · have hs := sinks_recheck (s := s) (recheck o.tuples o.standing check.member)
    dsimp only
    split <;> exact hs

/-- The last recheck leaves nothing unnamed behind it, if it is allowed. -/
theorem Own.sound_lastRecheck (hs : s.Sound) {check : Check} {t : Own}
    (h : s.lastRecheck o check = (true, t)) : t.Sound := by
  rw [lastRecheck] at h
  split at h
  · exact nomatch h
  · dsimp only at h
    split at h
    · next heq =>
      obtain ⟨-, rfl⟩ := Prod.mk.inj h
      rw [heq]
      exact (hs.settle .allowed).countMember
    · exact nomatch h
    · exact nomatch h

/-- A read of `readPackageSetNode`, in terms of its own Host before and behind the last recheck. -/
theorem readPackageSetNode_eq (replies : NodeReplies) :
    readPackageSetNode o replies =
      let (readResult, s) := Own.delivered o replies
      let (allowed, s) := s.lastRecheck o replies.last
      let successful := readResult = some .ready && s.facts.sinkConfirmed &&
        s.facts.localFailure.isNone && s.facts.revocation.isNone && allowed
      ⟨s.facts.revocation, readResult, successful, if successful then s else s.close⟩ := by
  unfold readPackageSetNode Own.delivered
  cases replies.prepared <;> rfl

/-- A read whose observers are handled is accountable. -/
theorem nodeAccountable {replies : NodeReplies} (h : replies.Handled) : NodeAccountable o replies where
  observe := by
    intro front reply back hsplit hfailed
    obtain ⟨hhandled, hcaptured⟩ := h.observations reply
      (hsplit ▸ List.mem_append_right _ List.mem_cons_self)
    exact Own.named_of_observe hhandled hcaptured hfailed
  deliver := by
    intro _ hfailed
    have hopen := Own.kept_open.observations (o := o) rfl replies.observations
    exact Own.named_of_deliver hopen h.delivery hfailed
  sink := by
    have hsinks := Own.sinks_delivered (o := o) replies
    rw [readPackageSetNode_eq]
    dsimp only
    split
    · rw [Own.sinks_lastRecheck]
      exact hsinks
    · change ((Own.delivered o replies).2.lastRecheck o replies.last).2.sinks.length ≤ 1
      rw [Own.sinks_lastRecheck]
      exact hsinks
  token := by
    have hsound := Own.sound_delivered (o := o) replies
    rw [readPackageSetNode_eq]
    dsimp only
    cases hlast : (Own.delivered o replies).2.lastRecheck o replies.last with
    | mk allowed s =>
      intro htoken
      simp only [htoken, if_true]
      simp only [Bool.and_eq_true, decide_eq_true_eq, Option.isNone_iff_eq_none] at htoken
      obtain ⟨⟨⟨⟨-, hconfirmed⟩, hlocal⟩, hrevocation⟩, rfl⟩ := htoken
      have hs := Own.sound_lastRecheck hsound hlast
      refine ⟨hs.confirmed hconfirmed, fun answer hmem => ?_⟩
      by_contra hne
      rcases hs.refused answer hmem hne with hnamed | hnamed
      · rw [hlocal] at hnamed
        exact nomatch hnamed
      · rw [hrevocation] at hnamed
        exact nomatch hnamed

end Node

section Native

variable {o : Installed} {s : Own}

namespace Own

/-- What the steps of a native read keep, apart from its sink. -/
structure KeptNative (o : Installed) (P : Own → Prop) : Prop where
  latch : ∀ s code, P s → P (s.latch code)
  current : ∀ s check, P s → P (s.current o check).2
  countObserver : ∀ s, P s → P s.countObserver

theorem KeptNative.nativeCapture {P : Own → Prop} (hkept : KeptNative o P) (allowed : Bool)
    (raw : Read.RetainedGate.Reply) (hs : P s) :
    P (s.nativeCapture o.provider allowed raw).2 := by
  unfold Own.nativeCapture
  split
  · exact hkept.latch _ _ hs
  · dsimp only
    split
    · exact hkept.latch _ _ hs
    · exact hs
  · split
    · split
      · exact hs
      · exact hkept.latch _ _ hs
    · exact hs

/-- An observation of the native route keeps what its steps keep. -/
theorem KeptNative.nativeObserve {P : Own → Prop} (hkept : KeptNative o P) (reply : NativeObserve)
    (hs : P s) : P (s.nativeObserve o reply).2 := by
  have ht := hkept.current s reply.before hs
  rw [Own.nativeObserve]
  split
  · next t heq =>
    rw [heq] at ht
    exact ht
  · next t heq =>
    rw [heq] at ht
    have hu := hkept.current _ reply.after (hkept.countObserver t ht)
    cases hnext : t.countObserver.current o reply.after with
    | mk allowed u =>
      rw [hnext] at hu
      exact hkept.nativeCapture allowed reply.raw hu

theorem named_current (check : Check) (hs : s.facts.Named) : (s.current o check).2.facts.Named := by
  refine named_settle _ ?_
  split
  · exact named_latch _
  · exact hs

theorem keptNative_named : KeptNative o fun s => s.facts.Named where
  latch := fun _ code _ => named_latch code
  current := fun _ check hs => named_current check hs
  countObserver := fun _ hs => hs

theorem Sound.current (hs : s.Sound) (check : Check) : (s.current o check).2.Sound := by
  refine Sound.settle (Sound.countMember ?_) _
  split
  · exact hs.latch _
  · exact hs

theorem keptNative_sound : KeptNative o Sound where
  latch := fun _ code hs => hs.latch code
  current := fun _ check hs => hs.current check
  countObserver := fun _ hs => ⟨hs.refused, hs.confirmed⟩

theorem sinks_current (check : Check) : (s.current o check).2.sinks = s.sinks := by
  refine (sinks_settle _).trans ((sinks_recheck _).trans ?_)
  cases check.aborted <;> rfl

theorem keptNative_sinks (l : List SinkReply) : KeptNative o fun s => s.sinks = l where
  latch := fun _ _ hs => hs
  current := fun _ check hs => (sinks_current check).trans hs
  countObserver := fun _ hs => hs

theorem sinkConfirmed_current (check : Check) :
    (s.current o check).2.facts.sinkConfirmed = s.facts.sinkConfirmed := by
  refine (sinkConfirmed_settle _).trans ?_
  cases check.aborted <;> rfl

theorem keptNative_sinkConfirmed (b : Bool) :
    KeptNative o fun s => s.facts.sinkConfirmed = b where
  latch := fun _ _ hs => hs
  current := fun _ check hs => (sinkConfirmed_current check).trans hs
  countObserver := fun _ hs => hs

/-- Whether the steps of a native read may go on. -/
theorem named_of_current {c : Check} (h : (s.current o c).1 = false) :
    (s.current o c).2.facts.Named := by
  rw [current, Bool.and_eq_false_iff, Option.isNone_eq_false_iff, Option.isNone_eq_false_iff] at h
  exact h.symm

theorem not_named_of_current {c : Check} (h : (s.current o c).1 = true) :
    ¬ (s.current o c).2.facts.Named := by
  rw [current, Bool.and_eq_true, Option.isNone_iff_eq_none, Option.isNone_iff_eq_none] at h
  rintro (hnamed | hnamed)
  · rw [Option.isSome_iff_ne_none] at hnamed
    exact hnamed h.2
  · rw [Option.isSome_iff_ne_none] at hnamed
    exact hnamed h.1

end Own

namespace Native

variable {record : Retained.PreparedRecord} {n : Native}

/-- The post check fails with a code of a rejection. -/
theorem mem_hostCodes {reply : NativeDelivery} {code : String} {m : Native}
    (h : n.postFailure o record reply = (some code, m)) : code ∈ Retained.hostCodes := by
  obtain ⟨hcode, -⟩ := Prod.mk.inj h
  split at hcode
  · next e _ =>
    obtain rfl := Option.some.inj hcode
    cases e <;> decide
  · split at hcode
    · exact nomatch hcode
    · obtain rfl := Option.some.inj hcode
      decide

/-- The post check keeps what an observation keeps. -/
theorem own_postFailure {r : Retained.PreparedRecord} (reply : NativeDelivery) :
    (n.postFailure o r reply).2.own = (n.own.nativeObserve o reply.post).2 := rfl

theorem own_current (check : Check) : (n.current o check).2.own = (n.own.current o check).2 := rfl

/-- What a delivery does behind the sink keeps what its steps keep. -/
theorem own_confirm {P : Own → Prop} (hkept : Own.KeptNative o P) (reply : NativeDelivery)
    (hn : P n.own) : P (n.confirm o record reply).2.own := by
  have hsecond := hkept.current _ reply.second hn
  rw [confirm]
  split
  · next m heq =>
    rw [← own_current, heq] at hsecond
    exact hsecond
  · next m heq =>
    rw [← own_current, heq] at hsecond
    have hpost := hkept.nativeObserve reply.post hsecond
    split
    · next code k heq =>
      rw [← own_postFailure (r := record), heq] at hpost
      exact hpost
    · next k heq =>
      rw [← own_postFailure (r := record), heq] at hpost
      exact hkept.current _ reply.third hpost

/-- Behind a sink whose answer is settled, a delivery that fails leaves a cause or a rejected
result. -/
theorem named_of_confirm {reply : NativeDelivery} (hid : record.requestId.length ≤ 248)
    (hsink : n.own.facts.sinkConfirmed = true ∨ n.own.facts.Named)
    (h : (n.confirm o record reply).1 = false) :
    (n.confirm o record reply).2.own.facts.Named ∨
      (n.confirm o record reply).2.postRejected = true := by
  rw [confirm] at h ⊢
  split
  · next m heq =>
    left
    have hnamed := Own.named_of_current (o := o) (s := n.own) (c := reply.second)
      (congrArg Prod.fst heq)
    rw [← own_current, heq] at hnamed
    exact hnamed
  · next m heq =>
    simp only [heq] at h
    have hunnamed := Own.not_named_of_current (o := o) (s := n.own) (c := reply.second)
      (congrArg Prod.fst heq)
    have hconfirmed : m.own.facts.sinkConfirmed = true := by
      have hkept := Own.sinkConfirmed_current (o := o) (s := n.own) reply.second
      rw [← own_current, heq] at hkept
      exact hkept.trans (hsink.resolve_right fun hnamed =>
        hunnamed (Own.named_current reply.second hnamed))
    split
    · next code k hpost =>
      right
      have hfail := (Retained.fail_eq_none_iff record (mem_hostCodes hpost)).not.mpr
        fun hlong => by omega
      exact Option.isSome_iff_ne_none.mpr hfail
    · next k hpost =>
      simp only [hpost] at h
      left
      have hk : k.own.facts.sinkConfirmed = true := by
        have hkept := (Own.keptNative_sinkConfirmed true).nativeObserve (o := o) reply.post hconfirmed
        rw [← own_postFailure (r := record), hpost] at hkept
        exact hkept
      have hthird : (k.current o reply.third).2.own.facts.sinkConfirmed = true :=
        (Own.sinkConfirmed_current reply.third).trans hk
      rw [hthird, Bool.and_true] at h
      exact Own.named_of_current h

/-- The sink is asked, and its answer is settled. -/
theorem settled_callSink (answer : SinkReply) : (n.callSink answer).own.facts.sinkConfirmed = true ∨
    (n.callSink answer).own.facts.Named := by
  rw [callSink]
  dsimp only
  split
  · exact .inl rfl
  · exact .inr (Own.named_latch _)

/-- A delivery of a ready result that fails leaves a cause or a rejected result. -/
theorem named_of_deliver {reply : NativeDelivery} (hid : record.requestId.length ≤ 248)
    (h : (n.deliver o record reply .ready).1 = false) :
    (n.deliver o record reply .ready).2.own.facts.Named ∨
      (n.deliver o record reply .ready).2.postRejected = true := by
  rw [deliver] at h ⊢
  simp only [if_true] at h ⊢
  split
  · next m heq =>
    left
    have hnamed := Own.named_of_current (o := o) (s := n.own) (c := reply.first)
      (congrArg Prod.fst heq)
    rw [← own_current] at hnamed
    exact (congrArg Prod.snd heq) ▸ hnamed
  · next m heq =>
    simp only [heq] at h
    split
    · next hsink =>
      rw [if_pos hsink] at h
      exact named_of_confirm hid (settled_callSink reply.sink) h
    · exact .inl (Own.named_latch _)

/-- What a delivery keeps of the own facts. -/
theorem own_deliver {P : Own → Prop} (hkept : Own.KeptNative o P)
    (hsink : ∀ m : Native, P m.own → ∀ answer, P (m.callSink answer).own) (reply : NativeDelivery)
    (result : Prepared) (hn : P n.own) : P (n.deliver o record reply result).2.own := by
  have hfirst := hkept.current _ reply.first hn
  rw [deliver]
  split
  · split
    · next m heq => exact (congrArg (fun r => r.2.own) heq) ▸ hfirst
    · next m heq =>
      have hm : P m.own := (congrArg (fun r => r.2.own) heq) ▸ hfirst
      split
      · exact own_confirm hkept reply (hsink m hm reply.sink)
      · exact hkept.latch _ _ hm
  · exact hn

theorem readResult_confirm (reply : NativeDelivery) :
    (n.confirm o record reply).2.readResult = n.readResult := by
  rw [confirm]
  split
  · next m heq => exact (congrArg (fun r => r.2.readResult) heq).symm
  · next m heq =>
    have hm : n.readResult = m.readResult := congrArg (fun r => r.2.readResult) heq
    split
    · next code k hpost =>
      exact (congrArg (fun r => r.2.readResult) hpost).symm.trans hm.symm
    · next k hpost =>
      exact (congrArg (fun r => r.2.readResult) hpost).symm.trans hm.symm

/-- A delivery keeps the result that was handed over. -/
theorem readResult_deliver (reply : NativeDelivery) (result : Prepared) :
    (n.deliver o record reply result).2.readResult = some result := by
  rw [deliver]
  split
  · split
    · next m heq => exact (congrArg (fun r => r.2.readResult) heq).symm
    · next m heq =>
      have hm : some result = m.readResult := congrArg (fun r => r.2.readResult) heq
      split
      · exact (readResult_confirm reply).trans hm.symm
      · exact hm.symm
  · rfl

/-- A delivery that returns `true` was confirmed by its sink. -/
theorem sinkConfirmed_of_confirm {reply : NativeDelivery}
    (h : (n.confirm o record reply).1 = true) :
    (n.confirm o record reply).2.own.facts.sinkConfirmed = true := by
  rw [confirm] at h ⊢
  split
  · next m heq =>
    rw [heq] at h
    exact nomatch h
  · next m heq =>
    simp only [heq] at h
    split
    · next code k hpost =>
      simp only [hpost] at h
      exact nomatch h
    · next k hpost =>
      simp only [hpost, Bool.and_eq_true] at h
      exact h.2

theorem sinkConfirmed_of_deliver {reply : NativeDelivery} {result : Prepared}
    (h : (n.deliver o record reply result).1 = true) : result = .ready ∧
      (n.deliver o record reply result).2.own.facts.sinkConfirmed = true := by
  rw [deliver] at h ⊢
  by_cases hready : result = .ready
  · refine ⟨hready, ?_⟩
    simp only [if_pos hready] at h ⊢
    split
    · next m heq =>
      simp only [heq] at h
      exact nomatch h
    · next m heq =>
      simp only [heq] at h
      split
      · next hsink =>
        rw [if_pos hsink] at h
        exact sinkConfirmed_of_confirm h
      · next hsink =>
        rw [if_neg hsink] at h
        exact nomatch h
  · simp only [if_neg hready] at h
    exact nomatch h

/-- What a read with a delivery has behind it. -/
def Settled (n : Native) : Prop :=
  n.delivered = true → n.own.facts.sinkConfirmed = true ∧ ¬ n.own.facts.Named

/-- A read behind its last recheck. -/
def recheckedLast (o : Installed) (check : Check) (actual : Prepared) (n : Native) : Native :=
  { n with own := (n.own.current o check).2, readResult := n.resultOf actual }

theorem conclude_eq (check : Check) (registers : Bool) (actual : Prepared) :
    n.conclude o check registers actual =
      if (n.own.current o check).1 = true ∧ n.postRejected = false ∧ actual = .ready ∧
          (n.own.current o check).2.facts.sinkConfirmed = true then
        (n.recheckedLast o check actual).registerDelivery registers actual
      else n.recheckedLast o check actual := rfl

/-- What concludes a read keeps what its steps keep. -/
theorem own_conclude {P : Own → Prop} (hkept : Own.KeptNative o P) (check : Check)
    (registers : Bool) (actual : Prepared) (hn : P n.own) :
    P (n.conclude o check registers actual).own := by
  have hm := hkept.current _ check hn
  rw [conclude_eq]
  split
  · cases registers with
    | true => exact hm
    | false => exact hkept.latch _ _ hm
  · exact hm

theorem settled_conclude (check : Check) (registers : Bool) (actual : Prepared)
    (hn : n.delivered = false) : (n.conclude o check registers actual).Settled := by
  rw [conclude_eq]
  split
  · next hsucceeded =>
    obtain ⟨hallowed, -, -, hconfirmed⟩ := hsucceeded
    cases registers with
    | true => exact fun _ => ⟨hconfirmed, Own.not_named_of_current hallowed⟩
    | false => exact fun hdelivered => nomatch hn.symm.trans hdelivered
  · exact fun hdelivered => nomatch hn.symm.trans hdelivered

/-- A read that is concluded without a delivery names its cause. -/
theorem named_conclude {check : Check} {registers : Bool} {actual : Prepared}
    (hready : actual = .ready → n.own.facts.sinkConfirmed = true)
    (hother : actual ≠ .ready → n.own.facts.Named ∨ n.postRejected = true ∨
      ∃ r, n.readResult = some r ∧ r ≠ .ready)
    (h : (n.conclude o check registers actual).delivered = false) :
    (n.conclude o check registers actual).Named := by
  rw [conclude_eq] at h ⊢
  split at h
  · next hsucceeded =>
    rw [if_pos hsucceeded]
    cases registers with
    | true => exact nomatch h
    | false => exact .inl (Own.named_latch _)
  · next hfailed =>
    rw [if_neg hfailed]
    by_cases hallowed : (n.own.current o check).1 = true
    · cases hpost : n.postRejected with
      | true => exact .inr (.inr ⟨.unready, if_pos hpost, by decide⟩)
      | false =>
        have hactual : actual ≠ .ready := fun hactual => hfailed ⟨hallowed, hpost, hactual,
          (Own.sinkConfirmed_current check).trans (hready hactual)⟩
        rcases hother hactual with hnamed | hrejected | ⟨r, hr, hne⟩
        · exact absurd (Own.named_current check hnamed) (Own.not_named_of_current hallowed)
        · exact nomatch hpost.symm.trans hrejected
        · refine .inr (.inr ⟨r, ?_, hne⟩)
          change n.resultOf actual = some r
          rw [resultOf, hpost, hr]
          rfl
    · exact .inl (Own.named_of_current (by simpa using hallowed))

theorem delivered_current (check : Check) : (n.current o check).2.delivered = n.delivered := rfl

theorem delivered_confirm (reply : NativeDelivery) :
    (n.confirm o record reply).2.delivered = n.delivered := by
  rw [confirm]
  split
  · next m heq => exact (congrArg (fun r => r.2.delivered) heq).symm
  · next m heq =>
    have hm : n.delivered = m.delivered := congrArg (fun r => r.2.delivered) heq
    split
    · next code k hpost => exact (congrArg (fun r => r.2.delivered) hpost).symm.trans hm.symm
    · next k hpost => exact (congrArg (fun r => r.2.delivered) hpost).symm.trans hm.symm

theorem delivered_deliver (reply : NativeDelivery) (result : Prepared) :
    (n.deliver o record reply result).2.delivered = n.delivered := by
  rw [deliver]
  split
  · split
    · next m heq => exact (congrArg (fun r => r.2.delivered) heq).symm
    · next m heq =>
      have hm : n.delivered = m.delivered := congrArg (fun r => r.2.delivered) heq
      split
      · exact (delivered_confirm reply).trans hm.symm
      · exact hm.symm
  · rfl

/-- The facts of a native read that are sound, whose sink was asked at most once, and that name
their cause unless there is a delivery. -/
structure Accounted (n : Native) : Prop where
  sound : n.own.Sound
  sinks : n.own.sinks.length ≤ 1
  settled : n.Settled
  named : n.delivered = false → n.Named

/-- The observations of a retained read keep what each of them keeps. -/
theorem own_observations {P : Own → Prop} (hkept : Own.KeptNative o P) {s : Own} (hs : P s)
    (replies : List NativeObserve) :
    P (replies.foldl (fun own reply => (own.nativeObserve o reply).2) s) := by
  induction replies generalizing s with
  | nil => exact hs
  | cons reply replies ih => exact ih (hkept.nativeObserve reply hs)

theorem sinks_callSink (answer : SinkReply) :
    (n.callSink answer).own.sinks = n.own.sinks ++ [answer] := by
  rw [callSink]
  dsimp only
  split <;> exact Own.sinks_sink answer

/-- A delivery asks the sink at most once. -/
theorem sinks_deliver {r : Retained.PreparedRecord} (reply : NativeDelivery) (result : Prepared) :
    (n.deliver o r reply result).2.own.sinks = n.own.sinks ∨
      (n.deliver o r reply result).2.own.sinks = n.own.sinks ++ [reply.sink] := by
  have hfirst := Own.sinks_current (o := o) (s := n.own) reply.first
  rw [deliver]
  split
  · split
    · next m heq => exact .inl ((congrArg (fun r => r.2.own.sinks) heq).symm.trans hfirst)
    · next m heq =>
      have hm : m.own.sinks = n.own.sinks :=
        (congrArg (fun r => r.2.own.sinks) heq).symm.trans hfirst
      split
      · refine .inr (own_confirm (Own.keptNative_sinks _) reply ?_)
        rw [sinks_callSink, hm]
      · exact .inl hm
  · exact .inl rfl

theorem sound_callSink (hn : n.own.Sound) (answer : SinkReply) : (n.callSink answer).own.Sound := by
  have hcalled := hn.callSink answer
  rw [callSink]
  dsimp only
  split
  · next hconfirmed =>
    refine ⟨hcalled.refused, fun _ => ?_⟩
    change SinkReply.confirmed ∈ (n.own.callSink answer).sinks
    rw [Own.callSink, Own.sinks_sink, hconfirmed]
    exact List.mem_append_right _ (List.mem_singleton_self _)
  · exact hcalled.latch _

/-- A retained read accounts for what it does. -/
theorem accounted_read {replies : NativeReplies} (hid : record.requestId.length ≤ 248)
    (hsound : n.own.Sound) (hsinks : n.own.sinks = []) (hdelivered : n.delivered = false) :
    (n.read o record replies).Accounted := by
  have hsound' := own_observations (Own.keptNative_sound (o := o)) hsound replies.observations
  have hsinks' := own_observations (Own.keptNative_sinks (o := o) []) hsinks replies.observations
  rw [read]
  dsimp only
  generalize replies.observations.foldl (fun own reply => (own.nativeObserve o reply).2) n.own = own
    at hsound' hsinks'
  cases replies.output with
  | none =>
    exact ⟨hsound'.latch _, (congrArg List.length hsinks').trans_le (Nat.zero_le 1),
      fun h => (nomatch hdelivered.symm.trans h), fun _ => .inl (Own.named_latch _)⟩
  | some result =>
    dsimp only
    generalize hdeliver : ({ n with own := own } : Native).deliver o record replies.delivery result =
      delivery
    obtain ⟨confirmed, m⟩ := delivery
    have hm : m = (({ n with own := own } : Native).deliver o record replies.delivery result).2 :=
      (congrArg Prod.snd hdeliver).symm
    have hmsound : m.own.Sound := hm ▸ own_deliver Own.keptNative_sound
      (fun _ hk => sound_callSink hk) replies.delivery result hsound'
    have hmsinks : m.own.sinks.length ≤ 1 := by
      rw [hm]
      rcases sinks_deliver (o := o) (r := record) (n := { n with own := own })
        replies.delivery result with h | h
      · exact (congrArg List.length (h.trans hsinks')).trans_le (Nat.zero_le 1)
      · rw [h, hsinks']
        exact le_rfl
    have hmdelivered : m.delivered = false := by
      rw [hm, delivered_deliver]
      exact hdelivered
    have hmresult : m.readResult = some result := by
      rw [hm, readResult_deliver]
    refine ⟨own_conclude Own.keptNative_sound _ _ _ hmsound, ?_,
      settled_conclude _ _ _ hmdelivered, named_conclude ?_ ?_⟩
    · have hkept := own_conclude (Own.keptNative_sinks m.own.sinks (o := o)) replies.last
        replies.registers (if confirmed then result else .transportFailure) (n := m) rfl
      rw [hkept]
      exact hmsinks
    · intro hactual
      cases confirmed with
      | true =>
        rw [hm]
        exact (sinkConfirmed_of_deliver (congrArg Prod.fst hdeliver)).2
      | false => exact nomatch hactual
    · intro hactual
      by_cases hready : result = .ready
      · cases confirmed with
        | true => exact absurd hready hactual
        | false =>
          subst hready
          have hnamed := named_of_deliver hid (congrArg Prod.fst hdeliver)
          rw [← hm] at hnamed
          exact hnamed.imp id .inl
      · exact .inr (.inr ⟨result, hmresult, hready⟩)

/-- A read that has not come to its sink. -/
structure Early (n : Native) : Prop where
  sound : n.own.Sound
  sinks : n.own.sinks = []
  delivered : n.delivered = false

theorem early_initial : Early initial := ⟨Own.sound_initial, rfl, rfl⟩

theorem Early.latch (hn : n.Early) (code : String) : (n.latch code).Early :=
  ⟨hn.sound.latch code, hn.sinks, hn.delivered⟩

theorem Early.current (hn : n.Early) (check : Check) : (n.current o check).2.Early :=
  ⟨hn.sound.current check, (Own.sinks_current check).trans hn.sinks, hn.delivered⟩

/-- A read that stops early accounts for it when it leaves a cause. -/
theorem Early.accounted (hn : n.Early) (hnamed : n.Named) : n.Accounted :=
  ⟨hn.sound, (congrArg List.length hn.sinks).trans_le (Nat.zero_le 1),
    fun h => (nomatch hn.delivered.symm.trans h), fun _ => hnamed⟩

/-- What follows the preparation accounts for what it does. -/
theorem accounted_prepared {replies : NativeReplies} (hid : record.requestId.length ≤ 248)
    (hn : n.Early) (hthrew : replies.preparation = .threw → n.own.facts.Named) :
    (n.prepared o record replies).Accounted := by
  rw [prepared]
  split
  · next heq => exact hn.accounted (.inl (hthrew heq))
  · exact Early.accounted ⟨hn.sound.latch _, hn.sinks, hn.delivered⟩ (.inr (.inl rfl))
  · exact (hn.latch _).accounted (.inl (Own.named_latch _))
  · exact accounted_read hid hn.sound hn.sinks hn.delivered

end Native

/-- A native read accounts for what it does. -/
theorem accounted_readNativePackageSet {record : Retained.PreparedRecord} {replies : NativeReplies}
    (hid : record.requestId.length ≤ 248) : (readNativePackageSet o record replies).Accounted := by
  rw [readNativePackageSet]
  cases replies.refusal with
  | some code => exact (Native.early_initial.latch code).accounted (.inl (Own.named_latch code))
  | none =>
    dsimp only
    have hfirst := Native.early_initial.current (o := o) replies.first
    split
    · next n heq =>
      have hnamed := Own.named_of_current (congrArg Prod.fst heq)
      rw [← Native.own_current, heq] at hnamed
      rw [heq] at hfirst
      exact hfirst.accounted (.inl hnamed)
    · next n heq =>
      rw [heq] at hfirst
      have hprepared : (if replies.preparation = .threw then n.latch "core_unavailable"
          else n).Early := by
        split
        · exact hfirst.latch _
        · exact hfirst
      have hthrew (h : replies.preparation = .threw) : (if replies.preparation = .threw then
          n.latch "core_unavailable" else n).own.facts.Named := by
        rw [if_pos h]
        exact Own.named_latch _
      generalize (if replies.preparation = .threw then n.latch "core_unavailable" else n) = p
        at hprepared hthrew
      have hsecond := hprepared.current (o := o) replies.second
      split
      · next m heq =>
        have hnamed := Own.named_of_current (congrArg Prod.fst heq)
        rw [← Native.own_current, heq] at hnamed
        rw [heq] at hsecond
        exact hsecond.accounted (.inl hnamed)
      · next m heq =>
        rw [heq] at hsecond
        refine Native.accounted_prepared hid hsecond fun h => ?_
        have hnamed := Own.named_current (o := o) replies.second (hthrew h)
        rw [← Native.own_current, heq] at hnamed
        exact hnamed

end Native

/-- What a read of `readNativePackageSet` owes: an outcome without a delivery names its cause, the
sink is asked at most once, and a token is minted only behind a sink that confirmed and rechecks
that were all allowed. -/
structure NativeAccountable (o : Installed) (record : Retained.PreparedRecord) (replies : NativeReplies) :
    Prop where
  named : (readNativePackageSet o record replies).delivered = false →
    (readNativePackageSet o record replies).Named
  sink : (readNativePackageSet o record replies).own.sinks.length ≤ 1
  token : (readNativePackageSet o record replies).delivered = true →
    .confirmed ∈ (readNativePackageSet o record replies).own.sinks ∧
      ∀ answer, .recheck answer ∈ (readNativePackageSet o record replies).own.history →
        answer = .allowed

theorem nativeAccountable {o : Installed} {record : Retained.PreparedRecord} {replies : NativeReplies}
    (hid : record.requestId.length ≤ 248) : NativeAccountable o record replies := by
  have h : (readNativePackageSet o record replies).Accounted := accounted_readNativePackageSet hid
  refine ⟨h.named, h.sinks, fun htoken => ?_⟩
  obtain ⟨hconfirmed, hunnamed⟩ := h.settled htoken
  refine ⟨h.sound.confirmed hconfirmed, fun answer hmem => ?_⟩
  by_contra hne
  exact hunnamed (h.sound.refused answer hmem hne)

/-- A failed read names its cause on both routes: where the observers of the own Host are handled,
and where the id of a native request leaves room for the prefix of a receipt. -/
theorem failures_named (o : Installed) (replies : NodeReplies) (hhandled : replies.Handled)
    (nativeOp : Installed) (record : Retained.PreparedRecord) (nativeReplies : NativeReplies)
    (hid : record.requestId.length ≤ 248) :
    NodeAccountable o replies ∧ NativeAccountable nativeOp record nativeReplies :=
  ⟨nodeAccountable hhandled, nativeAccountable hid⟩

section Unnamed

variable {o : Installed} {check : Check} {observed : Json} {record : Retained.PreparedRecord}

/-- A recheck that is not aborted and is allowed. -/
def Allows (o : Installed) (check : Check) : Prop :=
  check.aborted = false ∧ recheck o.tuples o.standing check.member = .allowed

/-- The own Host behind an allowed recheck. -/
def Own.checked (s : Own) : Own := s.countMember.ask (.recheck .allowed)

/-- The largest budget. -/
def maxBudget : Read.UInt := ⟨2 ^ 53 - 1, by decide⟩

theorem le_maxBudget {n : ℕ} (h : n < 2 ^ 53) : n ≤ maxBudget.1 := Nat.le_sub_one_of_lt h

/-- A native read that is delivered to its sink, and whose Host is observed behind it. -/
def deliveredReplies (check : Check) (observed : Json) : NativeReplies where
  refusal := none
  first := check
  preparation := .prepared
  second := check
  observations := []
  output := some .ready
  delivery := ⟨check, .confirmed, check, ⟨check, .value observed, check⟩, [], check⟩
  last := check
  registers := true

/-- A preparation with the largest budget, whose scope nothing is in, and whose request id leaves
no room for the prefix of a receipt. -/
structure LongId (record : Retained.PreparedRecord) : Prop where
  budget : record.budgetBytes = maxBudget
  scope : ∀ context, record.inScope context = false
  long : 248 < record.requestId.length

/-- Its rejections are refused by their shape. -/
theorem LongId.fail (h : LongId record) {code : String} (hcode : code ∈ Retained.hostCodes) :
    Retained.fail record code = none := by
  refine (Retained.fail_eq_none_iff record hcode).mpr ⟨?_, h.long⟩
  rw [h.budget]
  exact le_maxBudget (Retained.octets_rejection record hcode)

theorem Own.current_of_allows (hcheck : Allows o check) {s : Own}
    (hlocal : s.facts.localFailure = none) (hrevocation : s.facts.revocation = none) :
    s.current o check = (true, s.checked) := by
  rw [Own.current, hcheck.1, hcheck.2]
  refine Prod.ext ?_ rfl
  change (s.facts.revocation.isNone && s.facts.localFailure.isNone) = true
  rw [hlocal, hrevocation]
  rfl

theorem Native.current_of_allows (hcheck : Allows o check) {n : Native}
    (hlocal : n.own.facts.localFailure = none) (hrevocation : n.own.facts.revocation = none) :
    n.current o check = (true, { n with own := n.own.checked }) := by
  rw [Native.current, Own.current_of_allows hcheck hlocal hrevocation]

/-- The check behind the sink fails with the code of a rejection, and latches nothing. -/
theorem Native.postFailure_of_allows (hcheck : Allows o check)
    (hobserved : Own.isObservation o.provider observed = true)
    (hscope : ∀ context, record.inScope context = false) {n : Native}
    (hlocal : n.own.facts.localFailure = none) (hrevocation : n.own.facts.revocation = none) :
    ∃ code ∈ Retained.hostCodes, n.postFailure o record (deliveredReplies check observed).delivery =
      (some code, { n with own := n.own.checked.countObserver.checked }) := by
  have hpost : (deliveredReplies check observed).delivery.post =
      ⟨check, .value observed, check⟩ := rfl
  have hobserve : n.own.nativeObserve o (deliveredReplies check observed).delivery.post =
      (some observed, n.own.checked.countObserver.checked) := by
    rw [Own.nativeObserve, hpost, Own.current_of_allows hcheck hlocal hrevocation]
    dsimp only
    rw [Own.current_of_allows (s := n.own.checked.countObserver) hcheck hlocal hrevocation]
    dsimp only
    rw [Own.nativeCapture, if_pos hobserved, if_pos rfl]
  rw [Native.postFailure, hobserve]
  dsimp only
  split
  · next e _ => exact ⟨e.code, by cases e <;> decide, rfl⟩
  · rw [hscope]
    exact ⟨"READ_SCOPE_DENIED", by decide, rfl⟩

/-- The delivery fails behind its sink without a cause. -/
theorem Native.deliver_of_allows (hcheck : Allows o check) (hsink : o.provider.sink = true)
    (hobserved : Own.isObservation o.provider observed = true) (hrecord : LongId record)
    {n : Native} (hlocal : n.own.facts.localFailure = none)
    (hrevocation : n.own.facts.revocation = none) : ∃ own : Own,
      n.deliver o record (deliveredReplies check observed).delivery .ready =
          (false, { n with own := own, readResult := some .ready, postRejected := false }) ∧
        own.facts.localFailure = none ∧ own.facts.revocation = none := by
  have hfirst : (deliveredReplies check observed).delivery.first = check := rfl
  have hsecond : (deliveredReplies check observed).delivery.second = check := rfl
  have hanswer : (deliveredReplies check observed).delivery.sink = .confirmed := rfl
  have hconfirm (m : Native) (hlocal : m.own.facts.localFailure = none)
      (hrevocation : m.own.facts.revocation = none) :
      m.confirm o record (deliveredReplies check observed).delivery =
        (false, { m with own := m.own.checked.checked.countObserver.checked, postRejected := false }) := by
    obtain ⟨code, hcode, hpost⟩ := Native.postFailure_of_allows hcheck hobserved hrecord.scope
      (n := { m with own := m.own.checked }) hlocal hrevocation
    rw [Native.confirm, hsecond, Native.current_of_allows hcheck hlocal hrevocation]
    dsimp only
    rw [hpost]
    dsimp only
    rw [Native.postFail, hrecord.fail hcode]
    rfl
  have hcalled := hconfirm (Native.callSink .confirmed
    { n with own := n.own.checked, readResult := some .ready }) hlocal hrevocation
  rw [Native.deliver, if_pos rfl, hfirst, Native.current_of_allows hcheck
    (n := { n with readResult := some .ready }) hlocal hrevocation]
  dsimp only
  rw [if_pos hsink, hanswer, hcalled]
  exact ⟨_, rfl, hlocal, hrevocation⟩

/-- A native read that is rejected behind its sink does not name the cause where the request id is
too long. -/
theorem readNativePackageSet_unnamed (hcheck : Allows o check) (hsink : o.provider.sink = true)
    (hobserved : Own.isObservation o.provider observed = true) (hrecord : LongId record) :
    ¬ NativeAccountable o record (deliveredReplies check observed) := by
  obtain ⟨own, hdelivered, hlocal, hrevocation⟩ := Native.deliver_of_allows hcheck hsink hobserved
    hrecord (n := ⟨Native.initial.own.checked.checked, Native.initial.preparationFailed,
      Native.initial.readResult, Native.initial.postRejected, Native.initial.delivered⟩) rfl rfl
  have hfirst : (deliveredReplies check observed).first = check := rfl
  have hsecond : (deliveredReplies check observed).second = check := rfl
  have hlast : (deliveredReplies check observed).last = check := rfl
  have hrefusal : (deliveredReplies check observed).refusal = none := rfl
  have hprepared : (deliveredReplies check observed).preparation = .prepared := rfl
  have hobservations : (deliveredReplies check observed).observations = [] := rfl
  have houtput : (deliveredReplies check observed).output = some .ready := rfl
  have hread : readNativePackageSet o record (deliveredReplies check observed) =
      { Native.initial with own := own.checked, readResult := some .ready } := by
    rw [readNativePackageSet, hrefusal, hfirst, Native.current_of_allows hcheck rfl rfl]
    dsimp only
    rw [hprepared, if_neg (by decide), hsecond, Native.current_of_allows hcheck rfl rfl]
    dsimp only
    rw [Native.prepared, hprepared]
    dsimp only
    rw [Native.read, houtput, hobservations, List.foldl_nil]
    dsimp only
    rw [hdelivered]
    dsimp only
    rw [Native.conclude_eq, Native.recheckedLast, hlast, Own.current_of_allows hcheck hlocal hrevocation]
    rfl
  intro h
  have hnamed := h.named (by rw [hread]; rfl)
  rw [hread] at hnamed
  rcases hnamed with (hfailure | hrejected) | hpreparation | ⟨r, hr, hne⟩
  · exact nomatch (congrArg Option.isSome hlocal).symm.trans hfailure
  · exact nomatch (congrArg Option.isSome hrevocation).symm.trans hrejected
  · exact nomatch hpreparation
  · exact hne (Option.some.inj hr).symm

end Unnamed

section Sample

/-- A set with one member. -/
def sampleMember : Member := ⟨"m", "a", "1", "sha256:" ++ String.ofList (List.replicate 64 '0')⟩

/-- An admission of the set, and a provider of its Host with a sink. -/
def sampleInstalled : Installed where
  tuples := ⟨Ir.versionTuple, []⟩
  standing := ⟨⟨"s", [sampleMember], ⟨"a", "1", "j"⟩⟩, Ir.versionTuple, .isolatedRead,
    [⟨"m", sampleMember.a, "a", "1", true, ["j"]⟩], "h", "e"⟩
  provider := ⟨"h", "e", true⟩

/-- The member is allowed, and nothing is aborted. -/
def sampleCheck : Check :=
  ⟨false, none, .decisions [some ⟨sampleMember, some .allow, "d", "h", "e", 1, 3, 2⟩]⟩

theorem exists_of_isOk {ε α : Type} {x : Except ε α} (h : x.isOk = true) : ∃ a, x = .ok a :=
  match x, h with
  | .ok a, _ => ⟨a, rfl⟩

/-- The tuple that the contract installs passes its check. -/
theorem checkTuple_own {φ : Type} (tuples : Tuples)
    (h : assertStrictJson (Ir.textRecord tuples.own) = .ok ()) :
    (checkTuple tuples tuples.own : Except (Stop φ) Unit) = .ok () := by
  have hcanonical : canonicalJson (Ir.textRecord tuples.own) =
      .ok (String.ofList (canonicalText (Ir.textRecord tuples.own))) := by
    rw [canonicalJson, h]
    rfl
  rw [checkTuple, hcanonical]
  exact require_eq_ok_iff.mpr (decide_eq_true rfl)

theorem checkTuple_versionTuple (φ : Type) :
    (checkTuple ⟨Ir.versionTuple, []⟩ Ir.versionTuple : Except (Stop φ) Unit) = .ok () := by
  refine checkTuple_own ⟨Ir.versionTuple, []⟩ ?_
  rw [assertStrictJson_eq_checkQuickly]
  decide

theorem recheck_eq_allowed {tuples : Tuples} {standing : Standing} {reply : MemberReply}
    {rows : List ObservationRow} {id : String}
    (hrows : (captureObservation ⟨standing.hostId, standing.hostEpoch, reply.currentMs⟩
      standing.set reply.observation).2 = .ok rows)
    (hid : (decidePackageSet tuples standing.set standing.tuple standing.admitted (grantsOf rows)
      standing.operation : Except (Stop Empty) String) = .ok id) :
    recheck tuples standing reply = .allowed := by
  rw [recheck, hrows]
  dsimp only
  rw [hid]

theorem recheck_sample :
    recheck sampleInstalled.tuples sampleInstalled.standing sampleCheck.member = .allowed := by
  obtain ⟨rows, hrows⟩ := exists_of_isOk (x := (captureObservation ⟨"h", "e", none⟩
    sampleInstalled.standing.set sampleCheck.member.observation).2) (by decide)
  obtain rfl : [⟨sampleMember, some .allow, "d", "h", "e", 1, 3, 2⟩] = rows :=
    List.map_injective_iff.mpr (Option.some_injective _) (captureObservation_spec hrows)
  obtain ⟨id, hid⟩ := exists_of_isOk (x := (decidePackageSet sampleInstalled.tuples
    sampleInstalled.standing.set sampleInstalled.standing.tuple sampleInstalled.standing.admitted
    (grantsOf [⟨sampleMember, some .allow, "d", "h", "e", 1, 3, 2⟩])
    sampleInstalled.standing.operation : Except (Stop Empty) String)) (by
      simp only [decidePackageSet, sampleInstalled, checkTuple_versionTuple]
      decide)
  exact recheck_eq_allowed hrows hid

/-- What the observer of the Host returns. -/
def sampleRaw : Raw :=
  .record ((hostContextKeys.filter (· ≠ "scope")).map (fun key => (key, RawField.ofText
    (if key = "host_id" then "h" else if key = "host_epoch" then "e"
      else if key = "decision" then "allow" else "x"))) ++ [("scope", .dense [some [106]])])

/-- An observation whose observer returns the value. -/
def observeOf (raw : Raw) : ObserveReply := ⟨sampleCheck, .returned raw, sampleCheck⟩

/-- A read whose only observation returns the value. -/
def repliesOf (raw : Raw) : NodeReplies :=
  ⟨[observeOf raw], some .ready,
    ⟨false, sampleCheck, .confirmed, false, sampleCheck, .returned sampleRaw, sampleCheck⟩, sampleCheck⟩

/-- The digest of nothing in particular. -/
def sampleDigest : String := sampleMember.a

theorem isDigest_sampleDigest : Read.isDigest (.str sampleDigest) = true := by decide

/-- A prepared read of a request. -/
def recordOf (requestId : String) (h : identifier requestId = true) : Retained.PreparedRecord where
  requestId := requestId
  requestIdOk := h
  budgetBytes := maxBudget
  definitionDigest := sampleDigest
  digestOk := isDigest_sampleDigest
  gate := ⟨"o", sampleDigest, sampleDigest, "a", .null, .null, .null⟩
  inScope := fun _ => false

/-- An observation of the retained shape, of another request. -/
def sampleObserved : Json :=
  .obj ([("host_id", "h"), ("host_epoch", "e"), ("decision_id", "d"), ("request_id", "r"),
      ("policy_id", "p"), ("operation_id", "o"), ("request_digest", sampleDigest),
      ("intent_digest", sampleDigest), ("decision", "allow")].map (fun p => (p.1, Value.str p.2)) ++
    [("origin", .obj ([("snapshot_id", "s"), ("kind", "whole"), ("capture_id", "c"),
        ("admission_request_digest", sampleDigest), ("verification_digest", sampleDigest),
        ("checked_sections_digest", sampleDigest)].map fun p => (p.1, Value.str p.2))),
      ("asset", .obj [("asset_id", .str "a"), ("asset_version", .str "1"),
        ("judgment_version", .str "1")]),
      ("tuple", .obj (Ir.candidateTuple.map fun p => (p.1, .str p.2))), ("scope", .arr []),
      ("issued_at", Read.msZero), ("expires_at", Read.msOne), ("current_ms", Read.msZero)])

theorem requestId_recordOf (id : String) (h : identifier id = true) :
    (recordOf id h).requestId = id := rfl

theorem budgetBytes_recordOf (id : String) (h : identifier id = true) :
    (recordOf id h).budgetBytes = maxBudget := rfl

theorem inScope_recordOf (id : String) (h : identifier id = true) (context : Read.Context) :
    (recordOf id h).inScope context = false := rfl

/-- The longest request id. -/
def longId : String := String.ofList (List.replicate 256 'a')

theorem identifier_longId : identifier longId = true := by
  have hall (n : ℕ) (hpos : 0 < n) (hle : n ≤ 256) :
      identifier (String.ofList (List.replicate n 'a')) = true := by
    have hcontrol : isControl 'a' = false := by decide
    have hsize : 'a'.utf8Size = 1 := by decide
    simp [identifier, scalarString, Utf8.encode, Utf8.encodeChars, hcontrol, hsize, hle, hpos.ne']
  exact hall 256 (by decide) (by decide)

theorem isObservation_sample : Own.isObservation sampleInstalled.provider sampleObserved = true := by
  unfold Own.isObservation Read.RetainedGate.shape Read.observationShape Read.isDigest
  simp only [assertStrictJson_eq_checkQuickly, toList_eq_quickToList, Bool.and_eq_true]
  refine ⟨⟨⟨⟨?_, ⟨⟨⟨⟨⟨⟨⟨⟨?_, ?_⟩, ?_⟩, ?_⟩, ?_⟩, ?_⟩, ?_⟩, ?_⟩, ?_⟩⟩, ?_⟩, ?_⟩, ?_⟩
  all_goals decide +kernel

/-- A read with an observation of its own Host that is no Host context. -/
theorem node_unnamed : ¬ NodeAccountable sampleInstalled (repliesOf .foreign) := by
  intro h
  have hbefore : { Own.initial with observed := true }.memberRecheck sampleInstalled sampleCheck =
      (none, { Own.initial with observed := true }.checked) := by
    have hrunning : sampleCheck.aborted = false := rfl
    rw [Own.memberRecheck, hrunning, recheck_sample]
    rfl
  have hobserve := Own.observe_unhandled (o := sampleInstalled) (r := observeOf .foreign)
    (s := Own.initial) rfl hbefore rfl
  have hnamed := h.observe [] (observeOf .foreign) [] rfl (congrArg Prod.fst hobserve)
  rw [Own.observations, List.foldl_nil, hobserve] at hnamed
  rcases hnamed with hlocal | hrevocation
  · exact nomatch hlocal
  · exact nomatch hrevocation

theorem longId_recordOf : LongId (recordOf longId identifier_longId) where
  budget := budgetBytes_recordOf longId identifier_longId
  scope := inScope_recordOf longId identifier_longId
  long := by
    have hlength : longId.length = 256 :=
      (String.length_ofList ..).trans (List.length_replicate ..)
    rw [requestId_recordOf, hlength]
    decide

/-- Neither route names the cause of every failure. -/
theorem failures_unnamed :
    ¬ NodeAccountable sampleInstalled (repliesOf .foreign) ∧
      ¬ NativeAccountable sampleInstalled (recordOf longId identifier_longId)
        (deliveredReplies sampleCheck sampleObserved) :=
  ⟨node_unnamed, readNativePackageSet_unnamed ⟨rfl, recheck_sample⟩ rfl isObservation_sample
    longId_recordOf⟩

theorem failures_named_sample :
    NodeAccountable sampleInstalled (repliesOf sampleRaw) ∧
      NativeAccountable sampleInstalled (recordOf "r" (by decide))
        (deliveredReplies sampleCheck sampleObserved) :=
  failures_named sampleInstalled (repliesOf sampleRaw) ⟨by decide, rfl⟩ sampleInstalled
    (recordOf "r" (by decide)) (deliveredReplies sampleCheck sampleObserved) (by decide)

end Sample

end Kdna.Packages

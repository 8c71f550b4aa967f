import Kdna.ProtectedRead.Prepared

/-!
# What an accepted observation says

An observation of the Host that a transport names is accepted only within its own time, where it
does not deny, and where its scope holds what the envelope shows.
-/

namespace Kdna.ProtectedRead

open Value Read

variable {k : Route} {revocations standing : List Denial} {raw : Option Json} {context : Context}

theorem mem_settle {assetId : String} (hdenies : context.denies = true) :
    context.denial assetId ∈ settle revocations context assetId := by
  rw [settle, if_pos hdenies]
  exact List.mem_cons_self

/-- What the checks of `host-gate.js` leave. -/
theorem accepted_of_hostGate {request : Request} {view : Read.View}
    (h : HostGate.check request view raw = .ok context) :
    (∃ value, raw = some value) ∧ context.issuedAt ≤ context.currentMs ∧
      context.currentMs < context.expiresAt := by
  simp only [HostGate.check, bind_eq_ok_iff, require_eq_ok_iff, orFail_eq_ok_iff, pure_eq_ok,
    Except.ok.injEq] at h
  obtain ⟨value, hvalue, -, -, hostId, -, hostEpoch, -, decisionId, -, requestId, -, snapshotId, -,
    -, -, -, -, scope, -, issued, -, expires, -, -, -, -, -, current, -, -, hbegun, -, -, -,
    hexpiry, rfl⟩ := h
  exact ⟨⟨value, hvalue⟩, hbegun.1, hexpiry⟩

/-- What the checks of the section routes leave. -/
theorem accepted_of_check {p : SectionRead} (h : check k p raw = .ok context) :
    (∃ value, raw = some value) ∧ context.issuedAt ≤ context.currentMs ∧
      context.currentMs < context.expiresAt := by
  simp only [check, bind_eq_ok_iff, require_eq_ok_iff, orFail_eq_ok_iff, pure_eq_ok,
    Except.ok.injEq] at h
  obtain ⟨value, hvalue, -, -, -, -, -, -, hostId, -, hostEpoch, -, decisionId, -, scope, -, issued,
    -, expires, -, current, -, -, -, -, hbegun, -, hexpiry, -, -, -, -, -, -, rfl⟩ := h
  exact ⟨⟨value, hvalue⟩, hbegun, hexpiry⟩

/-- A settled observation of a section route is not denied, and its scope holds the projection. -/
theorem settleSections_eq_ok {p : SectionRead} {checked : Context}
    (h : settleSections p revocations checked = (.ok context, standing)) :
    checked = context ∧ context.denies = false ∧ ∀ id ∈ p.projectionScope, id ∈ context.scope := by
  rw [settleSections] at h
  split at h
  · cases (Prod.mk.inj h).1
  · next hdenied =>
    split at h
    · next hscope =>
      obtain rfl := Except.ok.inj (Prod.mk.inj h).1
      exact ⟨rfl, Bool.eq_false_iff.mpr fun hd => hdenied (mem_settle hd), hscope.1⟩
    · cases (Prod.mk.inj h).1

/-- An accepted observation of `host-gate.js` is one that passed its checks and is not denied. -/
theorem observe_whole_eq_ok {request : Request} {view : Read.View}
    (h : Read.observe revocations (.whole request view raw) = (.ok context, standing)) :
    HostGate.check request view raw = .ok context ∧ context.denies = false := by
  rw [Read.observe] at h
  cases hcheck : (Observation.whole request view raw).check with
  | error e =>
    rw [hcheck] at h
    cases (Prod.mk.inj h).1
  | ok checked =>
    rw [hcheck] at h
    dsimp only at h
    split at h
    · cases (Prod.mk.inj h).1
    · next hdenied =>
      obtain rfl := Except.ok.inj (Prod.mk.inj h).1
      exact ⟨hcheck, Bool.eq_false_iff.mpr fun hd => hdenied (mem_settle hd)⟩

/-- The observation of a transport, where it is accepted. -/
theorem accepted_of_observe {p : Prepared}
    (h : p.observe k revocations raw = (.ok context, standing)) :
    (∃ value, raw = some value) ∧ Accepted context := by
  cases p with
  | whole p =>
    rw [Prepared.observe] at h
    cases hobserved : Read.observe revocations (.whole p.request p.view raw) with
    | mk result after =>
      rw [hobserved] at h
      cases result with
      | error e => cases (Prod.mk.inj h).1
      | ok checked =>
        obtain rfl := Except.ok.inj (Prod.mk.inj h).1
        obtain ⟨hcheck, hallowed⟩ := observe_whole_eq_ok hobserved
        obtain ⟨hvalue, hissued, hunexpired⟩ := accepted_of_hostGate hcheck
        exact ⟨hvalue, hissued, hunexpired, hallowed⟩
  | sections p =>
    rw [Prepared.observe] at h
    cases hcheck : check k p raw with
    | error e =>
      rw [hcheck] at h
      cases (Prod.mk.inj h).1
    | ok checked =>
      rw [hcheck] at h
      obtain ⟨rfl, hallowed, -⟩ := settleSections_eq_ok h
      obtain ⟨hvalue, hissued, hunexpired⟩ := accepted_of_check hcheck
      exact ⟨hvalue, hissued, hunexpired, hallowed⟩

/-- The projection of a section read holds the nodes that its body names. -/
theorem mem_projectionScope (p : SectionRead) {ids : List String}
    (hids : p.body.named p.nodes = some ids) {n : Json} (hn : n ∈ p.nodes) {id : String}
    (hid : idOf n = some id) (hmem : id ∈ ids) : id ∈ p.projectionScope := by
  have hscope := p.scope_eq
  rw [SectionBody.scope, hids, Option.bind_eq_bind, Option.bind_some] at hscope
  rw [← Option.some.inj hscope, List.mem_filter]
  exact ⟨List.mem_filterMap.mpr ⟨n, hn, hid⟩, decide_eq_true hmem⟩

/-- An accepted observation whose scope matches holds every node of the envelope. -/
theorem within_of_observe {p : Prepared} {folding : Bool}
    (h : p.observe k revocations raw = (.ok context, standing))
    (hmatches : p.scopeMatches folding context.scope = true) : p.Within context.scope := by
  cases p with
  | whole p =>
    rw [Prepared.scopeMatches, Option.any_eq_true] at hmatches
    obtain ⟨kept, hkept, -⟩ := hmatches
    exact (scopeBody_spec hkept).1
  | sections p =>
    rw [Prepared.observe] at h
    cases hcheck : check k p raw with
    | error e =>
      rw [hcheck] at h
      cases (Prod.mk.inj h).1
    | ok checked =>
      rw [hcheck] at h
      obtain ⟨rfl, -, hscope⟩ := settleSections_eq_ok h
      exact fun ids hids n hn id hid hmem => hscope id (mem_projectionScope p hids hn hid hmem)

end Kdna.ProtectedRead

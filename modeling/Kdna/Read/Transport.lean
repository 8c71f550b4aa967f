import Kdna.Data.Fallible
import Kdna.Data.Runs
import Kdna.StrictInput
import Mathlib.Logic.Function.Basic

/-!
# Responses on one transport

`admitReadTransportResponse` and `boundedBody` of `transport.js`. A call checks its context,
enters it in the table of associations and then waits for the chunks of the body, so that
calls interleave between any two of its readings. What the source reads of a context or of a
response besides the fields below is left to the checks that read it.
-/

namespace Kdna.Read.Transport

/-- `config.diagnostic_codes` -/
inductive Code
  | responseInvalid
  | contextInvalid
  | associationStale
  | associationReplayed
  | associationCapacity
  | limitExceeded
  | timeout
  | httpMismatch
  | jsonInvalid
  | schemaInvalid
  | bindingMismatch
  deriving DecidableEq, Repr

/-- `config.limits.association_capacity` -/
def associationCapacity : ℕ := 4096

/-- `config.limits.association_ttl_ms` -/
def associationTtlMs : ℕ := 300000

/-- `config.limits.request_json_bytes` -/
def requestJsonBytes : ℕ := 65536

/-- `responseBytesPerCallMaximum` -/
def responseBytesPerCallMaximum : ℕ := 1048576

/-- `controlResponseBytesPerCallMaximum` -/
def controlResponseBytesPerCallMaximum : ℕ := 4096

/-- The caller's context of a read. -/
structure Context (δ : Type) where
  associationId : String
  endpointId : String
  sessionId : String
  outboundRequestJson : String
  issuedAtMs : ℕ
  expiresAtMs : ℕ
  maxResponseBytes : ℕ
  admissionResponseLimitBytes : ℕ
  detail : δ
  deriving DecidableEq

/-- The header `x-kdna-channel`. -/
inductive Channel
  | readEnvelope
  | admissionRejection
  | noBodyControl
  | transportFailure
  deriving DecidableEq, Repr

/-- What the headers say of the body. -/
structure Head where
  channel : Channel
  contentLength : Option ℕ
  hasBody : Bool

/-- The checks of a call: of its context, of the headers and of the whole body. -/
structure Checks (δ ρ : Type) where
  context : Context δ → Bool
  head : Context δ → ρ → Except Code Head
  body : Context δ → ρ → Bytes → Except Code Unit

variable {δ ρ : Type}

/-- `hasJSON` -/
def Channel.hasJson (channel : Channel) : Bool :=
  channel = .readEnvelope || channel = .admissionRejection

/-- `perCallBytes` -/
def perCallBytes (c : Context δ) : Channel → ℕ
  | .readEnvelope => min c.maxResponseBytes responseBytesPerCallMaximum
  | .admissionRejection =>
    min (min c.maxResponseBytes c.admissionResponseLimitBytes) controlResponseBytesPerCallMaximum
  | _ => c.maxResponseBytes

/-- `maxBytes` of `boundedBody` -/
def bodyBytes (c : Context δ) (channel : Channel) : ℕ :=
  if channel.hasJson then perCallBytes c channel else 0

/-- A call that waits for its body, with the parts it has. -/
structure Reading (δ ρ : Type) where
  context : Context δ
  response : ρ
  head : Head
  parts : Bytes

/-- How far a call is. A rejected call has an association once it entered the table. -/
inductive Call (δ ρ : Type)
  | reading (r : Reading δ ρ)
  | accepted (c : Context δ)
  | rejected (code : Code) (association : Option (Context δ))

/-- `associations`, and the calls on the transport. -/
structure State (δ ρ : Type) where
  associations : List (String × ℕ)
  calls : ℕ → Option (Call δ ρ)

/-- The state before any call. -/
def State.initial : State δ ρ := ⟨[], fun _ => none⟩

/-- What happens on a transport, with the readings of the clock. The context of a new call is
missing where `clone` throws. -/
inductive Event (δ ρ : Type)
  | start (i : ℕ) (context : Option (Context δ)) (response : ρ) (now : ℕ)
  | chunk (i : ℕ) (bytes : Bytes)
  | done (i : ℕ) (now last : ℕ)
  | failure (i : ℕ) (code : Code)

/-- The readings of the clock in an event. -/
def Event.readings : Event δ ρ → List ℕ
  | .start _ _ _ now => [now]
  | .done _ now last => [now, last]
  | _ => []

/-- The checks of a context before the clock is read. -/
def Checks.contextValid (checks : Checks δ ρ) (c : Context δ) : Bool :=
  checks.context c && [c.associationId, c.endpointId, c.sessionId].all identifier &&
    decide ((Utf8.encode c.outboundRequestJson).length ≤ requestJsonBytes)

/-- Whether the association of a context is current. -/
def Context.current (c : Context δ) (now : ℕ) : Bool :=
  c.issuedAtMs ≤ now && now < c.expiresAtMs && c.expiresAtMs - c.issuedAtMs ≤ associationTtlMs

/-- The loop that deletes what has expired. -/
def purge (now : ℕ) (associations : List (String × ℕ)) : List (String × ℕ) :=
  associations.filter fun entry => now < entry.2

/-- The checks of a call up to its entry in the table. -/
def associate (checks : Checks δ ρ) (now : ℕ) (associations : List (String × ℕ))
    (context : Option (Context δ)) : List (String × ℕ) × Except Code (Context δ) :=
  match context with
  | none => (associations, .error .contextInvalid)
  | some c =>
    if !checks.contextValid c then (associations, .error .contextInvalid)
    else if !c.current now then (associations, .error .associationStale)
    else
      let kept := purge now associations
      if (kept.map Prod.fst).contains c.associationId then (kept, .error .associationReplayed)
      else if associationCapacity ≤ kept.length then (kept, .error .associationCapacity)
      else (kept ++ [(c.associationId, c.expiresAtMs)], .ok c)

/-- The checks of a call from its entry in the table to the first part of the body. -/
def openBody (checks : Checks δ ρ) (c : Context δ) (response : ρ) : Except Code (Reading δ ρ) := do
  let head ← checks.head c response
  require (∀ n ∈ head.contentLength, n ≤ perCallBytes c head.channel) Code.limitExceeded
  require (head.channel.hasJson ∨ ∀ n ∈ head.contentLength, n = 0) Code.httpMismatch
  require (head.hasBody ∨ ∀ n ∈ head.contentLength, n = 0) Code.httpMismatch
  return ⟨c, response, head, []⟩

/-- A part of the body. -/
def readPart (r : Reading δ ρ) (bytes : Bytes) : Except Code (Reading δ ρ) := do
  let total := r.parts.length + bytes.length
  require (total ≤ bodyBytes r.context r.head.channel) Code.limitExceeded
  require (∀ n ∈ r.head.contentLength, total ≤ n) Code.httpMismatch
  return { r with parts := r.parts ++ bytes }

/-- The checks of a call behind its body. -/
def admitBody (checks : Checks δ ρ) (r : Reading δ ρ) (now last : ℕ) : Except Code Unit := do
  require (∀ n ∈ r.head.contentLength, r.parts.length = n) Code.httpMismatch
  require (now < r.context.expiresAtMs) Code.associationStale
  checks.body r.context r.response r.parts
  require (last < r.context.expiresAtMs) Code.associationStale

/-- The state of the call `i` afterwards. -/
def State.setCall (s : State δ ρ) (i : ℕ) (call : Call δ ρ) : State δ ρ :=
  { s with calls := Function.update s.calls i (some call) }

/-- A call from its start to its first wait. -/
def State.start (checks : Checks δ ρ) (s : State δ ρ) (i : ℕ) (context : Option (Context δ))
    (response : ρ) (now : ℕ) : State δ ρ :=
  let (associations, associated) := associate checks now s.associations context
  let s := { s with associations := associations }
  match associated with
  | .error code => s.setCall i (.rejected code none)
  | .ok c =>
    match openBody checks c response with
    | .error code => s.setCall i (.rejected code (some c))
    | .ok r => s.setCall i (.reading r)

/-- One step of a transport. An event of a call that does not wait for it changes nothing. -/
def State.step (checks : Checks δ ρ) (s : State δ ρ) : Event δ ρ → State δ ρ
  | .start i context response now =>
    match s.calls i with
    | none => s.start checks i context response now
    | some _ => s
  | .chunk i bytes =>
    match s.calls i with
    | some (.reading r) =>
      match readPart r bytes with
      | .error code => s.setCall i (.rejected code (some r.context))
      | .ok r => s.setCall i (.reading r)
    | _ => s
  | .done i now last =>
    match s.calls i with
    | some (.reading r) =>
      match admitBody checks r now last with
      | .error code => s.setCall i (.rejected code (some r.context))
      | .ok () => s.setCall i (.accepted r.context)
    | _ => s
  | .failure i code =>
    match s.calls i with
    | some (.reading r) => s.setCall i (.rejected code (some r.context))
    | _ => s

/-- The context that a call has entered in the table. -/
def Call.entered : Call δ ρ → Option (Context δ)
  | .reading r => some r.context
  | .accepted c => some c
  | .rejected _ association => association

variable {checks : Checks δ ρ} {s : State δ ρ} {e : Event δ ρ}

/-- What a call does before its first wait. -/
theorem associate_cases (checks : Checks δ ρ) (now : ℕ) (associations : List (String × ℕ))
    (context : Option (Context δ)) :
    (∃ code, (associate checks now associations context).2 = .error code ∧
      ((associate checks now associations context).1 = associations ∨
        (associate checks now associations context).1 = purge now associations)) ∨
    ∃ c, context = some c ∧ now < c.expiresAtMs ∧
      c.associationId ∉ (purge now associations).map Prod.fst ∧
      (purge now associations).length < associationCapacity ∧
      associate checks now associations context =
        (purge now associations ++ [(c.associationId, c.expiresAtMs)], .ok c) := by
  cases context with
  | none => exact .inl ⟨_, rfl, .inl rfl⟩
  | some c =>
    unfold associate
    dsimp only
    split_ifs with hvalid hcurrent hknown hfull
    · exact .inl ⟨_, rfl, .inl rfl⟩
    · exact .inl ⟨_, rfl, .inl rfl⟩
    · exact .inl ⟨_, rfl, .inr rfl⟩
    · exact .inl ⟨_, rfl, .inr rfl⟩
    · simp only [Bool.not_eq_true', Bool.not_eq_false, Context.current, Bool.and_eq_true,
        decide_eq_true_eq] at hcurrent
      exact .inr ⟨c, rfl, hcurrent.1.2, by simpa using hknown, by omega, rfl⟩

/-- What a step does: nothing, one more step of a call that waits, a call that is refused
before it enters the table, or a call that enters it. -/
theorem step_cases (checks : Checks δ ρ) (s : State δ ρ) (e : Event δ ρ) :
    s.step checks e = s ∨
    (∃ i r call, s.calls i = some (.reading r) ∧ call.entered = some r.context ∧
      s.step checks e = s.setCall i call) ∨
    (∃ i context response now code, e = .start i context response now ∧ s.calls i = none ∧
      ∃ associations, (associations = s.associations ∨ associations = purge now s.associations) ∧
        s.step checks e =
          State.setCall { s with associations := associations } i (.rejected code none)) ∨
    ∃ i c response now call, e = .start i (some c) response now ∧ s.calls i = none ∧
      call.entered = some c ∧ now < c.expiresAtMs ∧
      c.associationId ∉ (purge now s.associations).map Prod.fst ∧
      (purge now s.associations).length < associationCapacity ∧
      s.step checks e = State.setCall { s with
        associations := purge now s.associations ++ [(c.associationId, c.expiresAtMs)] } i call := by
  cases e with
  | start i context response now =>
    cases hcall : s.calls i with
    | some call => exact .inl (by simp only [State.step, hcall])
    | none =>
      have hstep : s.step checks (.start i context response now) =
          s.start checks i context response now := by simp only [State.step, hcall]
      rw [hstep]
      rcases associate_cases checks now s.associations context with
        ⟨code, herror, htable⟩ | ⟨c, rfl, hlive, hnew, hroom, hok⟩
      · refine .inr (.inr (.inl ⟨i, context, response, now, code, rfl, hcall, _, htable, ?_⟩))
        simp only [State.start, herror]
      · refine .inr (.inr (.inr ⟨i, c, response, now, ?_⟩))
        cases hopen : openBody checks c response with
        | error code =>
          exact ⟨.rejected code (some c), rfl, hcall, rfl, hlive, hnew, hroom, by
            simp only [State.start, hok, hopen]⟩
        | ok r =>
          have hcontext : r.context = c := by
            simp only [openBody, bind_eq_ok_iff, require_eq_ok_iff, pure_eq_ok, Except.ok.injEq,
              exists_const] at hopen
            obtain ⟨head, -, -, -, -, rfl⟩ := hopen
            rfl
          exact ⟨.reading r, rfl, hcall, congrArg some hcontext, hlive, hnew, hroom, by
            simp only [State.start, hok, hopen]⟩
  | chunk i bytes =>
    cases hcall : s.calls i with
    | none => exact .inl (by simp only [State.step, hcall])
    | some call =>
      cases call with
      | accepted c => exact .inl (by simp only [State.step, hcall])
      | rejected code a => exact .inl (by simp only [State.step, hcall])
      | reading r =>
        refine .inr (.inl ⟨i, r, ?_⟩)
        cases hpart : readPart r bytes with
        | error code =>
          exact ⟨.rejected code (some r.context), hcall, rfl, by simp only [State.step, hcall, hpart]⟩
        | ok r' =>
          have hcontext : r'.context = r.context := by
            simp only [readPart, bind_eq_ok_iff, require_eq_ok_iff, pure_eq_ok, Except.ok.injEq,
              exists_const] at hpart
            obtain ⟨-, -, rfl⟩ := hpart
            rfl
          exact ⟨.reading r', hcall, congrArg some hcontext, by
            simp only [State.step, hcall, hpart]⟩
  | done i now last =>
    cases hcall : s.calls i with
    | none => exact .inl (by simp only [State.step, hcall])
    | some call =>
      cases call with
      | accepted c => exact .inl (by simp only [State.step, hcall])
      | rejected code a => exact .inl (by simp only [State.step, hcall])
      | reading r =>
        refine .inr (.inl ⟨i, r, ?_⟩)
        cases hbody : admitBody checks r now last with
        | error code =>
          exact ⟨.rejected code (some r.context), hcall, rfl, by simp only [State.step, hcall, hbody]⟩
        | ok u => exact ⟨.accepted r.context, hcall, rfl, by simp only [State.step, hcall, hbody]⟩
  | failure i code =>
    cases hcall : s.calls i with
    | none => exact .inl (by simp only [State.step, hcall])
    | some call =>
      cases call with
      | accepted c => exact .inl (by simp only [State.step, hcall])
      | rejected code' a => exact .inl (by simp only [State.step, hcall])
      | reading r =>
        exact .inr (.inl ⟨i, r, .rejected code (some r.context), hcall, rfl, by
          simp only [State.step, hcall]⟩)

section Once

/-- What holds at the time `t`: a call's association is in the table until it expires, and no
two calls have entered one context. -/
structure Valid (t : ℕ) (s : State δ ρ) : Prop where
  live : ∀ i call c, s.calls i = some call → call.entered = some c →
    c.expiresAtMs ≤ t ∨ (c.associationId, c.expiresAtMs) ∈ s.associations
  once : ∀ i j ci cj c, s.calls i = some ci → s.calls j = some cj → ci.entered = some c →
    cj.entered = some c → i = j

theorem valid_initial (t : ℕ) : Valid t (State.initial : State δ ρ) :=
  ⟨fun _ _ _ h => (nomatch h), fun _ _ _ _ _ h => (nomatch h)⟩

theorem Valid.later {t t' : ℕ} (h : Valid t s) (hle : t ≤ t') : Valid t' s :=
  ⟨fun i call c hcall hc => (h.live i call c hcall hc).imp_left fun he => he.trans hle, h.once⟩

theorem setCall_calls (s : State δ ρ) (i j : ℕ) (call : Call δ ρ) :
    (s.setCall i call).calls j = if j = i then some call else s.calls j :=
  Function.update_apply _ _ _ _

/-- A purge at a time keeps what has not expired by then. -/
theorem Valid.purge {t now : ℕ} (h : Valid t s) (hle : t ≤ now) :
    Valid now { s with associations := Transport.purge now s.associations } := by
  refine ⟨fun i call c hcall hc => ?_, h.once⟩
  rcases Nat.lt_or_ge now c.expiresAtMs with hlt | hge
  · refine .inr (List.mem_filter.mpr ⟨?_, decide_eq_true hlt⟩)
    exact (h.live i call c hcall hc).resolve_left (by omega)
  · exact .inl hge

/-- A call that entered nothing keeps the state valid. -/
theorem Valid.refuse {t : ℕ} (h : Valid t s) (i : ℕ) (code : Code) :
    Valid t (s.setCall i (.rejected code none)) := by
  have hcall {j : ℕ} {call : Call δ ρ} {c : Context δ}
      (hj : (s.setCall i (.rejected code none)).calls j = some call) (hc : call.entered = some c) :
      s.calls j = some call := by
    rw [setCall_calls] at hj
    split_ifs at hj
    · obtain rfl := Option.some.inj hj
      cases hc
    · exact hj
  exact ⟨fun j call c hj hc => h.live j call c (hcall hj hc) hc, fun j k cj ck c hj hk hcj hck =>
    h.once j k cj ck c (hcall hj hcj) (hcall hk hck) hcj hck⟩

/-- A further step of a call that waits keeps the state valid. -/
theorem Valid.advance {t i : ℕ} (h : Valid t s) {r : Reading δ ρ} {call : Call δ ρ}
    (hr : s.calls i = some (.reading r)) (hentered : call.entered = some r.context) :
    Valid t (s.setCall i call) := by
  have hcall {j : ℕ} {cj : Call δ ρ} {c : Context δ}
      (hj : (s.setCall i call).calls j = some cj) (hc : cj.entered = some c) :
      ∃ before, s.calls j = some before ∧ before.entered = some c := by
    rw [setCall_calls] at hj
    split_ifs at hj with heq
    · obtain rfl := Option.some.inj hj
      exact ⟨.reading r, heq ▸ hr, hentered.symm.trans hc⟩
    · exact ⟨_, hj, hc⟩
  constructor
  · intro j cj c hj hc
    obtain ⟨before, hbefore, hc⟩ := hcall hj hc
    exact h.live j before c hbefore hc
  · intro j k cj ck c hj hk hcj hck
    obtain ⟨_, hj, hcj⟩ := hcall hj hcj
    obtain ⟨_, hk, hck⟩ := hcall hk hck
    exact h.once j k _ _ c hj hk hcj hck

/-- A call whose association is not in the table is the first one of its context. -/
theorem Valid.enter {now i : ℕ} (h : Valid now s) {c : Context δ} {call : Call δ ρ}
    (hentered : call.entered = some c) (hlive : now < c.expiresAtMs)
    (hnew : c.associationId ∉ s.associations.map Prod.fst) :
    Valid now (State.setCall { s with
      associations := s.associations ++ [(c.associationId, c.expiresAtMs)] } i call) := by
  have hfresh {j : ℕ} {cj : Call δ ρ} (hj : s.calls j = some cj) : cj.entered ≠ some c := by
    intro hc
    rcases h.live j cj c hj hc with hexpired | hmem
    · omega
    · exact hnew (List.mem_map_of_mem hmem)
  constructor
  · intro j cj d hj hd
    rw [setCall_calls] at hj
    split_ifs at hj with heq
    · obtain rfl := Option.some.inj hj
      obtain rfl := Option.some.inj (hentered.symm.trans hd)
      exact .inr (List.mem_append_right _ List.mem_cons_self)
    · exact (h.live j cj d hj hd).imp_right (List.mem_append_left _)
  · intro j k cj ck d hj hk hcj hck
    rw [setCall_calls] at hj hk
    split_ifs at hj hk with hji hki hki
    · rw [hji, hki]
    · obtain rfl := Option.some.inj hj
      obtain rfl := Option.some.inj (hentered.symm.trans hcj)
      exact absurd hck (hfresh hk)
    · obtain rfl := Option.some.inj hk
      obtain rfl := Option.some.inj (hentered.symm.trans hck)
      exact absurd hcj (hfresh hj)
    · exact h.once j k cj ck d hj hk hcj hck

/-- The last reading of the clock behind an event. -/
def Event.after (t : ℕ) (e : Event δ ρ) : ℕ := e.readings.getLast?.getD t

/-- A step at the clock's readings keeps the state valid. -/
theorem Valid.step {t : ℕ} (h : Valid t s) (hforward : ∀ r ∈ e.readings, t ≤ r)
    (hsorted : e.readings.Pairwise (· ≤ ·)) : Valid (e.after t) (s.step checks e) := by
  have hle : t ≤ e.after t := by
    cases e with
    | start i context response now => exact hforward now List.mem_cons_self
    | done i now last => exact hforward last (.tail _ List.mem_cons_self)
    | chunk i bytes => exact le_refl t
    | failure i code => exact le_refl t
  rcases step_cases checks s e with hsame | ⟨i, r, call, hr, hentered, hstep⟩ |
    ⟨i, context, response, now, code, rfl, -, associations, htable, hstep⟩ |
    ⟨i, c, response, now, call, rfl, -, hentered, hlive, hnew, -, hstep⟩
  · rw [hsame]
    exact h.later hle
  · rw [hstep]
    exact (h.later hle).advance hr hentered
  · rw [hstep]
    refine Valid.refuse ?_ i code
    rcases htable with rfl | rfl
    · exact h.later hle
    · exact h.purge hle
  · rw [hstep]
    exact (h.purge hle).enter hentered hlive hnew

/-- Behind a run whose clock never goes back the state is valid. -/
theorem Valid.run {t : ℕ} (h : Valid t s) {events : List (Event δ ρ)}
    (hforward : ∀ r ∈ events.flatMap Event.readings, t ≤ r)
    (hsorted : (events.flatMap Event.readings).Pairwise (· ≤ ·)) :
    ∃ t', Valid t' (events.foldl (State.step checks) s) := by
  induction events generalizing t s with
  | nil => exact ⟨t, h⟩
  | cons e es ih =>
    rw [List.flatMap_cons] at hforward hsorted
    obtain ⟨hhead, htail, hcross⟩ := List.pairwise_append.mp hsorted
    have hstep : Valid (e.after t) (s.step checks e) := h.step
      (fun r hr => hforward r (List.mem_append_left _ hr)) hhead
    refine ih hstep (fun r hr => ?_) htail
    unfold Event.after
    cases hlast : e.readings.getLast? with
    | none => exact hforward r (List.mem_append_right _ hr)
    | some last => exact hcross last (List.mem_of_getLast? hlast) r hr

end Once

/-- The table never grows over its capacity. -/
theorem length_step (h : s.associations.length ≤ associationCapacity) :
    (s.step checks e).associations.length ≤ associationCapacity := by
  have hpurge (now : ℕ) : (purge now s.associations).length ≤ s.associations.length :=
    List.length_filter_le _ _
  rcases step_cases checks s e with hsame | ⟨i, r, call, -, -, hstep⟩ |
    ⟨i, context, response, now, code, -, -, associations, htable, hstep⟩ |
    ⟨i, c, response, now, call, -, -, -, -, -, hroom, hstep⟩
  · rwa [hsame]
  · rwa [hstep]
  · rw [hstep]
    rcases htable with rfl | rfl
    · exact h
    · exact (hpurge now).trans h
  · rw [hstep]
    change (purge now s.associations ++ [_]).length ≤ _
    rw [List.length_append]
    exact hroom

/-- Whether a call has returned. -/
def Call.settled : Call δ ρ → Bool
  | .reading _ => false
  | _ => true

/-- A call that has returned stays as it is. -/
theorem calls_step {i : ℕ} {call : Call δ ρ} (hcall : s.calls i = some call)
    (hsettled : call.settled = true) : (s.step checks e).calls i = some call := by
  have hother {j : ℕ} (hj : ∀ c, s.calls j = some c → c.settled = false) : i ≠ j := by
    rintro rfl
    rw [hj call hcall] at hsettled
    cases hsettled
  rcases step_cases checks s e with hsame | ⟨j, r, call', hr, -, hstep⟩ |
    ⟨j, context, response, now, code, -, hnone, associations, -, hstep⟩ |
    ⟨j, c, response, now, call', -, hnone, -, -, -, -, hstep⟩
  · rwa [hsame]
  · have hne : i ≠ j := hother fun c hc => by
      obtain rfl := Option.some.inj (hr.symm.trans hc)
      rfl
    rwa [hstep, setCall_calls, if_neg hne]
  · rw [hstep, setCall_calls, if_neg (hother fun c hc => by rw [hnone] at hc; cases hc)]
    exact hcall
  · rw [hstep, setCall_calls, if_neg (hother fun c hc => by rw [hnone] at hc; cases hc)]
    exact hcall

/-- While the clock does not go back, at most one response is accepted for a context, and none
once a call that had its association is rejected. A call that is rejected stays so, and the
table keeps to its capacity, whatever the clock does. -/
theorem accepted_once (checks : Checks δ ρ) (events : List (Event δ ρ)) :
    let s := events.foldl (State.step checks) State.initial
    s.associations.length ≤ associationCapacity ∧
    (∀ i code association, ∀ later : List (Event δ ρ),
      s.calls i = some (.rejected code association) →
      (later.foldl (State.step checks) s).calls i = some (.rejected code association)) ∧
    ((events.flatMap Event.readings).Pairwise (· ≤ ·) →
      (∀ i j c, s.calls i = some (.accepted c) → s.calls j = some (.accepted c) → i = j) ∧
      ∀ i j code c, s.calls i = some (.rejected code (some c)) →
        s.calls j ≠ some (.accepted c)) := by
  have hrun := Run.of_foldl (State.step checks) State.initial events
  refine ⟨?_, fun i code association later hcall => ?_, fun hclock => ?_⟩
  · refine hrun.preserves (p := fun s => s.associations.length ≤ associationCapacity)
      (fun s e t hs hstep => ?_) (Nat.zero_le _)
    exact hstep ▸ length_step hs
  · refine (Run.of_foldl (State.step checks) _ later).preserves
      (p := fun s => s.calls i = some (.rejected code association)) (fun s e t hs hstep => ?_) hcall
    exact hstep ▸ calls_step hs rfl
  · obtain ⟨t, hvalid⟩ := (valid_initial 0).run (fun r _ => Nat.zero_le r) hclock
    refine ⟨fun i j c hi hj => hvalid.once i j _ _ c hi hj rfl rfl, fun i j code c hi hj => ?_⟩
    obtain rfl := hvalid.once i j _ _ c hi hj rfl rfl
    cases hi.symm.trans hj

section Sample

/-- Checks that pass everything. -/
def sampleChecks : Checks Unit Unit where
  context _ := true
  head _ _ := .ok ⟨.noBodyControl, none, false⟩
  body _ _ _ := .ok ()

/-- A context that is current for some time. -/
def sampleContext (associationId : String) (expiresAtMs : ℕ) : Context Unit where
  associationId := associationId
  endpointId := "e"
  sessionId := "s"
  outboundRequestJson := "{}"
  issuedAtMs := 0
  expiresAtMs := expiresAtMs
  maxResponseBytes := 0
  admissionResponseLimitBytes := 0
  detail := ()

/-- A response is accepted; another call finds the association expired; the clock goes back
and a second response for the context is accepted. -/
def sampleEvents : List (Event Unit Unit) :=
  [.start 0 (some (sampleContext "a" 10)) () 1, .done 0 2 2,
    .start 1 (some (sampleContext "b" 100)) () 20,
    .start 2 (some (sampleContext "a" 10)) () 3, .done 2 4 4]

/-- Two responses are accepted for one context. -/
theorem accepted_twice :
    let s := sampleEvents.foldl (State.step sampleChecks) State.initial
    s.calls 0 = some (.accepted (sampleContext "a" 10)) ∧
      s.calls 2 = some (.accepted (sampleContext "a" 10)) :=
  ⟨rfl, rfl⟩

theorem accepted_once_sample :
    let s := (sampleEvents.take 2).foldl (State.step sampleChecks) State.initial
    s.calls 0 = some (.accepted (sampleContext "a" 10)) ∧
      ∀ j, s.calls j = some (.accepted (sampleContext "a" 10)) → 0 = j :=
  ⟨rfl, fun j hj => ((accepted_once sampleChecks (sampleEvents.take 2)).2.2 (by decide)).1 0 j
    (sampleContext "a" 10) rfl hj⟩

end Sample

end Kdna.Read.Transport

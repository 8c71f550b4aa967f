import Kdna.Read.Disclosure
import Mathlib.Logic.Function.Basic

/-!
# Handles on one Host

Reads on one Host interleave: a read starts, the Host answers its first observation and
its second, and the envelope is delivered or not; `runRead` registers the handles of an
envelope behind a confirmed delivery. Over every order of these steps an expansion
discloses only what a delivered handle stands for.
-/

namespace Kdna.Read

open Value Ir

/-- How far a read is. -/
inductive Phase
  | observing
  | projected (first : Context) (body : Body)
  | delivering (first second : Context) (envelope : Envelope)

/-- A read in flight, with the envelopes that were delivered when it started. -/
structure InFlight where
  request : Request
  view : View
  earlier : List Envelope
  phase : Phase

/-- A Host: its registered handles, its denials, its reads in flight and the envelopes
whose delivery was confirmed. -/
structure HostState where
  handles : List Handle
  revocations : List Denial
  reads : ℕ → Option InFlight
  delivered : List Envelope

/-- `createTrustedHostReadProvider(callbacks)` -/
def HostState.initial : HostState := ⟨[], [], fun _ => none, []⟩

/-- What happens on a Host. A reply carries the process's count of receipts; a read without
a `deliver` callback is confirmed at once; a step that throws ends its read. -/
inductive HostEvent
  | start (i : ℕ) (request : Request) (view : View)
  | firstReply (i : ℕ) (raw : Option Json)
  | secondReply (i : ℕ) (raw : Option Json) (sequence : ℕ)
  | delivery (i : ℕ) (confirmed : Bool)
  | failure (i : ℕ)

/-- The state of the read `i` afterwards. -/
def HostState.setRead (s : HostState) (i : ℕ) (read : Option InFlight) : HostState :=
  { s with reads := Function.update s.reads i read }

/-- `hostState.handles.set(handle.handle_id, handle)` -/
def setHandle (handles : List Handle) (h : Handle) : List Handle :=
  handles.filter (fun r => r.handleId ≠ h.handleId) ++ [h]

/-- `registerPreparedHandles(prepared)`: expired handles leave, the new ones enter. -/
def registerPreparedHandles (handles : List Handle) (envelope : Envelope) : List Handle :=
  envelope.content.expansionHandles.foldl setHandle
    (handles.filter fun r => envelope.disclosedAt < r.expiresAt)

/-- The first reply: `observe`, then the projection of the body. -/
def HostState.firstReply (s : HostState) (i : ℕ) (read : InFlight) (raw : Option Json) : HostState :=
  let standing := { s with
    revocations := (observe s.revocations (.whole read.request read.view raw)).2 }
  match observed s.revocations read.request read.view raw with
  | .error _ => standing.setRead i none
  | .ok first =>
    match projectBody read.request read.view first with
    | .error _ => standing.setRead i none
    | .ok body => standing.setRead i (some { read with phase := .projected first body })

/-- The second reply: `observe`, then the envelope. -/
def HostState.secondReply (settings : Settings) (s : HostState) (i : ℕ) (read : InFlight)
    (first : Context) (body : Body) (raw : Option Json) (sequence : ℕ) : HostState :=
  let standing := { s with
    revocations := (observe s.revocations (.whole read.request read.view raw)).2 }
  match observed s.revocations read.request read.view raw with
  | .error _ => standing.setRead i none
  | .ok second =>
    match discloseBody settings sequence read.request read.view second body with
    | .error _ => standing.setRead i none
    | .ok envelope =>
      standing.setRead i (some { read with phase := .delivering first second envelope })

/-- `runRead` behind the delivery. -/
def HostState.deliver (s : HostState) (i : ℕ) (envelope : Envelope) (confirmed : Bool) : HostState :=
  if confirmed then
    { s with handles := registerPreparedHandles s.handles envelope
             delivered := envelope :: s.delivered }.setRead i none
  else s.setRead i none

/-- One step of a Host. -/
def HostState.step (settings : Settings) (s : HostState) : HostEvent → HostState
  | .start i request view =>
    match s.reads i, start s.handles request view with
    | none, .ok () => s.setRead i (some ⟨request, view, s.delivered, .observing⟩)
    | _, _ => s
  | .firstReply i raw =>
    match s.reads i with
    | some ⟨request, view, earlier, .observing⟩ =>
      s.firstReply i ⟨request, view, earlier, .observing⟩ raw
    | _ => s
  | .secondReply i raw sequence =>
    match s.reads i with
    | some ⟨request, view, earlier, .projected first body⟩ =>
      s.secondReply settings i ⟨request, view, earlier, .projected first body⟩ first body raw sequence
    | _ => s
  | .delivery i confirmed =>
    match s.reads i with
    | some ⟨_, _, _, .delivering _ _ envelope⟩ => s.deliver i envelope confirmed
    | _ => s
  | .failure i => s.setRead i none

/-- The steps of a Host. -/
def HostSteps (settings : Settings) (s : HostState) (e : HostEvent) (t : HostState) : Prop :=
  s.step settings e = t

/-- The handle was issued, as it is, in one of the envelopes. -/
def IssuedIn (envelopes : List Envelope) (h : Handle) : Prop :=
  ∃ envelope ∈ envelopes, ∃ issued ∈ envelope.content.expansionHandles, issued.same h = true

/-- The handle is good in a context: it has begun, it has not expired, and it belongs to the
Host and its epoch. -/
structure GoodIn (context : Context) (h : Handle) : Prop where
  begun : h.issuedAt ≤ context.currentMs
  unexpired : context.currentMs < h.expiresAt
  hostId : h.hostId = context.hostId
  hostEpoch : h.hostEpoch = context.hostEpoch

/-- The handle belongs to the snapshot of a read. -/
structure BelongsTo (request : Request) (view : View) (h : Handle) : Prop where
  versions : h.coreVersion = coreVersion ∧ h.irVersion = irVersion ∧ h.readVersion = readVersion
  snapshot : h.snapshotId = view.snapshotId ∧ h.a = view.a ∧ h.c = view.c
  asset : h.assetId = view.assetId ∧ h.assetVersion = view.assetVersion
  anchor : same h.anchor (anchorFor request) = true
  scope : ∃ target scope, expansionFor request view h.target = some target ∧
    scopeOf target = some scope ∧ scope.Perm h.scope

/-- The content shows the nodes of the expansion scope that the IR records for the handle. -/
def ShowsScope (request : Request) (view : View) (h : Handle) (content : Content) : Prop :=
  ∃ target scope, expansionFor request view h.target = some target ∧
    scopeOf target = some scope ∧ content.closure.map idOf = scope.map some

variable {request : Request} {view : View} {h : Handle}

/-- A checked observation is good for the handle of its request. -/
theorem goodIn_of_check {raw : Option Json} {context : Context}
    (hcheck : HostGate.check request view raw = .ok context) (hhandle : request.handle = some h) :
    GoodIn context h := by
  simp only [HostGate.check, bind_eq_ok_iff, require_eq_ok_iff, pure_eq_ok, Except.ok.injEq,
    hhandle, Option.mem_def, Option.some.injEq, forall_eq'] at hcheck
  obtain ⟨value, -, -, -, hostId, -, hostEpoch, -, decisionId, -, requestId, -, snapshotId, -, -, -, -, -,
    scope, -, issued, -, expires, -, -, -, -, hhost, current, -, -, hbegun, -, hexpiry, -, -, rfl⟩ :=
    hcheck
  exact ⟨hbegun.2, hexpiry, hhost.1, hhost.2⟩

/-- A context that is observed is good for the handle. -/
theorem goodIn_of_observed {revocations : List Denial} {raw : Option Json} {context : Context}
    (hobserved : observed revocations request view raw = .ok context)
    (hhandle : request.handle = some h) : GoodIn context h := by
  rw [observed_eq_ok_iff, observe] at hobserved
  cases hcheck : HostGate.check request view raw with
  | error e =>
    rw [Observation.check, hcheck] at hobserved
    simp at hobserved
  | ok checked =>
    rw [Observation.check, hcheck] at hobserved
    have hsame : checked = context := by
      by_cases hdenied : checked.denial (Observation.whole request view raw).assetId ∈
          settle revocations checked (Observation.whole request view raw).assetId
      · simp [hdenied] at hobserved
      · simpa [hdenied] using hobserved
    exact goodIn_of_check (hsame ▸ hcheck) hhandle

/-- A handle that passes its checks belongs to the snapshot. -/
theorem belongsTo_of_handleFields (hfields : handleFields request view h = .ok ()) :
    BelongsTo request view h := by
  simp only [handleFields, bind_eq_ok_iff, require_eq_ok_iff, orFail_eq_ok_iff,
    Option.bind_eq_some_iff, sameScope, decide_eq_true_eq] at hfields
  obtain ⟨-, hversions, -, hsnapshot, -, ⟨hasset, hversion, hanchor⟩, scope, ⟨target, htarget, hscope⟩,
    hperm⟩ := hfields
  exact ⟨hversions, hsnapshot, ⟨hasset, hversion⟩, hanchor, target, scope, htarget, hscope, hperm⟩

/-- A read starts only with a registered handle of its snapshot. -/
theorem start_spec {handles : List Handle} (hstart : start handles request view = .ok ())
    (hhandle : request.handle = some h) :
    (∃ registered ∈ handles, registered.same h = true) ∧ BelongsTo request view h := by
  simp only [start, bind_eq_ok_iff, handleChecked, hhandle, require_eq_ok_iff] at hstart
  obtain ⟨-, -, -, hregistered, hfields⟩ := hstart
  obtain ⟨registered, hfound, hsame⟩ := (Option.any_eq_true _ _).mp hregistered
  exact ⟨⟨registered, List.mem_of_find?_eq_some hfound, hsame⟩, belongsTo_of_handleFields hfields⟩

/-- A projected node keeps its id. -/
theorem idOf_projected {ir : CanonicalIr} {targets : List Identity} {n : Json}
    {p : Json × List Omission} (hp : projected ir targets n = some p) : idOf p.1 = idOf n := by
  rw [projected] at hp
  split at hp
  · simp only [Option.bind_eq_bind, Option.bind_eq_some_iff, Option.pure_def,
      Option.some.injEq] at hp
    obtain ⟨id, -, value, -, kernel, -, refs, -, rfl⟩ := hp
    cases n with
    | obj props =>
      rw [idOf, textOf, Value.prop_setProp]
      rfl
    | _ => rfl
  · rw [← Option.some.inj hp]

/-- The context of a selection shows the nodes of its closure, in order. -/
theorem map_idOf_selectedContext {ir : CanonicalIr} {ids : List String} {context : SelectedContext}
    (hcontext : selectedContext ir ids = some context) :
    context.closure.map idOf = ids.map some := by
  simp only [selectedContext, Option.bind_eq_bind, Option.bind_eq_some_iff, Option.guard_eq_some',
    Option.pure_def, Option.some.injEq] at hcontext
  obtain ⟨original, horiginal, -, -, closure, hclosure, -, -, -, -, rfl⟩ := hcontext
  have hids : original.map idOf = ids.map some := by
    have hrows : List.Forall₂ Eq (ids.map some) (original.map idOf) := by
      rw [List.forall₂_map_left_iff, List.forall₂_map_right_iff]
      exact (mapM_eq_some_iff.mp horiginal).imp fun _ _ hrow => (mem_of_rowOf hrow).2.symm
    exact (List.forall₂_eq_eq_eq ▸ hrows).symm
  have hkept : List.Forall₂ Eq (original.map idOf) ((closure.map Prod.fst).map idOf) := by
    rw [List.map_map, List.forall₂_map_left_iff, List.forall₂_map_right_iff]
    exact (mapM_eq_some_iff.mp hclosure).imp fun _ _ hp => (idOf_projected hp).symm
  rw [← hids]
  exact (List.forall₂_eq_eq_eq ▸ hkept).symm

/-- The body of an expansion shows the scope of its handle. -/
theorem showsScope_of_projectBody {first : Context} {body : Body}
    (hbody : projectBody request view first = .ok body) (hmode : request.mode = .expand) :
    ∃ h, request.handle = some h ∧ ShowsScope request view h body.content := by
  simp only [projectBody, bind_eq_ok_iff, orFail_eq_ok_iff] at hbody
  obtain ⟨-, -, whole, hwhole, hscoped⟩ := hbody
  obtain ⟨-, hcontent, -⟩ := scopeBody_spec hscoped
  simp only [bodyFor, Option.bind_eq_bind, Option.bind_eq_some_iff, Option.guard_eq_some',
    Option.pure_def, Option.some.injEq] at hwhole
  obtain ⟨capability, -, ids, hids, -, -, context, hcontext, index, -, hwhole⟩ := hwhole
  simp only [closureFor, hmode, Option.bind_eq_bind, Option.bind_eq_some_iff] at hids
  obtain ⟨h, hhandle, target, htarget, hscope⟩ := hids
  rw [contextFor, hmode, if_pos (by decide)] at hcontext
  refine ⟨h, hhandle, target, ids, htarget, hscope, ?_⟩
  rw [hcontent, ← hwhole]
  exact map_idOf_selectedContext hcontext

/-- The envelope shows the closure of its body. -/
theorem closure_discloseBody {settings : Settings} {sequence : ℕ} {second : Context} {body : Body}
    {envelope : Envelope}
    (hdisclose : discloseBody settings sequence request view second body = .ok envelope) :
    envelope.content.closure = body.content.closure := by
  simp only [discloseBody, bind_eq_ok_iff, orFail_eq_ok_iff, pure_eq_ok, Except.ok.injEq] at hdisclose
  obtain ⟨kept, hkept, minted, -, -, -, rfl⟩ := hdisclose
  have hcontent := (scopeBody_spec hkept).2.1
  rw [hcontent]

theorem mem_setHandle {handles : List Handle} {g : Handle} (hmem : g ∈ setHandle handles h) :
    g ∈ handles ∨ g = h := by
  rcases List.mem_append.mp hmem with hold | hnew
  · exact .inl (List.mem_of_mem_filter hold)
  · exact .inr (List.mem_singleton.mp hnew)

/-- A handle that is registered afterwards was registered before or is one of the
envelope's. -/
theorem mem_registerPreparedHandles {handles : List Handle} {envelope : Envelope}
    (hmem : h ∈ registerPreparedHandles handles envelope) :
    h ∈ handles ∨ h ∈ envelope.content.expansionHandles := by
  have hfold : ∀ (issued old : List Handle), h ∈ issued.foldl setHandle old → h ∈ old ∨ h ∈ issued := by
    intro issued
    induction issued with
    | nil => exact fun old hold => .inl hold
    | cons g issued ih =>
      intro old hold
      rcases ih _ hold with hset | hrest
      · rcases mem_setHandle hset with hold | rfl
        · exact .inl hold
        · exact .inr List.mem_cons_self
      · exact .inr (.tail _ hrest)
  rcases hfold _ _ hmem with hold | hissued
  · exact .inl (List.mem_of_mem_filter hold)
  · exact .inr hissued

/-- What holds of a read in flight. -/
structure InFlight.Valid (read : InFlight) : Prop where
  presented : ∀ h, read.request.handle = some h →
    IssuedIn read.earlier h ∧ BelongsTo read.request read.view h
  projected : ∀ first body, read.phase = .projected first body →
    (∀ h, read.request.handle = some h → GoodIn first h) ∧
      (read.request.mode = .expand → ∃ h, read.request.handle = some h ∧
        ShowsScope read.request read.view h body.content)
  delivering : ∀ first second envelope, read.phase = .delivering first second envelope →
    (∀ h, read.request.handle = some h → GoodIn first h ∧ GoodIn second h) ∧
      (read.request.mode = .expand → ∃ h, read.request.handle = some h ∧
        ShowsScope read.request read.view h envelope.content)

/-- What holds of a Host: registered handles were delivered. -/
structure HostState.Valid (s : HostState) : Prop where
  registered : ∀ h ∈ s.handles, ∃ envelope ∈ s.delivered, h ∈ envelope.content.expansionHandles
  reads : ∀ i read, s.reads i = some read → read.Valid ∧ ∀ envelope ∈ read.earlier,
    envelope ∈ s.delivered

theorem valid_initial : HostState.initial.Valid :=
  ⟨List.forall_mem_nil _, fun _ _ hread => nomatch hread⟩

/-- A registered handle was issued in a delivered envelope. -/
theorem HostState.Valid.issuedIn {s : HostState} (hvalid : s.Valid)
    (hstart : start s.handles request view = .ok ()) (hhandle : request.handle = some h) :
    IssuedIn s.delivered h := by
  obtain ⟨⟨registered, hmem, hsame⟩, -⟩ := start_spec hstart hhandle
  obtain ⟨envelope, hdelivered, hissued⟩ := hvalid.registered registered hmem
  exact ⟨envelope, hdelivered, registered, hissued, hsame⟩

/-- Ending a read, or going on with it, keeps the rest of the Host. -/
theorem HostState.Valid.setRead {s : HostState} (hvalid : s.Valid) {i : ℕ} {read : Option InFlight}
    (hread : ∀ r, read = some r → r.Valid ∧ ∀ envelope ∈ r.earlier, envelope ∈ s.delivered) :
    (s.setRead i read).Valid := by
  refine ⟨hvalid.registered, fun j r hr => ?_⟩
  change Function.update s.reads i read j = some r at hr
  rw [Function.update_apply] at hr
  by_cases hj : j = i
  · rw [if_pos hj] at hr
    exact hread r hr
  · rw [if_neg hj] at hr
    exact hvalid.reads j r hr

/-- New denials change nothing else. -/
theorem HostState.Valid.revoke {s : HostState} (hvalid : s.Valid) (revocations : List Denial) :
    { s with revocations := revocations }.Valid :=
  ⟨hvalid.registered, hvalid.reads⟩

theorem valid_firstReply {s : HostState} (hvalid : s.Valid) {i : ℕ} {read : InFlight}
    (hread : s.reads i = some read) (raw : Option Json) : (s.firstReply i read raw).Valid := by
  have hstanding := hvalid.revoke
    (observe s.revocations (.whole read.request read.view raw)).2
  rw [HostState.firstReply]
  cases hfirst : observed s.revocations read.request read.view raw with
  | error e => exact hstanding.setRead fun _ hnone => nomatch hnone
  | ok first =>
    dsimp only
    cases hbody : projectBody read.request read.view first with
    | error e => exact hstanding.setRead fun _ hnone => nomatch hnone
    | ok body =>
      refine hstanding.setRead fun r hr => ?_
      obtain ⟨hold, hearlier⟩ := hvalid.reads i read hread
      rw [← Option.some.inj hr]
      refine ⟨⟨hold.presented, ?_, fun _ _ _ hphase => nomatch hphase⟩, hearlier⟩
      intro first' body' hphase
      obtain ⟨rfl, rfl⟩ := Phase.projected.inj hphase
      exact ⟨fun h hh => goodIn_of_observed hfirst hh, showsScope_of_projectBody hbody⟩

theorem valid_secondReply {settings : Settings} {s : HostState} (hvalid : s.Valid) {i : ℕ}
    {read : InFlight} {first : Context} {body : Body} (hread : s.reads i = some read)
    (hphase : read.phase = .projected first body) (raw : Option Json) (sequence : ℕ) :
    (s.secondReply settings i read first body raw sequence).Valid := by
  have hstanding := hvalid.revoke
    (observe s.revocations (.whole read.request read.view raw)).2
  rw [HostState.secondReply]
  cases hsecond : observed s.revocations read.request read.view raw with
  | error e => exact hstanding.setRead fun _ hnone => nomatch hnone
  | ok second =>
    dsimp only
    cases henvelope : discloseBody settings sequence read.request read.view second body with
    | error e => exact hstanding.setRead fun _ hnone => nomatch hnone
    | ok envelope =>
      refine hstanding.setRead fun r hr => ?_
      obtain ⟨hold, hearlier⟩ := hvalid.reads i read hread
      obtain ⟨hgood, hshows⟩ := hold.projected first body hphase
      rw [← Option.some.inj hr]
      refine ⟨⟨hold.presented, (fun _ _ hphase => nomatch hphase), ?_⟩, hearlier⟩
      intro first' second' envelope' hphase'
      obtain ⟨rfl, rfl, rfl⟩ := Phase.delivering.inj hphase'
      refine ⟨fun h hh => ⟨hgood h hh, goodIn_of_observed hsecond hh⟩, fun hmode => ?_⟩
      obtain ⟨h, hh, target, scope, htarget, hscope, hids⟩ := hshows hmode
      refine ⟨h, hh, target, scope, htarget, hscope, ?_⟩
      rw [closure_discloseBody henvelope]
      exact hids

theorem valid_deliver {s : HostState} (hvalid : s.Valid) (i : ℕ) (envelope : Envelope)
    (confirmed : Bool) : (s.deliver i envelope confirmed).Valid := by
  rw [HostState.deliver]
  by_cases hconfirmed : confirmed = true
  · rw [if_pos hconfirmed]
    refine HostState.Valid.setRead ⟨?_, ?_⟩ fun _ hnone => nomatch hnone
    · intro h hmem
      rcases mem_registerPreparedHandles hmem with hold | hissued
      · obtain ⟨earlier, hdelivered, hissued⟩ := hvalid.registered h hold
        exact ⟨earlier, .tail _ hdelivered, hissued⟩
      · exact ⟨envelope, List.mem_cons_self, hissued⟩
    · intro j read hread
      obtain ⟨hold, hearlier⟩ := hvalid.reads j read hread
      exact ⟨hold, fun earlier hmem => .tail _ (hearlier earlier hmem)⟩
  · rw [if_neg hconfirmed]
    exact hvalid.setRead fun _ hnone => nomatch hnone

/-- Every step keeps what holds of a Host. -/
theorem valid_step {settings : Settings} {s t : HostState} {e : HostEvent} (hvalid : s.Valid)
    (hstep : HostSteps settings s e t) : t.Valid := by
  rw [← hstep]
  cases e with
  | start i request view =>
    simp only [HostState.step]
    split
    · rename_i hstart
      refine hvalid.setRead fun r hr => ?_
      rw [← Option.some.inj hr]
      refine ⟨⟨fun h hh => ?_, (fun _ _ hphase => nomatch hphase), fun _ _ _ hphase => nomatch hphase⟩,
        fun _ hmem => hmem⟩
      exact ⟨hvalid.issuedIn hstart hh, (start_spec hstart hh).2⟩
    · exact hvalid
  | firstReply i raw =>
    simp only [HostState.step]
    split
    · rename_i hread
      exact valid_firstReply hvalid hread raw
    · exact hvalid
  | secondReply i raw sequence =>
    simp only [HostState.step]
    split
    · rename_i hread
      exact valid_secondReply hvalid hread rfl raw sequence
    · exact hvalid
  | delivery i confirmed =>
    simp only [HostState.step]
    split
    · exact valid_deliver hvalid i _ confirmed
    · exact hvalid
  | failure i => exact hvalid.setRead fun _ hnone => nomatch hnone

/-- Over every order of steps on a Host: a read starts with a handle only when an envelope
that was delivered before issued this handle; and an expansion that comes to a content
presents such a handle, of its snapshot, good at both observations, and the content shows
the expansion scope that the IR records for it. -/
theorem expansion_of_delivered (settings : Settings) (events : List HostEvent) (s : HostState)
    (hrun : Run (HostSteps settings) .initial events s) :
    (∀ request view h, request.handle = some h → start s.handles request view = .ok () →
      IssuedIn s.delivered h) ∧
    ∀ i read first second envelope, s.reads i = some read →
      read.phase = .delivering first second envelope → read.request.mode = .expand →
      ∃ h, read.request.handle = some h ∧ IssuedIn read.earlier h ∧
        BelongsTo read.request read.view h ∧ GoodIn first h ∧ GoodIn second h ∧
        ShowsScope read.request read.view h envelope.content := by
  have hvalid : s.Valid := hrun.preserves (fun _ _ _ hs hstep => valid_step hs hstep) valid_initial
  refine ⟨fun request view h hhandle hstart => hvalid.issuedIn hstart hhandle, ?_⟩
  intro i read first second envelope hread hphase hmode
  obtain ⟨hold, -⟩ := hvalid.reads i read hread
  obtain ⟨hgood, hshows⟩ := hold.delivering first second envelope hphase
  obtain ⟨h, hhandle, hscope⟩ := hshows hmode
  obtain ⟨hissued, hbelongs⟩ := hold.presented h hhandle
  exact ⟨h, hhandle, hissued, hbelongs, (hgood h hhandle).1, (hgood h hhandle).2, hscope⟩

section Sample

/-- A snapshot with one question and a material that the question may need. -/
def sampleView : View where
  snapshotId := "s"
  assetId := "a"
  assetVersion := "1"
  a := "A"
  c := "C"
  ir :=
    { contract := .null, tuple := .null, asset := .null, references := [], relationships := []
      assetClosure := [], unresolvedExternal := []
      nodes :=
        [.obj [("id", .str "a"), ("role", .str "asset_declaration"),
            ("target", textRecord [("kind", "asset"), ("id", "u")]),
            ("value", .obj [("kernel", .obj [("foundation_refs", .arr [])])])],
          .obj [("id", .str "j"), ("role", .str "judgment"),
            ("target", textRecord [("kind", "judgment"), ("id", "q")]),
            ("value", textRecord [("id", "q"), ("form", "rule")])],
          .obj [("id", .str "m"), ("role", .str "material"),
            ("target", textRecord [("kind", "material"), ("id", "x")]), ("value", .obj [])]]
      catalog := [textRecord [("judgment_id", "q"), ("node_ref", "j")]]
      mandatoryClosures :=
        [.obj [("selection", (Selection.mk "a" "1" "q").json),
          ("node_ids", .arr [.str "a", .str "j"])]]
      expansionTargets :=
        [.obj [("anchor", judgmentAnchor (Selection.mk "a" "1" "q").json),
          ("target", textRecord [("kind", "material"), ("id", "x")]),
          ("scope", .arr [.str "a", .str "j", .str "m"])]]
      assetIndex :=
        [.obj [("target", textRecord [("kind", "material"), ("id", "x")]), ("node_ref", .str "m")]] }

/-- The request for the question. -/
def sampleRequest : Request := ⟨"r", 0, .exactSelection, some ⟨"a", "1", "q"⟩, none⟩

/-- The handle that the question's envelope issues for the material. -/
def sampleHandle : Handle :=
  { handleId := "handle:s:1", assetId := "a", assetVersion := "1", a := "A", c := "C"
    snapshotId := "s", coreVersion := coreVersion, irVersion := irVersion
    readVersion := readVersion, anchor := judgmentAnchor (Selection.mk "a" "1" "q").json
    target := textRecord [("kind", "material"), ("id", "x")], scope := ["a", "j", "m"]
    issuedAt := 0, expiresAt := 1, hostId := "h", hostEpoch := "e" }

/-- A Host that allows the three nodes. -/
def sampleReply : Json :=
  .obj [("host_id", .str "h"), ("host_epoch", .str "e"), ("decision_id", .str "d"),
    ("request_id", .str "r"), ("snapshot_id", .str "s"), ("A", .str "A"), ("C", .str "C"),
    ("scope", .arr [.str "a", .str "j", .str "m"]), ("issued_at", msZero),
    ("expires_at", msOne), ("decision", .str "allow"),
    ("policy_id", .str "p"), ("current_ms", msZero)]

/-- The question is read and delivered, then its material is expanded. -/
def sampleEvents : List HostEvent :=
  [.start 0 sampleRequest sampleView, .firstReply 0 sampleReply, .secondReply 0 sampleReply 0,
    .delivery 0 true,
    .start 1 { sampleRequest with mode := .expand, handle := some sampleHandle } sampleView,
    .firstReply 1 sampleReply, .secondReply 1 sampleReply 2]

def sampleState : HostState :=
  sampleEvents.foldl (HostState.step ⟨true, fun _ => 0⟩) .initial

def InFlight.expands (read : InFlight) : Bool :=
  read.request.mode = .expand && match read.phase with
    | .delivering _ _ _ => true
    | _ => false

theorem expansion_of_delivered_sample :
    ∃ read first second envelope h, sampleState.reads 1 = some read ∧
      read.phase = .delivering first second envelope ∧ read.request.handle = some h ∧
      IssuedIn read.earlier h ∧ ShowsScope read.request read.view h envelope.content := by
  have hexpands : (sampleState.reads 1).any InFlight.expands = true := by decide +kernel
  obtain ⟨read, hread, hexpands⟩ := (Option.any_eq_true _ _).mp hexpands
  rw [InFlight.expands, Bool.and_eq_true, decide_eq_true_eq] at hexpands
  obtain ⟨hmode, hphase⟩ := hexpands
  split at hphase
  · rename_i first second envelope hdelivering
    obtain ⟨h, hhandle, hissued, -, -, -, hshows⟩ :=
      (expansion_of_delivered ⟨true, fun _ => 0⟩ sampleEvents sampleState (.of_foldl _ _ _)).2
        1 read first second envelope hread hdelivering hmode
    exact ⟨read, first, second, envelope, h, hread, hdelivering, hhandle, hissued, hshows⟩
  · exact nomatch hphase

end Sample

end Kdna.Read

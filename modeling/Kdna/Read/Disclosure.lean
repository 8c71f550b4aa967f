import Kdna.Ir.Identity
import Kdna.Read.Pipeline

/-!
# Disclosure

Every identifier in a ready envelope lies inside the scopes that the Host granted in both
of its observations.
-/

namespace Kdna.Read

open Value Ir

variable {request : Request} {view : View}

/-- What `scopeBody` checks of a content. -/
structure InScope (scope : List String) (view : View) (content : Content) : Prop where
  nodes : ∀ n ∈ content.closure ++ content.declarations, within scope n "id" = true
  catalog : ∀ row ∈ content.catalog, within scope row "node_ref" = true
  index : ∀ entry ∈ content.assetIndex,
    ((nodeOfTarget view.ir entry.target).any fun n => within scope n "id") = true
  claims : ∀ n ∈ content.claims, within scope n "id" = true
  references : ∀ r ∈ content.references,
    (within scope r "source_node" && within scope r "target_node") = true

/-- A scoped body keeps its content and filters what it omits. -/
theorem scopeBody_spec {scope : List String} {body kept : Body}
    (h : scopeBody scope view body = some kept) :
    InScope scope view body.content ∧ kept.content = body.content ∧
      kept.omissions = body.omissions.filter fun o => o.target ∈ scope := by
  simp only [scopeBody, Option.bind_eq_bind, Option.bind_eq_some_iff, Option.guard_eq_some',
    Option.pure_def, Option.some.injEq] at h
  obtain ⟨-, hnodes, -, hcatalog, -, hindex, -, hclaims, -, hreferences, -, -, rfl⟩ := h
  exact ⟨⟨hnodes, hcatalog, hindex, hclaims, hreferences⟩, rfl, rfl⟩

/-- Minting keeps the targets of entries and omissions, and its handles stay inside the
scope. -/
theorem mint_spec {context : Context} {sequence : ℕ} {omissions : List Omission}
    {entries : List IndexEntry} {minted : Minted}
    (h : mint request view context sequence omissions entries = .ok minted) :
    minted.entries.map IndexEntry.target = entries.map IndexEntry.target ∧
      minted.omissions.map Omission.target = omissions.map Omission.target ∧
      ∀ handle ∈ minted.handles, ∀ id ∈ handle.scope, id ∈ context.scope := by
  induction entries generalizing sequence omissions minted with
  | nil =>
    rw [mint, Except.ok.injEq] at h
    subst h
    exact ⟨rfl, rfl, List.forall_mem_nil _⟩
  | cons entry entries ih =>
    rw [mint] at h
    by_cases hdeferred : entry.deferred = true
    · simp only [if_pos hdeferred, bind_eq_ok_iff, require_eq_ok_iff, pure_eq_ok,
        Except.ok.injEq] at h
      obtain ⟨target, -, scope, -, -, hscope, rest, hrest, rfl⟩ := h
      obtain ⟨hentries, homissions, hhandles⟩ := ih hrest
      have hsame : ∀ (node : Option Json) (handleId : String) (os : List Omission),
          (expandOmissions node handleId os).map Omission.target = os.map Omission.target := by
        intro node handleId os
        rw [expandOmissions, List.map_map]
        refine List.map_congr_left fun o _ => ?_
        by_cases ho : node.bind idOf = some o.target
        · simp [ho]
        · simp [ho]
      refine ⟨?_, homissions.trans (hsame _ _ _), List.forall_mem_cons.mpr ⟨hscope, hhandles⟩⟩
      rw [List.map_cons, List.map_cons, hentries]
    · simp only [if_neg hdeferred, bind_eq_ok_iff, pure_eq_ok, Except.ok.injEq] at h
      obtain ⟨rest, hrest, rfl⟩ := h
      obtain ⟨hentries, homissions, hhandles⟩ := ih hrest
      refine ⟨?_, homissions, hhandles⟩
      rw [List.map_cons, List.map_cons, hentries]

theorem mem_of_single_mem_foldFrom {all before rest : List Omission} {o : Omission}
    (h : .single o ∈ foldFrom all before rest) : o ∈ rest := by
  induction rest generalizing before with
  | nil => exact absurd h List.not_mem_nil
  | cons p rest ih =>
    rw [foldFrom] at h
    by_cases hfew : all.countP (sameFold p) < 2
    · rw [if_pos hfew] at h
      rcases List.mem_cons.mp h with heq | htail
      · rw [OmissionRecord.single.inj heq]
        exact List.mem_cons_self
      · exact .tail _ (ih htail)
    · rw [if_neg hfew] at h
      by_cases hbefore : before.any (sameFold p) = true
      · rw [if_pos hbefore] at h
        exact .tail _ (ih h)
      · rw [if_neg hbefore] at h
        rcases List.mem_cons.mp h with heq | htail
        · exact nomatch heq
        · exact .tail _ (ih htail)

/-- A single record of a folded ledger is one of the ledger. -/
theorem mem_of_single_mem_foldOmissions {enabled : Bool} {omissions : List Omission} {o : Omission}
    (h : .single o ∈ foldOmissions enabled omissions) : o ∈ omissions := by
  rw [foldOmissions] at h
  split at h
  · obtain ⟨p, hp, heq⟩ := List.mem_map.mp h
    rwa [← OmissionRecord.single.inj heq]
  · exact mem_of_single_mem_foldFrom h

/-- The judgment `id` takes part in a relationship. -/
def TakesPart (relationship : Json) (id : String) : Prop :=
  ∃ rows, (relationship.prop "participants").bind items? = some rows ∧
    ∃ p ∈ rows, textOf p "judgment_ref" = some id

/-- A body has the catalog row of every judgment that takes part in one of its
relationships. -/
def CompleteCatalog (ir : CanonicalIr) (catalog relationships : List Json) : Prop :=
  ∀ r ∈ relationships, ∀ id, TakesPart r id →
    ∀ row ∈ ir.catalog, textOf row "judgment_id" = some id → row ∈ catalog

section Admitted

variable {core : Core} {manifest payload : Json} {entries : Entries} {ir : CanonicalIr}

theorem mem_of_rowOf {rows : List Json} {id : String} {row : Json} (h : rowOf rows id = some row) :
    row ∈ rows ∧ idOf row = some id := by
  rw [rowOf] at h
  exact ⟨List.mem_reverse.mp (List.mem_of_find?_eq_some h), by simpa using List.find?_some h⟩

/-- The context of a selection is complete. -/
theorem completeCatalog_selectedContext (b : Built core manifest payload entries ir)
    (hpayload : InMemory payload) {ids : List String} {context : SelectedContext}
    (h : selectedContext ir ids = some context) :
    CompleteCatalog ir context.catalog context.relationships := by
  simp only [selectedContext, Option.bind_eq_bind, Option.bind_eq_some_iff, Option.guard_eq_some',
    Option.pure_def, Option.some.injEq] at h
  obtain ⟨original, horiginal, -, -, closure, -, taking, htaking, outside, -, rfl⟩ := h
  intro r hr id htakes row hrow hid
  obtain ⟨hmem, hrelated⟩ := List.mem_filter.mp hr
  obtain ⟨n, hn, hnid⟩ := List.mem_map.mp (has_iff.mp hrelated)
  obtain ⟨hnode, hrole⟩ := List.mem_filter.mp hn
  obtain ⟨nid, -, hrowOf⟩ := exists_of_mem_mapM_some horiginal hnode
  obtain ⟨r', hr', hvalue⟩ := b.relationshipNode hpayload (mem_of_rowOf hrowOf).1 hrole
  have hsame : r' = r := by
    refine b.relationship_eq hr' hmem ?_
    rw [valueText, hvalue] at hnid
    exact hnid
  subst hsame
  obtain ⟨rows, hrows, p, hp, hpid⟩ := htakes
  obtain ⟨refs, hrefs, hparticipants⟩ := exists_mem_mapM_some htaking hn
  have hrefs' : refs = rows.map (textOf · "judgment_ref") := by
    simp only [participants, hvalue, Option.bind_eq_bind, Option.bind_some, hrows,
      Option.pure_def, Option.some.injEq] at hparticipants
    exact hparticipants.symm
  refine List.mem_filter.mpr ⟨hrow, has_iff.mpr (List.mem_append_right _ ?_)⟩
  refine List.mem_flatten.mpr ⟨refs, hrefs, ?_⟩
  rw [hid, hrefs']
  exact List.mem_map.mpr ⟨p, hp, hpid⟩

/-- The context of a whole asset or of the catalog has every row. -/
theorem catalog_plainContext {ids : List String} {context : SelectedContext}
    (h : plainContext request ir ids = some context) : context.catalog = ir.catalog := by
  unfold plainContext at h
  simp only [Option.bind_eq_bind, Option.bind_eq_some_iff, Option.pure_def,
    Option.some.injEq] at h
  obtain ⟨closure, -, overview, -, outside, -, rfl⟩ := h
  rfl

/-- A body is complete. -/
theorem completeCatalog_bodyFor (b : Built core manifest payload entries view.ir)
    (hpayload : InMemory payload) {minting : Bool} {body : Body}
    (h : bodyFor minting request view = some body) :
    CompleteCatalog view.ir body.content.catalog body.content.relationships := by
  simp only [bodyFor, Option.bind_eq_bind, Option.bind_eq_some_iff, Option.guard_eq_some',
    Option.pure_def, Option.some.injEq] at h
  obtain ⟨capability, -, ids, -, -, -, context, hcontext, index, -, rfl⟩ := h
  rw [contextFor] at hcontext
  split at hcontext
  · exact completeCatalog_selectedContext b hpayload hcontext
  · intro r _ id _ row hrow _
    rw [catalog_plainContext hcontext]
    exact hrow

theorem nodeOfTarget_spec {target n : Json} (h : nodeOfTarget ir target = some n) :
    n ∈ ir.nodes ∧ propSame n "target" target = true := by
  rw [nodeOfTarget] at h
  have hfound := List.find?_some h
  exact ⟨List.mem_reverse.mp (List.mem_of_find?_eq_some h), hfound⟩

/-- The node of an index entry is the only one with its target. -/
theorem within_of_nodeOfTarget (b : Built core manifest payload entries ir)
    (hstrict : assertStrictJson ir.json = .ok ()) {scope : List String} {target n : Json}
    (h : ((nodeOfTarget ir target).any fun n => within scope n "id") = true) (hn : n ∈ ir.nodes)
    (htarget : propSame n "target" target = true) : within scope n "id" = true := by
  obtain ⟨m, hm, hwithin⟩ := (Option.any_eq_true _ _).mp h
  obtain ⟨hmem, hfound⟩ := nodeOfTarget_spec hm
  rw [propSame, Option.any_eq_true] at htarget hfound
  obtain ⟨v, hv, hsame⟩ := htarget
  obtain ⟨w, hw, hsame'⟩ := hfound
  have htext : canonicalText v = canonicalText w :=
    (beq_iff_eq.mp hsame).trans (beq_iff_eq.mp hsame').symm
  rwa [b.node_eq_of_canonicalText hstrict hn hmem hv hw htext]

end Admitted

/-- What a scope allows an envelope to say about a snapshot. -/
structure Allowed (scope : List String) (view : View) (envelope : Envelope) : Prop where
  nodes : ∀ n ∈ envelope.content.closure ++ envelope.content.declarations ++
    envelope.content.claims, within scope n "id" = true
  references : ∀ r ∈ envelope.content.references,
    within scope r "source_node" = true ∧ within scope r "target_node" = true
  catalog : ∀ row ∈ envelope.content.catalog, within scope row "node_ref" = true
  participants : ∀ r ∈ envelope.content.relationships, ∀ id, TakesPart r id →
    ∀ row ∈ view.ir.catalog, textOf row "judgment_id" = some id →
      row ∈ envelope.content.catalog ∧ within scope row "node_ref" = true
  index : ∀ entry ∈ envelope.content.assetIndex,
    (∃ n ∈ view.ir.nodes, propSame n "target" entry.target = true) ∧
      ∀ n ∈ view.ir.nodes, propSame n "target" entry.target = true → within scope n "id" = true
  omissions : ∀ o, .single o ∈ envelope.omissions → o.target ∈ scope

/-- A content inside a scope makes an allowed envelope, once its entries have handles. -/
theorem allowed_of_inScope {core : Core} {manifest payload : Json} {entries : Entries}
    (b : Built core manifest payload entries view.ir)
    (hstrict : assertStrictJson view.ir.json = .ok ()) {scope : List String} {content : Content}
    {index : List IndexEntry} {handles : List Handle} {envelope : Envelope}
    (hscope : InScope scope view content)
    (hcomplete : CompleteCatalog view.ir content.catalog content.relationships)
    (hindex : index.map IndexEntry.target = content.assetIndex.map IndexEntry.target)
    (hcontent : envelope.content = { content with assetIndex := index, expansionHandles := handles })
    (homissions : ∀ o, .single o ∈ envelope.omissions → o.target ∈ scope) :
    Allowed scope view envelope := by
  constructor
  case nodes =>
    rw [hcontent]
    exact List.forall_mem_append.mpr ⟨hscope.nodes, hscope.claims⟩
  case references =>
    rw [hcontent]
    intro r hr
    exact (Bool.and_eq_true _ _).mp (hscope.references r hr)
  case catalog =>
    rw [hcontent]
    exact hscope.catalog
  case participants =>
    rw [hcontent]
    intro r hr id htakes row hrow hid
    have hmem := hcomplete r hr id htakes row hrow hid
    exact ⟨hmem, hscope.catalog row hmem⟩
  case index =>
    rw [hcontent]
    intro entry hentry
    obtain ⟨entry', hentry', htarget⟩ := List.mem_map.mp (hindex ▸ List.mem_map_of_mem hentry)
    have hfound := htarget ▸ hscope.index entry' hentry'
    refine ⟨?_, fun n hn => within_of_nodeOfTarget b hstrict hfound hn⟩
    obtain ⟨m, hm, -⟩ := (Option.any_eq_true _ _).mp hfound
    exact ⟨m, nodeOfTarget_spec hm⟩
  case omissions => exact homissions

/-- The context of an observation that passes. -/
theorem observed_eq_ok_iff {revocations : List Denial} {raw : Option Json} {context : Context} :
    observed revocations request view raw = .ok context ↔
      (observe revocations (.whole request view raw)).1 = .ok context := by
  rw [observed]
  cases (observe revocations (.whole request view raw)).1 <;> simp

/-- A ready envelope says nothing outside the scopes of either observation, and its handles
stay inside the scope of the second. -/
theorem prepareRead_allowed (core : Core) (fields : SnapshotFields) (manifest payload : Json)
    (entries : Entries) (settings : Settings) (host : Host) (request : Request) (view : View)
    (envelope : Envelope) (hpayload : InMemory payload)
    (hview : admitPayload core fields manifest payload entries = .ok view.ir)
    (h : prepareRead settings host request view = .ok envelope) :
    ∃ first second,
      (observe host.revocations (.whole request view host.raw)).1 = .ok first ∧
      (observe host.laterRevocations (.whole request view host.laterRaw)).1 = .ok second ∧
      Allowed first.scope view envelope ∧ Allowed second.scope view envelope ∧
      ∀ handle ∈ envelope.content.expansionHandles, ∀ id ∈ handle.scope, id ∈ second.scope := by
  obtain ⟨⟨b⟩, hstrict⟩ := admitPayload_spec hview
  simp only [prepareRead, projectBody, discloseBody, bind_eq_ok_iff, orFail_eq_ok_iff,
    require_eq_ok_iff, pure_eq_ok, Except.ok.injEq, observed_eq_ok_iff] at h
  obtain ⟨-, -, first, hfirst, left, ⟨-, -, body, hbody, hleft⟩, second, hsecond, kept, hkept,
    minted, hminted, -, -, rfl⟩ := h
  obtain ⟨hin, hcontent, homissions⟩ := scopeBody_spec hleft
  obtain ⟨hin', hcontent', homissions'⟩ := scopeBody_spec hkept
  rw [hcontent] at hin' hcontent'
  have hcomplete := completeCatalog_bodyFor b hpayload hbody
  obtain ⟨hentries, htargets, hhandles⟩ := mint_spec hminted
  rw [hcontent'] at hentries
  -- A single record keeps the target of an omission that both observations left.
  have hsingle : ∀ o, .single o ∈ foldOmissions settings.folding minted.omissions →
      o.target ∈ first.scope ∧ o.target ∈ second.scope := by
    intro o ho
    have hmem := List.mem_map_of_mem (f := Omission.target) (mem_of_single_mem_foldOmissions ho)
    rw [htargets] at hmem
    obtain ⟨o', ho', htarget⟩ := List.mem_map.mp hmem
    rw [homissions', homissions, List.mem_filter, List.mem_filter] at ho'
    rw [← htarget]
    exact ⟨of_decide_eq_true ho'.1.2, of_decide_eq_true ho'.2⟩
  refine ⟨first, second, hfirst, hsecond, ?_, ?_, hhandles⟩
  · exact allowed_of_inScope b hstrict hin hcomplete hentries (by rw [hcontent'])
      fun o ho => (hsingle o ho).1
  · exact allowed_of_inScope b hstrict hin' hcomplete hentries (by rw [hcontent'])
      fun o ho => (hsingle o ho).2

section Sample

/-- The reply of a Host that allows every node of an IR. -/
def allowAll (ir : CanonicalIr) : Json :=
  .obj [("host_id", .str "h"), ("host_epoch", .str "e"), ("decision_id", .str "d"),
    ("request_id", .str "r"), ("snapshot_id", .str "s"), ("A", .str "A"), ("C", .str "C"),
    ("scope", .arr (ir.nodes.map fun n => (n.prop "id").getD .null)),
    ("issued_at", msZero), ("expires_at", msOne),
    ("decision", .str "allow"), ("policy_id", .str "p"),
    ("current_ms", msZero)]

/-- A read of the whole sample asset. -/
def sampleRead (ir : CanonicalIr) : Except ReadError Envelope :=
  prepareRead ⟨true, fun _ => 0⟩ ⟨[], [], some (allowAll ir), [], some (allowAll ir), 0⟩
    ⟨"r", 0, .wholeAsset, none, none⟩ ⟨"s", "a", "1", "A", "C", ir⟩

theorem prepareRead_allowed_sample :
    ∃ ir envelope, admitPayload sampleCore sampleFields sampleManifest samplePayload [] = .ok ir ∧
      sampleRead ir = .ok envelope ∧
      ∃ second, Allowed second ⟨"s", "a", "1", "A", "C", ir⟩ envelope := by
  have hok : (buildIR sampleCore sampleManifest samplePayload [] >>= fun ir =>
      (sampleRead ir).mapError fun _ => Failure.coreInvalid).toBool = true := by
    unfold buildIR node interpretations references pairReferences assetValue copiedMembers
    simp only [stableId_eq, digest_sampleCore, toList_eq_quickToList, copyJson_eq_copyQuickly,
      assertStrictJson_eq_checkQuickly]
    decide +kernel
  have hmemory : InMemory samplePayload := inMemory_of_named (by decide)
  obtain ⟨ir, hir⟩ := exists_sampleIr
  have hbuilt : buildIR sampleCore sampleManifest samplePayload [] = .ok ir := by
    simp only [admitPayload, bind_eq_ok_iff, pure_eq_ok, Except.ok.injEq] at hir
    obtain ⟨-, -, ir', hbuilt, -, -, rfl⟩ := hir
    exact hbuilt
  rw [hbuilt, ok_bind] at hok
  cases hread : sampleRead ir with
  | error e =>
    rw [hread] at hok
    cases hok
  | ok envelope =>
    obtain ⟨first, second, -, -, -, hallowed, -⟩ := prepareRead_allowed sampleCore sampleFields
      sampleManifest samplePayload [] _ _ _ ⟨"s", "a", "1", "A", "C", ir⟩ envelope hmemory hir hread
    exact ⟨ir, envelope, hir, hread, second.scope, hallowed⟩

end Sample

end Kdna.Read

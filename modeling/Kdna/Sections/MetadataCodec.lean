import Kdna.Sections.ScopeCodec

/-!
# Stored representation metadata

Stored metadata names the nodes by their positions in the node order. Encoding and decoding walk
over one structure and replace every name; as the order repeats no node, either undoes the other.
-/

namespace Kdna.Sections

variable {ν μ : Type} {ε : Type}

/-- A reference between nodes: `IRReference`, or `StoredIRReference06` with positions. -/
structure Reference (ν : Type) where
  id : String
  sourceNode : ν
  targetNode : ν
  role : String
  mandatory : Bool

/-- An entry of the index: `IRTargetDescriptor`, or `StoredIRTargetDescriptor06` with positions. -/
structure Descriptor (ν : Type) where
  target : Json
  owner : Json
  displayName : String
  node : ν

/-- A closure: `MandatoryClosure`, or `StoredMandatoryClosure06` with positions. -/
structure Closure (ν : Type) where
  selection : Json
  nodes : List ν

/-- The members that both forms of metadata have alike. -/
structure Shared where
  contract : Json
  tuple : Json
  asset : Json
  catalog : Json
  relationships : Json
  unresolvedExternal : Json
  irDigestClaim : Json
  runtimeEntryNames : Json

/-- `RepresentationMetadata06` with nodes by name, or `StoredRepresentationMetadata06` with
positions; the `codec` of the stored form is a constant. -/
structure Metadata (ν : Type) where
  shared : Shared
  references : List (Reference ν)
  mandatoryClosures : List (Closure ν)
  assetIndex : List (Descriptor ν)
  assetClosure : List ν
  nodeOrder : List String

/-- The codes of the metadata codec. -/
inductive MetadataFailure
  | representationShape
  | storedShape
  | nodeIdMissing
  | nodeIndexRange
  deriving DecidableEq, Repr

/-- The text of a failure. -/
def MetadataFailure.code : MetadataFailure → String
  | .representationShape => "METADATA_RepresentationMetadata06_SHAPE"
  | .storedShape => "METADATA_StoredRepresentationMetadata06_SHAPE"
  | .nodeIdMissing => "METADATA_NODE_ID_MISSING"
  | .nodeIndexRange => "METADATA_NODE_INDEX_RANGE"

section Values

/-- The names of the members that name nodes. -/
structure NodeNames where
  source : String
  target : String
  node : String
  nodes : String

/-- The names in the decoded form. -/
def plainNames : NodeNames := ⟨"source_node", "target_node", "node_ref", "node_ids"⟩

/-- The names in the stored form. -/
def storedNames : NodeNames :=
  ⟨"source_node_index", "target_node_index", "node_index", "node_indices"⟩

/-- The reference as a value. -/
def Reference.json (names : NodeNames) (node : ν → Json) (r : Reference ν) : Json :=
  .obj [("id", .str r.id), (names.source, node r.sourceNode), (names.target, node r.targetNode),
    ("role", .str r.role), ("mandatory", .bool r.mandatory)]

/-- The entry as a value. -/
def Descriptor.json (names : NodeNames) (node : ν → Json) (d : Descriptor ν) : Json :=
  .obj [("target", d.target), ("owner", d.owner), ("display_name", .str d.displayName),
    (names.node, node d.node)]

/-- The closure as a value. -/
def Closure.json (names : NodeNames) (node : ν → Json) (c : Closure ν) : Json :=
  .obj [("selection", c.selection), (names.nodes, .arr (c.nodes.map node))]

/-- The shared members. -/
def Shared.members (s : Shared) : List (String × Json) :=
  [("contract", s.contract), ("tuple", s.tuple), ("asset", s.asset), ("catalog", s.catalog),
    ("relationships", s.relationships), ("unresolved_external", s.unresolvedExternal),
    ("ir_digest_claim", s.irDigestClaim), ("runtime_entry_names", s.runtimeEntryNames)]

/-- The members of metadata. -/
def Metadata.members (names : NodeNames) (node : ν → Json) (m : Metadata ν) :
    List (String × Json) :=
  m.shared.members ++
    [("references", .arr (m.references.map (Reference.json names node))),
      ("mandatory_closures", .arr (m.mandatoryClosures.map (Closure.json names node))),
      ("asset_index", .arr (m.assetIndex.map (Descriptor.json names node))),
      ("asset_closure", .arr (m.assetClosure.map node)), ("node_order", scopeJson m.nodeOrder)]

/-- The decoded form as a value. -/
def Metadata.plainJson (m : Metadata String) : Json := .obj (m.members plainNames .str)

/-- The stored form as a value. -/
def Metadata.storedJson (m : Metadata ℕ) : Json :=
  .obj (m.members storedNames countJson ++ [("codec", .str "node-order-index/1")])

end Values

section Shapes

/-- The white space of `\s`. -/
def isSpaceChar (c : Char) : Bool :=
  ('\t' ≤ c && c ≤ '\r') || c = ' ' || c = '\u00a0' || c = '\u1680' ||
    ('\u2000' ≤ c && c ≤ '\u200a') || c = '\u2028' || c = '\u2029' || c = '\u202f' ||
    c = '\u205f' || c = '\u3000' || c = '\ufeff'

/-- `NonEmptyText` -/
def nonEmptyText (t : String) : Bool := t.toList.any fun c => !isSpaceChar c

/-- `ReferenceRole` -/
def referenceRoles : List String :=
  ["dependency", "source_use", "provenance", "mandatory_support", "optional_expansion",
    "lifecycle_replacement"]

/-- Whether a text is an identifier under the test. -/
def names (identifier? : Json → Option String) (id : String) : Bool :=
  (identifier? (.str id)).isSome

/-- The members of metadata that are not shared, where `node` tests what stands for a node. -/
def Metadata.shape [DecidableEq ν] (identifier? : Json → Option String) (node : ν → Bool)
    (m : Metadata ν) : Bool :=
  (m.references.all fun r => names identifier? r.id && r.role ∈ referenceRoles &&
      node r.sourceNode && node r.targetNode) &&
    (m.mandatoryClosures.all fun c => isSelection identifier? c.selection && c.nodes ≠ [] &&
      c.nodes.Nodup && c.nodes.all node) &&
    (m.assetIndex.all fun d => isRef identifier? d.target && isRef identifier? d.owner &&
      nonEmptyText d.displayName && node d.node) &&
    m.assetClosure.Nodup && m.assetClosure.all node &&
    m.nodeOrder.Nodup && m.nodeOrder.all (names identifier?)

/-- `shape('RepresentationMetadata06', decoded)`, where `sharedShape` tests the shared members. -/
def isRepresentation (sharedShape : Shared → Bool) (m : Metadata String) : Bool :=
  (assertStrictJson m.plainJson).toBool && sharedShape m.shared &&
    m.shape Read.shapeIdentifier? (names Read.shapeIdentifier?) &&
    m.shape Read.identifier? (names Read.identifier?)

/-- `UInt` -/
def isUInt (n : ℕ) : Bool := n ≤ 9007199254740991

/-- `shape('StoredRepresentationMetadata06', stored)`, where `sharedShape` tests the shared
members, which have the same types in both forms. -/
def isStoredRepresentation (sharedShape : Shared → Bool) (m : Metadata ℕ) : Bool :=
  (assertStrictJson m.storedJson).toBool && sharedShape m.shared &&
    m.shape Read.shapeIdentifier? isUInt && m.shape Read.identifier? isUInt

end Shapes

section Walk

/-- The reference with its nodes renamed. -/
def Reference.rename (f : ν → Except ε μ) (r : Reference ν) : Except ε (Reference μ) := do
  return ⟨r.id, ← f r.sourceNode, ← f r.targetNode, r.role, r.mandatory⟩

/-- The entry with its node renamed. -/
def Descriptor.rename (f : ν → Except ε μ) (d : Descriptor ν) : Except ε (Descriptor μ) := do
  return ⟨d.target, d.owner, d.displayName, ← f d.node⟩

/-- The closure with its nodes renamed. -/
def Closure.rename (f : ν → Except ε μ) (c : Closure ν) : Except ε (Closure μ) := do
  return ⟨c.selection, ← c.nodes.mapM f⟩

/-- The metadata with its nodes renamed. -/
def Metadata.rename (f : ν → Except ε μ) (m : Metadata ν) : Except ε (Metadata μ) := do
  let references ← m.references.mapM (Reference.rename f)
  let assetIndex ← m.assetIndex.mapM (Descriptor.rename f)
  let mandatoryClosures ← m.mandatoryClosures.mapM (Closure.rename f)
  let assetClosure ← m.assetClosure.mapM f
  return ⟨m.shared, references, mandatoryClosures, assetIndex, assetClosure, m.nodeOrder⟩

end Walk

/-- `idx(id)` of `encode`: the position of a node in an order without repetitions. -/
def idx (order : List String) (id : String) : Except MetadataFailure ℕ :=
  orFail .nodeIdMissing (order.idxOf? id)

/-- `node(i)` of `decode` -/
def node (order : List String) (i : ℕ) : Except MetadataFailure String :=
  orFail .nodeIndexRange order[i]?

/-- `encode(decoded)` -/
def Metadata.encode (sharedShape : Shared → Bool) (decoded : Metadata String) :
    Except MetadataFailure (Metadata ℕ) := do
  require (isRepresentation sharedShape decoded) MetadataFailure.representationShape
  let out ← decoded.rename (idx decoded.nodeOrder)
  require (isStoredRepresentation sharedShape out) MetadataFailure.storedShape
  return out

/-- `decode(stored)` -/
def Metadata.decode (sharedShape : Shared → Bool) (stored : Metadata ℕ) :
    Except MetadataFailure (Metadata String) := do
  require (isStoredRepresentation sharedShape stored) MetadataFailure.storedShape
  let out ← stored.rename (node stored.nodeOrder)
  require (isRepresentation sharedShape out) MetadataFailure.representationShape
  return out

section Related

/-- Two references that differ in what stands for their nodes. -/
structure Reference.Related (R : ν → μ → Prop) (r : Reference ν) (r' : Reference μ) : Prop where
  id : r'.id = r.id
  sourceNode : R r.sourceNode r'.sourceNode
  targetNode : R r.targetNode r'.targetNode
  role : r'.role = r.role
  mandatory : r'.mandatory = r.mandatory

/-- Two entries that differ in what stands for their nodes. -/
structure Descriptor.Related (R : ν → μ → Prop) (d : Descriptor ν) (d' : Descriptor μ) : Prop where
  target : d'.target = d.target
  owner : d'.owner = d.owner
  displayName : d'.displayName = d.displayName
  node : R d.node d'.node

/-- Two closures that differ in what stands for their nodes. -/
structure Closure.Related (R : ν → μ → Prop) (c : Closure ν) (c' : Closure μ) : Prop where
  selection : c'.selection = c.selection
  nodes : List.Forall₂ R c.nodes c'.nodes

/-- Metadata in two forms: the same members with `R` between what stands for the nodes. -/
structure Metadata.Related (R : ν → μ → Prop) (m : Metadata ν) (m' : Metadata μ) : Prop where
  shared : m'.shared = m.shared
  references : List.Forall₂ (Reference.Related R) m.references m'.references
  mandatoryClosures : List.Forall₂ (Closure.Related R) m.mandatoryClosures m'.mandatoryClosures
  assetIndex : List.Forall₂ (Descriptor.Related R) m.assetIndex m'.assetIndex
  assetClosure : List.Forall₂ R m.assetClosure m'.assetClosure
  nodeOrder : m'.nodeOrder = m.nodeOrder

variable {R : ν → μ → Prop} {S : μ → ν → Prop} {f : ν → Except ε μ}

theorem Reference.rename_eq_ok_iff {r : Reference ν} {r' : Reference μ} :
    r.rename f = .ok r' ↔ r.Related (fun a b => f a = .ok b) r' := by
  simp only [rename, bind_eq_ok_iff, pure_eq_ok, Except.ok.injEq]
  constructor
  · rintro ⟨a, ha, b, hb, rfl⟩
    exact ⟨rfl, ha, hb, rfl, rfl⟩
  · rintro ⟨hid, ha, hb, hrole, hmandatory⟩
    exact ⟨_, ha, _, hb, by rw [← hid, ← hrole, ← hmandatory]⟩

theorem Descriptor.rename_eq_ok_iff {d : Descriptor ν} {d' : Descriptor μ} :
    d.rename f = .ok d' ↔ d.Related (fun a b => f a = .ok b) d' := by
  simp only [rename, bind_eq_ok_iff, pure_eq_ok, Except.ok.injEq]
  constructor
  · rintro ⟨a, ha, rfl⟩
    exact ⟨rfl, rfl, rfl, ha⟩
  · rintro ⟨htarget, howner, hname, ha⟩
    exact ⟨_, ha, by rw [← htarget, ← howner, ← hname]⟩

theorem Closure.rename_eq_ok_iff {c : Closure ν} {c' : Closure μ} :
    c.rename f = .ok c' ↔ c.Related (fun a b => f a = .ok b) c' := by
  simp only [rename, bind_eq_ok_iff, pure_eq_ok, Except.ok.injEq, mapM_eq_ok_iff]
  constructor
  · rintro ⟨nodes, hnodes, rfl⟩
    exact ⟨rfl, hnodes⟩
  · rintro ⟨hselection, hnodes⟩
    exact ⟨_, hnodes, by rw [← hselection]⟩

/-- Renaming succeeds exactly when it does on every node. -/
theorem Metadata.rename_eq_ok_iff {m : Metadata ν} {m' : Metadata μ} :
    m.rename f = .ok m' ↔ m.Related (fun a b => f a = .ok b) m' := by
  simp only [rename, bind_eq_ok_iff, pure_eq_ok, Except.ok.injEq, mapM_eq_ok_iff,
    Reference.rename_eq_ok_iff, Descriptor.rename_eq_ok_iff, Closure.rename_eq_ok_iff]
  constructor
  · rintro ⟨references, hreferences, index, hindex, closures, hclosures, closure, hclosure, rfl⟩
    exact ⟨rfl, hreferences, hclosures, hindex, hclosure, rfl⟩
  · rintro ⟨hshared, hreferences, hclosures, hindex, hclosure, horder⟩
    exact ⟨_, hreferences, _, hindex, _, hclosures, _, hclosure, by rw [← hshared, ← horder]⟩

theorem Reference.Related.swap (hR : ∀ a b, R a b → S b a) {r : Reference ν} {r' : Reference μ}
    (h : r.Related R r') : r'.Related S r :=
  ⟨h.id.symm, hR _ _ h.sourceNode, hR _ _ h.targetNode, h.role.symm, h.mandatory.symm⟩

theorem Descriptor.Related.swap (hR : ∀ a b, R a b → S b a) {d : Descriptor ν} {d' : Descriptor μ}
    (h : d.Related R d') : d'.Related S d :=
  ⟨h.target.symm, h.owner.symm, h.displayName.symm, hR _ _ h.node⟩

theorem Closure.Related.swap (hR : ∀ a b, R a b → S b a) {c : Closure ν} {c' : Closure μ}
    (h : c.Related R c') : c'.Related S c :=
  ⟨h.selection.symm, h.nodes.flip.imp fun _ _ hab => hR _ _ hab⟩

/-- The relation between two forms can be read in the other direction. -/
theorem Metadata.Related.swap (hR : ∀ a b, R a b → S b a) {m : Metadata ν} {m' : Metadata μ}
    (h : m.Related R m') : m'.Related S m where
  shared := h.shared.symm
  references := h.references.flip.imp fun _ _ hr => hr.swap hR
  mandatoryClosures := h.mandatoryClosures.flip.imp fun _ _ hc => hc.swap hR
  assetIndex := h.assetIndex.flip.imp fun _ _ hd => hd.swap hR
  assetClosure := h.assetClosure.flip.imp fun _ _ hab => hR _ _ hab
  nodeOrder := h.nodeOrder.symm

end Related

section Positions

variable {order : List String}

/-- In an order without repetitions a node is found where it stands. -/
theorem idx_eq_ok_iff (horder : order.Nodup) {id : String} {i : ℕ} :
    idx order id = .ok i ↔ order[i]? = some id := by
  rw [idx, orFail_eq_ok_iff, List.idxOf?_eq_some_iff, List.getElem?_eq_some_iff]
  constructor
  · rintro ⟨hi, hid, -⟩
    exact ⟨hi, hid⟩
  · rintro ⟨hi, hid⟩
    refine ⟨hi, hid, fun j hj hjd => ?_⟩
    have hij := horder.getElem_inj_iff.mp (hjd.trans hid.symm)
    omega

theorem node_eq_ok_iff {id : String} {i : ℕ} : node order i = .ok id ↔ order[i]? = some id :=
  orFail_eq_ok_iff

end Positions

section RoundTrip

variable {sharedShape : Shared → Bool} {m : Metadata String} {s : Metadata ℕ}

/-- The node order of metadata with its shape has no repetitions. -/
theorem nodup_nodeOrder (h : isRepresentation sharedShape m) : m.nodeOrder.Nodup := by
  simp only [isRepresentation, Metadata.shape, Bool.and_eq_true, decide_eq_true_eq] at h
  exact h.2.1.2

/-- The stored form of metadata: a position in the node order for every node. -/
def Metadata.Stored (m : Metadata String) (s : Metadata ℕ) : Prop :=
  m.Related (fun id i => m.nodeOrder[i]? = some id) s

theorem Metadata.encode_eq_ok_iff : m.encode sharedShape = .ok s ↔
    isRepresentation sharedShape m ∧ m.Stored s ∧ isStoredRepresentation sharedShape s := by
  rw [encode, require_bind_eq_ok_iff]
  refine and_congr_right fun hshape => ?_
  have hidx := fun id i => @idx_eq_ok_iff _ (nodup_nodeOrder hshape) id i
  simp only [bind_eq_ok_iff, require_eq_ok_iff, pure_eq_ok, Except.ok.injEq,
    rename_eq_ok_iff, hidx]
  constructor
  · rintro ⟨_, hstored, -, hs, rfl⟩
    exact ⟨hstored, hs⟩
  · rintro ⟨hstored, hs⟩
    exact ⟨s, hstored, (), hs, rfl⟩

theorem Metadata.decode_eq_ok_iff : s.decode sharedShape = .ok m ↔
    isStoredRepresentation sharedShape s ∧ m.Stored s ∧ isRepresentation sharedShape m := by
  rw [decode, require_bind_eq_ok_iff]
  refine and_congr_right fun _ => ?_
  simp only [bind_eq_ok_iff, require_eq_ok_iff, pure_eq_ok, Except.ok.injEq,
    rename_eq_ok_iff, node_eq_ok_iff]
  constructor
  · rintro ⟨m', hrelated, -, hm, rfl⟩
    refine ⟨hrelated.swap fun i id h => ?_, hm⟩
    rwa [hrelated.nodeOrder]
  · rintro ⟨hstored, hm⟩
    refine ⟨m, hstored.swap fun id i h => ?_, (), hm, rfl⟩
    rwa [hstored.nodeOrder]

/-- What stands for distinct nodes is distinct. -/
theorem nodup_of_forall₂ {R : ν → μ → Prop} (hinj : ∀ a a' b, R a b → R a' b → a = a')
    {l : List ν} {l' : List μ} (h : List.Forall₂ R l l') (hl : l.Nodup) : l'.Nodup := by
  induction h with
  | nil => exact List.nodup_nil
  | cons hab hrest ih =>
    rw [List.nodup_cons] at hl ⊢
    refine ⟨fun hmem => ?_, ih hl.2⟩
    obtain ⟨a', ha', hab'⟩ := exists_of_mem_forall₂ hrest hmem
    rw [hinj _ _ _ hab hab'] at hl
    exact hl.1 ha'

/-- The form of the members carries over to another name for each node. -/
theorem Metadata.Related.shape [DecidableEq ν] [DecidableEq μ] {R : ν → μ → Prop}
    {identifier? : Json → Option String} {test : ν → Bool} {test' : μ → Bool}
    (htest : ∀ a b, R a b → test' b) (hinj : ∀ a a' b, R a b → R a' b → a = a')
    {m : Metadata ν} {m' : Metadata μ} (h : m.Related R m') (hm : m.shape identifier? test) :
    m'.shape identifier? test' := by
  simp only [Metadata.shape, Bool.and_eq_true, List.all_eq_true, decide_eq_true_eq] at hm ⊢
  obtain ⟨⟨⟨⟨⟨⟨hreferences, hclosures⟩, hindex⟩, hnodup⟩, -⟩, horder⟩, hnames⟩ := hm
  refine ⟨⟨⟨⟨⟨⟨fun r' hr' => ?_, fun c' hc' => ?_⟩, fun d' hd' => ?_⟩,
    nodup_of_forall₂ hinj h.assetClosure hnodup⟩, fun b hb => ?_⟩, ?_⟩, ?_⟩
  · obtain ⟨r, hr, hrelated⟩ := exists_of_mem_forall₂ h.references hr'
    rw [hrelated.id, hrelated.role]
    exact ⟨⟨(hreferences r hr).1.1, htest _ _ hrelated.sourceNode⟩,
      htest _ _ hrelated.targetNode⟩
  · obtain ⟨c, hc, hrelated⟩ := exists_of_mem_forall₂ h.mandatoryClosures hc'
    obtain ⟨⟨⟨hselection, hne⟩, hdistinct⟩, -⟩ := hclosures c hc
    rw [hrelated.selection]
    refine ⟨⟨⟨hselection, fun hnil => hne ?_⟩, nodup_of_forall₂ hinj hrelated.nodes hdistinct⟩,
      fun b hb => ?_⟩
    · exact List.forall₂_nil_right_iff.mp (hnil ▸ hrelated.nodes)
    · obtain ⟨a, -, hab⟩ := exists_of_mem_forall₂ hrelated.nodes hb
      exact htest a b hab
  · obtain ⟨d, hd, hrelated⟩ := exists_of_mem_forall₂ h.assetIndex hd'
    rw [hrelated.target, hrelated.owner, hrelated.displayName]
    exact ⟨(hindex d hd).1, htest _ _ hrelated.node⟩
  · obtain ⟨a, -, hab⟩ := exists_of_mem_forall₂ h.assetClosure hb
    exact htest a b hab
  · rwa [h.nodeOrder]
  · rwa [h.nodeOrder]

/-- The stored form of metadata with its shape has the stored shape when it is strict. -/
theorem isStoredRepresentation_of_stored (hm : isRepresentation sharedShape m) (h : m.Stored s)
    (hstrict : assertStrictJson s.storedJson = .ok ()) :
    isStoredRepresentation sharedShape s := by
  have hnodup := nodup_nodeOrder hm
  simp only [isRepresentation, Bool.and_eq_true] at hm
  obtain ⟨⟨⟨hplain, hshared⟩, hshape⟩, hcore⟩ := hm
  have hlength : m.nodeOrder.length ≤ 10000 := by
    have hprop : m.plainJson.prop "node_order" = some (scopeJson m.nodeOrder) := by
      simp [Metadata.plainJson, Metadata.members, Shared.members]
    have hle := (assertStrictJson_eq_ok_iff.mp
      (Value.strict_prop (toBool_eq_true_iff.mp hplain) hprop)).1.1
    rwa [List.length_map] at hle
  have htest : ∀ (id : String) (i : ℕ), m.nodeOrder[i]? = some id → isUInt i := by
    intro id i hi
    have hlt := (List.getElem?_eq_some_iff.mp hi).1
    exact decide_eq_true (by omega)
  have hinj : ∀ (id id' : String) (i : ℕ), m.nodeOrder[i]? = some id →
      m.nodeOrder[i]? = some id' → id = id' :=
    fun id id' i hi hi' => Option.some.inj (hi.symm.trans hi')
  simp only [isStoredRepresentation, Bool.and_eq_true]
  exact ⟨⟨⟨toBool_eq_true_iff.mpr hstrict, h.shared ▸ hshared⟩, h.shape htest hinj hshape⟩,
    h.shape htest hinj hcore⟩

/-- Either direction of the metadata codec undoes the other, and metadata is encoded exactly when
every node has a position and the stored form stays within the limits of strict values. -/
theorem metadata_roundTrip (sharedShape : Shared → Bool) :
    (∀ m s, Metadata.encode sharedShape m = .ok s → s.decode sharedShape = .ok m) ∧
    (∀ s m, Metadata.decode sharedShape s = .ok m → m.encode sharedShape = .ok s) ∧
    ∀ m : Metadata String, (∃ s, m.encode sharedShape = .ok s) ↔
      isRepresentation sharedShape m ∧
        ∃ s, m.Stored s ∧ assertStrictJson s.storedJson = .ok () := by
  refine ⟨fun m s h => ?_, fun s m h => ?_, fun m => ⟨?_, ?_⟩⟩
  · obtain ⟨hm, hstored, hs⟩ := Metadata.encode_eq_ok_iff.mp h
    exact Metadata.decode_eq_ok_iff.mpr ⟨hs, hstored, hm⟩
  · obtain ⟨hs, hstored, hm⟩ := Metadata.decode_eq_ok_iff.mp h
    exact Metadata.encode_eq_ok_iff.mpr ⟨hm, hstored, hs⟩
  · rintro ⟨s, h⟩
    obtain ⟨hm, hstored, hs⟩ := Metadata.encode_eq_ok_iff.mp h
    simp only [isStoredRepresentation, Bool.and_eq_true] at hs
    exact ⟨hm, s, hstored, toBool_eq_true_iff.mp hs.1.1.1⟩
  · rintro ⟨hm, s, hstored, hstrict⟩
    have hs := isStoredRepresentation_of_stored hm hstored hstrict
    exact ⟨s, Metadata.encode_eq_ok_iff.mpr ⟨hm, hstored, hs⟩⟩

/-- Shared members of a sample. -/
def sampleShared : Shared := ⟨.null, .null, .null, .null, .null, .null, .null, .null⟩

/-- A selection of a sample. -/
def sampleSelection : Json :=
  .obj [("asset_id", .str "a"), ("asset_version", .str "1"), ("judgment_id", .str "j")]

/-- Metadata over two nodes. -/
def sampleMetadata : Metadata String :=
  ⟨sampleShared, [⟨"r", "n2", "n1", "dependency", true⟩], [⟨sampleSelection, ["n2", "n1"]⟩],
    [⟨sampleSource "x", sampleSource "y", "X", "n2"⟩], ["n1"], ["n1", "n2"]⟩

/-- The metadata with the two nodes by position. -/
def samplePositions : Metadata ℕ :=
  ⟨sampleShared, [⟨"r", 1, 0, "dependency", true⟩], [⟨sampleSelection, [1, 0]⟩],
    [⟨sampleSource "x", sampleSource "y", "X", 1⟩], [0], ["n1", "n2"]⟩

/-- The sample is stored with positions. -/
theorem metadata_roundTrip_sample :
    sampleMetadata.encode (fun _ => true) = .ok samplePositions ∧
      samplePositions.decode (fun _ => true) = .ok sampleMetadata := by
  have hdecode : samplePositions.decode (fun _ => true) = .ok sampleMetadata := by
    refine Metadata.decode_eq_ok_iff.mpr ⟨by decide +kernel, ?_, by decide +kernel⟩
    exact ⟨rfl, .cons ⟨rfl, rfl, rfl, rfl, rfl⟩ .nil, .cons ⟨rfl, .cons rfl (.cons rfl .nil)⟩ .nil,
      .cons ⟨rfl, rfl, rfl, rfl⟩ .nil, .cons rfl .nil, rfl⟩
  have hencode := (metadata_roundTrip _).2.1 _ _ hdecode
  exact ⟨hencode, (metadata_roundTrip _).1 _ _ hencode⟩

end RoundTrip

end Kdna.Sections

import Kdna.Data.Runs
import Kdna.Data.Upsert
import Kdna.Ir.Closure
import Kdna.Json.Canonical

/-!
# Links

`link` of `r2-registry.js`. A link goes from a record to a target; a target of the same
asset has to be registered, and one of another asset is noted as unresolved. A pair of
records keeps one strength, and beside it the strength of each role that was declared
between them.
-/

namespace Kdna.Ir

open Value

/-- A target as an object of the payload names it. -/
structure Target where
  ref : Ref
  /-- `target.asset` -/
  asset : Option Json
  json : Json

/-- The keys that tell assets apart. -/
def assetKeys : List String := ["asset_id", "asset_version", "judgment_version"]

/-- `sameAsset(a, b)` -/
def sameAsset (a b : Json) : Bool :=
  assetKeys.all fun k => ((a.prop k).bind text?).isSome && (a.prop k).bind text? = (b.prop k).bind text?

/-- `local(target)` -/
def Target.isLocal (payloadAsset : Json) (target : Target) : Bool :=
  target.asset.all fun a => sameAsset a payloadAsset

/-- A target of another asset that a record names. -/
structure Unresolved where
  source : Ref
  target : Target
  mandatory : Bool

/-- `identity(x.target) === identity(target)` for targets of other assets. -/
def Target.sameIdentity (a b : Target) : Bool :=
  a.ref = b.ref && a.asset.map canonicalText = b.asset.map canonicalText

/-- The links of a registry. -/
structure Linking where
  edges : Ref → List (Ref × Bool)
  referenceRoles : Ref → List (Ref × List (Option String × Bool))
  unresolved : List Unresolved

/-- A registry without links. -/
def Linking.empty : Linking := ⟨fun _ => [], fun _ => [], []⟩

/-- An unresolved reference as a value. -/
def Unresolved.json (u : Unresolved) : Json :=
  .obj [("source", u.source.json), ("target", u.target.json), ("mandatory", .bool u.mandatory)]

/-- What `buildIR` reads of the links. -/
def Linking.links (s : Linking) : Links :=
  ⟨s.edges, s.referenceRoles, s.unresolved.map Unresolved.json⟩

/-- One strength more: `Boolean(old || mandatory)`. -/
def strengthen (mandatory : Bool) (old : Option Bool) : Bool := old.getD false || mandatory

/-- A change of the entries of one record. -/
def changeAt {α : Type} (from' : Ref) (change : α → α) (entries : Ref → α) (r : Ref) : α :=
  if r = from' then change (entries r) else entries r

/-- A reference to another asset, noted once for each pair. -/
def noteUnresolved (from' : Ref) (target : Target) (mandatory : Bool) :
    List Unresolved → List Unresolved
  | [] => [⟨from', target, mandatory⟩]
  | u :: rest =>
    if u.source = from' ∧ u.target.sameIdentity target = true then
      { u with mandatory := u.mandatory || mandatory } :: rest
    else u :: noteUnresolved from' target mandatory rest

/-- A link to a registered record. -/
def Linking.record (s : Linking) (from' target : Ref) (mandatory : Bool) (role : Option String) :
    Linking :=
  { s with
    edges := changeAt from' (upsert target (strengthen mandatory)) s.edges
    referenceRoles := changeAt from'
      (upsert target fun roles => upsert role (strengthen mandatory) (roles.getD []))
      s.referenceRoles }

/-- The arguments of a call of `link`. -/
structure LinkCall where
  from' : Ref
  target : Target
  mandatory : Bool
  kinds : Option (List Kind)
  role : Option String

/-- `link(from, target, mandatory, kinds, field, referenceRole)` in a registry of the targets
`known`. -/
def Linking.link (payloadAsset : Json) (known : List Ref) (s : Linking) (call : LinkCall) :
    Except Failure Linking := do
  require (∀ kinds ∈ call.kinds, call.target.ref.kind ∈ kinds) Failure.coreInvalid
  require (call.target.isLocal payloadAsset → call.target.ref ∈ known) Failure.coreInvalid
  require (call.from' ∈ known) Failure.coreInvalid
  if call.target.isLocal payloadAsset then
    return s.record call.from' call.target.ref call.mandatory call.role
  else
    return { s with
      unresolved := noteUnresolved call.from' call.target call.mandatory s.unresolved }

/-- A link to a registered record of the same asset. -/
theorem link_eq_ok {payloadAsset : Json} {known : List Ref} {from' : Ref} {target : Target}
    (hlocal : target.isLocal payloadAsset = true) (htarget : target.ref ∈ known)
    (hsource : from' ∈ known) (s : Linking) (mandatory : Bool) (role : Option String) :
    s.link payloadAsset known ⟨from', target, mandatory, none, role⟩ =
      .ok (s.record from' target.ref mandatory role) := by
  rw [Linking.link, require_bind_of_pos (by simp), require_bind_of_pos fun _ => htarget,
    require_bind_of_pos hsource, if_pos hlocal]
  rfl

/-- The links of a registry come from calls of `link`, one behind the other. -/
def Linked (payloadAsset : Json) (records : List Record) (links : Links) : Prop :=
  ∃ calls s, Run (fun s call t => Linking.link payloadAsset (records.map Record.target) s call = .ok t)
    .empty calls s ∧ s.links = links

/-- What holds of the links of a registry of the targets `known`. -/
structure Consistent (known : List Ref) (s : Linking) : Prop where
  source_mem : ∀ from' t, t ∈ (s.edges from').map Prod.fst → from' ∈ known
  target_mem : ∀ from' t, t ∈ (s.edges from').map Prod.fst → t ∈ known
  edges_nodup : ∀ from', ((s.edges from').map Prod.fst).Nodup
  roles_nodup : ∀ from', ((s.referenceRoles from').map Prod.fst).Nodup
  meanings_nodup : ∀ from' t roles, (t, roles) ∈ s.referenceRoles from' →
    (roles.map Prod.fst).Nodup
  /-- The roles lead where the edges lead. -/
  roles_keys : ∀ from', (s.referenceRoles from').map Prod.fst = (s.edges from').map Prod.fst
  /-- An edge is mandatory when one of its roles is. -/
  mandatory_iff : ∀ from' t, (t, true) ∈ s.edges from' ↔
    ∃ roles role, (t, roles) ∈ s.referenceRoles from' ∧ (role, true) ∈ roles

theorem consistent_empty (known : List Ref) : Consistent known .empty where
  source_mem _ _ h := absurd h List.not_mem_nil
  target_mem _ _ h := absurd h List.not_mem_nil
  edges_nodup _ := List.nodup_nil
  roles_nodup _ := List.nodup_nil
  meanings_nodup _ _ _ h := absurd h List.not_mem_nil
  roles_keys _ := rfl
  mandatory_iff _ _ := by simp [Linking.empty]

section Record

variable {known : List Ref} {s : Linking} {a t r : Ref} {mandatory : Bool} {role : Option String}

/-- The keys of an updated map depend on its keys only. -/
theorem keys_upsert_congr {α β : Type} {f : Option α → α} {g : Option β → β}
    {entries : List (Ref × α)} {others : List (Ref × β)}
    (h : entries.map Prod.fst = others.map Prod.fst) :
    (upsert t f entries).map Prod.fst = (upsert t g others).map Prod.fst := by
  induction entries generalizing others with
  | nil =>
    cases others with
    | nil => rfl
    | cons o os => exact nomatch h
  | cons e es ih =>
    cases others with
    | nil => exact nomatch h
    | cons o os =>
      obtain ⟨k, x⟩ := e
      obtain ⟨l, y⟩ := o
      simp only [List.map_cons, List.cons.injEq] at h
      obtain ⟨rfl, h⟩ := h
      rw [upsert, upsert]
      split_ifs
      · rw [List.map_cons, List.map_cons, h]
      · rw [List.map_cons, List.map_cons, ih h]

/-- Some role of the pair is mandatory behind a link when one was or the link is. -/
theorem exists_mandatory_upsert {roles : List (Option String × Bool)}
    (hnodup : (roles.map Prod.fst).Nodup) :
    (∃ role', (role', true) ∈ upsert role (strengthen mandatory) roles) ↔
      (∃ role', (role', true) ∈ roles) ∨ mandatory = true := by
  constructor
  · rintro ⟨role', hmem⟩
    by_cases hrole : role' = role
    · rw [hrole, mem_upsert_self hnodup, strengthen] at hmem
      cases hold : getKey role roles with
      | none => exact .inr (by simpa [hold] using hmem)
      | some old =>
        cases old with
        | true => exact .inl ⟨role, mem_of_getKey hold⟩
        | false => exact .inr (by simpa [hold] using hmem)
    · exact .inl ⟨role', (mem_upsert_of_ne hrole).mp hmem⟩
  · rintro (⟨role', hmem⟩ | rfl)
    · refine ⟨role', ?_⟩
      by_cases hrole : role' = role
      · rw [hrole, mem_upsert_self hnodup, (getKey_eq_some_iff hnodup).mpr (hrole ▸ hmem)]
        rfl
      · exact (mem_upsert_of_ne hrole).mpr hmem
    · refine ⟨role, (mem_upsert_self hnodup).mpr ?_⟩
      rw [strengthen, Bool.or_true]

/-- The roles of a pair before a link, none where it was not linked. -/
theorem nodup_getKey (h : Consistent known s) :
    (((getKey t (s.referenceRoles a)).getD []).map Prod.fst).Nodup := by
  cases hroles : getKey t (s.referenceRoles a) with
  | none => exact List.nodup_nil
  | some roles => exact h.meanings_nodup a t roles (mem_of_getKey hroles)

/-- The strength of a pair before a link is that of its roles. -/
theorem getKey_edges_iff (h : Consistent known s) :
    getKey t (s.edges a) = some true ↔
      ∃ role', (role', true) ∈ (getKey t (s.referenceRoles a)).getD [] := by
  rw [getKey_eq_some_iff (h.edges_nodup a), h.mandatory_iff]
  constructor
  · rintro ⟨roles, role', hroles, hrole⟩
    exact ⟨role', by rwa [(getKey_eq_some_iff (h.roles_nodup a)).mpr hroles]⟩
  · rintro ⟨role', hrole⟩
    cases hroles : getKey t (s.referenceRoles a) with
    | none => simp [hroles] at hrole
    | some roles =>
      rw [hroles] at hrole
      exact ⟨roles, role', mem_of_getKey hroles, hrole⟩

theorem edges_record (s : Linking) : (s.record a t mandatory role).edges r =
    if r = a then upsert t (strengthen mandatory) (s.edges r) else s.edges r := rfl

theorem referenceRoles_record (s : Linking) : (s.record a t mandatory role).referenceRoles r =
    if r = a then upsert t (fun roles => upsert role (strengthen mandatory) (roles.getD []))
      (s.referenceRoles r) else s.referenceRoles r := rfl

/-- A link between registered records keeps the links consistent. -/
theorem Consistent.record (h : Consistent known s) (ha : a ∈ known) (ht : t ∈ known) :
    Consistent known (s.record a t mandatory role) := by
  have hkeys (r : Ref) : ((s.record a t mandatory role).referenceRoles r).map Prod.fst =
      ((s.record a t mandatory role).edges r).map Prod.fst := by
    rw [referenceRoles_record, edges_record]
    split_ifs
    · exact keys_upsert_congr (h.roles_keys r)
    · exact h.roles_keys r
  have hmem {r u : Ref} (hu : u ∈ ((s.record a t mandatory role).edges r).map Prod.fst) :
      (r = a ∧ u = t) ∨ u ∈ (s.edges r).map Prod.fst := by
    rw [edges_record] at hu
    split_ifs at hu with hr
    · exact (mem_keys_upsert.mp hu).imp_left fun hut => ⟨hr, hut⟩
    · exact .inr hu
  have hedges (r : Ref) : (((s.record a t mandatory role).edges r).map Prod.fst).Nodup := by
    rw [edges_record]
    split_ifs
    · exact nodup_upsert (h.edges_nodup r)
    · exact h.edges_nodup r
  refine ⟨?_, ?_, hedges, fun r => hkeys r ▸ hedges r, ?_, hkeys, ?_⟩
  · intro r u hu
    rcases hmem hu with ⟨rfl, -⟩ | hold
    · exact ha
    · exact h.source_mem r u hold
  · intro r u hu
    rcases hmem hu with ⟨-, rfl⟩ | hold
    · exact ht
    · exact h.target_mem r u hold
  · intro r u roles hroles
    rw [referenceRoles_record] at hroles
    split_ifs at hroles with hr
    · by_cases hu : u = t
      · rw [hu, mem_upsert_self (h.roles_nodup r)] at hroles
        rw [hroles]
        exact nodup_upsert (nodup_getKey h)
      · exact h.meanings_nodup r u roles ((mem_upsert_of_ne hu).mp hroles)
    · exact h.meanings_nodup r u roles hroles
  · intro r u
    rw [edges_record, referenceRoles_record]
    split_ifs with hr
    · by_cases hu : u = t
      · rw [hu, mem_upsert_self (h.edges_nodup r)]
        have hstrong : true = strengthen mandatory (getKey t (s.edges r)) ↔
            getKey t (s.edges r) = some true ∨ mandatory = true := by
          rw [strengthen]
          cases getKey t (s.edges r) with
          | none => cases mandatory <;> simp
          | some old => cases old <;> cases mandatory <;> simp
        rw [hstrong, getKey_edges_iff h, ← exists_mandatory_upsert (nodup_getKey h)]
        constructor
        · rintro ⟨role', hrole⟩
          exact ⟨_, role', (mem_upsert_self (h.roles_nodup r)).mpr rfl, hrole⟩
        · rintro ⟨roles, role', hroles, hrole⟩
          rw [mem_upsert_self (h.roles_nodup r)] at hroles
          exact ⟨role', hroles ▸ hrole⟩
      · rw [mem_upsert_of_ne hu, h.mandatory_iff]
        exact exists_congr fun roles => exists_congr fun role' =>
          and_congr_left fun _ => (mem_upsert_of_ne hu).symm
    · exact h.mandatory_iff r u

end Record

/-- Every link keeps the links consistent. -/
theorem consistent_link {payloadAsset : Json} {known : List Ref} {s t : Linking} {call : LinkCall}
    (h : Consistent known s) (hlink : s.link payloadAsset known call = .ok t) :
    Consistent known t := by
  simp only [Linking.link, bind_eq_ok_iff, require_eq_ok_iff] at hlink
  obtain ⟨-, -, -, htarget, -, hsource, hlink⟩ := hlink
  split_ifs at hlink with hlocal
  · cases hlink
    exact h.record hsource (htarget hlocal)
  · cases hlink
    exact ⟨h.source_mem, h.target_mem, h.edges_nodup, h.roles_nodup, h.meanings_nodup,
      h.roles_keys, h.mandatory_iff⟩

/-- The links of a registry are consistent. -/
theorem Linked.consistent {payloadAsset : Json} {records : List Record} {links : Links}
    (h : Linked payloadAsset records links) :
    ∃ s : Linking, Consistent (records.map Record.target) s ∧ s.links = links := by
  obtain ⟨calls, s, hrun, hlinks⟩ := h
  exact ⟨s, hrun.preserves (fun _ _ _ hs hlink => consistent_link hs hlink) (consistent_empty _),
    hlinks⟩

end Kdna.Ir

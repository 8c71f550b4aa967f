import Kdna.Ir.ClosureExact
import Kdna.Ir.Owned
import Kdna.Ir.Semantics

/-!
# Closures are complete

What applies to a judgment is in every closure that holds the judgment: the limits and exceptions
that the asset or the judgment declares, the declarations that judgments share and the materials
they rest on. With an exception come the limit it lifts and its condition, and with a judgment
those that it disagrees with, that support it or qualify it, and what it depends on.
-/

namespace Kdna.Ir

open Value

section Links

variable {r : Registry} {s t : Linking} {a b : Ref}

/-- The second links come from the first by calls of `link`. -/
def Registry.Grown (r : Registry) (s t : Linking) : Prop :=
  ∃ calls, Run (fun s call t => Linking.link r.asset r.known s call = .ok t) s calls t

instance (r : Registry) : IsPreorder Linking r.Grown where
  refl s := ⟨[], .nil s⟩
  trans := by
    rintro s t u ⟨es, hes⟩ ⟨fs, hfs⟩
    exact ⟨es ++ fs, Run.append_iff.mpr ⟨t, hes, hfs⟩⟩

/-- The first record needs the second. -/
def Linking.Needs (s : Linking) (a b : Ref) : Prop := getKey b (s.edges a) = some true

/-- A link takes no need away. -/
theorem needs_link {asset : Json} {known : List Ref} {call : LinkCall}
    (h : s.link asset known call = .ok t) (hs : s.Needs a b) : t.Needs a b := by
  simp only [Linking.link, bind_eq_ok_iff, require_eq_ok_iff] at h
  obtain ⟨-, -, -, -, -, -, h⟩ := h
  split_ifs at h with hlocal
  · obtain rfl := Except.ok.inj h
    rw [Linking.Needs, edges_record]
    split_ifs with ha
    · rw [getKey_upsert]
      split_ifs with hb
      · rw [← hb, hs]
        rfl
      · exact hs
    · exact hs
  · obtain rfl := Except.ok.inj h
    exact hs

theorem Registry.Grown.needs (h : r.Grown s t) (hs : s.Needs a b) : t.Needs a b := by
  obtain ⟨calls, hrun⟩ := h
  exact hrun.preserves (fun _ _ _ hs hlink => needs_link hlink hs) hs

theorem Linking.Needs.mandatory (h : s.Needs a b) : b ∈ s.links.mandatory a := by
  have hmem : (b, true) ∈ s.edges a := mem_of_getKey h
  exact List.mem_map.mpr ⟨(b, true), List.mem_filter.mpr ⟨hmem, rfl⟩, rfl⟩

end Links

section Keeping

open StatePass

variable {r : Registry}

theorem Registry.link_eq_ok_iff {call : LinkCall} {s : Linking} {x : Option Record × Linking} :
    r.link call s = .ok x ↔ r.get call.target call.kinds = .ok x.1 ∧
      s.link r.asset r.known call = .ok x.2 := by
  obtain ⟨found, t⟩ := x
  simp only [Registry.link, bind_eq_ok_iff, pure_eq_ok, Except.ok.injEq, Prod.mk.injEq]
  constructor
  · rintro ⟨_, hget, _, hlink, rfl, rfl⟩
    exact ⟨hget, hlink⟩
  · rintro ⟨hget, hlink⟩
    exact ⟨_, hget, _, hlink, rfl, rfl⟩

@[simp] theorem keeps_link (call : LinkCall) : Keeps r.Grown (r.link call) := by
  intro s found t h
  exact ⟨[call], .cons (Registry.link_eq_ok_iff.mp h).2 (.nil t)⟩

@[simp] theorem keeps_own (record : Record) (target : Target) (mandatory : Bool) (kinds : List Kind)
    (role : Option String) : Keeps r.Grown (r.own record target mandatory kinds role) :=
  keeps_link _

@[simp] theorem keeps_ownAll (record : Record) (targets : List Target) (kinds : List Kind) :
    Keeps r.Grown (r.ownAll record targets kinds) := by
  simp [Registry.ownAll, discard_eq]

/-- A needed target of the asset is registered, and the pass notes the need. -/
theorem needs_of_own {record : Record} {target : Target} {kinds : List Kind} {role : Option String}
    {s t : Linking} {found : Option Record} (hlocal : target.isLocal r.asset = true)
    (h : r.own record target true kinds role s = .ok (found, t)) :
    t.Needs record.target target.ref ∧ ∃ x ∈ r.records, x.target = target.ref ∧ found = some x := by
  obtain ⟨hget, hlink⟩ := Registry.link_eq_ok_iff.mp h
  simp only [Linking.link, hlocal, if_true, bind_eq_ok_iff, require_eq_ok_iff, pure_eq_ok,
    Except.ok.injEq] at hlink
  obtain ⟨-, -, -, -, -, -, rfl⟩ := hlink
  simp only [Registry.get, hlocal, if_true, bind_eq_ok_iff] at hget
  obtain ⟨-, -, hget⟩ := hget
  constructor
  · rw [Linking.Needs, edges_record, if_pos rfl, getKey_upsert, if_pos rfl, strengthen, Bool.or_true]
  · cases hfind : r.find target.ref with
    | error e =>
      rw [hfind] at hget
      cases hget
    | ok x =>
      rw [hfind] at hget
      obtain rfl : some x = found := Except.ok.inj hget
      rw [Registry.find, orFail_eq_ok_iff] at hfind
      exact ⟨x, List.mem_of_find?_eq_some hfind, by simpa using List.find?_some hfind, rfl⟩

theorem needs_of_ownAll {record : Record} {targets : List Target} {target : Target}
    {kinds : List Kind} {s t : Linking} {u : Unit} (hlocal : target.isLocal r.asset = true)
    (htarget : target ∈ targets) (h : r.ownAll record targets kinds s = .ok (u, t)) :
    t.Needs record.target target.ref := by
  obtain ⟨s', t', hturn, -, hgrown⟩ :=
    exists_turn (r := r.Grown) (fun target => by simp [discard_eq]) h htarget
  rw [discard_eq, StatePass.bind_ok_iff] at hturn
  obtain ⟨found, u', hown, hend⟩ := hturn
  obtain ⟨-, rfl⟩ := StatePass.pure_ok_iff.mp hend
  exact hgrown.needs (needs_of_own hlocal hown).1

section Loops

variable {rules : SemanticRules} {entries : Entries} {record : Record}

@[simp] theorem keeps_linkMaterial (terms : List String) :
    Keeps r.Grown (linkMaterial r record terms) := by
  unfold linkMaterial
  -- steps, branches and loops are taken apart; at the leaves are checks and links
  repeat' first | with_reducible refine keeps_bind ?_ fun _ => ?_ | refine keeps_ite ?_ ?_ |
    refine keeps_forM fun _ => ?_ | simp [discard_eq]

@[simp] theorem keeps_linkShared : Keeps r.Grown (linkShared r record) := by
  unfold linkShared
  repeat' first | with_reducible refine keeps_bind ?_ fun _ => ?_ | refine keeps_ite ?_ ?_ |
    refine keeps_forM fun _ => ?_ | simp [discard_eq]

@[simp] theorem keeps_linkCondition : Keeps r.Grown (linkCondition r record) := by
  unfold linkCondition
  repeat' first | with_reducible refine keeps_bind ?_ fun _ => ?_ | refine keeps_ite ?_ ?_ |
    refine keeps_forM fun _ => ?_ | simp [discard_eq]

@[simp] theorem keeps_linkComponent : Keeps r.Grown (linkComponent r record) := by
  unfold linkComponent
  repeat' first | with_reducible refine keeps_bind ?_ fun _ => ?_ | refine keeps_ite ?_ ?_ |
    refine keeps_forM fun _ => ?_ | simp [discard_eq]

@[simp] theorem keeps_linkReason : Keeps r.Grown (linkReason r record) := by
  unfold linkReason
  repeat' first | with_reducible refine keeps_bind ?_ fun _ => ?_ | refine keeps_ite ?_ ?_ |
    refine keeps_forM fun _ => ?_ | simp [discard_eq]

@[simp] theorem keeps_linkSourceUse : Keeps r.Grown (linkSourceUse r record) := by
  unfold linkSourceUse
  repeat' first | with_reducible refine keeps_bind ?_ fun _ => ?_ | refine keeps_ite ?_ ?_ |
    refine keeps_forM fun _ => ?_ | simp [discard_eq]

@[simp] theorem keeps_linkBoundary : Keeps r.Grown (linkBoundary r record) := by
  unfold linkBoundary
  repeat' first | with_reducible refine keeps_bind ?_ fun _ => ?_ | refine keeps_ite ?_ ?_ |
    refine keeps_forM fun _ => ?_ | simp [discard_eq]

@[simp] theorem keeps_linkException : Keeps r.Grown (linkException r record) := by
  unfold linkException
  repeat' first | with_reducible refine keeps_bind ?_ fun _ => ?_ | refine keeps_ite ?_ ?_ |
    refine keeps_forM fun _ => ?_ | simp [discard_eq]

@[simp] theorem keeps_linkRecord (terms : List String) :
    Keeps r.Grown (linkRecord rules r entries record terms) := by
  unfold linkRecord
  split
  all_goals repeat' first | with_reducible refine keeps_bind ?_ fun _ => ?_ | refine keeps_ite ?_ ?_ |
    refine keeps_forM fun _ => ?_ | simp [discard_eq]

@[simp] theorem keeps_linkExpression : Keeps r.Grown (linkExpression r record) := by
  unfold linkExpression
  repeat' first | with_reducible refine keeps_bind ?_ fun _ => ?_ | refine keeps_ite ?_ ?_ |
    refine keeps_forM fun _ => ?_ | simp [discard_eq]

@[simp] theorem keeps_linkUnit (judgment : String) (unit : Json) :
    Keeps r.Grown (linkUnit rules r judgment unit) := by
  unfold linkUnit
  repeat' first | with_reducible refine keeps_bind ?_ fun _ => ?_ | refine keeps_ite ?_ ?_ |
    refine keeps_forM fun _ => ?_ | simp [discard_eq]

@[simp] theorem keeps_linkBinding (judgment : String) (seen : List BindingKey) (binding : Json) :
    Keeps r.Grown (linkBinding rules r judgment seen binding) := by
  unfold linkBinding
  cases binding.prop "target"
  all_goals repeat' first | with_reducible refine keeps_bind ?_ fun _ => ?_ | refine keeps_ite ?_ ?_ |
    refine keeps_forM fun _ => ?_ | simp [discard_eq]

@[simp] theorem keeps_linkMethod : Keeps r.Grown (linkMethod rules r record) := by
  unfold linkMethod
  repeat' first | with_reducible refine keeps_bind ?_ fun _ => ?_ | refine keeps_ite ?_ ?_ |
    refine keeps_forM fun _ => ?_ | simp [discard_eq]

@[simp] theorem keeps_linkPorts : Keeps r.Grown (linkPorts rules r record) := by
  unfold linkPorts
  repeat' first | with_reducible refine keeps_bind ?_ fun _ => ?_ | refine keeps_ite ?_ ?_ |
    refine keeps_forM fun _ => ?_ | simp [discard_eq]

@[simp] theorem keeps_linkContentUse (used : List ((Option (List Char) × Ref) × String))
    (use : Json) : Keeps r.Grown (linkContentUse r record used use) := by
  unfold linkContentUse
  repeat' first | with_reducible refine keeps_bind ?_ fun _ => ?_ | refine keeps_ite ?_ ?_ |
    refine keeps_forM fun _ => ?_ | simp

@[simp] theorem keeps_linkCovering (kind : Kind) (items : List Json) :
    Keeps r.Grown (linkCovering r record kind items) := by
  unfold linkCovering
  repeat' first | with_reducible refine keeps_bind ?_ fun _ => ?_ | refine keeps_ite ?_ ?_ |
    refine keeps_forM fun _ => ?_ | simp [discard_eq]

@[simp] theorem keeps_linkApplying : Keeps r.Grown (linkApplying r record) := by
  unfold linkApplying
  repeat' first | with_reducible refine keeps_bind ?_ fun _ => ?_ | refine keeps_ite ?_ ?_ |
    refine keeps_forM fun _ => ?_ | simp [discard_eq]

@[simp] theorem keeps_linkJudgment (j : Json) : Keeps r.Grown (linkJudgment rules r j) := by
  unfold linkJudgment
  repeat' first | with_reducible refine keeps_bind ?_ fun _ => ?_ | refine keeps_ite ?_ ?_ |
    refine keeps_forM fun _ => ?_ | simp [discard_eq]

@[simp] theorem keeps_linkJudgments (a b : String) : Keeps r.Grown (linkJudgments r a b) := by
  unfold linkJudgments
  repeat' first | with_reducible refine keeps_bind ?_ fun _ => ?_ | refine keeps_ite ?_ ?_ |
    refine keeps_forM fun _ => ?_ | simp [discard_eq]

@[simp] theorem keeps_linkRelationship (relation : Json) :
    Keeps r.Grown (linkRelationship rules r relation) := by
  unfold linkRelationship
  repeat' first | with_reducible refine keeps_bind ?_ fun _ => ?_ | refine keeps_ite ?_ ?_ |
    refine keeps_forM fun _ => ?_ | simp [discard_eq]

@[simp] theorem keeps_linkDependency (dependency : Json) :
    Keeps r.Grown (linkDependency rules r dependency) := by
  unfold linkDependency
  repeat' first | with_reducible refine keeps_bind ?_ fun _ => ?_ | refine keeps_ite ?_ ?_ |
    refine keeps_forM fun _ => ?_ | simp [discard_eq]

@[simp] theorem keeps_adjoin (target : Target) (kinds : List Kind) (back : Kind) :
    Keeps r.Grown (adjoin r record target kinds back) := by
  unfold adjoin
  repeat' first | with_reducible refine keeps_bind ?_ fun _ => ?_ | refine keeps_ite ?_ ?_ |
    refine keeps_forM fun _ => ?_ | simp [discard_eq]

@[simp] theorem keeps_linkResult (example' : Record) :
    Keeps r.Grown (linkResult rules r example' record) := by
  unfold linkResult
  repeat' first | with_reducible refine keeps_bind ?_ fun _ => ?_ | refine keeps_ite ?_ ?_ |
    refine keeps_forM fun _ => ?_ | simp [discard_eq]

@[simp] theorem keeps_linkExample (v : Json) : Keeps r.Grown (linkExample rules r v) := by
  unfold linkExample
  repeat' first | with_reducible refine keeps_bind ?_ fun _ => ?_ | refine keeps_ite ?_ ?_ |
    refine keeps_forM fun _ => ?_ | simp [discard_eq]

@[simp] theorem keeps_linkRevision (v : Json) : Keeps r.Grown (linkRevision r v) := by
  unfold linkRevision
  repeat' first | with_reducible refine keeps_bind ?_ fun _ => ?_ | refine keeps_ite ?_ ?_ |
    refine keeps_forM fun _ => ?_ | simp [discard_eq]

@[simp] theorem keeps_linkKernel : Keeps r.Grown (linkKernel r record) := by
  unfold linkKernel
  repeat' first | with_reducible refine keeps_bind ?_ fun _ => ?_ | refine keeps_ite ?_ ?_ |
    refine keeps_forM fun _ => ?_ | simp

@[simp] theorem keeps_linkAsset : Keeps r.Grown (linkAsset r record) := by
  unfold linkAsset
  repeat' first | with_reducible refine keeps_bind ?_ fun _ => ?_ | refine keeps_ite ?_ ?_ |
    refine keeps_forM fun _ => ?_ | simp [discard_eq]

end Loops

end Keeping

/-- A limit, an exception, a shared declaration or a ground of judgments. -/
def Record.Governs (c : Record) : Prop :=
  c.target.kind = .sharedDeclaration ∨ c.target.kind = .exception ∨
    (c.target.kind = .boundary ∧ c.activation.any (·.propIs "kind" "always") = true) ∨
    (c.target.kind = .material ∧ kindIn c.value groundKinds = true)

/-- The scope of a value names the judgment or the whole asset. -/
def AppliesTo (v : Json) (id : String) : Prop :=
  ∃ scope, v.prop "applies_to" = some scope ∧ (scope.propIs "kind" "asset" = true ∨
    ∃ items, scope.prop "judgment_refs" = some (.arr items) ∧ Value.str id ∈ items)

/-- The limit that an exception puts in place of another. -/
def replacementOf (e : Json) : Option Json :=
  (e.prop "effect").bind fun effect =>
    if effect.propIs "kind" "replace_limit" then effect.prop "replacement" else none

/-- The relationship is of a kind and has the two judgments in the roles of the kind. -/
def Relates (rules : SemanticRules) (relation : Json) (kind first second : String) : Prop :=
  ∃ tuple parties, termOf relation "kind" = .ok kind ∧ rules.relationshipTuples kind = some tuple ∧
    relationParties relation = .ok parties ∧ getKey tuple.first parties = some first ∧
    getKey tuple.second parties = some second

/-- What a set of records holds that can be read on its own. -/
structure SelfContained (rules : SemanticRules) (r : Registry) (closed : List Record) : Prop where
  /-- With a judgment come all its bodies. -/
  bodies : ∀ id, ⟨.judgment, id⟩ ∈ closed.map Record.target → ∀ c ∈ r.records,
    c.judgment = some id → c ∈ closed
  /-- With a judgment comes what applies to it, wherever it is declared. -/
  governing : ∀ id, ⟨.judgment, id⟩ ∈ closed.map Record.target → ∀ c ∈ r.records, c.Governs →
    AppliesTo c.value id → c ∈ closed
  /-- With an exception comes the limit that it lifts, which names the exception. -/
  limit : ∀ e ∈ closed, e.target.kind = .exception → ∃ b ∈ closed, ∃ names,
    b.target.kind = .boundary ∧ e.value.prop "boundary_ref" = some (.str b.target.id) ∧
      memberTexts b.value "exception_refs" = .ok names ∧ e.target.id ∈ names
  condition : ∀ e ∈ closed, e.target.kind = .exception → ∃ target,
    memberTarget e.value "when" = .ok target ∧
      (target.isLocal r.asset = true → target.ref ∈ closed.map Record.target)
  replacement : ∀ e ∈ closed, e.target.kind = .exception → ∀ b id, replacementOf e.value = some b →
    b.prop "id" = some (.str id) → ⟨.boundary, id⟩ ∈ closed.map Record.target
  /-- Judgments in conflict come together, and one that is supported or qualified comes with the
  one that does it. -/
  related : ∀ relations, memberItems r.payload "relationships" = .ok relations →
    ∀ relation ∈ relations, ∀ kind first second, Relates rules relation kind first second →
      (kind = "conflict" → ⟨.judgment, first⟩ ∈ closed.map Record.target →
        ⟨.judgment, second⟩ ∈ closed.map Record.target) ∧
      (kind ∈ ["conflict", "support", "qualify"] → ⟨.judgment, second⟩ ∈ closed.map Record.target →
        ⟨.judgment, first⟩ ∈ closed.map Record.target)
  /-- With a judgment comes what it depends on, and the judgment that produces it. -/
  dependency : ∀ dependencies, memberItems r.payload "dependencies" = .ok dependencies →
    ∀ d ∈ dependencies, ∀ id consumer, d.prop "id" = some (.str id) →
      d.prop "consumer_judgment_ref" = some (.str consumer) → (d.given "required").isSome = true →
      ⟨.judgment, consumer⟩ ∈ closed.map Record.target →
      ⟨.dependency, id⟩ ∈ closed.map Record.target ∧
        ∀ producer p, d.prop "producer" = some producer →
          producer.propIs "kind" "judgment_result" = true →
          producer.prop "judgment_ref" = some (.str p) →
          ⟨.judgment, p⟩ ∈ closed.map Record.target

section Specs

open StatePass

variable {rules : SemanticRules} {r : Registry} {entries : Entries} {record : Record}
  {s t : Linking} {u : Unit}

theorem memberRefs_eq_ok_iff {kind : Kind} {v : Json} {name : String} {targets : List Target} :
    memberRefs kind v name = .ok targets ↔ ∃ ids, memberTexts v name = .ok ids ∧
      targets = ids.map fun id => Ref.asTarget ⟨kind, id⟩ := by
  simp only [memberRefs, bind_eq_ok_iff, pure_eq_ok, Except.ok.injEq]
  exact exists_congr fun ids => and_congr_right fun _ => eq_comm

theorem memberRef_eq_ok_iff {kind : Kind} {v : Json} {name : String} {target : Target} :
    memberRef kind v name = .ok target ↔ ∃ id, v.prop name = some (.str id) ∧
      target = Ref.asTarget ⟨kind, id⟩ := by
  simp only [memberRef, bind_eq_ok_iff, memberText_eq_ok_iff, pure_eq_ok, Except.ok.injEq]
  exact exists_congr fun id => and_congr_right fun _ => eq_comm

theorem find_eq_ok {target : Ref} {x : Record} (h : r.find target = .ok x) :
    x ∈ r.records ∧ x.target = target := by
  rw [Registry.find, orFail_eq_ok_iff] at h
  exact ⟨List.mem_of_find?_eq_some h, by simpa using List.find?_some h⟩

/-- What holds of a boundary and of the links behind it. -/
theorem linkBoundary_spec (h : linkBoundary r record s = .ok (u, t)) :
    keepsToJudgment record = .ok () ∧ ∃ names,
      memberTexts record.value "exception_refs" = .ok names ∧
        ∀ name ∈ names, t.Needs record.target ⟨.exception, name⟩ := by
  simp only [linkBoundary, StatePass.bind_ok_iff, StatePass.lift_ok_iff, discard_eq,
    StatePass.pure_ok_iff] at h
  obtain ⟨_, _, -, _, _, -, _, _, -, _, _, ⟨hkeeps, -⟩, targets, _, ⟨htargets, -⟩, _, _, -, hloop⟩ := h
  obtain ⟨names, hnames, rfl⟩ := memberRefs_eq_ok_iff.mp htargets
  refine ⟨hkeeps, names, hnames, fun name hname => ?_⟩
  obtain ⟨s', t', hturn, -, hgrown⟩ := exists_turn (r := r.Grown)
    (fun target => keeps_bind (keeps_own _ _ _ _ _) fun _ => keeps_lift _) hloop
    (List.mem_map_of_mem hname)
  simp only [StatePass.bind_ok_iff, StatePass.lift_ok_iff] at hturn
  obtain ⟨found, _, hown, -, rfl⟩ := hturn
  exact hgrown.needs (needs_of_own rfl hown).1

/-- The boundary is the limit that the exception lifts. -/
structure Lifts (r : Registry) (t : Linking) (e b : Record) : Prop where
  mem : b ∈ r.records
  kind : b.target.kind = .boundary
  named : e.value.prop "boundary_ref" = some (.str b.target.id)
  always : b.activation.any (·.propIs "kind" "always") = true
  names : ∃ names, memberTexts b.value "exception_refs" = .ok names ∧ e.target.id ∈ names
  scope : ∃ inner outer, r.appliesTo e.value = .ok inner ∧ r.appliesTo b.value = .ok outer ∧
    ∀ id ∈ inner, id ∈ outer
  needs : t.Needs e.target b.target

/-- What holds of an exception and of the links behind it. -/
theorem linkException_spec (h : linkException r record s = .ok (u, t)) :
    keepsToJudgment record = .ok () ∧ (∃ b, Lifts r t record b) ∧
      (∃ target, memberTarget record.value "when" = .ok target ∧
        (target.isLocal r.asset = true → t.Needs record.target target.ref)) ∧
      ∀ b id, replacementOf record.value = some b → b.prop "id" = some (.str id) →
        t.Needs record.target ⟨.boundary, id⟩ := by
  simp only [linkException, StatePass.bind_ok_iff, StatePass.lift_ok_iff,
    require_eq_ok_iff] at h
  obtain ⟨target, _, ⟨htarget, rfl⟩, found, _, hown, b, _, ⟨hb, rfl⟩, names, _, ⟨hnames, rfl⟩, _, _,
    ⟨⟨halways, hname⟩, rfl⟩, inner, _, ⟨hinner, rfl⟩, outer, _, ⟨houter, rfl⟩, _, _, ⟨hsub, rfl⟩, _, _,
    ⟨hkeeps, rfl⟩, condition, s₁, ⟨hcondition, rfl⟩, _, _, hwhen, effect, s₂, ⟨heffect, rfl⟩, hlast⟩ := h
  obtain ⟨name, hprop, rfl⟩ := memberRef_eq_ok_iff.mp htarget
  obtain ⟨hneeds, x, hx, hxtarget, rfl⟩ := needs_of_own rfl hown
  obtain rfl : x = b := Option.some.inj (orFail_eq_ok_iff.mp hb)
  have hfirst : r.Grown s₁ s₂ := keeps_ownAll _ _ _ _ _ _ hwhen
  have hrest : r.Grown s₂ t := by
    refine StatePass.keeps_ite ?_ (keeps_pure _) _ _ _ hlast
    repeat' first | with_reducible refine keeps_bind ?_ fun _ => ?_ | simp
  refine ⟨hkeeps, ⟨x, hx, ?_, ?_, halways, ⟨names, hnames, hname⟩, ⟨inner, outer, hinner, houter, hsub⟩,
    ?_⟩, ⟨condition, hcondition, fun hlocal => ?_⟩, ?_⟩
  · rw [hxtarget]
    rfl
  · rw [hxtarget]
    exact hprop
  · rw [hxtarget]
    exact hrest.needs (hfirst.needs hneeds)
  · exact hrest.needs (needs_of_ownAll hlocal (List.mem_singleton_self _) hwhen)
  · intro replacement id hreplacement hid
    rw [member_eq_ok_iff] at heffect
    rw [replacementOf, heffect, Option.bind_some] at hreplacement
    split_ifs at hreplacement with hkind
    rw [if_pos hkind] at hlast
    simp only [StatePass.bind_ok_iff, StatePass.lift_ok_iff, member_eq_ok_iff,
      memberRef_eq_ok_iff] at hlast
    obtain ⟨v, _, ⟨hv, rfl⟩, limit, _, ⟨⟨id', hid', rfl⟩, rfl⟩, found, s₃, hown', _, _, ⟨-, rfl⟩, _, _,
      ⟨-, rfl⟩, _, _, ⟨-, rfl⟩, _, _, ⟨-, rfl⟩, _, _, ⟨-, rfl⟩, -, rfl⟩ := hlast
    obtain rfl : v = replacement := Option.some.inj (hv.symm.trans hreplacement)
    obtain rfl : id' = id := Value.str.inj (Option.some.inj (hid'.symm.trans hid))
    exact (needs_of_own rfl hown').1

/-- What applies to a judgment is needed by it. -/
theorem linkCovering_spec {kind : Kind} {items : List Json}
    (h : linkCovering r record kind items s = .ok (u, t)) {v : Json} (hv : v ∈ items) {id : String}
    (hid : v.prop "id" = some (.str id)) :
    ∃ ids, r.appliesTo v = .ok ids ∧ (record.target.id ∈ ids → t.Needs record.target ⟨kind, id⟩) := by
  obtain ⟨s', t', hturn, -, hgrown⟩ := exists_turn (r := r.Grown) (fun v => by
    repeat' first | with_reducible refine keeps_bind ?_ fun _ => ?_ | simp) h hv
  simp only [StatePass.bind_ok_iff, StatePass.lift_ok_iff, Registry.covers,
    bind_eq_ok_iff, pure_eq_ok, Except.ok.injEq] at hturn
  obtain ⟨_, _, ⟨⟨ids, hids, rfl⟩, rfl⟩, hturn⟩ := hturn
  refine ⟨ids, hids, fun hmem => hgrown.needs ?_⟩
  rw [if_pos (List.contains_iff_mem.mpr hmem)] at hturn
  simp only [StatePass.bind_ok_iff, StatePass.lift_ok_iff, memberRef_eq_ok_iff] at hturn
  obtain ⟨_, _, ⟨⟨id', hid', rfl⟩, rfl⟩, hown⟩ := hturn
  obtain rfl : id' = id := Value.str.inj (Option.some.inj (hid'.symm.trans hid))
  exact needs_of_ownAll rfl (List.mem_singleton_self _) hown

/-- What holds behind the turn of a judgment. -/
structure Served (r : Registry) (t : Linking) (id : String) : Prop where
  bodies : ∀ c ∈ r.records, c.judgment = some id → c.target ≠ ⟨.judgment, id⟩ →
    t.Needs ⟨.judgment, id⟩ c.target
  shared : ∃ items, memberItems r.payload "shared_declarations" = .ok items ∧
    ∀ v ∈ items, ∀ i, v.prop "id" = some (.str i) →
      ∃ ids, r.appliesTo v = .ok ids ∧ (id ∈ ids → t.Needs ⟨.judgment, id⟩ ⟨.sharedDeclaration, i⟩)
  materials : ∃ items, memberItems r.payload "materials" = .ok items ∧
    ∀ v ∈ items, kindIn v groundKinds = true → ∀ i, v.prop "id" = some (.str i) →
      ∃ ids, r.appliesTo v = .ok ids ∧ (id ∈ ids → t.Needs ⟨.judgment, id⟩ ⟨.material, i⟩)
  boundaries : ∃ declarations items, member r.payload "declarations" = .ok declarations ∧
    declaredValues declarations "boundaries" = .ok items ∧
    ∀ v ∈ items, ∀ i, v.prop "id" = some (.str i) →
      ∃ ids, r.appliesTo v = .ok ids ∧ (id ∈ ids → t.Needs ⟨.judgment, id⟩ ⟨.boundary, i⟩)

theorem linkJudgment_spec {j : Json} (h : linkJudgment rules r j s = .ok (u, t)) :
    ∃ id, j.prop "id" = some (.str id) ∧ Served r t id := by
  rw [linkJudgment] at h
  obtain ⟨id, _, hid, h⟩ := StatePass.bind_ok_iff.mp h
  obtain ⟨found, _, hfound, h⟩ := StatePass.bind_ok_iff.mp h
  obtain ⟨_, _, -, h⟩ := StatePass.bind_ok_iff.mp h
  obtain ⟨_, s₁, hbodies, h⟩ := StatePass.bind_ok_iff.mp h
  have htarget := (find_eq_ok (StatePass.lift_ok_iff.mp hfound).1).2
  have hrest : r.Grown s₁ t := by
    refine (?_ : Keeps r.Grown _) _ _ _ h
    repeat' first | with_reducible refine keeps_bind ?_ fun _ => ?_ | refine keeps_forM fun _ => ?_ |
      simp [discard_eq]
  iterate 17 obtain ⟨_, _, h⟩ := exists_rest h
  obtain ⟨_, s₂, happlying, hlast⟩ := StatePass.bind_ok_iff.mp h
  have hend : r.Grown s₂ t := by
    refine (?_ : Keeps r.Grown _) _ _ _ hlast
    exact keeps_bind (keeps_lift _) fun _ => keeps_forM fun _ => by simp [discard_eq]
  simp only [StatePass.bind_ok_iff, StatePass.lift_ok_iff, linkApplying] at happlying
  obtain ⟨shared, _, ⟨hshared, -⟩, _, _, hcovered, materials, s₃, ⟨hmaterials, rfl⟩, _, _, hgrounds,
    declarations, _, ⟨hdeclarations, rfl⟩, limits, s₄, ⟨hlimits, rfl⟩, hboundaries⟩ := happlying
  have hlimited : r.Grown s₄ t := trans_of r.Grown (keeps_linkCovering _ _ _ _ _ hboundaries) hend
  have hgrounded : r.Grown s₃ t :=
    trans_of r.Grown (keeps_linkCovering _ _ _ _ _ hgrounds) hlimited
  refine ⟨id, memberText_eq_ok_iff.mp (StatePass.lift_ok_iff.mp hid).1, ?_, ?_, ?_, ?_⟩
  · intro c hc hjudgment hne
    have hchild : c ∈ r.records.filter fun c => c.judgment = some id ∧ c.target ≠ found.target :=
      List.mem_filter.mpr ⟨hc, by simpa [htarget, hjudgment] using hne⟩
    obtain ⟨s', t', hturn, -, hgrown⟩ := exists_turn (r := r.Grown)
      (fun child => keeps_ownAll _ _ _) hbodies hchild
    rw [← htarget]
    exact hrest.needs (hgrown.needs (needs_of_ownAll rfl (List.mem_singleton_self _) hturn))
  · refine ⟨shared, hshared, fun v hv i hi => ?_⟩
    obtain ⟨ids, hids, hneeds⟩ := linkCovering_spec hcovered hv hi
    rw [htarget] at hneeds
    exact ⟨ids, hids, fun hmem => hgrounded.needs (hneeds hmem)⟩
  · refine ⟨materials, hmaterials, fun v hv hground i hi => ?_⟩
    obtain ⟨ids, hids, hneeds⟩ := linkCovering_spec hgrounds (List.mem_filter.mpr ⟨hv, hground⟩) hi
    rw [htarget] at hneeds
    exact ⟨ids, hids, fun hmem => hlimited.needs (hneeds hmem)⟩
  · refine ⟨declarations, limits, hdeclarations, hlimits, fun v hv i hi => ?_⟩
    obtain ⟨ids, hids, hneeds⟩ := linkCovering_spec hboundaries hv hi
    rw [htarget] at hneeds
    exact ⟨ids, hids, fun hmem => hend.needs (hneeds hmem)⟩

/-- A link between two judgments is needed. -/
theorem linkJudgments_spec {a b : String} (h : linkJudgments r a b s = .ok (u, t)) :
    t.Needs ⟨.judgment, a⟩ ⟨.judgment, b⟩ := by
  simp only [linkJudgments, StatePass.bind_ok_iff, StatePass.lift_ok_iff] at h
  obtain ⟨x, _, ⟨hx, rfl⟩, hown⟩ := h
  rw [← (find_eq_ok hx).2]
  exact needs_of_ownAll rfl (List.mem_singleton_self _) hown

theorem linkRelationship_spec {relation : Json} {kind first second : String}
    (hrelates : Relates rules relation kind first second)
    (h : linkRelationship rules r relation s = .ok (u, t)) :
    (kind = "conflict" → t.Needs ⟨.judgment, first⟩ ⟨.judgment, second⟩) ∧
      (kind ∈ ["conflict", "support", "qualify"] →
        t.Needs ⟨.judgment, second⟩ ⟨.judgment, first⟩) := by
  obtain ⟨tuple, parties, hkind, htuple, hparties, hfirst, hsecond⟩ := hrelates
  simp only [linkRelationship, StatePass.bind_ok_iff, StatePass.lift_ok_iff, hkind, hparties,
    orFail_eq_ok_iff, Except.ok.injEq] at h
  obtain ⟨_, _, -, _, _, -, _, _, ⟨rfl, -⟩, tuple', _, ⟨htuple', -⟩, _, _, -, _, _, -, _, _, ⟨rfl, -⟩,
    _, _, -, first', _, ⟨hfirst', -⟩, second', _, ⟨hsecond', -⟩, _, _, -, _, _, -, hlinks⟩ := h
  obtain rfl : tuple = tuple' := Option.some.inj (htuple.symm.trans htuple')
  obtain rfl : first = first' := Option.some.inj (hfirst.symm.trans hfirst')
  obtain rfl : second = second' := Option.some.inj (hsecond.symm.trans hsecond')
  by_cases hconflict : kind = "conflict"
  · rw [if_pos hconflict, StatePass.bind_ok_iff] at hlinks
    obtain ⟨_, s₁, hthere, hback⟩ := hlinks
    have hgrown : r.Grown s₁ t := keeps_linkJudgments _ _ _ _ _ hback
    exact ⟨fun _ => hgrown.needs (linkJudgments_spec hthere), fun _ => linkJudgments_spec hback⟩
  · rw [if_neg hconflict] at hlinks
    refine ⟨fun h => absurd h hconflict, fun hmem => ?_⟩
    rw [if_pos ((List.mem_cons.mp hmem).resolve_left hconflict)] at hlinks
    exact linkJudgments_spec hlinks

theorem linkDependency_spec {d : Json} {id consumer : String} (hid : d.prop "id" = some (.str id))
    (hconsumer : d.prop "consumer_judgment_ref" = some (.str consumer))
    (hrequired : (d.given "required").isSome = true)
    (h : linkDependency rules r d s = .ok (u, t)) :
    t.Needs ⟨.judgment, consumer⟩ ⟨.dependency, id⟩ ∧
      ∀ producer p, d.prop "producer" = some producer →
        producer.propIs "kind" "judgment_result" = true →
        producer.prop "judgment_ref" = some (.str p) →
        t.Needs ⟨.dependency, id⟩ ⟨.judgment, p⟩ := by
  simp only [linkDependency, StatePass.bind_ok_iff, StatePass.lift_ok_iff, discard_eq,
    StatePass.pure_ok_iff, memberText_eq_ok_iff, member_eq_ok_iff, hid, hconsumer, hrequired,
    Option.some.injEq, Value.str.injEq] at h
  obtain ⟨_, _, ⟨rfl, -⟩, record, _, ⟨hrecord, -⟩, _, _, ⟨rfl, -⟩, judgment, _, ⟨hjudgment, -⟩, _, _, -,
    _, _, -, _, _, -, _, _, -, _, _, -, _, _, -, _, _, -, _, _, -, _, _, ⟨_, _, hown, -, rfl⟩,
    producer, s₁, ⟨hproducer, rfl⟩, hlast⟩ := h
  have hrecord := (find_eq_ok hrecord).2
  have hjudgment := (find_eq_ok hjudgment).2
  have hgrown : r.Grown s₁ t := by
    refine (?_ : Keeps r.Grown _) _ _ _ hlast
    repeat' first | with_reducible refine keeps_bind ?_ fun _ => ?_ |
      refine keeps_ite ?_ ?_ | simp
  have hneeds := (needs_of_own rfl hown).1
  rw [hjudgment, Ref.asTarget, hrecord] at hneeds
  refine ⟨hgrown.needs hneeds, fun producer' p hprop hkind hp => ?_⟩
  obtain rfl : producer = producer' := Option.some.inj (hproducer.symm.trans hprop)
  rw [if_pos hkind] at hlast
  obtain ⟨p', _, hread, hlast⟩ := StatePass.bind_ok_iff.mp hlast
  have hp' := memberText_eq_ok_iff.mp (StatePass.lift_ok_iff.mp hread).1
  obtain rfl : p' = p := Value.str.inj (Option.some.inj (hp'.symm.trans hp))
  obtain ⟨_, s₂, hown', hlast⟩ := StatePass.bind_ok_iff.mp hlast
  have hrest : r.Grown s₂ t := by
    refine (?_ : Keeps r.Grown _) _ _ _ hlast
    repeat' first | with_reducible refine keeps_bind ?_ fun _ => ?_ | simp
  rw [← hrecord]
  exact hrest.needs (needs_of_ownAll rfl (List.mem_singleton_self _) hown')

/-- What holds behind the pass: every record and every judgment, relationship and dependency had
its turn. -/
structure Swept (rules : SemanticRules) (r : Registry) (entries : Entries) (t : Linking) : Prop where
  grown : r.Grown .empty t
  records : ∀ c ∈ r.records, ∃ terms terms' s s', linkRecord rules r entries c terms s = .ok (terms', s') ∧
    r.Grown s' t
  judgments : ∃ js, r.judgments = .ok js ∧ ∀ j ∈ js, ∃ s s', linkJudgment rules r j s = .ok ((), s') ∧
    r.Grown s' t
  relationships : ∃ relations, memberItems r.payload "relationships" = .ok relations ∧
    ∀ x ∈ relations, ∃ s s', linkRelationship rules r x s = .ok ((), s') ∧ r.Grown s' t
  dependencies : ∃ dependencies, memberItems r.payload "dependencies" = .ok dependencies ∧
    ∀ x ∈ dependencies, ∃ s s', linkDependency rules r x s = .ok ((), s') ∧ r.Grown s' t

theorem semanticPass_spec {manifest : Json}
    (h : semanticPass rules manifest entries r .empty = .ok (u, t)) : Swept rules r entries t := by
  have hall : r.Grown .empty t := by
    refine (?_ : Keeps r.Grown _) _ _ _ h
    unfold semanticPass
    repeat' first | with_reducible refine keeps_bind ?_ fun _ => ?_ | refine keeps_forM fun _ => ?_ |
      refine keeps_foldlM fun _ _ => ?_ | simp [discard_eq]
  rw [semanticPass] at h
  iterate 5 obtain ⟨_, _, h⟩ := exists_rest h
  obtain ⟨_, _, hrecords, h₁⟩ := StatePass.bind_ok_iff.mp h
  rw [discard_eq, StatePass.bind_ok_iff] at hrecords
  obtain ⟨_, _, hrecords, hdone⟩ := hrecords
  obtain ⟨-, rfl⟩ := StatePass.pure_ok_iff.mp hdone
  obtain ⟨_, _, hread, h₂⟩ := StatePass.bind_ok_iff.mp h₁
  obtain ⟨-, rfl⟩ := StatePass.lift_ok_iff.mp hread
  obtain ⟨judgments, s₁, hread, h₃⟩ := StatePass.bind_ok_iff.mp h₂
  obtain ⟨hjudgments, rfl⟩ := StatePass.lift_ok_iff.mp hread
  obtain ⟨_, _, hlinked, h₄⟩ := StatePass.bind_ok_iff.mp h₃
  obtain ⟨relations, s₂, hread, h₅⟩ := StatePass.bind_ok_iff.mp h₄
  obtain ⟨hrelations, rfl⟩ := StatePass.lift_ok_iff.mp hread
  obtain ⟨_, _, hrelated, h₆⟩ := StatePass.bind_ok_iff.mp h₅
  obtain ⟨dependencies, s₃, hread, h₇⟩ := StatePass.bind_ok_iff.mp h₆
  obtain ⟨hdependencies, rfl⟩ := StatePass.lift_ok_iff.mp hread
  obtain ⟨_, s₄, hdepend, hlast⟩ := StatePass.bind_ok_iff.mp h₇
  have hend : r.Grown s₄ t := by
    refine (?_ : Keeps r.Grown _) _ _ _ hlast
    repeat' first | with_reducible refine keeps_bind ?_ fun _ => ?_ | refine keeps_forM fun _ => ?_ |
      simp [discard_eq]
  have hthird : r.Grown s₃ t :=
    trans_of r.Grown (keeps_forM (fun _ => keeps_linkDependency _) _ _ _ hdepend) hend
  have hsecond : r.Grown s₂ t :=
    trans_of r.Grown (keeps_forM (fun _ => keeps_linkRelationship _) _ _ _ hrelated) hthird
  have hfirst : r.Grown s₁ t :=
    trans_of r.Grown (keeps_forM (fun _ => keeps_linkJudgment _) _ _ _ hlinked) hsecond
  refine ⟨hall, fun c hc => ?_, ⟨judgments, hjudgments, fun j hj => ?_⟩,
    ⟨relations, hrelations, fun x hx => ?_⟩, ⟨dependencies, hdependencies, fun x hx => ?_⟩⟩
  · obtain ⟨terms, terms', s', t', hturn, -, hgrown⟩ := exists_turn_foldlM (r := r.Grown)
      (fun terms record => keeps_linkRecord terms) hrecords hc
    exact ⟨terms, terms', s', t', hturn, trans_of r.Grown hgrown hfirst⟩
  · obtain ⟨s', t', hturn, -, hgrown⟩ := exists_turn (r := r.Grown)
      (fun j => keeps_linkJudgment j) hlinked hj
    exact ⟨s', t', hturn, trans_of r.Grown hgrown hsecond⟩
  · obtain ⟨s', t', hturn, -, hgrown⟩ := exists_turn (r := r.Grown)
      (fun j => keeps_linkRelationship j) hrelated hx
    exact ⟨s', t', hturn, trans_of r.Grown hgrown hthird⟩
  · obtain ⟨s', t', hturn, -, hgrown⟩ := exists_turn (r := r.Grown)
      (fun j => keeps_linkDependency j) hdepend hx
    exact ⟨s', t', hturn, trans_of r.Grown hgrown hend⟩

end Specs

section Scopes

variable {r : Registry} {record : Record} {v : Json} {id : String} {ids : List String}

/-- A scope that applies to a judgment lists it. -/
theorem mem_of_appliesTo (h : r.appliesTo v = .ok ids) (happlies : AppliesTo v id)
    (hid : ∃ js, r.judgments = .ok js ∧ ∃ j ∈ js, j.prop "id" = some (.str id)) : id ∈ ids := by
  obtain ⟨scope, hscope, happlies⟩ := happlies
  rw [Registry.appliesTo, member, hscope] at h
  rw [orFail, ok_bind, Registry.applies] at h
  split_ifs at h with hasset
  · obtain ⟨js, hjs, j, hj, hprop⟩ := hid
    rw [hjs, ok_bind] at h
    obtain ⟨i, hi, hread⟩ := exists_mem_mapM h hj
    rw [memberText_eq_ok_iff, hprop, Option.some.injEq, Value.str.injEq] at hread
    exact hread ▸ hi
  · simp only [bind_eq_ok_iff, require_eq_ok_iff, memberTexts, memberItems_eq_ok_iff, pure_eq_ok,
      Except.ok.injEq] at h
    obtain ⟨-, -, texts, ⟨items, hitems, htexts⟩, -, -, -, -, rfl⟩ := h
    obtain ⟨items', hitems', hmem⟩ := happlies.resolve_left hasset
    obtain rfl : items = items' := Value.arr.inj (Option.some.inj (hitems.symm.trans hitems'))
    obtain ⟨i, hi, hread⟩ := exists_mem_mapM htexts hmem
    rw [orFail_eq_ok_iff, text?, Option.some.injEq] at hread
    exact hread ▸ hi

/-- What a scope lists, it applies to. -/
theorem appliesTo_of_mem (h : r.appliesTo v = .ok ids) (hid : id ∈ ids) : AppliesTo v id := by
  simp only [Registry.appliesTo, bind_eq_ok_iff, member_eq_ok_iff, Registry.applies] at h
  obtain ⟨scope, hscope, h⟩ := h
  refine ⟨scope, hscope, ?_⟩
  split_ifs at h with hasset
  · exact .inl hasset
  · simp only [bind_eq_ok_iff, require_eq_ok_iff, memberTexts, memberItems_eq_ok_iff, pure_eq_ok,
      Except.ok.injEq] at h
    obtain ⟨-, -, texts, ⟨items, hitems, htexts⟩, -, -, -, -, rfl⟩ := h
    obtain ⟨item, hitem, hread⟩ := exists_of_mem_mapM htexts hid
    rw [orFail_eq_ok_iff] at hread
    have hitem' : item = .str id := by
      cases item <;> simp_all [text?]
    exact .inr ⟨items, hitems, hitem' ▸ hitem⟩

/-- What a judgment declares for itself applies to no other. -/
theorem eq_of_keepsToJudgment (h : keepsToJudgment record = .ok ()) {own : String}
    (hown : record.judgment = some own) (hne : own ≠ "") (happlies : AppliesTo record.value id) :
    id = own := by
  simp only [keepsToJudgment, bind_eq_ok_iff, member_eq_ok_iff, require_eq_ok_iff] at h
  obtain ⟨scope, hscope, hall⟩ := h
  obtain ⟨hkind, hrefs⟩ := hall own (by simp [Record.judgment?, hown, hne])
  obtain ⟨scope', hscope', happlies⟩ := happlies
  obtain rfl : scope = scope' := Option.some.inj (hscope.symm.trans hscope')
  rcases happlies with hasset | ⟨items, hitems, hmem⟩
  · rw [propIs_eq_true_iff] at hkind hasset
    rw [hkind, Option.some.injEq, Value.str.injEq] at hasset
    exact absurd hasset (by decide)
  · rw [toOption_eq_some_iff, memberTexts, memberItems_eq_ok_iff.mpr hitems, ok_bind] at hrefs
    obtain ⟨i, hi, hread⟩ := exists_mem_mapM hrefs hmem
    rw [orFail_eq_ok_iff, text?, Option.some.injEq] at hread
    rw [hread]
    exact List.mem_singleton.mp hi

end Scopes

section Closures

variable {rules : SemanticRules} {manifest payload : Json} {entries : Entries} {asset : Json}
  {root : Ref} {records closed : List Record} {seeds : List Ref} {t : Linking} {c : Record}
  {a b : Ref}

/-- What a record of a closure needs is in the closure. -/
theorem mem_of_needs (hclosed : closure records t.links seeds = .ok closed)
    (ha : a ∈ closed.map Record.target) (h : t.Needs a b) : b ∈ closed.map Record.target :=
  (closure_isLeast hclosed).1.2 a ha b h.mandatory

/-- A record whose target is in a closure is in the closure. -/
theorem mem_of_target (hnodup : (records.map Record.target).Nodup)
    (hclosed : closure records t.links seeds = .ok closed) (hc : c ∈ records)
    (h : c.target ∈ closed.map Record.target) : c ∈ closed := by
  obtain ⟨d, hd, htarget⟩ := List.mem_map.mp h
  rwa [← List.inj_on_of_nodup_map hnodup ((closure_sublist hclosed).subset hd) hc htarget]

section Swept

variable (hswept : Swept rules ⟨payload, asset, records⟩ entries t)

include hswept

/-- A judgment of the registry had its turn. -/
theorem Swept.served (hregistered : Registered manifest payload root records) {id : String}
    (hid : ⟨.judgment, id⟩ ∈ records.map Record.target) : Served ⟨payload, asset, records⟩ t id := by
  obtain ⟨js, hjs, hall⟩ := hswept.judgments
  obtain rfl : js = hregistered.judgmentItems :=
    Except.ok.inj (hjs.symm.trans hregistered.judgmentItems_eq)
  obtain ⟨j, hj, hprop⟩ := hregistered.exists_judgment hid
  obtain ⟨s, s', hturn, hgrown⟩ := hall j hj
  obtain ⟨id', hid', hserved⟩ := linkJudgment_spec hturn
  obtain rfl : id' = id := Value.str.inj (Option.some.inj (hid'.symm.trans hprop))
  have hneeds {b : Ref} (h : s'.Needs ⟨.judgment, id'⟩ b) : t.Needs ⟨.judgment, id'⟩ b := hgrown.needs h
  obtain ⟨hbodies, ⟨shared, hshared, hs⟩, ⟨materials, hmaterials, hm⟩,
    ⟨declarations, limits, hdeclarations, hlimits, hb⟩⟩ := hserved
  refine ⟨fun c hc hjudgment hne => hneeds (hbodies c hc hjudgment hne),
    ⟨shared, hshared, fun v hv i hi => ?_⟩, ⟨materials, hmaterials, fun v hv hground i hi => ?_⟩,
    ⟨declarations, limits, hdeclarations, hlimits, fun v hv i hi => ?_⟩⟩
  · obtain ⟨ids, hids, h⟩ := hs v hv i hi
    exact ⟨ids, hids, fun hmem => hneeds (h hmem)⟩
  · obtain ⟨ids, hids, h⟩ := hm v hv hground i hi
    exact ⟨ids, hids, fun hmem => hneeds (h hmem)⟩
  · obtain ⟨ids, hids, h⟩ := hb v hv i hi
    exact ⟨ids, hids, fun hmem => hneeds (h hmem)⟩

/-- What holds behind the turn of an exception. -/
theorem Swept.exception (hc : c ∈ records) (hkind : c.target.kind = .exception) :
    keepsToJudgment c = .ok () ∧ (∃ b, Lifts ⟨payload, asset, records⟩ t c b) ∧
      (∃ target, memberTarget c.value "when" = .ok target ∧
        (target.isLocal asset = true → t.Needs c.target target.ref)) ∧
      ∀ b id, replacementOf c.value = some b → b.prop "id" = some (.str id) →
        t.Needs c.target ⟨.boundary, id⟩ := by
  obtain ⟨terms, terms', s, s', hturn, hgrown⟩ := hswept.records c hc
  simp only [linkRecord, hkind, StatePass.bind_ok_iff] at hturn
  obtain ⟨_, s₁, hturn, hend⟩ := hturn
  obtain ⟨-, rfl⟩ := StatePass.pure_ok_iff.mp hend
  obtain ⟨hkeeps, ⟨b, hb⟩, ⟨target, htarget, hwhen⟩, hreplacement⟩ := linkException_spec hturn
  exact ⟨hkeeps, ⟨b, { hb with needs := hgrown.needs hb.needs }⟩,
    ⟨target, htarget, fun hlocal => hgrown.needs (hwhen hlocal)⟩,
    fun b id hb hid => hgrown.needs (hreplacement b id hb hid)⟩

/-- What holds behind the turn of a boundary. -/
theorem Swept.boundary (hc : c ∈ records) (hkind : c.target.kind = .boundary) :
    keepsToJudgment c = .ok () ∧ ∃ names, memberTexts c.value "exception_refs" = .ok names ∧
      ∀ name ∈ names, t.Needs c.target ⟨.exception, name⟩ := by
  obtain ⟨terms, terms', s, s', hturn, hgrown⟩ := hswept.records c hc
  simp only [linkRecord, hkind, StatePass.bind_ok_iff] at hturn
  obtain ⟨_, s₁, hturn, hend⟩ := hturn
  obtain ⟨-, rfl⟩ := StatePass.pure_ok_iff.mp hend
  obtain ⟨hkeeps, names, hnames, hneeds⟩ := linkBoundary_spec hturn
  exact ⟨hkeeps, names, hnames, fun name hname => hgrown.needs (hneeds name hname)⟩

section Contained

variable (hregistered : Registered manifest payload root records)
  (hnodup : (records.map Record.target).Nodup) (hnamed : ∀ c ∈ records, c.judgment ≠ some "")
  (hclosed : closure records t.links seeds = .ok closed) {id : String}
  (hid : ⟨.judgment, id⟩ ∈ closed.map Record.target)

include hregistered hnodup hclosed hid

/-- The bodies of a judgment come with it. -/
theorem Swept.body (hc : c ∈ records) (hjudgment : c.judgment = some id) : c ∈ closed := by
  refine mem_of_target hnodup hclosed hc ?_
  by_cases htarget : c.target = ⟨.judgment, id⟩
  · rwa [htarget]
  · exact mem_of_needs hclosed hid ((hswept.served hregistered
      ((closure_sublist hclosed).map _ |>.subset hid)).bodies c hc hjudgment htarget)

include hnamed

/-- A limit or an exception that a judgment declares comes with every judgment it applies to. -/
theorem Swept.declared {own : String} (hc : c ∈ records) (hkeeps : keepsToJudgment c = .ok ())
    (hown : c.judgment = some own) (happlies : AppliesTo c.value id) : c ∈ closed := by
  obtain rfl : id = own := eq_of_keepsToJudgment hkeeps hown
    (fun hempty => hnamed c hc (hempty ▸ hown)) happlies
  exact hswept.body hregistered hnodup hclosed hid hc hown

/-- A limit comes with every judgment it applies to. -/
theorem Swept.bounded (hc : c ∈ records) (hkind : c.target.kind = .boundary)
    (halways : c.activation.any (·.propIs "kind" "always") = true)
    (happlies : AppliesTo c.value id) : c ∈ closed := by
  cases hjudgment : c.judgment with
  | some own =>
    exact hswept.declared hregistered hnodup hnamed hclosed hid hc (hswept.boundary hc hkind).1
      hjudgment happlies
  | none =>
    have hrecorded := (closure_sublist hclosed).map Record.target |>.subset hid
    rcases hregistered.origin hc hjudgment (by rw [hkind]; decide) with
      ⟨name, items, hroot, -⟩ | ⟨-, horigin⟩
    · rw [hkind] at hroot
      have hno : Kind.boundary ∉ rootCollections.map Prod.fst := by decide
      exact absurd (List.mem_map_of_mem (f := Prod.fst) hroot) hno
    · obtain ⟨declarations, items, hdeclarations, hitems, hitem, hprop⟩ := horigin hkind halways
      obtain ⟨declarations', items', hdeclarations', hitems', hneeds⟩ :=
        (hswept.served hregistered hrecorded).boundaries
      obtain rfl := Except.ok.inj (hdeclarations.symm.trans hdeclarations')
      obtain rfl := Except.ok.inj (hitems.symm.trans hitems')
      obtain ⟨ids, hids, hneeds⟩ := hneeds _ hitem _ hprop
      have hmem : id ∈ ids := mem_of_appliesTo hids happlies
        ⟨_, hregistered.judgmentItems_eq, hregistered.exists_judgment hrecorded⟩
      refine mem_of_target hnodup hclosed hc ?_
      have htarget : c.target = ⟨.boundary, c.target.id⟩ := by rw [← hkind]
      rw [htarget]
      exact mem_of_needs hclosed hid (hneeds hmem)

/-- An exception comes with every judgment it applies to: the limit that it lifts applies there, too,
and names the exception. -/
theorem Swept.excepted (hc : c ∈ records) (hkind : c.target.kind = .exception)
    (happlies : AppliesTo c.value id) : c ∈ closed := by
  obtain ⟨hkeeps, ⟨b, hb⟩, -⟩ := hswept.exception hc hkind
  cases hjudgment : c.judgment with
  | some own =>
    exact hswept.declared hregistered hnodup hnamed hclosed hid hc hkeeps hjudgment happlies
  | none =>
    have hrecorded := (closure_sublist hclosed).map Record.target |>.subset hid
    obtain ⟨inner, outer, hinner, houter, hsub⟩ := hb.scope
    have hmem : id ∈ inner := mem_of_appliesTo hinner happlies
      ⟨_, hregistered.judgmentItems_eq, hregistered.exists_judgment hrecorded⟩
    have hlimit : b ∈ closed := hswept.bounded hregistered hnodup hnamed hclosed hid hb.mem hb.kind
      hb.always (appliesTo_of_mem houter (hsub id hmem))
    obtain ⟨names, hnames, hname⟩ := hb.names
    obtain ⟨-, names', hnames', hneeds⟩ := hswept.boundary hb.mem hb.kind
    obtain rfl := Except.ok.inj (hnames.symm.trans hnames')
    refine mem_of_target hnodup hclosed hc ?_
    have htarget : c.target = ⟨.exception, c.target.id⟩ := by rw [← hkind]
    rw [htarget]
    exact mem_of_needs hclosed (List.mem_map_of_mem hlimit) (hneeds _ hname)

omit hnamed in
/-- A shared declaration and a ground come with every judgment they apply to. -/
theorem Swept.grounded (hc : c ∈ records) (happlies : AppliesTo c.value id)
    (hkind : c.target.kind = .sharedDeclaration ∨
      (c.target.kind = .material ∧ kindIn c.value groundKinds = true)) : c ∈ closed := by
  have hrecorded := (closure_sublist hclosed).map Record.target |>.subset hid
  have hserved := hswept.served hregistered hrecorded
  have hjudged := hregistered.exists_judgment hrecorded
  have hroot : c.target.kind ∈ rootCollections.map Prod.fst ∧ c.target.kind ∉ bodyKinds ∧
      c.target.kind ∉ [Kind.asset, .exampleResult, .revision] ∧
      c.target.kind ∉ [Kind.boundary, .exception, .misuse] := by
    rcases hkind with hkind | ⟨hkind, -⟩
    · rw [hkind]
      decide
    · rw [hkind]
      decide
  have hown := hregistered.ownedBy_of_kind hroot.1 hroot.2.1 hc rfl
  obtain ⟨name, items, hcollection, hitems, hitem, hprop⟩ :=
    (hregistered.origin hc hown.2.1 hroot.2.2.1).resolve_right fun h => hroot.2.2.2 h.1
  refine mem_of_target hnodup hclosed hc (mem_of_needs hclosed hid ?_)
  rcases hkind with hkind | ⟨hkind, hground⟩
  · obtain ⟨items', hitems', hneeds⟩ := hserved.shared
    have hname : ∀ p ∈ rootCollections, p.1 = .sharedDeclaration → p.2 = "shared_declarations" := by
      decide
    obtain rfl := hname _ hcollection hkind
    obtain rfl := Except.ok.inj (hitems.symm.trans (collection_of_memberItems hitems'))
    obtain ⟨ids, hids, hneeds⟩ := hneeds _ hitem _ hprop
    have htarget : c.target = ⟨.sharedDeclaration, c.target.id⟩ := by rw [← hkind]
    rw [htarget]
    exact hneeds (mem_of_appliesTo hids happlies ⟨_, hregistered.judgmentItems_eq, hjudged⟩)
  · obtain ⟨items', hitems', hneeds⟩ := hserved.materials
    have hname : ∀ p ∈ rootCollections, p.1 = .material → p.2 = "materials" := by
      decide
    obtain rfl := hname _ hcollection hkind
    obtain rfl := Except.ok.inj (hitems.symm.trans (collection_of_memberItems hitems'))
    obtain ⟨ids, hids, hneeds⟩ := hneeds _ hitem hground _ hprop
    have htarget : c.target = ⟨.material, c.target.id⟩ := by rw [← hkind]
    rw [htarget]
    exact hneeds (mem_of_appliesTo hids happlies ⟨_, hregistered.judgmentItems_eq, hjudged⟩)

end Contained

/-- Every closure can be read on its own. -/
theorem Swept.selfContained (hregistered : Registered manifest payload root records)
    (hnodup : (records.map Record.target).Nodup) (hnamed : ∀ c ∈ records, c.judgment ≠ some "")
    (hclosed : closure records t.links seeds = .ok closed) :
    SelfContained rules ⟨payload, asset, records⟩ closed := by
  have hsub {c : Record} (hc : c ∈ closed) : c ∈ records := (closure_sublist hclosed).subset hc
  refine ⟨fun id hid c hc hjudgment => hswept.body hregistered hnodup hclosed hid hc hjudgment, ?_, ?_, ?_,
    ?_, ?_, ?_⟩
  · intro id hid c hc hgoverns happlies
    rcases hgoverns with hkind | hkind | ⟨hkind, halways⟩ | hkind
    · exact hswept.grounded hregistered hnodup hclosed hid hc happlies (.inl hkind)
    · exact hswept.excepted hregistered hnodup hnamed hclosed hid hc hkind happlies
    · exact hswept.bounded hregistered hnodup hnamed hclosed hid hc hkind halways happlies
    · exact hswept.grounded hregistered hnodup hclosed hid hc happlies (.inr hkind)
  · intro e he hkind
    obtain ⟨-, ⟨b, hb⟩, -⟩ := hswept.exception (hsub he) hkind
    obtain ⟨names, hnames, hname⟩ := hb.names
    exact ⟨b, mem_of_target hnodup hclosed hb.mem
      (mem_of_needs hclosed (List.mem_map_of_mem he) hb.needs), names, hb.kind, hb.named, hnames, hname⟩
  · intro e he hkind
    obtain ⟨-, -, ⟨target, htarget, hwhen⟩, -⟩ := hswept.exception (hsub he) hkind
    exact ⟨target, htarget, fun hlocal =>
      mem_of_needs hclosed (List.mem_map_of_mem he) (hwhen hlocal)⟩
  · intro e he hkind b id hb hid
    obtain ⟨-, -, -, hreplacement⟩ := hswept.exception (hsub he) hkind
    exact mem_of_needs hclosed (List.mem_map_of_mem he) (hreplacement b id hb hid)
  · intro relations hrelations relation hrelation kind first second hrelates
    obtain ⟨relations', hrelations', hall⟩ := hswept.relationships
    obtain rfl := Except.ok.inj (hrelations.symm.trans hrelations')
    obtain ⟨s, s', hturn, hgrown⟩ := hall relation hrelation
    obtain ⟨hthere, hback⟩ := linkRelationship_spec hrelates hturn
    exact ⟨fun hkind h => mem_of_needs hclosed h (hgrown.needs (hthere hkind)),
      fun hkind h => mem_of_needs hclosed h (hgrown.needs (hback hkind))⟩
  · intro dependencies hdependencies d hd id consumer hid hconsumer hrequired h
    obtain ⟨dependencies', hdependencies', hall⟩ := hswept.dependencies
    obtain rfl := Except.ok.inj (hdependencies.symm.trans hdependencies')
    obtain ⟨s, s', hturn, hgrown⟩ := hall d hd
    obtain ⟨hneeds, hproducer⟩ := linkDependency_spec hid hconsumer hrequired hturn
    have hmem := mem_of_needs hclosed h (hgrown.needs hneeds)
    exact ⟨hmem, fun producer p hprop hkind hp =>
      mem_of_needs hclosed hmem (hgrown.needs (hproducer producer p hprop hkind hp))⟩

end Swept

end Closures

/-- The pass leaves the links of a sequence of calls of `link`. -/
theorem linked_of_grown {payload asset : Json} {records : List Record} {t : Linking}
    (h : Registry.Grown ⟨payload, asset, records⟩ .empty t) : Linked asset records t.links := by
  obtain ⟨calls, hrun⟩ := h
  exact ⟨calls, t, hrun, rfl⟩

theorem validateR2_spec {rules : SemanticRules} {manifest payload : Json} {entries : Entries}
    {records : List Record} {links : Links}
    (h : validateR2 rules manifest payload entries records = .ok links) :
    ∃ asset t, member payload "asset" = .ok asset ∧ Swept rules ⟨payload, asset, records⟩ entries t ∧
      links = t.links := by
  simp only [validateR2, bind_eq_ok_iff, pure_eq_ok, Except.ok.injEq] at h
  obtain ⟨asset, hasset, ⟨u, t⟩, hpass, rfl⟩ := h
  exact ⟨asset, t, hasset, semanticPass_spec hpass, rfl⟩

/-- Where the semantic pass accepts a payload, every closure of registered records exists and can be
read on its own: with each judgment it holds what applies to the judgment, wherever that is
declared, with each exception the limit it lifts, its condition and what it puts in place, and
with each judgment those it needs by the relationships and dependencies of the payload. The
schema admits no empty id of a judgment. -/
theorem closures_selfContained (rules : SemanticRules) (manifest payload : Json) (entries : Entries)
    (records : List Record) (links : Links) (hrecords : createRegistry manifest payload = .ok records)
    (h : validateR2 rules manifest payload entries records = .ok links)
    (hnamed : ∀ c ∈ records, c.judgment ≠ some "") (seeds : List Ref)
    (hseeds : ∀ t ∈ seeds, t ∈ records.map Record.target) :
    ∃ asset closed, payload.prop "asset" = some asset ∧ closure records links seeds = .ok closed ∧
      SelfContained rules ⟨payload, asset, records⟩ closed := by
  obtain ⟨root, -, ⟨hregistered⟩, hnodup⟩ := createRegistry_spec hrecords
  obtain ⟨asset, t, hasset, hswept, rfl⟩ := validateR2_spec h
  obtain ⟨s, hconsistent, hlinks⟩ := (linked_of_grown hswept.grown).consistent
  obtain ⟨closed, hclosed⟩ : ∃ closed, closure records t.links seeds = .ok closed :=
    closure_isOk hnodup (fun a _ b hb => (known_of_mandatory hconsistent (hlinks ▸ hb)).2) hseeds
  exact ⟨asset, closed, member_eq_ok_iff.mp hasset, hclosed,
    hswept.selfContained hregistered hnodup hnamed hclosed⟩

section Sample

/-- The sample with a limit of the whole asset, which an exception lifts for its judgment. -/
def limitedPayload : Json :=
  ((((samplePayload.setProp "actors" (.arr [textRecord [("id", "w"), ("name", "Writer")]])).setProp
    "conditions" (.arr [.obj [("id", .str "k"), ("owner_ref", Ref.json ⟨.exception, "e"⟩),
      ("expression", textRecord [("kind", "interpreted"), ("statement", "At night.")])]])).setProp
    "exceptions" (.arr [.obj [("id", .str "e"), ("boundary_ref", .str "b"),
      ("applies_to", .obj [("kind", .str "judgments"), ("judgment_refs", .arr [.str "j"])]),
      ("when", Ref.json ⟨.condition, "k"⟩), ("effect", textRecord [("kind", "waive")])]])).setProp
    "declarations" (.obj [("highest_question", textRecord [("state", "provided")]),
      ("boundaries", .obj [("state", .str "provided"),
        ("value", .arr [.obj [("id", .str "b"), ("declared_by", .str "w"),
          ("applies_to", textRecord [("kind", "asset")]),
          ("exception_refs", .arr [.str "e"])]])])]))

/-- The tables of the pass on the sample. -/
def limitedRules : SemanticRules where
  digest _ := ""
  answerKinds := ["determination"]
  methodKinds := ["observation"]
  methodRoles method := if method = "observation" then some (["观察依据"], []) else none
  relationshipTuples _ := none
  nativeTargets := []
  answerTypes := ["text"]
  validateContract _ := .ok ()
  validateResult _ := .ok ()
  valueFor _ _ := .ok ()
  compatible _ _ := .ok ()
  projected contract _ := .ok contract
  checkPlans _ _ := .ok []
  partialOutcome _ _ := .ok []

theorem closures_selfContained_sample :
    ∃ records links, createRegistry sampleManifest limitedPayload = .ok records ∧
      validateR2 limitedRules sampleManifest limitedPayload [] records = .ok links ∧
      ∃ asset closed, limitedPayload.prop "asset" = some asset ∧
        closure records links [⟨.judgment, "j"⟩] = .ok closed ∧
        SelfContained limitedRules ⟨limitedPayload, asset, records⟩ closed := by
  have hok : ((createRegistry sampleManifest limitedPayload).toOption.any fun records =>
      (validateR2 limitedRules sampleManifest limitedPayload [] records).toBool &&
        decide ((∀ c ∈ records, c.judgment ≠ some "") ∧
          ∀ t ∈ [(⟨.judgment, "j"⟩ : Ref)], t ∈ records.map Record.target)) = true := by
    decide +kernel
  cases hrecords : createRegistry sampleManifest limitedPayload with
  | error e =>
    rw [hrecords] at hok
    cases hok
  | ok records =>
    rw [hrecords, Except.toOption, Option.any_some, Bool.and_eq_true, decide_eq_true_eq] at hok
    obtain ⟨hvalid, hnamed, hseeds⟩ := hok
    cases hlinks : validateR2 limitedRules sampleManifest limitedPayload [] records with
    | error e =>
      rw [hlinks] at hvalid
      cases hvalid
    | ok links =>
      exact ⟨records, links, rfl, hlinks, closures_selfContained limitedRules sampleManifest
        limitedPayload [] records links hrecords hlinks hnamed _ hseeds⟩

end Sample

end Kdna.Ir

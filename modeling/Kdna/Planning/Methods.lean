import Kdna.Planning.Schedule
import Mathlib.Data.Finset.Card

/-!
# The methods that a judgment applies

A judgment with a plan applies the methods of the units that its result depends on, and those of the
judgments of the same asset that it depends on. The check of the methods finds them all, however deep
the calls go, as the calls have no cycle; it compares them with the method that the judgment declares.
-/

namespace Kdna.Planning

open Plans (Named Endpoint)
open Shapes (R2Failure Contract)

/-- The judgment of an id applies a method. -/
inductive Applies (payload : Payload) : String → String → Prop
  | own {j : Judgment} (hj : j ∈ payload.judgments) (hplan : j.plan = none) :
    Applies payload j.id j.method
  | unit {j : Judgment} {plan : Plan} {n : PlanNode} {unitRef : Named}
    {bindings : List InputBinding} {u : MethodUnit} (hj : j ∈ payload.judgments)
    (hplan : j.plan = some plan) (hn : n ∈ plan.nodes) (hkind : n.kind = .use unitRef bindings)
    (hcontributes : Contributes j plan n.id) (hu : u ∈ j.units) (hid : u.id = unitRef.id) :
    Applies payload j.id u.method
  | call {j : Judgment} {plan : Plan} {n : PlanNode} {judgmentRef : Named}
    {bindings : List InputBinding} {method : String} (hj : j ∈ payload.judgments)
    (hplan : j.plan = some plan) (hn : n ∈ plan.nodes)
    (hkind : n.kind = .judgmentUse judgmentRef bindings) (hcontributes : Contributes j plan n.id)
    (hlocal : isLocal payload judgmentRef = true) (h : Applies payload judgmentRef.id method) :
    Applies payload j.id method

section Records

variable {payload : Payload} {at' : String} {judgment j : Judgment} {plan : Plan}
  {contexts : List (Option Context)} {id : String} {c : Context}

theorem judgment_eq_of_id (hj : judgment ∈ payload.judgments) (hj' : j ∈ payload.judgments)
    (hid : judgment.id = j.id) : judgment = j :=
  List.inj_on_of_nodup_map payload.judgmentIds hj hj' hid

theorem judgmentOf_eq_some_iff : judgmentOf payload id = some j ↔ j ∈ payload.judgments ∧ j.id = id :=
  find?_key_eq_some_iff payload.judgmentIds

theorem unitOf_spec {owner : String} {u : MethodUnit} (h : unitOf payload id = some (owner, u)) :
    ∃ j ∈ payload.judgments, j.id = owner ∧ u ∈ j.units ∧ u.id = id := by
  obtain ⟨j, hj, hfind⟩ := List.exists_of_findSome?_eq_some h
  obtain ⟨u', hu, hpair⟩ := Option.map_eq_some_iff.mp hfind
  obtain ⟨rfl, rfl⟩ := Prod.mk.inj hpair
  exact ⟨j, hj, rfl, List.mem_of_find?_eq_some hu, by simpa using List.find?_some hu⟩

/-- A unit of a judgment is known by its id. -/
theorem unit_eq_of_id {u u' : MethodUnit} (hj : judgment ∈ payload.judgments)
    (hu : u ∈ judgment.units) (hu' : u' ∈ judgment.units) (hid : u.id = u'.id) : u = u' :=
  List.inj_on_of_nodup_map ((List.nodup_flatMap.mp payload.unitIds).1 judgment hj) hu hu' hid

theorem get_judgment_eq_some {r : Named}
    (h : get payload at' (judgmentOf payload) r = .ok (some j)) :
    isLocal payload r = true ∧ j ∈ payload.judgments ∧ j.id = r.id := by
  have hfound := judgmentOf_eq_some_iff.mp (get_eq_ok_some h)
  refine ⟨?_, hfound⟩
  by_contra hout
  rw [get, if_neg hout] at h
  cases h

theorem get_judgment_eq_none {r : Named} (h : get payload at' (judgmentOf payload) r = .ok none) :
    isLocal payload r = false := by
  cases hlocal : isLocal payload r with
  | false => rfl
  | true =>
    rw [get, if_pos hlocal] at h
    cases hfind : judgmentOf payload r.id with
    | none =>
      rw [hfind] at h
      cases h
    | some j =>
      rw [hfind] at h
      cases h

/-- The context of a judgment is that of its plan, which passed. -/
theorem contextOf_spec (h : List.Forall₂ (Reviewed payload) payload.judgments contexts)
    (hc : contextOf contexts id = some c) :
    ∃ j ∈ payload.judgments, ∃ plan, j.id = id ∧ j.plan = some plan ∧ Passed payload j plan c := by
  obtain ⟨context, hmem, hfilter⟩ := List.exists_of_findSome?_eq_some hc
  obtain ⟨rfl, hid⟩ := Option.filter_eq_some_iff.mp hfilter
  obtain ⟨j, hj, hreviewed⟩ := exists_of_mem_forall₂ h hmem
  rw [Reviewed] at hreviewed
  cases hplan : j.plan with
  | none =>
    rw [hplan] at hreviewed
    cases hreviewed
  | some plan =>
    rw [hplan] at hreviewed
    obtain ⟨c', heq, hpassed⟩ := hreviewed
    obtain rfl := Option.some.inj heq
    refine ⟨j, hj, plan, ?_, hplan, hpassed⟩
    rw [← hpassed.linked.judged]
    exact of_decide_eq_true hid

theorem contextOf_of_plan (h : List.Forall₂ (Reviewed payload) payload.judgments contexts)
    (hj : judgment ∈ payload.judgments) (hplan : judgment.plan = some plan) :
    ∃ c, contextOf contexts judgment.id = some c ∧ Passed payload judgment plan c := by
  obtain ⟨context, hmem, hreviewed⟩ := exists_mem_forall₂ h hj
  rw [Reviewed, hplan] at hreviewed
  obtain ⟨c, rfl, hpassed⟩ := hreviewed
  have hsome : (contextOf contexts judgment.id).isSome := by
    rw [contextOf, List.findSome?_isSome_iff]
    have hkept : (some c).filter (fun c => c.judgment.id = judgment.id) = some c :=
      Option.filter_eq_some_iff.mpr
        ⟨rfl, decide_eq_true (congrArg Judgment.id hpassed.linked.judged)⟩
    exact ⟨some c, hmem, Option.isSome_iff_exists.mpr ⟨c, hkept⟩⟩
  obtain ⟨c', hc'⟩ := Option.isSome_iff_exists.mp hsome
  obtain ⟨j, hj', plan', hid, hplan', hpassed'⟩ := contextOf_spec h hc'
  obtain rfl := judgment_eq_of_id hj' hj hid
  obtain rfl := Option.some.inj (hplan'.symm.trans hplan)
  exact ⟨c', hc', hpassed'⟩

end Records

section Nodes

variable {payload : Payload} {at' : String} {judgment : Judgment} {plan : Plan} {found : Ports}
  {n : PlanNode} {bindings : List InputBinding}

/-- A node that uses a unit uses one of its judgment. -/
theorem ports_use (hj : judgment ∈ payload.judgments) {unitRef : Named}
    (hkind : n.kind = .use unitRef bindings)
    (h : ports payload at' judgment plan n = .ok found) :
    ∃ u ∈ judgment.units, u.id = unitRef.id ∧
      get payload at' (unitOf payload) unitRef = .ok (some (judgment.id, u)) := by
  rw [ports, portsFrom, require_bind_eq_ok_iff, hkind] at h
  simp only [bind_eq_ok_iff, orFail_eq_ok_iff, require_eq_ok_iff, pure_eq_ok] at h
  obtain ⟨-, _, hget, ⟨owner, u⟩, rfl, -, rfl, -⟩ := h
  obtain ⟨j, hj', hid, hu, huid⟩ := unitOf_spec (get_eq_ok_some hget)
  obtain rfl := judgment_eq_of_id hj' hj hid
  exact ⟨u, hu, huid, hget⟩

/-- A node that uses another judgment uses one of the asset, or one of another asset. -/
theorem ports_judgmentUse {judgmentRef : Named} (hkind : n.kind = .judgmentUse judgmentRef bindings)
    (h : ports payload at' judgment plan n = .ok found) :
    ∃ o, get payload at' (judgmentOf payload) judgmentRef = .ok o := by
  rw [ports, portsFrom, require_bind_eq_ok_iff, hkind] at h
  simp only [bind_eq_ok_iff] at h
  obtain ⟨-, o, ho, -⟩ := h
  exact ⟨o, ho⟩

end Nodes

section Calls

variable {payload : Payload} {contexts : List (Option Context)} {judgment : Judgment} {plan : Plan}
  {c : Context} {id : String} {levels : ℕ} {methods active : List String}

/-- What a node applies, where it is known for the judgments that it uses. -/
theorem mem_nodeMethods {methodsOf : String → Except R2Failure (List String)} {n : PlanNode}
    (hj : judgment ∈ payload.judgments) (hpassed : Passed payload judgment plan c)
    (hn : n ∈ plan.nodes) (hof : ∀ id l, methodsOf id = .ok l → ∀ m, m ∈ l ↔ Applies payload id m)
    (h : nodeMethods payload methodsOf c.at' n.kind = .ok methods) (m : String) : m ∈ methods ↔
      (∃ unitRef bindings, n.kind = .use unitRef bindings ∧
        ∃ u ∈ judgment.units, u.id = unitRef.id ∧ u.method = m) ∨
      ∃ judgmentRef bindings, n.kind = .judgmentUse judgmentRef bindings ∧
        isLocal payload judgmentRef = true ∧ Applies payload judgmentRef.id m := by
  obtain ⟨found, hports⟩ := hpassed.linked.ports n hn
  cases hkind : n.kind with
  | use unitRef bindings =>
    obtain ⟨u, hu, hid, hget⟩ := ports_use hj hkind hports
    rw [hkind, nodeMethods, hget] at h
    obtain rfl := Except.ok.inj h
    rw [List.mem_singleton]
    constructor
    · rintro rfl
      exact Or.inl ⟨unitRef, bindings, rfl, u, hu, hid, rfl⟩
    · rintro (⟨_, _, heq, u', hu', hid', rfl⟩ | ⟨_, _, heq, -⟩)
      · obtain ⟨rfl, rfl⟩ := NodeKind.use.inj heq
        rw [unit_eq_of_id hj hu' hu (hid'.trans hid.symm)]
      · cases heq
  | judgmentUse judgmentRef bindings =>
    obtain ⟨o, hget⟩ := ports_judgmentUse hkind hports
    rw [hkind, nodeMethods, hget] at h
    cases o with
    | none =>
      obtain rfl := Except.ok.inj h
      have hout := get_judgment_eq_none hget
      constructor
      · intro hm
        cases hm
      · rintro (⟨_, _, heq, -⟩ | ⟨_, _, heq, hlocal, -⟩)
        · cases heq
        · obtain ⟨rfl, rfl⟩ := NodeKind.judgmentUse.inj heq
          rw [hout] at hlocal
          cases hlocal
    | some k =>
      obtain ⟨hlocal, hk, hid⟩ := get_judgment_eq_some hget
      rw [hof k.id methods h m, hid]
      constructor
      · exact fun happlies => Or.inr ⟨judgmentRef, bindings, rfl, hlocal, happlies⟩
      · rintro (⟨_, _, heq, -⟩ | ⟨_, _, heq, -, happlies⟩)
        · cases heq
        · obtain ⟨rfl, rfl⟩ := NodeKind.judgmentUse.inj heq
          exact happlies
  | _ =>
    rw [hkind] at h
    obtain rfl := Except.ok.inj h
    constructor
    · intro hm
      cases hm
    · rintro (⟨_, _, heq, -⟩ | ⟨_, _, heq, -⟩) <;> cases heq

/-- What a judgment with a plan applies. -/
theorem applies_iff (hj : judgment ∈ payload.judgments) (hplan : judgment.plan = some plan)
    {m : String} : Applies payload judgment.id m ↔
      ∃ n ∈ plan.nodes, Contributes judgment plan n.id ∧
        ((∃ unitRef bindings, n.kind = .use unitRef bindings ∧
          ∃ u ∈ judgment.units, u.id = unitRef.id ∧ u.method = m) ∨
        ∃ judgmentRef bindings, n.kind = .judgmentUse judgmentRef bindings ∧
          isLocal payload judgmentRef = true ∧ Applies payload judgmentRef.id m) := by
  constructor
  · intro h
    generalize hid : judgment.id = id at h
    cases h with
    | own hj' hnone =>
      obtain rfl := judgment_eq_of_id hj hj' hid
      rw [hplan] at hnone
      cases hnone
    | unit hj' hplan' hn hkind hcontributes hu huid =>
      obtain rfl := judgment_eq_of_id hj hj' hid
      obtain rfl := Option.some.inj (hplan.symm.trans hplan')
      exact ⟨_, hn, hcontributes, Or.inl ⟨_, _, hkind, _, hu, huid, rfl⟩⟩
    | call hj' hplan' hn hkind hcontributes hlocal h =>
      obtain rfl := judgment_eq_of_id hj hj' hid
      obtain rfl := Option.some.inj (hplan.symm.trans hplan')
      exact ⟨_, hn, hcontributes, Or.inr ⟨_, _, hkind, hlocal, h⟩⟩
  · rintro ⟨n, hn, hcontributes, ⟨_, _, hkind, u, hu, huid, rfl⟩ | ⟨_, _, hkind, hlocal, h⟩⟩
    · exact .unit hj hplan hn hkind hcontributes hu huid
    · exact .call hj hplan hn hkind hcontributes hlocal h

/-- The methods that are found are those that the judgment applies. -/
theorem mem_actualMethods (h : List.Forall₂ (Reviewed payload) payload.judgments contexts)
    (hmethods : actualMethods payload contexts levels id = .ok methods) (m : String) :
    m ∈ methods ↔ Applies payload id m := by
  induction levels generalizing id methods m with
  | zero => cases hmethods
  | succ levels ih =>
    rw [actualMethods] at hmethods
    cases hc : contextOf contexts id with
    | none =>
      rw [hc] at hmethods
      simp only [bind_eq_ok_iff, orFail_eq_ok_iff, pure_eq_ok] at hmethods
      obtain ⟨j, hfind, heq⟩ := hmethods
      obtain rfl := Except.ok.inj heq
      obtain ⟨hj, rfl⟩ := judgmentOf_eq_some_iff.mp hfind
      have hplan : j.plan = none := by
        cases hplan : j.plan with
        | none => rfl
        | some plan =>
          obtain ⟨c, hsome, -⟩ := contextOf_of_plan h hj hplan
          rw [hc] at hsome
          cases hsome
      rw [List.mem_singleton]
      constructor
      · rintro rfl
        exact .own hj hplan
      · intro happlies
        generalize hid : j.id = id at happlies
        cases happlies with
        | own hj' _ => rw [judgment_eq_of_id hj hj' hid]
        | unit hj' hplan' =>
          rw [← judgment_eq_of_id hj hj' hid, hplan] at hplan'
          cases hplan'
        | call hj' hplan' =>
          rw [← judgment_eq_of_id hj hj' hid, hplan] at hplan'
          cases hplan'
    | some c =>
      rw [hc] at hmethods
      simp only [bind_eq_ok_iff, pure_eq_ok] at hmethods
      obtain ⟨lists, hlists, heq⟩ := hmethods
      obtain rfl := Except.ok.inj heq
      obtain ⟨j, hj, plan, rfl, hplan, hpassed⟩ := contextOf_spec h hc
      have hkept (n : PlanNode) : n ∈ c.plan.nodes.filter (fun n => n.id ∈ c.contributing) ↔
          n ∈ plan.nodes ∧ Contributes j plan n.id := by
        rw [List.mem_filter, decide_eq_true_iff, hpassed.contributing, hpassed.linked.planned]
      rw [List.mem_dedup, List.mem_flatten, applies_iff hj hplan]
      constructor
      · rintro ⟨l, hl, hm⟩
        obtain ⟨n, hn, hnode⟩ := exists_of_mem_mapM hlists hl
        obtain ⟨hn, hcontributes⟩ := (hkept n).mp hn
        exact ⟨n, hn, hcontributes,
          (mem_nodeMethods hj hpassed hn (fun _ _ hl m => ih hl m) hnode m).mp hm⟩
      · rintro ⟨n, hn, hcontributes, happlies⟩
        obtain ⟨l, hl, hnode⟩ := exists_mem_mapM hlists ((hkept n).mpr ⟨hn, hcontributes⟩)
        exact ⟨l, hl, (mem_nodeMethods hj hpassed hn (fun _ _ hl m => ih hl m) hnode m).mpr happlies⟩

/-- The calls of a plan lead to judgments of the asset. -/
theorem mem_calls (hj : judgment ∈ payload.judgments) (hplan : judgment.plan = some plan)
    {n : PlanNode} (hn : n ∈ plan.nodes) {judgmentRef : Named} {bindings : List InputBinding}
    (hkind : n.kind = .judgmentUse judgmentRef bindings)
    (hlocal : isLocal payload judgmentRef = true) : judgmentRef.id ∈ calls payload judgment.id := by
  have hfind := judgmentOf_eq_some_iff.mpr ⟨hj, rfl⟩
  rw [calls, hfind, Option.bind_some, hplan]
  apply List.mem_flatMap.mpr
  refine ⟨n, hn, ?_⟩
  rw [hkind]
  simp only [if_pos hlocal, List.mem_singleton]

/-- Where the calls have no cycle, the methods of every judgment are found: as deep as there are
judgments the calls do not go. -/
theorem exists_actualMethods (h : List.Forall₂ (Reviewed payload) payload.judgments contexts)
    (hcalls : ∀ a ∈ payload.judgments.map Judgment.id,
      ¬ Relation.TransGen (Follows (calls payload)) a a)
    (hid : id ∈ payload.judgments.map Judgment.id) (hnodup : active.Nodup)
    (hactive : active ⊆ payload.judgments.map Judgment.id)
    (hpath : ∀ a ∈ active, Relation.TransGen (Follows (calls payload)) id a)
    (hlevels : payload.judgments.length < levels + active.length) :
    ∃ methods, actualMethods payload contexts levels id = .ok methods := by
  induction levels generalizing id active with
  | zero =>
    have hle := (List.subperm_of_subset hnodup hactive).length_le
    rw [List.length_map] at hle
    omega
  | succ levels ih =>
    have hnew : id ∉ active := fun hmem => hcalls id hid (hpath id hmem)
    obtain ⟨j, hj, rfl⟩ := List.mem_map.mp hid
    rw [actualMethods]
    cases hc : contextOf contexts j.id with
    | none => exact ⟨[j.method], by rw [judgmentOf_eq_some_iff.mpr ⟨hj, rfl⟩]; rfl⟩
    | some c =>
      obtain ⟨j', hj', plan, heq, hplan, hpassed⟩ := contextOf_spec h hc
      obtain rfl := judgment_eq_of_id hj' hj heq
      have hnode : ∀ n ∈ c.plan.nodes.filter (fun n => n.id ∈ c.contributing),
          ∃ l, nodeMethods payload (actualMethods payload contexts levels) c.at' n.kind = .ok l := by
        intro n hn
        rw [hpassed.linked.planned] at hn
        have hn := (List.mem_filter.mp hn).1
        obtain ⟨found, hports⟩ := hpassed.linked.ports n hn
        cases hkind : n.kind with
        | use unitRef bindings =>
          obtain ⟨u, -, -, hget⟩ := ports_use hj hkind hports
          exact ⟨[u.method], by rw [nodeMethods, hget]; rfl⟩
        | judgmentUse judgmentRef bindings =>
          obtain ⟨o, hget⟩ := ports_judgmentUse hkind hports
          rw [nodeMethods, hget]
          cases o with
          | none => exact ⟨[], rfl⟩
          | some k =>
            obtain ⟨hlocal, hk, hkid⟩ := get_judgment_eq_some hget
            have hcall : k.id ∈ calls payload j'.id :=
              hkid ▸ mem_calls hj hplan hn hkind hlocal
            refine ih (List.mem_map_of_mem hk) (List.nodup_cons.mpr ⟨hnew, hnodup⟩)
              (List.cons_subset.mpr ⟨hid, hactive⟩) ?_ ?_
            · intro a ha
              rcases List.mem_cons.mp ha with rfl | ha
              · exact .single hcall
              · exact Relation.TransGen.head hcall (hpath a ha)
            · rw [List.length_cons]
              omega
        | _ => exact ⟨[], rfl⟩
      cases hlists : (c.plan.nodes.filter (fun n => n.id ∈ c.contributing)).mapM fun n =>
          nodeMethods payload (actualMethods payload contexts levels) c.at' n.kind with
      | ok lists => exact ⟨lists.flatten.dedup, by simp only [hlists]; rfl⟩
      | error e =>
        obtain ⟨n, hn, herror⟩ := exists_of_mapM_eq_error hlists
        obtain ⟨l, hl⟩ := hnode n hn
        rw [hl] at herror
        cases herror

end Calls

section Check

variable {payload : Payload} {contexts : List (Option Context)} {judgment : Judgment} {plan : Plan}

/-- The check of the methods passes exactly where a judgment that declares a composition applies two
methods, or refers to another asset, and any other judgment applies the method that it declares. -/
theorem checkMethod_iff (h : reviewPlans payload = .ok contexts)
    (hcalls : acyclic (calls payload) (payload.judgments.map Judgment.id) = true)
    (external : String → Bool) (hj : judgment ∈ payload.judgments)
    (hplan : judgment.plan = some plan) :
    checkMethod payload contexts external judgment = .ok () ↔
      if judgment.method = "composite" then
        external judgment.id = true ∨
          ∃ m m', m ≠ m' ∧ Applies payload judgment.id m ∧ Applies payload judgment.id m'
      else ∀ m, Applies payload judgment.id m → m = judgment.method := by
  have hreviewed := reviewPlans_spec h
  obtain ⟨c, hc, hpassed⟩ := contextOf_of_plan hreviewed hj hplan
  obtain ⟨methods, hmethods⟩ := exists_actualMethods hreviewed (fun a => not_transGen_of_acyclic hcalls)
    (List.mem_map_of_mem hj) List.nodup_nil (List.nil_subset _)
    (fun a ha => absurd ha List.not_mem_nil) (Nat.lt_succ_self payload.judgments.length)
  have hmem := mem_actualMethods hreviewed hmethods
  have hnodup : methods.Nodup := by
    rw [actualMethods, hc] at hmethods
    simp only [bind_eq_ok_iff, pure_eq_ok] at hmethods
    obtain ⟨lists, -, heq⟩ := hmethods
    obtain rfl := Except.ok.inj heq
    exact List.nodup_dedup _
  rw [checkMethod, hc]
  simp only [hmethods, ok_bind]
  split_ifs with hcomposite
  · have htwo : 2 ≤ methods.length ↔ ∃ m ∈ methods, ∃ m' ∈ methods, m ≠ m' := by
      rw [← List.toFinset_card_of_nodup hnodup]
      apply Finset.one_lt_card.trans
      simp only [List.mem_toFinset]
    rw [require_eq_ok_iff, htwo, or_comm]
    simp only [hmem]
    refine or_congr_right ⟨?_, ?_⟩
    · rintro ⟨m, hm, m', hm', hne⟩
      exact ⟨m, m', hne, hm, hm'⟩
    · rintro ⟨m, m', hne, hm, hm'⟩
      exact ⟨m, hm, m', hm', hne⟩
  · rw [require_eq_ok_iff]
    simp only [hmem]

theorem checkMethod_iff_sample : ∃ m m', m ≠ m' ∧ Applies samplePayload sampleJudgment.id m ∧
    Applies samplePayload sampleJudgment.id m' := by
  obtain ⟨contexts, h⟩ := checkPlans_sample
  simp only [checkPlans, bind_eq_ok_iff, require_eq_ok_iff] at h
  obtain ⟨contexts, hreview, _, hcalls, _, hmethods, -⟩ := h
  obtain ⟨_, hmethod, -⟩ := bind_eq_ok_iff.mp hmethods
  have happlies := (checkMethod_iff hreview hcalls (fun _ => false) (List.mem_singleton_self _)
    rfl).mp hmethod
  rw [if_pos (by decide)] at happlies
  exact happlies.resolve_left Bool.false_ne_true

end Check

end Kdna.Planning

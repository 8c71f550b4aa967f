import Kdna.Container.Dependencies
import Kdna.Data.Fallible

/-!
# What a resolution finds

A resolution that succeeds lists each name that the manifest leads to once, behind its own
dependencies. It succeeds exactly where the dependencies have a walk and the first declaration of
each name on it is met. A later declaration of a name is not looked at.
-/

namespace Kdna.Dependencies

open Semver Declared

variable {assets : Assets} {k : ℕ} {manifest : Manifest} {seen stack : List String}
  {ds es : List (String × List Char)} {found after : Found} {more rest : List Resolved}
  {name : String} {range : List Char}

theorem next_eq_some {a : Asset} (h : assets.resolve name = some a) :
    next assets name = some a.manifest.dependencies := by rw [next, h, Option.map_some]

section Successes

/-- The asset of an entry. -/
def Resolved.asset (x : Resolved) : Asset := ⟨x.version, x.path, x.manifest⟩

/-- What a stretch of a resolution adds. -/
structure Adds (assets : Assets) (ds : List (String × List Char)) (stack : List String)
    (found after : Found) (more : List Resolved) : Prop where
  resolved : after.1 = found.1 ++ more
  seen : after.2 = found.2 ++ more.map Resolved.name
  sorted : Sorted (next assets) after.2
  nodup : after.2.Nodup
  declared : ∀ d ∈ ds, d.1 ∈ after.2
  fresh : ∀ x ∈ more, x.name ∉ stack
  found : ∀ x ∈ more, assets.resolve x.name = some x.asset
  reached : ∀ x ∈ more, ∃ r, Declares (next assets) ds x.name r

theorem Adds.subset (h : Adds assets ds stack found after more) : found.2 ⊆ after.2 := by
  rw [h.seen]
  exact List.subset_append_left _ _

/-- One stretch behind another. -/
theorem Adds.append {d : String × List Char} {last : Found}
    (h : Adds assets [d] stack found after more) (h' : Adds assets ds stack after last rest) :
    Adds assets (d :: ds) stack found last (more ++ rest) where
  resolved := by rw [h'.resolved, h.resolved, List.append_assoc]
  seen := by rw [h'.seen, h.seen, List.map_append, List.append_assoc]
  sorted := h'.sorted
  nodup := h'.nodup
  declared := List.forall_mem_cons.mpr
    ⟨h'.subset (h.declared d (List.mem_singleton.mpr rfl)), h'.declared⟩
  fresh := List.forall_mem_append.mpr ⟨h.fresh, h'.fresh⟩
  found := List.forall_mem_append.mpr ⟨h.found, h'.found⟩
  reached := List.forall_mem_append.mpr
    ⟨fun x hx => (h.reached x hx).imp fun _ hr =>
        hr.mono (List.cons_subset_cons _ (List.nil_subset _)),
      fun x hx => (h'.reached x hx).imp fun _ hr => hr.mono (List.subset_cons_self _ _)⟩

/-- A name that has been seen adds nothing. -/
theorem adds_of_seen (hs : Sorted (next assets) found.2) (hn : found.2.Nodup)
    (hmem : name ∈ found.2) : Adds assets [(name, range)] stack found found [] where
  resolved := (List.append_nil _).symm
  seen := (List.append_nil _).symm
  sorted := hs
  nodup := hn
  declared := List.forall_mem_singleton.mpr hmem
  fresh := List.forall_mem_nil _
  found := List.forall_mem_nil _
  reached := List.forall_mem_nil _

/-- A resolved name adds what its asset leads to, and itself. -/
theorem adds_of_resolved {a : Asset} {sub : Found} (hresolve : assets.resolve name = some a)
    (hstack : name ∉ stack) (hseen : name ∉ found.2)
    (h : Adds assets a.manifest.dependencies (stack ++ [name]) ([], found.2) sub more) :
    Adds assets [(name, range)] stack found
      (found.1 ++ sub.1 ++ [⟨name, a.version, a.path, a.manifest⟩], sub.2 ++ [name])
      (more ++ [⟨name, a.version, a.path, a.manifest⟩]) where
  resolved := by
    rw [h.resolved, List.nil_append, List.append_assoc]
  seen := by
    rw [List.map_append, List.map_singleton, ← List.append_assoc, ← h.seen]
  sorted := h.sorted.append_name (next_eq_some hresolve) h.declared
  nodup := by
    refine List.nodup_append.mpr ⟨h.nodup, List.nodup_singleton name, ?_⟩
    rintro m hm n hn rfl
    obtain rfl := List.mem_singleton.mp hn
    rw [h.seen, List.mem_append] at hm
    rcases hm with hm | hm
    · exact hseen hm
    · obtain ⟨x, hx, hname⟩ := List.mem_map.mp hm
      exact h.fresh x hx (List.mem_append_right _ (List.mem_singleton.mpr hname))
  declared := List.forall_mem_singleton.mpr (List.mem_append_right _ (List.mem_singleton.mpr rfl))
  fresh := List.forall_mem_append.mpr ⟨fun x hx hmem => h.fresh x hx (List.mem_append_left _ hmem),
    List.forall_mem_singleton.mpr hstack⟩
  found := List.forall_mem_append.mpr ⟨h.found, List.forall_mem_singleton.mpr hresolve⟩
  reached := List.forall_mem_append.mpr
    ⟨fun x hx => (h.reached x hx).imp fun _ hr =>
        .there (List.mem_singleton.mpr rfl) (next_eq_some hresolve) hr,
      List.forall_mem_singleton.mpr ⟨range, .here (List.mem_singleton.mpr rfl)⟩⟩

/-- The loop of a resolution, where its recursion adds. -/
theorem adds_foldlM {recurse : Manifest → List String → List String → Except Stop Found}
    (hrec : ∀ m seen stack sub, Sorted (next assets) seen → seen.Nodup →
      recurse m seen stack = .ok sub →
      ∃ more, Adds assets m.dependencies stack ([], seen) sub more)
    (hs : Sorted (next assets) found.2) (hn : found.2.Nodup)
    (h : ds.foldlM (visit assets recurse stack) found = .ok after) :
    ∃ more, Adds assets ds stack found after more := by
  induction ds generalizing found with
  | nil =>
    obtain rfl := Except.ok.inj h
    exact ⟨[], (List.append_nil _).symm, (List.append_nil _).symm, hs, hn, List.forall_mem_nil _,
      List.forall_mem_nil _, List.forall_mem_nil _, List.forall_mem_nil _⟩
  | cons d ds ih =>
    obtain ⟨name, range⟩ := d
    rw [List.foldlM_cons, bind_eq_ok_iff] at h
    obtain ⟨mid, hvisit, hrest⟩ := h
    have hstep : ∃ more, Adds assets [(name, range)] stack found mid more := by
      obtain ⟨hstack, ⟨hseen, rfl⟩ | ⟨hseen, a, sub, hresolve, -, hsub, rfl⟩⟩ :=
        visit_eq_ok_iff.mp hvisit
      · exact ⟨[], adds_of_seen hs hn hseen⟩
      · obtain ⟨more, hmore⟩ := hrec _ _ _ _ hs hn hsub
        exact ⟨_, adds_of_resolved hresolve hstack hseen hmore⟩
    obtain ⟨more, hmore⟩ := hstep
    obtain ⟨more', hmore'⟩ := ih hmore.sorted hmore.nodup hrest
    exact ⟨_, hmore.append hmore'⟩

/-- What a resolution that succeeds adds. -/
theorem adds_resolveDependencies (hs : Sorted (next assets) seen) (hn : seen.Nodup)
    (h : resolveDependencies assets k manifest seen stack = .ok after) :
    ∃ more, Adds assets manifest.dependencies stack ([], seen) after more := by
  induction k generalizing manifest seen stack after with
  | zero => cases h
  | succ k ih =>
    rw [resolveDependencies] at h
    exact adds_foldlM (fun m seen stack sub hs hn hsub => ih hs hn hsub) hs hn h

/-- What has been seen behind a stretch with a walk. -/
theorem Adds.mem_iff {w : List (String × List Char)} (h : Adds assets ds stack found after more)
    (hw : Walk (next assets) ds w) (n : String) :
    n ∈ after.2 ↔ n ∈ found.2 ∨ n ∈ w.map Prod.fst := by
  constructor
  · intro hn
    rw [h.seen, List.mem_append] at hn
    refine hn.imp_right fun hn => ?_
    obtain ⟨x, hx, rfl⟩ := List.mem_map.mp hn
    obtain ⟨r, hr⟩ := h.reached x hx
    exact List.mem_map_of_mem (hw.mem_iff.mpr hr)
  · rintro (hn | hn)
    · exact h.subset hn
    · obtain ⟨d, hd, rfl⟩ := List.mem_map.mp hn
      exact h.sorted.closed h.declared (hw.mem_iff.mp hd)

end Successes

section Counting

variable {recurse recurse' : Manifest → List String → List String → Except Stop Found}

/-- A turn that does not run short does not depend on the count. -/
theorem visit_congr {d : String × List Char}
    (hrec : ∀ m seen stack, recurse m seen stack ≠ .error .fuel →
      recurse' m seen stack = recurse m seen stack)
    (h : visit assets recurse stack found d ≠ .error .fuel) :
    visit assets recurse' stack found d = visit assets recurse stack found d := by
  obtain ⟨name, range⟩ := d
  obtain ⟨resolved, seen⟩ := found
  rw [visit] at h ⊢
  rw [visit]
  dsimp only at h ⊢
  split_ifs at h ⊢
  · rfl
  · rfl
  · cases hresolve : assets.resolve name with
    | none => rfl
    | some a =>
      rw [hresolve] at h
      dsimp only at h ⊢
      split_ifs at h ⊢
      · rw [hrec]
        intro hfuel
        rw [hfuel] at h
        exact h rfl
      · rfl

theorem foldlM_congr (hrec : ∀ m seen stack, recurse m seen stack ≠ .error .fuel →
      recurse' m seen stack = recurse m seen stack)
    (h : ds.foldlM (visit assets recurse stack) found ≠ .error .fuel) :
    ds.foldlM (visit assets recurse' stack) found =
      ds.foldlM (visit assets recurse stack) found := by
  induction ds generalizing found with
  | nil => rfl
  | cons d ds ih =>
    rw [List.foldlM_cons] at h ⊢
    rw [List.foldlM_cons]
    have hvisit : visit assets recurse stack found d ≠ .error .fuel := by
      intro hfuel
      rw [hfuel] at h
      exact h rfl
    rw [visit_congr hrec hvisit]
    cases hmid : visit assets recurse stack found d with
    | error e => rfl
    | ok mid =>
      rw [hmid] at h
      exact ih h

/-- A resolution that does not run short does not depend on the count. -/
theorem resolveDependencies_succ (h : resolveDependencies assets k manifest seen stack ≠ .error .fuel) :
    resolveDependencies assets (k + 1) manifest seen stack =
      resolveDependencies assets k manifest seen stack := by
  induction k generalizing manifest seen stack with
  | zero => exact absurd rfl h
  | succ k ih =>
    rw [resolveDependencies] at h
    rw [resolveDependencies, resolveDependencies]
    exact foldlM_congr (fun m seen stack hne => ih hne) h

theorem resolve_mem {a : Asset} (h : assets.resolve name = some a) : name ∈ assets.map Prod.fst := by
  obtain ⟨entry, hentry, -⟩ := Option.map_eq_some_iff.mp h
  have hname := List.find?_some hentry
  rw [decide_eq_true_eq] at hname
  exact hname ▸ List.mem_map_of_mem (List.mem_of_find?_eq_some hentry)

/-- A turn runs short only where its recursion does. -/
theorem visit_ne_fuel {d : String × List Char} (hrec : ∀ a, assets.resolve d.1 = some a →
      d.1 ∉ stack → recurse a.manifest found.2 (stack ++ [d.1]) ≠ .error .fuel) :
    visit assets recurse stack found d ≠ .error .fuel := by
  obtain ⟨name, range⟩ := d
  obtain ⟨resolved, seen⟩ := found
  rw [visit]
  dsimp only
  split_ifs with hstack hseen
  · exact fun h => Stop.noConfusion (Except.error.inj h)
  · exact fun h => by cases h
  · cases hresolve : assets.resolve name with
    | none => exact fun h => Stop.noConfusion (Except.error.inj h)
    | some a =>
      dsimp only
      split_ifs
      · intro h
        have hsub := hrec a hresolve hstack
        cases hrun : recurse a.manifest seen (stack ++ [name]) with
        | error e =>
          rw [hrun] at h
          obtain rfl := Except.error.inj h
          exact hsub hrun
        | ok sub =>
          rw [hrun] at h
          cases h
      · exact fun h => Stop.noConfusion (Except.error.inj h)

/-- A stack of distinct assets is no longer than their list. -/
theorem length_stack_le (hnodup : stack.Nodup) (hstack : stack ⊆ assets.map Prod.fst) :
    stack.length ≤ assets.length :=
  ((hnodup.subperm hstack).length_le).trans_eq (List.length_map _)

/-- The recursion of a resolution is never deeper than the assets are many. -/
theorem resolveDependencies_ne_fuel (hnodup : stack.Nodup) (hstack : stack ⊆ assets.map Prod.fst)
    (hk : assets.length < k + stack.length) :
    resolveDependencies assets k manifest seen stack ≠ .error .fuel := by
  induction k generalizing manifest seen stack with
  | zero =>
    have := length_stack_le hnodup hstack
    omega
  | succ k ih =>
    rw [resolveDependencies]
    generalize (([], seen) : Found) = found
    induction manifest.dependencies generalizing found with
    | nil => exact fun h => by cases h
    | cons d ds ihds =>
      rw [List.foldlM_cons]
      have hvisit : visit assets (resolveDependencies assets k) stack found d ≠ .error .fuel :=
        visit_ne_fuel fun a ha hmem => by
          refine ih (List.nodup_append.mpr ⟨hnodup, List.nodup_singleton _, ?_⟩) ?_ ?_
          · rintro m hm n hn rfl
            exact hmem (List.mem_singleton.mp hn ▸ hm)
          · exact List.append_subset.mpr ⟨hstack, List.cons_subset.mpr
              ⟨resolve_mem ha, List.nil_subset _⟩⟩
          · rw [List.length_append, List.length_singleton]
            omega
      cases hmid : visit assets (resolveDependencies assets k) stack found d with
      | error e =>
        intro h
        obtain rfl := Except.error.inj h
        exact hvisit hmid
      | ok mid => exact ihds mid

end Counting

section Walked

variable {u w : List (String × List Char)}

theorem visit_seen {recurse : Manifest → List String → List String → Except Stop Found}
    (hstack : name ∉ stack) (hseen : name ∈ found.2) :
    visit assets recurse stack found (name, range) = .ok found :=
  visit_eq_ok_iff.mpr ⟨hstack, .inl ⟨hseen, rfl⟩⟩

/-- A dependency that has been seen, with all that it leads to, is passed over. -/
theorem firsts_seen (hs : Sorted (next assets) seen) (hseen : name ∈ seen)
    (hnext : next assets name = some es) (hu : Walk (next assets) es u) :
    firsts seen ((name, range) :: u ++ w) = firsts seen w := by
  have hmem : ∀ d ∈ u, d.1 ∈ seen := by
    intro d hd
    obtain ⟨before, rest, rfl⟩ := List.append_of_mem hseen
    exact List.mem_append_left _ (hs.mem_of_declares rfl hnext (hu.mem_iff.mp hd))
  rw [List.cons_append, firsts, if_pos hseen, firsts_append, firsts_eq_nil hmem, List.nil_append]
  refine firsts_congr (fun m => ?_) w
  rw [List.mem_append, or_iff_left_iff_imp]
  intro hm
  obtain ⟨d, hd, rfl⟩ := List.mem_map.mp hm
  exact hmem d hd

/-- A dependency that has not been seen comes first, then what it leads to, then the rest. -/
theorem firsts_unseen (hseen : name ∉ seen) (hback : ∀ d ∈ u, d.1 ≠ name)
    {seen' : List String} (hmem : ∀ m, m ∈ seen' ↔ m ∈ seen ∨ m ∈ u.map Prod.fst) :
    firsts seen ((name, range) :: u ++ w) =
      (name, range) :: firsts seen u ++ firsts (seen' ++ [name]) w := by
  rw [List.cons_append, firsts, if_neg hseen, firsts_append, firsts_of_not_mem hback,
    List.cons_append]
  congr 2
  refine firsts_congr (fun m => ?_) w
  simp only [List.mem_append, hmem, or_right_comm]

/-- Along a walk, a resolution succeeds exactly where the first declarations fit. -/
theorem foldlM_walk (hw : Walk (next assets) ds w) : ∃ least, ∀ k, least ≤ k → ∀ found stack,
    Sorted (next assets) found.2 → found.2.Nodup → (∀ d ∈ w, d.1 ∉ stack) →
      ((∃ after, ds.foldlM (visit assets (resolveDependencies assets k) stack) found = .ok after) ↔
        ∀ d ∈ firsts found.2 w, Fits assets d) := by
  induction hw with
  | nil => exact ⟨0, fun k _ found stack _ _ _ =>
      ⟨fun _ => List.forall_mem_nil _, fun _ => ⟨found, rfl⟩⟩⟩
  | @cons ds es u w name range hnext hu hw ihu ihw =>
    obtain ⟨leastu, ihu⟩ := ihu
    obtain ⟨leastw, ihw⟩ := ihw
    obtain ⟨a, hresolve, rfl⟩ := Option.map_eq_some_iff.mp hnext
    refine ⟨max (leastu + 1) leastw, fun k hk found stack hs hn hstack => ?_⟩
    obtain ⟨k, rfl⟩ := Nat.exists_eq_add_of_le' ((Nat.le_add_left 1 leastu).trans
      ((le_max_left _ _).trans hk))
    obtain ⟨hname, hrest⟩ := List.forall_mem_cons.mp hstack
    obtain ⟨hustack, hwstack⟩ := List.forall_mem_append.mp hrest
    have hback : ∀ d ∈ u, d.1 ≠ name := by
      rintro ⟨m, r⟩ hd rfl
      exact (Walk.cons hnext hu hw).acyclic m range _ r (.here List.mem_cons_self) hnext
        (hu.mem_iff.mp hd)
    by_cases hseen : name ∈ found.2
    · rw [List.foldlM_cons, visit_seen hname hseen, firsts_seen hs hseen hnext hu]
      exact ihw (k + 1) ((le_max_right _ _).trans hk) found stack hs hn hwstack
    have hu' := ihu k (by omega) ([], found.2) (stack ++ [name]) hs hn fun d hd hmem =>
      (List.mem_append.mp hmem).elim (hustack d hd) fun hm => hback d hd (List.mem_singleton.mp hm)
    rw [← resolveDependencies] at hu'
    constructor
    · rintro ⟨after, h⟩
      rw [List.foldlM_cons, bind_eq_ok_iff] at h
      obtain ⟨mid, hvisit, htail⟩ := h
      obtain ⟨-, ⟨hmem, -⟩ | ⟨-, a', sub, hresolve', hfits, hsub, rfl⟩⟩ := visit_eq_ok_iff.mp hvisit
      · exact absurd hmem hseen
      obtain rfl := Option.some.inj (hresolve.symm.trans hresolve')
      obtain ⟨more, hmore⟩ := adds_resolveDependencies hs hn hsub
      have hadds : Adds assets [(name, range)] stack _ _ _ :=
        adds_of_resolved hresolve hname hseen hmore
      rw [firsts_unseen hseen hback (hmore.mem_iff hu)]
      exact List.forall_mem_append.mpr ⟨List.forall_mem_cons.mpr
          ⟨⟨a, hresolve, hfits⟩, hu'.mp ⟨sub, hsub⟩⟩,
        (ihw (k + 1) ((le_max_right _ _).trans hk) _ stack hadds.sorted hadds.nodup hwstack).mp
          ⟨after, htail⟩⟩
    · intro hfits
      have hheads := hfits
      rw [firsts_unseen hseen hback fun m => List.mem_append] at hheads
      obtain ⟨hhead, hsubs⟩ := List.forall_mem_cons.mp (List.forall_mem_append.mp hheads).1
      obtain ⟨a', hresolve', hsatisfies⟩ := hhead
      obtain rfl := Option.some.inj (hresolve.symm.trans hresolve')
      obtain ⟨sub, hsub⟩ := hu'.mpr hsubs
      obtain ⟨more, hmore⟩ := adds_resolveDependencies hs hn hsub
      have hadds : Adds assets [(name, range)] stack _ _ _ :=
        adds_of_resolved hresolve hname hseen hmore
      rw [firsts_unseen hseen hback (hmore.mem_iff hu)] at hfits
      obtain ⟨after, htail⟩ := (ihw (k + 1) ((le_max_right _ _).trans hk) _ stack hadds.sorted
        hadds.nodup hwstack).mpr (List.forall_mem_append.mp hfits).2
      refine ⟨after, ?_⟩
      rw [List.foldlM_cons, bind_eq_ok_iff]
      exact ⟨_, visit_eq_ok_iff.mpr
        ⟨hname, .inr ⟨hseen, a, sub, hresolve, hsatisfies, hsub, rfl⟩⟩, htail⟩

end Walked

section Exactness

variable (assets : Assets) (manifest : Manifest)

/-- `resolveDependencies(manifest, resolveAssetCallback)` -/
def resolved : Except Stop Found := resolveDependencies assets (assets.length + 1) manifest [] []

/-- The resolution returns or throws, however far its recursion is counted. -/
def Terminates : Prop := ∀ k, assets.length < k →
  resolveDependencies assets k manifest [] [] = resolved assets manifest ∧
    resolveDependencies assets k manifest [] [] ≠ .error .fuel

/-- The result lists each name that the manifest leads to once, with the asset that it is resolved
to, behind all that the asset depends on. -/
structure Lists (result : List Resolved) : Prop where
  assigned : ∀ x ∈ result, assets.resolve x.name = some x.asset
  names : ∀ n, n ∈ result.map Resolved.name ↔
    ∃ r, Declares (next assets) manifest.dependencies n r
  once : (result.map Resolved.name).Nodup
  after : ∀ before x rest, result = before ++ x :: rest → ∀ n r,
    Declares (next assets) x.manifest.dependencies n r → n ∈ before.map Resolved.name

/-- The resolution succeeds exactly where no dependency leads back to itself, every one is resolved,
and every declared range is met; and where it succeeds it lists the dependencies. -/
structure Exact : Prop where
  succeeds : (∃ found, resolved assets manifest = .ok found) ↔
    Acyclic (next assets) manifest.dependencies ∧
      Declared.Resolved (next assets) manifest.dependencies ∧
      ∀ n r, Declares (next assets) manifest.dependencies n r → Fits assets (n, r)
  lists : ∀ found, resolved assets manifest = .ok found → Lists assets manifest found.1

/-- Where the dependencies have a walk, and the version of each name meets the range of its first
declaration, it meets the range of every other one. -/
def Agrees : Prop := ∀ w, Walk (next assets) manifest.dependencies w →
  (∀ d ∈ firsts [] w, Fits assets d) → ∀ d ∈ w, Fits assets d

variable {assets manifest}

theorem terminates (assets : Assets) (manifest : Manifest) : Terminates assets manifest := by
  have hne (k : ℕ) (hk : assets.length < k) :
      resolveDependencies assets k manifest [] [] ≠ .error .fuel :=
    resolveDependencies_ne_fuel List.nodup_nil (List.nil_subset _) (by simpa using hk)
  intro k hk
  refine ⟨?_, hne k hk⟩
  induction k, hk using Nat.le_induction with
  | base => rfl
  | succ k hk ih => rw [resolveDependencies_succ (hne k hk), ih]

theorem lists_of_ok (h : resolved assets manifest = .ok found) : Lists assets manifest found.1 := by
  obtain ⟨more, hmore⟩ := adds_resolveDependencies sorted_nil List.nodup_nil h
  obtain rfl : found.1 = more := hmore.resolved
  have hseen : found.2 = found.1.map Resolved.name := hmore.seen
  refine ⟨hmore.found, fun n => ⟨fun hn => ?_, fun ⟨r, hr⟩ => ?_⟩, hseen ▸ hmore.nodup,
    fun before x rest heq n r hr => ?_⟩
  · obtain ⟨x, hx, rfl⟩ := List.mem_map.mp hn
    exact hmore.reached x hx
  · exact hseen ▸ hmore.sorted.closed hmore.declared hr
  · have hx := hmore.found x (by rw [heq]; exact List.mem_append_right _ List.mem_cons_self)
    have hsplit : found.2 =
        before.map Resolved.name ++ x.name :: rest.map Resolved.name := by
      rw [hseen, heq, List.map_append, List.map_cons]
    exact hmore.sorted.mem_of_declares hsplit (next_eq_some hx) hr

/-- What succeeds has a walk. -/
theorem walk_of_ok (h : resolved assets manifest = .ok found) :
    ∃ w, Walk (next assets) manifest.dependencies w := by
  obtain ⟨more, hmore⟩ := adds_resolveDependencies sorted_nil List.nodup_nil h
  exact exists_walk_of_forall fun d hd => hmore.sorted.exists_walk (hmore.declared d hd)

/-- Along a walk, a resolution succeeds exactly where the first declarations fit. -/
theorem ok_iff_firsts {w : List (String × List Char)}
    (hw : Walk (next assets) manifest.dependencies w) :
    (∃ found, resolved assets manifest = .ok found) ↔ ∀ d ∈ firsts [] w, Fits assets d := by
  obtain ⟨least, hleast⟩ := foldlM_walk hw
  have hk := hleast (max least assets.length) (le_max_left _ _) ([], []) [] sorted_nil List.nodup_nil
    fun _ _ => List.not_mem_nil
  rw [← resolveDependencies, (terminates assets manifest _ (by omega)).1] at hk
  exact hk

theorem exists_walk_iff_assets : (∃ w, Walk (next assets) manifest.dependencies w) ↔
    Acyclic (next assets) manifest.dependencies ∧
      Declared.Resolved (next assets) manifest.dependencies := by
  have hnames : ∀ n es, next assets n = some es → n ∈ (assets.map Prod.fst).toFinset := by
    intro n es hn
    obtain ⟨a, ha, -⟩ := Option.map_eq_some_iff.mp hn
    exact List.mem_toFinset.mpr (resolve_mem ha)
  exact exists_walk_iff hnames

/-- Every resolution comes to its end, and it is exact where every declaration of a name agrees with
the first one, and only there. -/
theorem exact_iff_agrees (assets : Assets) (manifest : Manifest) :
    Terminates assets manifest ∧ (Exact assets manifest ↔ Agrees assets manifest) := by
  refine ⟨terminates assets manifest, fun hexact w hw hfirsts d hd => ?_, fun hagrees => ?_⟩
  · obtain ⟨-, -, hfits⟩ := hexact.succeeds.mp ((ok_iff_firsts hw).mpr hfirsts)
    exact hfits d.1 d.2 (hw.mem_iff.mp hd)
  · refine ⟨⟨fun ⟨found, hfound⟩ => ?_, fun ⟨hacyclic, hresolved, hfits⟩ => ?_⟩,
      fun found hfound => lists_of_ok hfound⟩
    · obtain ⟨w, hw⟩ := walk_of_ok hfound
      obtain ⟨hacyclic, hresolved⟩ := exists_walk_iff_assets.mp ⟨w, hw⟩
      refine ⟨hacyclic, hresolved, fun n r hr => ?_⟩
      exact hagrees w hw ((ok_iff_firsts hw).mp ⟨found, hfound⟩) (n, r) (hw.mem_iff.mpr hr)
    · obtain ⟨w, hw⟩ := exists_walk_iff_assets.mpr ⟨hacyclic, hresolved⟩
      exact (ok_iff_firsts hw).mpr fun d hd =>
        hfits d.1 d.2 (hw.mem_iff.mp (firsts_subset [] w hd))

/-- Two assets that depend on a third in versions of which it has one. -/
def disagreeingAssets : Assets :=
  [("a", ⟨"1.0.0".toList, "a.kdna", ⟨[]⟩⟩),
    ("b", ⟨"1.0.0".toList, "b.kdna", ⟨[("a", "^2.0.0".toList)]⟩⟩)]

/-- The manifest that depends on both. -/
def disagreeingManifest : Manifest := ⟨[("a", "^1.0.0".toList), ("b", "^1.0.0".toList)]⟩

theorem disagreeing_walk :
    Walk (next disagreeingAssets) disagreeingManifest.dependencies
      [("a", "^1.0.0".toList), ("b", "^1.0.0".toList), ("a", "^2.0.0".toList)] :=
  .cons rfl .nil (.cons rfl (.cons rfl .nil .nil) .nil)

/-- The second range that is declared for a name is not looked at. -/
theorem second_range_unchecked : ¬ Exact disagreeingAssets disagreeingManifest := by
  have hmet : satisfies "1.0.0".toList "^1.0.0".toList = true := by
    rw [satisfies]
    decide +kernel
  have hunmet : satisfies "1.0.0".toList "^2.0.0".toList = false := by
    rw [satisfies]
    decide +kernel
  intro hexact
  have hok : ∃ found, resolved disagreeingAssets disagreeingManifest = .ok found := by
    refine (ok_iff_firsts disagreeing_walk).mpr ?_
    exact List.forall_mem_cons.mpr ⟨⟨_, rfl, hmet⟩, List.forall_mem_singleton.mpr ⟨_, rfl, hmet⟩⟩
  obtain ⟨-, -, hfits⟩ := hexact.succeeds.mp hok
  obtain ⟨a, ha, hsatisfies⟩ := hfits "a" "^2.0.0".toList
    (disagreeing_walk.mem_iff.mp (List.mem_of_getLast? rfl))
  obtain rfl := Option.some.inj ha
  exact Bool.false_ne_true (hunmet.symm.trans hsatisfies)

end Exactness

end Kdna.Dependencies

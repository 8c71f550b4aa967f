import Mathlib.Data.Finset.Basic
import Mathlib.Data.Finset.Dedup
import Mathlib.Data.List.Pairwise
import Kdna.Plans.PartialOutcomes

/-!
# Recorded results are those the policy allows

The check of a recorded result goes once through its lists with the entries it has seen, the values
of the producers and two running places. It accepts exactly what some sets of confirmed and of
pending entries give: the emission list of the confirmed ones and the references of the pending.
-/

namespace Kdna.Plans

open Value Ir

section Lists

variable (payload : Payload) (policy : Policy) (collect : Collect)

/-- The entries of a set, in the order in which they are processed. -/
def ordered (S : Finset String) : List Entry := (declared policy collect).filter fun e => e.id ∈ S

/-- The emission list of a set of entries: one emission for each, or one for each producer, at its
first entry and with its entries in the order of processing. -/
def emissionList (S : Finset String) : List (ProducerKey × List Entry) :=
  match collect.duplicates with
  | .preserve => (ordered policy collect S).map fun e => (producerKey payload e.producer, [e])
  | .producerIdentity => grouped (fun e => producerKey payload e.producer) (ordered policy collect S)

/-- The reference names the entry. -/
def Names (r : Named) (e : Entry) : Prop := isLocal payload r = true ∧ r.id = e.id

/-- The emission is that of the entries, with a value that satisfies the contract and is the value
of each candidate. -/
structure Emits (contract : Option Json) (emission : Emission) (g : ProducerKey × List Entry) :
    Prop where
  producer : producerKey payload emission.producer = g.1
  names : List.Forall₂ (Names payload) emission.entryRefs g.2
  contract : ∀ c ∈ contract, valueFor c emission.value = .ok ()
  value : ∀ e ∈ g.2, ∀ c, e.producer = .candidate c →
    ∃ v, candidateValue payload c = .ok v ∧ equal v emission.value = true

/-- The lists are those of a set of confirmed and a set of pending entries. -/
structure Legal (contract : Option Json) (outcome : Outcome) (S P : Finset String) : Prop where
  confirmedEntries : ∀ id ∈ S, id ∈ policy.entries.map Entry.id
  pendingEntries : ∀ id ∈ P, id ∈ policy.entries.map Entry.id
  disjoint : Disjoint S P
  nonempty : P.Nonempty
  pendingLocal : ∀ r ∈ outcome.pending, isLocal payload r = true
  pendingOnce : (outcome.pending.map Named.id).Nodup
  pending : (outcome.pending.map Named.id).toFinset = P
  confirmed : List.Forall₂ (Emits payload contract) outcome.confirmed
    (emissionList payload policy collect S)
  values : ∀ a ∈ outcome.confirmed, ∀ b ∈ outcome.confirmed,
    producerKey payload a.producer = producerKey payload b.producer → equal a.value b.value = true

/-- The first entry is processed before the second. -/
def before (a b : Entry) : Prop := order policy collect a.id < order policy collect b.id

instance : IsTrans Entry (before policy collect) := ⟨fun _ _ _ h h' => Nat.lt_trans h h'⟩

instance : Std.Asymm (before policy collect) := ⟨fun _ _ h h' => Nat.lt_asymm h h'⟩

end Lists

section Entries

variable {payload : Payload} {policy : Policy} {collect : Collect}

theorem declared_perm : (declared policy collect).Perm policy.entries := by
  unfold declared
  cases collect.order with
  | declaration => exact .refl _
  | priority => exact List.perm_insertionSort _ _

/-- By priority, entries are processed by rising priority. -/
theorem declared_rising (hpolicy : policy ∈ payload.policies)
    (hcollect : policy.collect? = some collect) (horder : collect.order = .priority) :
    (declared policy collect).Pairwise fun a b => a.priority.getD 0 < b.priority.getD 0 := by
  obtain ⟨hsome, hnodup⟩ := payload.priorities policy hpolicy collect hcollect horder
  have hdistinct : (declared policy collect).Pairwise fun a b => a.priority ≠ b.priority :=
    List.pairwise_map.mp ((declared_perm.map _).nodup_iff.mpr hnodup)
  have hsorted : (declared policy collect).Pairwise fun a b =>
      a.priority.getD 0 ≤ b.priority.getD 0 := by
    have := List.pairwise_insertionSort
      (fun a b : Entry => a.priority.getD 0 ≤ b.priority.getD 0) policy.entries
    unfold declared
    rw [horder]
    exact this
  refine (hsorted.and hdistinct).imp_of_mem fun {a b} ha hb h => lt_of_le_of_ne h.1 fun heq => ?_
  obtain ⟨m, hm⟩ := Option.isSome_iff_exists.mp (hsome a (declared_perm.mem_iff.mp ha))
  obtain ⟨n, hn⟩ := Option.isSome_iff_exists.mp (hsome b (declared_perm.mem_iff.mp hb))
  refine h.2 ?_
  rw [hm, hn] at heq ⊢
  exact congrArg some heq

/-- The ids of the entries of a policy are distinct. -/
theorem nodup_entries (hpolicy : policy ∈ payload.policies) :
    (policy.entries.map Entry.id).Nodup :=
  (List.nodup_flatMap.mp payload.entryIds).1 policy hpolicy

/-- An entry id belongs to one policy. -/
theorem eq_of_entry {p q : Policy} (hp : p ∈ payload.policies) (hq : q ∈ payload.policies)
    {d e : Entry} (hd : d ∈ p.entries) (he : e ∈ q.entries) (hid : d.id = e.id) : p = q := by
  by_contra hne
  have hsymm : Std.Symm (Function.onFun List.Disjoint fun p : Policy => p.entries.map Entry.id) :=
    ⟨fun _ _ h => h.symm⟩
  have hdisjoint := (List.nodup_flatMap.mp payload.entryIds).2.forall hp hq hne
  exact hdisjoint (List.mem_map_of_mem hd) (hid ▸ List.mem_map_of_mem he)

theorem entryOf_eq_some_iff (hpolicy : policy ∈ payload.policies) {id : String} {e : Entry} :
    entryOf payload id = some (policy.id, e) ↔ e ∈ policy.entries ∧ e.id = id := by
  constructor
  · intro h
    obtain ⟨p, hp, hfind⟩ := List.exists_of_findSome?_eq_some h
    obtain ⟨d, hd, heq⟩ := Option.map_eq_some_iff.mp hfind
    obtain ⟨hid, rfl⟩ := Prod.mk.inj heq
    obtain rfl := List.inj_on_of_nodup_map payload.policyIds hp hpolicy hid
    exact ⟨List.mem_of_find?_eq_some hd, by simpa using List.find?_some hd⟩
  · rintro ⟨he, rfl⟩
    have hsome : (entryOf payload e.id).isSome := by
      refine List.findSome?_isSome_iff.mpr ⟨policy, hpolicy, ?_⟩
      rw [Option.isSome_map, List.find?_isSome]
      exact ⟨e, he, decide_eq_true rfl⟩
    obtain ⟨⟨owner, d⟩, hfound⟩ := Option.isSome_iff_exists.mp hsome
    obtain ⟨p, hp, hfind⟩ := List.exists_of_findSome?_eq_some hfound
    obtain ⟨d', hd, heq⟩ := Option.map_eq_some_iff.mp hfind
    obtain ⟨rfl, rfl⟩ := Prod.mk.inj heq
    have hmem := List.mem_of_find?_eq_some hd
    have hid : d'.id = e.id := by simpa using List.find?_some hd
    obtain rfl := eq_of_entry hp hpolicy hmem he hid
    rw [hfound, List.inj_on_of_nodup_map (nodup_entries hpolicy) hmem he hid]

theorem get_eq_some_iff {α : Type} {find : String → Option α} {r : Named}
    {a : α} : get payload find r = .ok (some a) ↔ isLocal payload r = true ∧ find r.id = some a := by
  rw [get]
  cases isLocal payload r with
  | false => simp
  | true =>
    cases find r.id with
    | none => simp [orFail, Except.map]
    | some b => simp [orFail, Except.map]

theorem get_eq_none_iff {α : Type} {find : String → Option α} {r : Named} :
    get payload find r = .ok none ↔ isLocal payload r = false := by
  rw [get]
  cases isLocal payload r with
  | false => simp
  | true =>
    cases find r.id with
    | none => simp [orFail, Except.map]
    | some b => simp [orFail, Except.map]

theorem normalContract_eq_ok_iff {r : Named} {contract : Option Json} :
    normalContract payload r = .ok contract ↔
      isLocal payload r = false ∧ contract = none ∨
        isLocal payload r = true ∧ ∃ c, contractOf payload r.id = some c ∧
          c.propIs "kind" "emission_list" = false ∧ contract = some c := by
  simp only [normalContract, bind_eq_ok_iff, require_eq_ok_iff, pure_eq_ok, Except.ok.injEq]
  constructor
  · rintro ⟨found, hfound, _, hkind, rfl⟩
    cases found with
    | none => exact .inl ⟨get_eq_none_iff.mp hfound, rfl⟩
    | some c =>
      obtain ⟨hlocal, hc⟩ := get_eq_some_iff.mp hfound
      exact .inr ⟨hlocal, c, hc, hkind c rfl, rfl⟩
  · rintro (⟨hlocal, rfl⟩ | ⟨hlocal, c, hc, hkind, rfl⟩)
    · exact ⟨none, get_eq_none_iff.mpr hlocal, (), fun c hc => (by cases hc), rfl⟩
    · exact ⟨some c, get_eq_some_iff.mpr ⟨hlocal, hc⟩, (), fun d hd => Option.some.inj hd ▸ hkind, rfl⟩

theorem unseen_eq_ok_iff (hpolicy : policy ∈ payload.policies) {seen : List String}
    (hseen : seen.Nodup) {r : Named} {e : Entry} :
    unseen payload policy seen r = .ok e ↔
      Names payload r e ∧ e ∈ policy.entries ∧ (seen ++ [e.id]).Nodup := by
  have hfresh : (seen ++ [e.id]).Nodup ↔ e.id ∉ seen := by
    rw [List.nodup_append_comm, List.singleton_append, List.nodup_cons]
    exact and_iff_left hseen
  have hget : (get payload (entryOf payload) r >>= fun found => orFail Failure.coreInvalid found) =
      .ok (policy.id, e) ↔ Names payload r e ∧ e ∈ policy.entries := by
    rw [get, Names]
    cases isLocal payload r with
    | false => simp [orFail]
    | true =>
      rw [if_pos rfl, and_assoc, and_comm (b := e ∈ policy.entries), eq_comm (a := r.id),
        ← entryOf_eq_some_iff hpolicy]
      cases entryOf payload r.id with
      | none => simp [orFail, Except.map]
      | some x => simp [orFail, Except.map]
  rw [hfresh, ← and_assoc, ← hget]
  simp only [unseen, bind_eq_ok_iff, require_eq_ok_iff, pure_eq_ok]
  constructor
  · rintro ⟨found, hfound, ⟨owner, d⟩, hd, -, ⟨rfl, hnot⟩, heq⟩
    obtain rfl := Except.ok.inj heq
    exact ⟨⟨found, hfound, hd⟩, hnot⟩
  · rintro ⟨⟨found, hfound, hd⟩, hnot⟩
    exact ⟨found, hfound, (policy.id, e), hd, (), ⟨rfl, hnot⟩, rfl⟩

/-- The loop over the pending references sees the entries that they name. -/
theorem foldlM_takePending (hpolicy : policy ∈ payload.policies) {refs : List Named}
    {seen seen' : List String} (hseen : seen.Nodup) :
    refs.foldlM (takePending payload policy) seen = .ok seen' ↔
      ∃ es, List.Forall₂ (Names payload) refs es ∧ (∀ e ∈ es, e ∈ policy.entries) ∧
        (seen ++ es.map Entry.id).Nodup ∧ seen' = seen ++ es.map Entry.id := by
  induction refs generalizing seen with
  | nil =>
    rw [List.foldlM_nil, pure_eq_ok, Except.ok.injEq]
    constructor
    · rintro rfl
      exact ⟨[], .nil, List.forall_mem_nil _, by simpa using hseen, (List.append_nil _).symm⟩
    · rintro ⟨es, hnames, -, -, rfl⟩
      cases hnames
      exact (List.append_nil _).symm
  | cons r refs ih =>
    simp only [List.foldlM_cons, bind_eq_ok_iff, takePending, pure_eq_ok]
    constructor
    · rintro ⟨_, ⟨e, he, heq⟩, hrest⟩
      obtain rfl := Except.ok.inj heq
      obtain ⟨hname, hmem, hnodup⟩ := (unseen_eq_ok_iff hpolicy hseen).mp he
      obtain ⟨es, hnames, hes, hfresh, rfl⟩ := (ih hnodup).mp hrest
      refine ⟨e :: es, .cons hname hnames, List.forall_mem_cons.mpr ⟨hmem, hes⟩, ?_, ?_⟩
      · simpa using hfresh
      · simp
    · rintro ⟨_, hnames, hes, hfresh, rfl⟩
      cases hnames with
      | cons hname hnames =>
        rename_i e es
        have hfresh' : (seen ++ [e.id] ++ es.map Entry.id).Nodup := by simpa using hfresh
        have hnodup := hfresh'.of_append_left
        obtain ⟨hmem, hes⟩ := List.forall_mem_cons.mp hes
        refine ⟨_, ⟨e, (unseen_eq_ok_iff hpolicy hseen).mpr ⟨hname, hmem, hnodup⟩, rfl⟩, ?_⟩
        exact (ih hnodup).mpr ⟨es, hnames, hes, hfresh', by simp⟩

end Entries

section Turns

variable (payload : Payload) (policy : Policy) (collect : Collect)

/-- The entry supports the emission. -/
structure Supports (emission : Emission) (e : Entry) : Prop where
  entry : e ∈ policy.entries
  producer : producerKey payload e.producer = producerKey payload emission.producer
  value : ∀ c, e.producer = .candidate c →
    ∃ v, candidateValue payload c = .ok v ∧ equal v emission.value = true

/-- The entries are those of an emission, after the last place and with none that was seen. -/
structure Supporting (emission : Emission) (seen : List String) (last : Option ℕ)
    (es : List Entry) : Prop where
  names : List.Forall₂ (Names payload) emission.entryRefs es
  supports : ∀ e ∈ es, Supports payload policy emission e
  fresh : (seen ++ es.map Entry.id).Nodup
  sorted : es.Pairwise (before policy collect)
  head : ∀ e ∈ es.head?, behind (order policy collect e.id) last

variable {payload policy collect} {emission : Emission}

theorem behind_none (i : ℕ) : behind i none := fun _ h => by cases h

theorem checkCandidate_eq_ok_iff {e : Entry} {v : Json} :
    checkCandidate payload e v = .ok () ↔
      ∀ c, e.producer = .candidate c → ∃ w, candidateValue payload c = .ok w ∧ equal w v = true := by
  unfold checkCandidate
  cases e.producer with
  | candidate c => simp [bind_eq_ok_iff]
  | output source => simp

theorem takeEntry_eq_ok_iff (hpolicy : policy ∈ payload.policies) {turn turn' : EntryTurn}
    (hseen : turn.seen.Nodup) {r : Named} :
    takeEntry payload policy collect emission turn r = .ok turn' ↔
      ∃ e, Names payload r e ∧ Supports payload policy emission e ∧
        (turn.seen ++ [e.id]).Nodup ∧ behind (order policy collect e.id) turn.lastEntry ∧
        (turn.lastEntry = none → behind (order policy collect e.id) turn.lastEmission) ∧
        turn' = ⟨turn.seen ++ [e.id],
          if turn.lastEntry = none then some (order policy collect e.id) else turn.lastEmission,
          some (order policy collect e.id)⟩ := by
  simp only [takeEntry, bind_eq_ok_iff, require_eq_ok_iff, pure_eq_ok]
  constructor
  · rintro ⟨e, he, _, hkey, _, hv, _, hentry, _, hemission, heq⟩
    obtain ⟨hname, hmem, hnodup⟩ := (unseen_eq_ok_iff hpolicy hseen).mp he
    exact ⟨e, hname, ⟨hmem, hkey, checkCandidate_eq_ok_iff.mp hv⟩, hnodup, hentry, hemission,
      (Except.ok.inj heq).symm⟩
  · rintro ⟨e, hname, hsupports, hnodup, hentry, hemission, rfl⟩
    exact ⟨e, (unseen_eq_ok_iff hpolicy hseen).mpr ⟨hname, hsupports.entry, hnodup⟩, (),
      hsupports.producer, (), checkCandidate_eq_ok_iff.mpr hsupports.value, (), hentry, (), hemission, rfl⟩

/-- The loop over the entry references, once past the first. -/
theorem foldlM_takeEntry (hpolicy : policy ∈ payload.policies) {refs : List Named}
    {seen : List String} {last : Option ℕ} {i : ℕ} {turn' : EntryTurn} (hseen : seen.Nodup) :
    refs.foldlM (takeEntry payload policy collect emission) ⟨seen, last, some i⟩ = .ok turn' ↔
      ∃ es, List.Forall₂ (Names payload) refs es ∧
        (∀ e ∈ es, Supports payload policy emission e) ∧ (seen ++ es.map Entry.id).Nodup ∧
        es.Pairwise (before policy collect) ∧ (∀ e ∈ es, i < order policy collect e.id) ∧
        turn' = ⟨seen ++ es.map Entry.id, last,
          some (es.foldl (fun _ e => order policy collect e.id) i)⟩ := by
  induction refs generalizing seen i with
  | nil =>
    rw [List.foldlM_nil, pure_eq_ok, Except.ok.injEq]
    constructor
    · rintro rfl
      exact ⟨[], .nil, List.forall_mem_nil _, by simpa using hseen, .nil, List.forall_mem_nil _,
        by simp⟩
    · rintro ⟨es, hnames, -, -, -, -, rfl⟩
      cases hnames
      simp
  | cons r refs ih =>
    rw [List.foldlM_cons, bind_eq_ok_iff]
    constructor
    · rintro ⟨turn, hturn, hrest⟩
      obtain ⟨e, hname, hsupports, hnodup, hentry, -, rfl⟩ :=
        (takeEntry_eq_ok_iff hpolicy hseen).mp hturn
      obtain ⟨es, hnames, hes, hfresh, hsorted, hlater, rfl⟩ := (ih hnodup).mp hrest
      have hie : i < order policy collect e.id := hentry i rfl
      refine ⟨e :: es, .cons hname hnames, List.forall_mem_cons.mpr ⟨hsupports, hes⟩, ?_,
        List.pairwise_cons.mpr ⟨hlater, hsorted⟩, List.forall_mem_cons.mpr
          ⟨hie, fun d hd => hie.trans (hlater d hd)⟩, ?_⟩
      · simpa using hfresh
      · simp
    · rintro ⟨_, hnames, hes, hfresh, hsorted, hlater, rfl⟩
      cases hnames with
      | cons hname hnames =>
        rename_i e es
        have hfresh' : (seen ++ [e.id] ++ es.map Entry.id).Nodup := by simpa using hfresh
        have hnodup := hfresh'.of_append_left
        obtain ⟨hsupports, hes⟩ := List.forall_mem_cons.mp hes
        obtain ⟨hie, -⟩ := List.forall_mem_cons.mp hlater
        obtain ⟨hafter, hsorted⟩ := List.pairwise_cons.mp hsorted
        refine ⟨_, (takeEntry_eq_ok_iff hpolicy hseen).mpr
          ⟨e, hname, hsupports, hnodup, fun j hj => Option.some.inj hj ▸ hie,
            fun h => (by cases h), rfl⟩, ?_⟩
        exact (ih hnodup).mpr ⟨es, hnames, hes, hfresh', hsorted, hafter, by simp⟩

/-- The loop over the entry references of an emission. -/
theorem foldlM_takeEntry_first (hpolicy : policy ∈ payload.policies) {seen seen' : List String}
    {last last' : Option ℕ} (hseen : seen.Nodup) :
    (∃ j, emission.entryRefs.foldlM (takeEntry payload policy collect emission)
        ⟨seen, last, none⟩ = .ok ⟨seen', last', j⟩) ↔
      ∃ es, Supporting payload policy collect emission seen last es ∧
        seen' = seen ++ es.map Entry.id ∧
        last' = es.head?.map fun e => order policy collect e.id := by
  obtain ⟨r, refs, hrefs⟩ := List.exists_cons_of_ne_nil emission.filled
  simp only [hrefs, List.foldlM_cons, bind_eq_ok_iff]
  constructor
  · rintro ⟨j, turn, hturn, hrest⟩
    obtain ⟨e, hname, hsupports, hnodup, -, hlast, rfl⟩ :=
      (takeEntry_eq_ok_iff hpolicy hseen).mp hturn
    obtain ⟨es, hnames, hes, hfresh, hsorted, hlater, heq⟩ :=
      (foldlM_takeEntry hpolicy hnodup).mp hrest
    obtain ⟨rfl, rfl, -⟩ := EntryTurn.mk.inj heq
    refine ⟨e :: es, ⟨hrefs ▸ .cons hname hnames, List.forall_mem_cons.mpr ⟨hsupports, hes⟩, ?_,
      List.pairwise_cons.mpr ⟨hlater, hsorted⟩, fun d hd => ?_⟩, ?_, rfl⟩
    · simpa using hfresh
    · exact Option.some.inj hd ▸ hlast rfl
    · simp
  · rintro ⟨_, ⟨hnames, hes, hfresh, hsorted, hhead⟩, rfl, rfl⟩
    rw [hrefs] at hnames
    cases hnames with
    | cons hname hnames =>
      rename_i e es
      have hfresh' : (seen ++ [e.id] ++ es.map Entry.id).Nodup := by simpa using hfresh
      have hnodup := hfresh'.of_append_left
      obtain ⟨hsupports, hes⟩ := List.forall_mem_cons.mp hes
      obtain ⟨hafter, hsorted⟩ := List.pairwise_cons.mp hsorted
      refine ⟨some (es.foldl (fun _ d => order policy collect d.id) (order policy collect e.id)), _,
        (takeEntry_eq_ok_iff hpolicy hseen).mpr
          ⟨e, hname, hsupports, hnodup, behind_none _, fun _ => hhead e rfl, rfl⟩, ?_⟩
      exact (foldlM_takeEntry hpolicy hnodup).mpr
        ⟨es, hnames, hes, hfresh', hsorted, hafter, by simp⟩

end Turns

section Replay

variable (payload : Payload) (policy : Policy) (collect : Collect)

/-- Two emissions of one producer have one value, and are not both there where producers tell
emissions apart. -/
def Agree (a b : ProducerKey × Json) : Prop :=
  a.1 = b.1 → equal a.2 b.2 = true ∧ collect.duplicates ≠ .producerIdentity

/-- The producer and the value of an emission. -/
def recorded (emission : Emission) : ProducerKey × Json :=
  (producerKey payload emission.producer, emission.value)

/-- The groups are entries of the policy that support the emissions, in the order of processing. -/
structure Replay (contract : Option Json) (turn : EmissionTurn) (confirmed : List Emission)
    (gs : List (ProducerKey × List Entry)) : Prop where
  emits : List.Forall₂ (Emits payload contract) confirmed gs
  entries : ∀ g ∈ gs, ∀ e ∈ g.2, e ∈ policy.entries
  keyed : ∀ g ∈ gs, ∀ e ∈ g.2, producerKey payload e.producer = g.1
  single : collect.duplicates = .preserve → ∀ g ∈ gs, g.2.length = 1
  fresh : (turn.seen ++ (gs.flatMap Prod.snd).map Entry.id).Nodup
  sorted : ∀ g ∈ gs, g.2.Pairwise (before policy collect)
  heads : gs.Pairwise fun g g' => ∃ a ∈ g.2.head?, ∃ b ∈ g'.2.head?, before policy collect a b
  behind : ∀ g ∈ gs, ∀ e ∈ g.2.head?, behind (order policy collect e.id) turn.lastEmission
  agree : confirmed.Pairwise fun a b => Agree collect (recorded payload a) (recorded payload b)
  agreed : ∀ x ∈ turn.emitted, ∀ a ∈ confirmed, Agree collect x (recorded payload a)

variable {payload policy collect} {emission : Emission} {contract : Option Json}

theorem equal_iff {a b : Json} : equal a b = true ↔ canonicalText a = canonicalText b :=
  decide_eq_true_iff

/-- The last value of a producer stands for all of them. -/
theorem find?_agrees {es : List (ProducerKey × Json)} (hes : es.Pairwise (Agree collect))
    {x : ProducerKey × Json} :
    (∀ v ∈ (es.find? fun y => y.1 = x.1).map Prod.snd,
      equal v x.2 = true ∧ collect.duplicates ≠ .producerIdentity) ↔
      ∀ y ∈ es, Agree collect y x := by
  induction es with
  | nil => simp
  | cons y es ih =>
    obtain ⟨hy, hes⟩ := List.pairwise_cons.mp hes
    rw [List.forall_mem_cons, ← ih hes]
    by_cases hkey : y.1 = x.1
    · rw [List.find?_cons_of_pos (by simpa using hkey), Option.map_some]
      constructor
      · intro h
        obtain ⟨hvalue, hmode⟩ := h _ rfl
        refine ⟨fun _ => ⟨hvalue, hmode⟩, (ih hes).mpr fun z hz hzx => ⟨?_, hmode⟩⟩
        have hyz := (hy z hz (hkey.trans hzx.symm)).1
        exact equal_iff.mpr ((equal_iff.mp hyz).symm.trans (equal_iff.mp hvalue))
      · rintro ⟨hyx, -⟩ v hv
        exact Option.some.inj hv ▸ hyx hkey
    · rw [List.find?_cons_of_neg (by simpa using hkey)]
      exact ⟨fun h => ⟨fun heq => absurd heq hkey, h⟩, fun h => h.2⟩

theorem takeEmission_eq_ok_iff (hpolicy : policy ∈ payload.policies) {turn turn' : EmissionTurn}
    (hseen : turn.seen.Nodup) (hemitted : turn.emitted.Pairwise (Agree collect)) :
    takeEmission payload policy collect contract turn emission = .ok turn' ↔
      (∀ c ∈ contract, valueFor c emission.value = .ok ()) ∧
      (∀ x ∈ turn.emitted, Agree collect x (recorded payload emission)) ∧
      (collect.duplicates = .preserve → emission.entryRefs.length = 1) ∧
      ∃ es, Supporting payload policy collect emission turn.seen turn.lastEmission es ∧
        turn' = ⟨turn.seen ++ es.map Entry.id, recorded payload emission :: turn.emitted,
          es.head?.map fun e => order policy collect e.id⟩ := by
  have hcontract : (contract.forM fun c => valueFor c emission.value) = .ok () ↔
      ∀ c ∈ contract, valueFor c emission.value = .ok () := by
    cases contract with
    | none => simp [Option.forM, pure_eq_ok]
    | some c => simp [Option.forM]
  rw [← find?_agrees hemitted]
  simp only [takeEmission, bind_eq_ok_iff, require_eq_ok_iff, pure_eq_ok]
  constructor
  · rintro ⟨_, hc, _, hvalue, _, hmode, ⟨seen', last', j⟩, hentries, heq⟩
    obtain ⟨es, hes, rfl, rfl⟩ := (foldlM_takeEntry_first hpolicy hseen).mp ⟨j, hentries⟩
    exact ⟨hcontract.mp hc, hvalue, hmode, es, hes, (Except.ok.inj heq).symm⟩
  · rintro ⟨hc, hvalue, hmode, es, hes, rfl⟩
    obtain ⟨j, hentries⟩ := (foldlM_takeEntry_first hpolicy hseen).mpr ⟨es, hes, rfl, rfl⟩
    exact ⟨(), hcontract.mpr hc, (), hvalue, (), hmode, _, hentries, rfl⟩

/-- An emission has entries. -/
theorem Emits.ne_nil {g : ProducerKey × List Entry} (h : Emits payload contract emission g) :
    g.2 ≠ [] := by
  intro hnil
  have hlength := h.names.length_eq
  rw [hnil] at hlength
  exact emission.filled (List.length_eq_zero_iff.mp hlength)

/-- The state after an emission of the entries. -/
def EmissionTurn.after (payload : Payload) (policy : Policy) (collect : Collect)
    (turn : EmissionTurn) (emission : Emission) (es : List Entry) : EmissionTurn :=
  ⟨turn.seen ++ es.map Entry.id, recorded payload emission :: turn.emitted,
    es.head?.map fun e => order policy collect e.id⟩

variable {turn : EmissionTurn} {confirmed : List Emission} {g : ProducerKey × List Entry}
  {gs : List (ProducerKey × List Entry)}

theorem Supporting.emits {seen : List String} {last : Option ℕ} {es : List Entry}
    (h : Supporting payload policy collect emission seen last es)
    (hcontract : ∀ c ∈ contract, valueFor c emission.value = .ok ()) :
    Emits payload contract emission (producerKey payload emission.producer, es) :=
  ⟨rfl, h.names, hcontract, fun e he => (h.supports e he).value⟩

theorem Replay.cons {es : List Entry} (hcontract : ∀ c ∈ contract, valueFor c emission.value = .ok ())
    (hagrees : ∀ x ∈ turn.emitted, Agree collect x (recorded payload emission))
    (hsingle : collect.duplicates = .preserve → emission.entryRefs.length = 1)
    (hes : Supporting payload policy collect emission turn.seen turn.lastEmission es)
    (h : Replay payload policy collect contract (turn.after payload policy collect emission es)
      confirmed gs) :
    Replay payload policy collect contract turn (emission :: confirmed)
      ((producerKey payload emission.producer, es) :: gs) := by
  obtain ⟨a, as, rfl⟩ := List.exists_cons_of_ne_nil (hes.emits hcontract).ne_nil
  have hlater : ∀ g ∈ gs, ∀ b ∈ g.2.head?, before policy collect a b :=
    fun g hg b hb => h.behind g hg b hb _ rfl
  exact {
    emits := .cons (hes.emits hcontract) h.emits
    entries := List.forall_mem_cons.mpr ⟨fun e he => (hes.supports e he).entry, h.entries⟩
    keyed := List.forall_mem_cons.mpr ⟨fun e he => (hes.supports e he).producer, h.keyed⟩
    single := fun hmode => List.forall_mem_cons.mpr
      ⟨hes.names.length_eq.symm.trans (hsingle hmode), h.single hmode⟩
    fresh := by simpa [EmissionTurn.after] using h.fresh
    sorted := List.forall_mem_cons.mpr ⟨hes.sorted, h.sorted⟩
    heads := by
      refine List.pairwise_cons.mpr ⟨fun g hg => ?_, h.heads⟩
      obtain ⟨_, -, hemits⟩ := exists_of_mem_forall₂ h.emits hg
      obtain ⟨b, bs, hbs⟩ := List.exists_cons_of_ne_nil hemits.ne_nil
      have hb : b ∈ g.2.head? := hbs ▸ rfl
      exact ⟨a, rfl, b, hb, hlater g hg b hb⟩
    behind := List.forall_mem_cons.mpr
      ⟨hes.head, fun g hg b hb i hi => (hes.head a rfl i hi).trans (hlater g hg b hb)⟩
    agree := List.pairwise_cons.mpr ⟨h.agreed _ List.mem_cons_self, h.agree⟩
    agreed := fun x hx =>
      List.forall_mem_cons.mpr ⟨hagrees x hx, h.agreed x (List.mem_cons_of_mem _ hx)⟩ }

/-- What a replay of a first emission says of it. -/
theorem Replay.head (h : Replay payload policy collect contract turn (emission :: confirmed)
    (g :: gs)) : g.1 = producerKey payload emission.producer ∧
    Supporting payload policy collect emission turn.seen turn.lastEmission g.2 := by
  obtain ⟨hemits, -⟩ := List.forall₂_cons.mp h.emits
  refine ⟨hemits.producer.symm, hemits.names, fun e he => ?_, ?_, ?_, ?_⟩
  · exact ⟨h.entries g List.mem_cons_self e he,
      (h.keyed g List.mem_cons_self e he).trans hemits.producer.symm, hemits.value e he⟩
  · have hfresh := h.fresh
    rw [List.flatMap_cons, List.map_append, ← List.append_assoc] at hfresh
    exact hfresh.of_append_left
  · exact h.sorted g List.mem_cons_self
  · exact h.behind g List.mem_cons_self

/-- What follows a first emission replays after it. -/
theorem Replay.tail (h : Replay payload policy collect contract turn (emission :: confirmed)
    (g :: gs)) : Replay payload policy collect contract
    (turn.after payload policy collect emission g.2) confirmed gs where
  emits := (List.forall₂_cons.mp h.emits).2
  entries := (List.forall_mem_cons.mp h.entries).2
  keyed := (List.forall_mem_cons.mp h.keyed).2
  single hmode := (List.forall_mem_cons.mp (h.single hmode)).2
  fresh := by simpa [EmissionTurn.after] using h.fresh
  sorted := (List.forall_mem_cons.mp h.sorted).2
  heads := (List.pairwise_cons.mp h.heads).2
  behind g' hg' b hb i hi := by
    obtain ⟨a, ha, b', hb', hab⟩ := (List.pairwise_cons.mp h.heads).1 g' hg'
    obtain ⟨a', ha', rfl⟩ := Option.map_eq_some_iff.mp hi
    obtain rfl := Option.mem_unique ha ha'
    obtain rfl := Option.mem_unique hb hb'
    exact hab
  agree := (List.pairwise_cons.mp h.agree).2
  agreed := List.forall_mem_cons.mpr ⟨(List.pairwise_cons.mp h.agree).1,
    fun x hx => (List.forall_mem_cons.mp (h.agreed x hx)).2⟩

/-- The loop over the confirmed emissions accepts exactly what replays. -/
theorem foldlM_takeEmission (hpolicy : policy ∈ payload.policies) (hseen : turn.seen.Nodup)
    (hemitted : turn.emitted.Pairwise (Agree collect)) :
    (∃ turn', confirmed.foldlM (takeEmission payload policy collect contract) turn = .ok turn') ↔
      ∃ gs, Replay payload policy collect contract turn confirmed gs := by
  induction confirmed generalizing turn with
  | nil =>
    refine ⟨fun _ => ⟨[], .nil, List.forall_mem_nil _, List.forall_mem_nil _,
      fun _ => List.forall_mem_nil _, by simpa using hseen, List.forall_mem_nil _, .nil,
      List.forall_mem_nil _, .nil, fun _ _ => List.forall_mem_nil _⟩, fun _ => ⟨turn, rfl⟩⟩
  | cons emission confirmed ih =>
    simp only [List.foldlM_cons, bind_eq_ok_iff]
    have hnext {es : List Entry} (hagrees : ∀ x ∈ turn.emitted,
        Agree collect x (recorded payload emission)) : (turn.after payload policy collect emission
          es).emitted.Pairwise (Agree collect) := by
      refine List.pairwise_cons.mpr ⟨fun x hx heq => ?_, hemitted⟩
      obtain ⟨hvalue, hmode⟩ := hagrees x hx heq.symm
      exact ⟨equal_iff.mpr (equal_iff.mp hvalue).symm, hmode⟩
    constructor
    · rintro ⟨_, turn', hstep, hrest⟩
      obtain ⟨hcontract, hagrees, hsingle, es, hes, rfl⟩ :=
        (takeEmission_eq_ok_iff hpolicy hseen hemitted).mp hstep
      obtain ⟨gs, hgs⟩ := (ih hes.fresh (hnext hagrees)).mp ⟨_, hrest⟩
      exact ⟨_, hgs.cons hcontract hagrees hsingle hes⟩
    · rintro ⟨gs, hgs⟩
      cases gs with
      | nil => cases hgs.emits
      | cons g gs =>
        obtain ⟨-, hes⟩ := hgs.head
        have hagrees : ∀ x ∈ turn.emitted, Agree collect x (recorded payload emission) :=
          fun x hx => hgs.agreed x hx _ List.mem_cons_self
        obtain ⟨turn', hrest⟩ := (ih hes.fresh (hnext hagrees)).mpr ⟨gs, hgs.tail⟩
        refine ⟨turn', _, (takeEmission_eq_ok_iff hpolicy hseen hemitted).mpr
          ⟨(List.forall₂_cons.mp hgs.emits).1.contract, hagrees, fun hmode => ?_, g.2, hes, rfl⟩, hrest⟩
        exact hes.names.length_eq.trans (hgs.single hmode g List.mem_cons_self)

end Replay

section Sets

variable {payload : Payload} {policy : Policy} {collect : Collect} {S : Finset String}
  {contract : Option Json} {gs : List (ProducerKey × List Entry)}

/-- The declared entries are in their own order. -/
theorem declared_sorted (hpolicy : policy ∈ payload.policies) :
    (declared policy collect).Pairwise (before policy collect) := by
  have hnodup : ((declared policy collect).map Entry.id).Nodup :=
    (declared_perm.map _).nodup_iff.mpr (nodup_entries hpolicy)
  have hids : ((declared policy collect).map Entry.id).Pairwise fun a b =>
      order policy collect a < order policy collect b := by
    refine List.pairwise_iff_getElem.mpr fun i j hi hj hij => ?_
    rw [order, order, hnodup.idxOf_getElem i hi, hnodup.idxOf_getElem j hj]
    exact hij
  rw [List.pairwise_map] at hids
  exact hids

theorem ordered_sorted (hpolicy : policy ∈ payload.policies) :
    (ordered policy collect S).Pairwise (before policy collect) :=
  (declared_sorted hpolicy).filter _

theorem mem_ordered {e : Entry} :
    e ∈ ordered policy collect S ↔ e ∈ policy.entries ∧ e.id ∈ S := by
  rw [ordered, List.mem_filter, declared_perm.mem_iff, decide_eq_true_iff]

theorem nodup_ordered (hpolicy : policy ∈ payload.policies) :
    ((ordered policy collect S).map Entry.id).Nodup :=
  ((declared_perm.map _).nodup_iff.mpr (nodup_entries hpolicy)).sublist
    (List.filter_sublist.map _)

/-- The entries of an emission list. -/
theorem emissionList_perm :
    ((emissionList payload policy collect S).flatMap Prod.snd).Perm (ordered policy collect S) := by
  unfold emissionList
  cases collect.duplicates with
  | producerIdentity => exact grouped_perm
  | preserve =>
    have hflat (l : List Entry) : (l.map fun e =>
        (producerKey payload e.producer, [e])).flatMap Prod.snd = l := by
      rw [List.flatMap_map]
      exact List.flatMap_singleton' l
    exact .of_eq (hflat _)

theorem groups_emissionList (hpolicy : policy ∈ payload.policies) :
    (∀ g ∈ emissionList payload policy collect S, g.2 ≠ []) ∧
    (∀ g ∈ emissionList payload policy collect S, ∀ e ∈ g.2, producerKey payload e.producer = g.1) ∧
    (∀ g ∈ emissionList payload policy collect S, g.2.Pairwise (before policy collect)) ∧
    (emissionList payload policy collect S).Pairwise fun g g' =>
      ∃ a ∈ g.2.head?, ∃ b ∈ g'.2.head?, before policy collect a b := by
  have hsorted : (ordered policy collect S).Pairwise (before policy collect) :=
    ordered_sorted hpolicy
  unfold emissionList
  cases collect.duplicates with
  | producerIdentity =>
    have hgrouped : Groups (fun e : Entry => producerKey payload e.producer) _ _ :=
      groups_grouped hsorted
    obtain ⟨hfilled, hkeyed, hs, -, hheads⟩ := hgrouped
    exact ⟨hfilled, hkeyed, hs, hheads⟩
  | preserve =>
    refine ⟨?_, ?_, ?_, List.pairwise_map.mpr (hsorted.imp fun h => ⟨_, rfl, _, rfl, h⟩)⟩
    all_goals
      intro g hg
      obtain ⟨e, -, rfl⟩ := List.mem_map.mp hg
    · exact List.cons_ne_nil _ _
    · exact List.forall_mem_singleton.mpr rfl
    · exact List.pairwise_singleton _ _

/-- The producers of emissions are those of their groups. -/
theorem keys_of_emits {confirmed : List Emission}
    (h : List.Forall₂ (Emits payload contract) confirmed gs) :
    confirmed.map (fun emission => producerKey payload emission.producer) = gs.map Prod.fst := by
  have hkeys := List.forall₂_map_left_iff.mpr (List.forall₂_map_right_iff.mpr
    (h.imp fun _ _ hemits => hemits.producer))
  rw [List.forall₂_eq_eq_eq] at hkeys
  exact hkeys

/-- A replay from the start gives the emission list of its entries. -/
theorem Replay.eq_emissionList (hpolicy : policy ∈ payload.policies) {seen : List String}
    {confirmed : List Emission}
    (h : Replay payload policy collect contract ⟨seen, [], none⟩ confirmed gs) :
    gs = emissionList payload policy collect ((gs.flatMap Prod.snd).map Entry.id).toFinset := by
  have hmem (e : Entry) : (∃ g ∈ gs, e ∈ g.2) ↔
      e ∈ ordered policy collect ((gs.flatMap Prod.snd).map Entry.id).toFinset := by
    rw [mem_ordered, List.mem_toFinset, ← List.mem_flatMap]
    constructor
    · intro he
      obtain ⟨g, hg, heg⟩ := List.mem_flatMap.mp he
      exact ⟨h.entries g hg e heg, List.mem_map_of_mem he⟩
    · rintro ⟨he, hid⟩
      obtain ⟨d, hd, heq⟩ := List.mem_map.mp hid
      obtain ⟨g, hg, hdg⟩ := List.mem_flatMap.mp hd
      rwa [← List.inj_on_of_nodup_map (nodup_entries hpolicy) (h.entries g hg d hdg) he heq]
  have hfilled : ∀ g ∈ gs, g.2 ≠ [] := by
    intro g hg
    obtain ⟨_, -, hemits⟩ := exists_of_mem_forall₂ h.emits hg
    exact hemits.ne_nil
  unfold emissionList
  cases hmode : collect.duplicates with
  | preserve =>
    refine eq_singles (ordered_sorted hpolicy) (fun g hg => ?_) h.heads hmem
    obtain ⟨e, he⟩ := List.length_eq_one_iff.mp (h.single hmode g hg)
    have hkey := h.keyed g hg e (he ▸ List.mem_cons_self)
    exact ⟨e, Prod.ext hkey.symm he⟩
  | producerIdentity =>
    refine Groups.eq_grouped ⟨hfilled, h.keyed, h.sorted, ?_, h.heads⟩ (ordered_sorted hpolicy) hmem
    rw [← keys_of_emits h.emits]
    exact List.pairwise_map.mpr (h.agree.imp fun {a b} hab heq => (hab heq).2 hmode)

/-- The emission list of a set replays from the start where no entry of the set was seen. -/
theorem replay_emissionList (hpolicy : policy ∈ payload.policies) {seen : List String}
    (hseen : seen.Nodup) (hfresh : ∀ id ∈ S, id ∉ seen) {confirmed : List Emission}
    (hemits : List.Forall₂ (Emits payload contract) confirmed
      (emissionList payload policy collect S))
    (hvalues : ∀ a ∈ confirmed, ∀ b ∈ confirmed,
      producerKey payload a.producer = producerKey payload b.producer →
        equal a.value b.value = true) :
    Replay payload policy collect contract ⟨seen, [], none⟩ confirmed
      (emissionList payload policy collect S) := by
  have hgroups : (∀ g ∈ emissionList payload policy collect S, g.2 ≠ []) ∧ _ :=
    groups_emissionList hpolicy
  obtain ⟨-, hkeyed, hsorted, hheads⟩ := hgroups
  have hordered {g : ProducerKey × List Entry} (hg : g ∈ emissionList payload policy collect S)
      {e : Entry} (he : e ∈ g.2) : e ∈ ordered policy collect S :=
    emissionList_perm.mem_iff.mp (List.mem_flatMap.mpr ⟨g, hg, he⟩)
  refine ⟨hemits, fun g hg e he => (mem_ordered.mp (hordered hg he)).1, hkeyed, fun hmode g hg => ?_,
    ?_, hsorted, hheads, fun g _ e _ => behind_none _, ?_, List.forall_mem_nil _⟩
  · rw [emissionList, hmode] at hg
    obtain ⟨e, -, rfl⟩ := List.mem_map.mp hg
    rfl
  · refine List.nodup_append.mpr ⟨hseen, (emissionList_perm.map _).nodup_iff.mpr
      (nodup_ordered hpolicy), fun a ha b hb heq => ?_⟩
    obtain ⟨e, he, rfl⟩ := List.mem_map.mp hb
    exact hfresh _ (mem_ordered.mp (emissionList_perm.mem_iff.mp he)).2 (heq ▸ ha)
  · cases hmode : collect.duplicates with
    | preserve =>
      exact List.pairwise_of_forall_mem_list fun a ha b hb heq =>
        ⟨hvalues a ha b hb heq, by rw [hmode]; decide⟩
    | producerIdentity =>
      have hgrouped : Groups (fun e : Entry => producerKey payload e.producer)
          (before policy collect) (grouped _ (ordered policy collect S)) :=
        groups_grouped (ordered_sorted hpolicy)
      have hdistinct := hgrouped.distinct
      rw [emissionList, hmode] at hemits
      rw [← keys_of_emits hemits] at hdistinct
      exact (List.pairwise_map.mp hdistinct).imp fun hne heq => absurd heq hne

theorem ids_of_names {refs : List Named} {es : List Entry}
    (h : List.Forall₂ (Names payload) refs es) : refs.map Named.id = es.map Entry.id := by
  have hids := List.forall₂_map_left_iff.mpr (List.forall₂_map_right_iff.mpr
    (h.imp fun _ _ hname => hname.2))
  rw [List.forall₂_eq_eq_eq] at hids
  exact hids

/-- Local references with the ids of entries name entries. -/
theorem exists_names {refs : List Named} (hlocal : ∀ r ∈ refs, isLocal payload r = true)
    (hids : ∀ r ∈ refs, r.id ∈ policy.entries.map Entry.id) :
    ∃ es, List.Forall₂ (Names payload) refs es ∧ ∀ e ∈ es, e ∈ policy.entries := by
  induction refs with
  | nil => exact ⟨[], .nil, List.forall_mem_nil _⟩
  | cons r refs ih =>
    obtain ⟨hr, hlocal⟩ := List.forall_mem_cons.mp hlocal
    obtain ⟨hid, hids⟩ := List.forall_mem_cons.mp hids
    obtain ⟨e, he, heq⟩ := List.mem_map.mp hid
    obtain ⟨es, hnames, hes⟩ := ih hlocal hids
    exact ⟨e :: es, .cons ⟨hr, heq.symm⟩ hnames, List.forall_mem_cons.mpr ⟨he, hes⟩⟩

/-- What a replay shows of the values of a producer. -/
theorem Replay.values {turn : EmissionTurn} {confirmed : List Emission}
    (h : Replay payload policy collect contract turn confirmed gs) :
    ∀ a ∈ confirmed, ∀ b ∈ confirmed,
      producerKey payload a.producer = producerKey payload b.producer →
        equal a.value b.value = true := by
  have hsymm : Std.Symm fun a b : Emission =>
      producerKey payload a.producer = producerKey payload b.producer →
        equal a.value b.value = true :=
    ⟨fun a b hab heq => equal_iff.mpr (equal_iff.mp (hab heq.symm)).symm⟩
  have hvalues : confirmed.Pairwise fun a b : Emission =>
      producerKey payload a.producer = producerKey payload b.producer →
        equal a.value b.value = true := h.agree.imp fun hab heq => (hab heq).1
  exact hvalues.forall_of_forall fun a _ _ => equal_iff.mpr rfl

/-- The two lists are accepted exactly where they are those of some sets of entries. -/
theorem checkLists_eq_ok_iff (hpolicy : policy ∈ payload.policies) {outcome : Outcome} :
    checkLists payload policy collect contract outcome = .ok () ↔
      ∃ S P, Legal payload policy collect contract outcome S P := by
  simp only [checkLists, bind_eq_ok_iff, require_eq_ok_iff, pure_eq_ok]
  constructor
  · rintro ⟨seen, hpending, _, hnonempty, turn', hconfirmed, -⟩
    obtain ⟨ps, hnames, hps, hseen, rfl⟩ := (foldlM_takePending hpolicy List.nodup_nil).mp hpending
    rw [List.nil_append, ← ids_of_names hnames] at hseen hconfirmed
    obtain ⟨gs, hgs⟩ := (foldlM_takeEmission hpolicy hseen .nil).mp ⟨turn', hconfirmed⟩
    have hdisjoint := (List.nodup_append.mp hgs.fresh).2.2
    refine ⟨((gs.flatMap Prod.snd).map Entry.id).toFinset, (outcome.pending.map Named.id).toFinset, {
      confirmedEntries := fun id hid => ?_
      pendingEntries := fun id hid => ?_
      disjoint := ?_
      nonempty := ?_
      pendingLocal := fun r hr => ?_
      pendingOnce := hseen
      pending := rfl
      confirmed := hgs.eq_emissionList hpolicy ▸ hgs.emits
      values := hgs.values }⟩
    · obtain ⟨e, he, rfl⟩ := List.mem_map.mp (List.mem_toFinset.mp hid)
      obtain ⟨g, hg, heg⟩ := List.mem_flatMap.mp he
      exact List.mem_map_of_mem (hgs.entries g hg e heg)
    · rw [List.mem_toFinset, ids_of_names hnames] at hid
      obtain ⟨e, he, rfl⟩ := List.mem_map.mp hid
      exact List.mem_map_of_mem (hps e he)
    · refine Finset.disjoint_left.mpr fun id hS hP => ?_
      exact hdisjoint id (List.mem_toFinset.mp hP) id (List.mem_toFinset.mp hS) rfl
    · obtain ⟨r, hr⟩ := List.exists_mem_of_ne_nil _ hnonempty
      exact ⟨r.id, List.mem_toFinset.mpr (List.mem_map_of_mem hr)⟩
    · obtain ⟨_, -, hname⟩ := exists_mem_forall₂ hnames hr
      exact hname.1
  · rintro ⟨S, P, h⟩
    have hids : ∀ r ∈ outcome.pending, r.id ∈ policy.entries.map Entry.id := fun r hr =>
      h.pendingEntries r.id (h.pending ▸ List.mem_toFinset.mpr (List.mem_map_of_mem hr))
    obtain ⟨ps, hnames, hps⟩ := exists_names h.pendingLocal hids
    have hseen : (ps.map Entry.id).Nodup := ids_of_names hnames ▸ h.pendingOnce
    have hfresh : ∀ id ∈ S, id ∉ ps.map Entry.id := fun id hS hid => by
      rw [← ids_of_names hnames, ← List.mem_toFinset, h.pending] at hid
      exact Finset.disjoint_left.mp h.disjoint hS hid
    obtain ⟨turn', hconfirmed⟩ := (foldlM_takeEmission hpolicy hseen .nil).mpr
      ⟨_, replay_emissionList hpolicy hseen hfresh h.confirmed h.values⟩
    refine ⟨ps.map Entry.id, (foldlM_takePending hpolicy List.nodup_nil).mpr
      ⟨ps, hnames, hps, hseen, rfl⟩, (), fun hnil => ?_, turn', hconfirmed, trivial⟩
    have hempty := h.pending
    rw [hnil, List.map_nil, List.toFinset_nil] at hempty
    exact h.nonempty.ne_empty hempty.symm

end Sets

/-- A recorded result is accepted exactly where its policy collects all matches and may leave some
undetermined, it names the item contract of the policy, and its lists are those of a set of confirmed
and a set of pending entries, with values that satisfy the contract where it is the asset's own. -/
theorem checkOutcome_eq_ok_iff (payload : Payload) (outcome : Outcome) :
    checkOutcome payload outcome = .ok () ↔
      ∃ policy collect contract, get payload (policyOf payload) outcome.policyRef = .ok (some policy) ∧
        policy.collect? = some collect ∧ policy.matching = .allMatches ∧
        policy.onUndetermined = .partially ∧
        identity payload outcome.itemContractRef = identity payload collect.itemContractRef ∧
        normalContract payload outcome.itemContractRef = .ok contract ∧
        ∃ S P, Legal payload policy collect contract outcome S P := by
  have hmem {policy : Policy}
      (h : get payload (policyOf payload) outcome.policyRef = .ok (some policy)) :
      policy ∈ payload.policies := List.mem_of_find?_eq_some (get_eq_some_iff.mp h).2
  simp only [checkOutcome, bind_eq_ok_iff, require_eq_ok_iff, orFail_eq_ok_iff]
  constructor
  · rintro ⟨_, hpolicy, policy, rfl, collect, hcollect, _, ⟨hmatch, hpartial, hcontract⟩, contract,
      hnormal, hlists⟩
    exact ⟨policy, collect, contract, hpolicy, hcollect, hmatch, hpartial, hcontract, hnormal,
      (checkLists_eq_ok_iff (hmem hpolicy)).mp hlists⟩
  · rintro ⟨policy, collect, contract, hpolicy, hcollect, hmatch, hpartial, hcontract, hnormal, hlegal⟩
    exact ⟨_, hpolicy, policy, rfl, collect, hcollect, (), ⟨hmatch, hpartial, hcontract⟩, contract,
      hnormal, (checkLists_eq_ok_iff (hmem hpolicy)).mpr hlegal⟩

section Outside

/-- The asset of a payload. -/
def ownAsset : Json := .obj [("asset_id", .str "kdna:a"), ("asset_version", .str "1.0.0")]

/-- A contract of another asset. -/
def otherContract : Named :=
  ⟨"count", some (.obj [("asset_id", .str "kdna:b"), ("asset_version", .str "1.0.0")])⟩

/-- What the contract of the other asset says. -/
def countContract : Json := .obj [("kind", .str "result"),
  ("shape", .obj [("kind", .str "scalar"), ("scalar_type", .str "number")]),
  ("minimum", .num (.natural 1 Binary64.one_le_limit)), ("maximum", .null)]

/-- A collection under that contract. -/
def countCollect : Collect := ⟨otherContract, .preserve, .declaration⟩

/-- A policy with two entries for one candidate, which is a text. -/
def countPolicy : Policy :=
  ⟨"policy", [⟨"first", none, .candidate ⟨"answer", none⟩⟩, ⟨"second", none, .candidate ⟨"answer", none⟩⟩],
    [⟨"answer", .obj [("kind", .str "text"), ("text", .str "many")]⟩], .allMatches,
    some (.collect countCollect), .partially⟩

/-- The payload of the policy. -/
def countPayload : Payload where
  asset := ownAsset
  contracts := []
  policies := [countPolicy]
  policyIds := by decide
  entryIds := by decide
  priorities := fun p hp c hc horder => by
    obtain rfl := List.mem_singleton.mp hp
    obtain rfl : countCollect = c := Option.some.inj hc
    cases horder

/-- The text is recorded for the first entry, and the second is pending. -/
def countOutcome : Outcome :=
  ⟨⟨"policy", none⟩, otherContract,
    [⟨.candidate ⟨"answer", none⟩, [⟨"first", none⟩], List.cons_ne_nil _ _,
      .obj [("kind", .str "text"), ("text", .str "many")]⟩], [⟨"second", none⟩]⟩

/-- A value is not checked against the item contract of another asset. -/
theorem other_contract_unread : checkOutcome countPayload countOutcome = .ok () ∧
    ∀ S P, ¬ Legal countPayload countPolicy countCollect (some countContract) countOutcome S P := by
  refine ⟨by decide, fun S P h => ?_⟩
  obtain ⟨g, -, hemits⟩ := exists_mem_forall₂ h.confirmed List.mem_cons_self
  have hvalue : ¬ valueFor countContract (.obj [("kind", .str "text"), ("text", .str "many")]) =
      .ok () := by decide
  exact hvalue (hemits.contract countContract rfl)

end Outside

end Kdna.Plans

import Kdna.Json.Printed
import Kdna.Json.Quick
import Kdna.Packages.Capture

/-!
# The clock of a member provider

The loop of `captureObservation` moves the clock of the provider with each row that it accepts. A
row that is refused later does not take the clock back, so that an observation which fails may
leave a provider that refuses what it accepted before.
-/

namespace Kdna.Packages

open Value

section Rows

variable {hostId hostEpoch : String} {declared : Member → Bool} {row : ObservationRow}

/-- What the loop asks of a row by itself. -/
structure RowFits (hostId hostEpoch : String) (declared : Member → Bool) (row : ObservationRow) :
    Prop where
  identifiers : ∀ s ∈ [row.member.memberId, row.member.assetId, row.hostId, row.hostEpoch,
    row.decisionId, row.member.assetVersion], identifier s = true
  digest : isDigest row.member.a = true
  decided : row.decision.isSome = true
  safe : ∀ t ∈ [row.issuedAt, row.expiresAt, row.currentMs], t ≤ maxSafeInteger
  inTime : row.issuedAt ≤ row.currentMs ∧ row.currentMs < row.expiresAt
  host : row.hostId = hostId ∧ row.hostEpoch = hostEpoch
  declares : declared row.member = true

/-- An identity, as the loop notes it. -/
def identityJson (m : Member) : Json := .arr ([m.memberId, m.assetId, m.assetVersion, m.a].map .str)

/-- The text of an identity. -/
def identityText (m : Member) : String := String.ofList (canonicalText (identityJson m))

theorem canonicalText_identityJson (m : Member) : canonicalText (identityJson m) =
    '[' :: (quote m.memberId ++ ',' :: (quote m.assetId ++ ',' :: (quote m.assetVersion ++
      ',' :: (quote m.a ++ [']'])))) := by
  have hstr (t : String) : canonicalText (.str t) = quote t := rfl
  rw [identityJson, canonicalText_arr]
  simp [hstr]

theorem identityText_injective : Function.Injective identityText := by
  rintro ⟨memberId, assetId, assetVersion, a⟩ ⟨memberId', assetId', assetVersion', a'⟩ h
  have htext := String.ofList_injective h
  rw [canonicalText_identityJson, canonicalText_identityJson, List.cons.injEq] at htext
  obtain ⟨hmember, htext⟩ := quote_append_inj htext.2
  obtain ⟨hasset, htext⟩ := quote_append_inj (List.cons.inj htext).2
  obtain ⟨hversion, htext⟩ := quote_append_inj (List.cons.inj htext).2
  obtain ⟨ha, -⟩ := quote_append_inj (List.cons.inj htext).2
  exact Member.mk.injEq .. ▸ ⟨hmember, hasset, hversion, ha⟩

theorem utf8ByteSize_le {t : String} (h : identifier t = true) : t.utf8ByteSize ≤ 256 := by
  rw [identifier, scalarString, Bool.and_eq_true, Bool.and_eq_true, decide_eq_true_eq] at h
  rw [← length_encode_eq]
  exact h.2.2

/-- A digest is its label and 64 digits. -/
theorem utf8ByteSize_digest_le {t : String} (h : isDigest t = true) : t.utf8ByteSize ≤ 284 := by
  rw [isDigest, Bool.and_eq_true, Bool.and_eq_true, beq_iff_eq, List.length_drop,
    String.length_toList] at h
  have hbytes := (length_encode_bounds t).2
  rw [length_encode_eq] at hbytes
  omega

/-- The identity of a row that fits has a text. -/
theorem canonicalJson_identityJson (h : RowFits hostId hostEpoch declared row) :
    canonicalJson (identityJson row.member) = .ok (identityText row.member) := by
  have hmember := utf8ByteSize_le (h.identifiers row.member.memberId (by simp))
  have hasset := utf8ByteSize_le (h.identifiers row.member.assetId (by simp))
  have hversion := utf8ByteSize_le (h.identifiers row.member.assetVersion (by simp))
  have ha := utf8ByteSize_digest_le h.digest
  have hbulk : bulk (identityJson row.member) ≤ maxStringBytes := by
    simp only [identityJson, bulk_arr, List.map_cons, List.map_nil, List.sum_cons, List.sum_nil,
      show ∀ t : String, bulk (.str t) = 2 + 6 * t.utf8ByteSize from fun _ => rfl, maxStringBytes]
    omega
  have hquick : (identityJson row.member).quick = true := by
    rw [quick, Bool.and_eq_true, decide_eq_true_eq]
    exact ⟨rfl, hbulk⟩
  obtain ⟨hstrict, hbytes⟩ := bounds_of_quick hquick
  exact canonicalJson_eq_ok_iff.mpr ⟨hstrict, hbytes, rfl⟩

/-- What the loop accepts as its next row. -/
theorem observeRow_eq_ok_iff {state : ProviderState} {seen : List String}
    {candidate : Option ObservationRow} {identity : String} :
    observeRow state declared seen candidate = .ok (row, identity) ↔
      candidate = some row ∧ RowFits state.hostId state.hostEpoch declared row ∧
        (∀ last ∈ state.currentMs, last ≤ row.currentMs) ∧ identityText row.member ∉ seen ∧
          identity = identityText row.member := by
  simp only [observeRow, bind_eq_ok_iff, orFail_eq_ok_iff, require_eq_ok_iff, pure_eq_ok,
    Except.ok.injEq, exists_const, Prod.mk.injEq]
  constructor
  · rintro ⟨_, rfl, hidentifiers, ⟨hdigest, hdecided⟩, hsafe, hinTime, hhost, hlast, text, htext,
      ⟨hseen, hdeclares⟩, rfl, rfl⟩
    have hfits : RowFits state.hostId state.hostEpoch declared _ :=
      ⟨hidentifiers, hdigest, hdecided, hsafe, hinTime, hhost, hdeclares⟩
    have hidentity := canonicalJson_identityJson hfits
    rw [identityJson] at hidentity
    rw [hidentity] at htext
    obtain rfl := Except.ok.inj htext
    exact ⟨rfl, hfits, hlast, hseen, rfl⟩
  · rintro ⟨rfl, hfits, hlast, hseen, rfl⟩
    have hidentity := canonicalJson_identityJson hfits
    rw [identityJson] at hidentity
    refine ⟨row, rfl, hfits.identifiers, ⟨hfits.digest, hfits.decided⟩, hfits.safe, hfits.inTime,
      hfits.host, hlast, _, ?_, ⟨hseen, hfits.declares⟩, rfl, rfl⟩
    rw [hidentity]
    rfl

end Rows

section Loop

variable {state : ProviderState} {declared : Member → Bool} {seen : List String}
  {rows : List ObservationRow} {row : ObservationRow}

/-- The provider behind a row. -/
def ProviderState.tick (state : ProviderState) (row : ObservationRow) : ProviderState :=
  { state with currentMs := some row.currentMs }

/-- The provider behind accepted rows. -/
def ProviderState.behind (state : ProviderState) (rows : List ObservationRow) : ProviderState :=
  rows.foldl ProviderState.tick state

/-- The rows that the loop accepts one after the other. -/
def AcceptedFrom (declared : Member → Bool) : ProviderState → List String → List ObservationRow → Prop
  | _, _, [] => True
  | state, seen, row :: rows =>
    (RowFits state.hostId state.hostEpoch declared row ∧
      (∀ last ∈ state.currentMs, last ≤ row.currentMs) ∧ identityText row.member ∉ seen) ∧
        AcceptedFrom declared (state.tick row) (identityText row.member :: seen) rows

theorem acceptedFrom_of_append {more : List ObservationRow}
    (h : AcceptedFrom declared state seen (rows ++ more)) : AcceptedFrom declared state seen rows := by
  induction rows generalizing state seen with
  | nil => trivial
  | cons row rows ih => exact ⟨h.1, ih h.2⟩

/-- The loop takes the longest part of an answer that it accepts. -/
theorem observeRows_split (declared : Member → Bool) (state : ProviderState) (seen : List String)
    (candidates : List (Option ObservationRow)) :
    ∃ rows rest, candidates = rows.map some ++ rest ∧ AcceptedFrom declared state seen rows ∧
      (observeRows declared state seen candidates).1 = state.behind rows ∧
      (∀ row more, rest = some row :: more → ¬ AcceptedFrom declared state seen (rows ++ [row])) ∧
      (rest = [] → (observeRows declared state seen candidates).2 = .ok rows) ∧
      (rest ≠ [] → ∃ e, (observeRows declared state seen candidates).2 = .error e) := by
  induction candidates generalizing state seen with
  | nil => exact ⟨[], [], rfl, trivial, rfl, nofun, fun _ => rfl, fun h => absurd rfl h⟩
  | cons candidate candidates ih =>
    cases hrow : observeRow state declared seen candidate with
    | error e =>
      refine ⟨[], candidate :: candidates, rfl, trivial, ?_, ?_, nofun, fun _ => ⟨e, ?_⟩⟩
      · rw [observeRows, hrow]
        rfl
      · rintro row more heq ⟨⟨hfits, hlast, hseen⟩, -⟩
        obtain ⟨rfl, -⟩ := List.cons.inj heq
        have hok := observeRow_eq_ok_iff.mpr ⟨rfl, hfits, hlast, hseen, rfl⟩
        rw [hok] at hrow
        cases hrow
      · rw [observeRows, hrow]
    | ok kept =>
      obtain ⟨row, identity⟩ := kept
      obtain ⟨rfl, hfits, hlast, hseen, rfl⟩ := observeRow_eq_ok_iff.mp hrow
      obtain ⟨rows, rest, rfl, haccepted, hstate, hstop, hok, hfail⟩ :=
        ih (state.tick row) (identityText row.member :: seen)
      refine ⟨row :: rows, rest, rfl, ⟨⟨hfits, hlast, hseen⟩, haccepted⟩, ?_, ?_, ?_, ?_⟩
      · rw [observeRows, hrow]
        exact hstate
      · exact fun next more heq h => hstop next more heq h.2
      · intro hrest
        rw [observeRows, hrow]
        exact congrArg ((row :: ·) <$> ·) (hok hrest)
      · intro hrest
        obtain ⟨e, he⟩ := hfail hrest
        refine ⟨e, ?_⟩
        rw [observeRows, hrow]
        exact congrArg ((row :: ·) <$> ·) he

/-- An answer that the loop accepts: its rows fit, no time is before the last one and no identity
comes twice. -/
structure Acceptable (state : ProviderState) (declared : Member → Bool) (rows : List ObservationRow) :
    Prop where
  fits : ∀ row ∈ rows, RowFits state.hostId state.hostEpoch declared row
  times : (state.currentMs.toList ++ rows.map ObservationRow.currentMs).Pairwise (· ≤ ·)
  apart : (rows.map ObservationRow.member).Nodup

theorem acceptedFrom_iff : AcceptedFrom declared state seen rows ↔
    Acceptable state declared rows ∧ ∀ row ∈ rows, identityText row.member ∉ seen := by
  induction rows generalizing state seen with
  | nil =>
    refine ⟨fun _ => ⟨⟨nofun, ?_, List.nodup_nil⟩, nofun⟩, fun _ => trivial⟩
    cases h : state.currentMs <;> simp
  | cons row rows ih =>
    rw [AcceptedFrom, ih]
    constructor
    · rintro ⟨⟨hfits, hlast, hseen⟩, ⟨hrest, htimes, hapart⟩, hnew⟩
      refine ⟨⟨List.forall_mem_cons.mpr ⟨hfits, hrest⟩, ?_, ?_⟩,
        List.forall_mem_cons.mpr ⟨hseen, fun r hr h => hnew r hr (.tail _ h)⟩⟩
      · rw [List.pairwise_append]
        refine ⟨by cases state.currentMs <;> simp, htimes, fun last hmem t ht => ?_⟩
        have hle := hlast last (by simpa using hmem)
        rcases List.mem_cons.mp ht with rfl | ht
        · exact hle
        · exact hle.trans ((List.pairwise_cons.mp htimes).1 t ht)
      · refine List.nodup_cons.mpr ⟨fun hmem => ?_, hapart⟩
        obtain ⟨r, hr, heq⟩ := List.mem_map.mp hmem
        exact hnew r hr (heq ▸ List.mem_cons_self)
    · rintro ⟨⟨hfits, htimes, hapart⟩, hnew⟩
      obtain ⟨-, hordered, hbefore⟩ := List.pairwise_append.mp htimes
      obtain ⟨hfirst, hapart⟩ := List.nodup_cons.mp hapart
      refine ⟨⟨hfits row List.mem_cons_self, fun last hlast => ?_, hnew row List.mem_cons_self⟩,
        ⟨fun r hr => hfits r (.tail _ hr), hordered, hapart⟩, fun r hr hmem => ?_⟩
      · exact hbefore last (by simpa using hlast) _ List.mem_cons_self
      · rcases List.mem_cons.mp hmem with heq | hmem
        · exact hfirst (List.mem_map.mpr ⟨r, hr, identityText_injective heq⟩)
        · exact hnew r (.tail _ hr) hmem

/-- With nothing seen before, the rows are accepted as an answer. -/
theorem acceptedFrom_nil_iff : AcceptedFrom declared state [] rows ↔ Acceptable state declared rows :=
  acceptedFrom_iff.trans (and_iff_left fun _ _ => List.not_mem_nil)

end Loop

section Observations

variable {state : ProviderState} {set : PackageSet} {observation : Observation}
  {rows : List ObservationRow} {candidates : List (Option ObservationRow)}

theorem behind_host (state : ProviderState) (rows : List ObservationRow) :
    (state.behind rows).hostId = state.hostId ∧ (state.behind rows).hostEpoch = state.hostEpoch := by
  induction rows generalizing state with
  | nil => exact ⟨rfl, rfl⟩
  | cons row rows ih => exact ih (state.tick row)

/-- The last row sets the clock. -/
theorem behind_concat (state : ProviderState) (rows : List ObservationRow) (row : ObservationRow) :
    state.behind (rows ++ [row]) = { state with currentMs := some row.currentMs } := by
  obtain ⟨hid, hepoch⟩ := behind_host state rows
  have htick : state.behind (rows ++ [row]) = (state.behind rows).tick row := List.foldl_append
  rw [htick, ProviderState.tick, hid, hepoch]

/-- The clock behind an answer is the largest time in it. -/
theorem Acceptable.behind_eq {declared : Member → Bool} (h : Acceptable state declared rows) :
    state.behind rows = { state with
      currentMs := (rows.map ObservationRow.currentMs).max?.or state.currentMs } := by
  obtain rfl | ⟨rest, row, rfl⟩ := List.eq_nil_or_concat rows
  · rfl
  · rw [List.concat_eq_append] at h ⊢
    have htimes := (List.pairwise_append.mp h.times).2.1
    rw [List.map_append, List.pairwise_append] at htimes
    have hmax : ((rest ++ [row]).map ObservationRow.currentMs).max? = some row.currentMs := by
      refine List.max?_eq_some_iff.mpr ⟨by simp, fun t ht => ?_⟩
      rw [List.map_append, List.mem_append] at ht
      rcases ht with ht | ht
      · exact htimes.2.2 t ht _ (List.mem_singleton_self _)
      · exact (List.mem_singleton.mp ht).le
    rw [behind_concat, hmax, Option.some_or]

/-- A provider that the rows leave as it is has their times already. -/
theorem Acceptable.currentMs_eq {declared : Member → Bool} (h : Acceptable state declared rows)
    (hstate : state.behind rows = state) : ∀ row ∈ rows, state.currentMs = some row.currentMs := by
  obtain rfl | ⟨rest, last, rfl⟩ := List.eq_nil_or_concat rows
  · exact nofun
  · rw [List.concat_eq_append] at h hstate ⊢
    rw [behind_concat] at hstate
    have hclock : state.currentMs = some last.currentMs :=
      (congrArg ProviderState.currentMs hstate).symm
    obtain ⟨-, htimes, hbefore⟩ := List.pairwise_append.mp h.times
    rw [List.map_append, List.pairwise_append] at htimes
    intro row hrow
    have hfrom : last.currentMs ≤ row.currentMs :=
      hbefore _ (by simp [hclock]) _ (List.mem_map_of_mem hrow)
    have hto : row.currentMs ≤ last.currentMs := by
      rcases List.mem_append.mp hrow with hrow | hrow
      · exact htimes.2.2 _ (List.mem_map_of_mem hrow) _ (List.mem_singleton_self _)
      · rw [List.mem_singleton.mp hrow]
    rw [hclock, le_antisymm hfrom hto]

theorem behind_eq_self (h : ∀ row ∈ rows, state.currentMs = some row.currentMs) :
    state.behind rows = state := by
  obtain rfl | ⟨rest, last, rfl⟩ := List.eq_nil_or_concat rows
  · rfl
  · rw [List.concat_eq_append] at h ⊢
    rw [behind_concat, ← h last (by simp)]

/-- An observation that fails leaves the provider as it was, so that it accepts what it accepted
before, and one that succeeds leaves it at the largest time of the answer. -/
structure Atomic (state : ProviderState) (set : PackageSet) (observation : Observation) : Prop where
  refused : ∀ e, (captureObservation state set observation).2 = .error e →
    (captureObservation state set observation).1 = state ∧
      ∀ later answer rows, (captureObservation state later answer).2 = .ok rows →
        (captureObservation (captureObservation state set observation).1 later answer).2 = .ok rows
  accepted : ∀ rows, (captureObservation state set observation).2 = .ok rows →
    (captureObservation state set observation).1 = { state with
      currentMs := (rows.map ObservationRow.currentMs).max?.or state.currentMs }

/-- Whether the set names a member. -/
def PackageSet.declares (set : PackageSet) (m : Member) : Bool := decide (m ∈ set.members)

/-- An answer is acceptable as a whole, or no acceptable part at its front has a time other than
that of the clock. -/
def Unmoving (state : ProviderState) (set : PackageSet) (candidates : List (Option ObservationRow)) :
    Prop :=
  (∃ rows, candidates = rows.map some ∧ Acceptable state set.declares rows) ∨
    ∀ rows, rows.map some <+: candidates → Acceptable state set.declares rows →
      ∀ row ∈ rows, state.currentMs = some row.currentMs

/-- An answer that is not too long does not move the clock before it fails. -/
def KeepsClock (state : ProviderState) (set : PackageSet) (observation : Observation) : Prop :=
  ∀ candidates, observation = .decisions candidates → candidates.length ≤ limits.maxMembers →
    Unmoving state set candidates

/-- The loop on a whole answer. -/
theorem captureObservation_split (state : ProviderState) (set : PackageSet)
    (hlength : candidates.length ≤ limits.maxMembers) :
    ∃ rows rest, candidates = rows.map some ++ rest ∧ Acceptable state set.declares rows ∧
      (captureObservation state set (.decisions candidates)).1 = state.behind rows ∧
      (∀ row more, rest = some row :: more → ¬ Acceptable state set.declares (rows ++ [row])) ∧
      (rest = [] → (captureObservation state set (.decisions candidates)).2 = .ok rows) ∧
      (rest ≠ [] → ∃ e, (captureObservation state set (.decisions candidates)).2 = .error e) := by
  obtain ⟨rows, rest, hsplit, haccepted, hresult⟩ :=
    observeRows_split set.declares state [] candidates
  rw [captureObservation, if_pos hlength]
  refine ⟨rows, rest, hsplit, acceptedFrom_nil_iff.mp haccepted, hresult.1, ?_, hresult.2.2⟩
  intro row more heq h
  apply hresult.2.1 row more heq
  exact acceptedFrom_nil_iff.mpr h

theorem Acceptable.of_prefix {declared : Member → Bool} {more : List ObservationRow}
    (h : Acceptable state declared (rows ++ more)) : Acceptable state declared rows := by
  apply acceptedFrom_nil_iff.mp
  exact acceptedFrom_of_append (acceptedFrom_nil_iff.mpr h)

/-- No acceptable part at the front goes beyond the one that the loop takes. -/
theorem prefix_of_stop {declared : Member → Bool} {rest : List (Option ObservationRow)}
    (hstop : ∀ row more, rest = some row :: more → ¬ Acceptable state declared (rows ++ [row]))
    {front : List ObservationRow} (hfront : front.map some <+: rows.map some ++ rest)
    (h : Acceptable state declared front) : front <+: rows := by
  have hinjective := List.map_injective_iff.mpr (Option.some_injective ObservationRow)
  rcases List.prefix_or_prefix_of_prefix hfront (List.prefix_append _ _) with ⟨t, ht⟩ | ⟨t, ht⟩
  · obtain ⟨first, second, rfl, hfirst, -⟩ := List.map_eq_append_iff.mp ht.symm
    exact ⟨second, by rw [hinjective hfirst]⟩
  · obtain ⟨first, second, rfl, hfirst, -⟩ := List.map_eq_append_iff.mp ht.symm
    obtain rfl := hinjective hfirst
    cases second with
    | nil => exact ⟨[], by simp⟩
    | cons row more =>
      rw [List.map_append, List.prefix_append_right_inj] at hfront
      obtain ⟨tail, htail⟩ := hfront
      have hnext : Acceptable state declared (first ++ [row]) := by
        rw [List.append_cons] at h
        exact h.of_prefix
      exact absurd hnext (hstop row _ htail.symm)

theorem atomic_of_keepsClock (h : KeepsClock state set observation) : Atomic state set observation := by
  have hkept (hself : (captureObservation state set observation).1 = state) :
      (captureObservation state set observation).1 = state ∧
        ∀ later answer rows, (captureObservation state later answer).2 = .ok rows →
          (captureObservation (captureObservation state set observation).1 later answer).2 =
            .ok rows :=
    ⟨hself, fun _ _ _ hok => hself.symm ▸ hok⟩
  cases observation with
  | thrown => exact ⟨fun _ _ => hkept rfl, nofun⟩
  | invalid => exact ⟨fun _ _ => hkept rfl, nofun⟩
  | decisions candidates =>
    by_cases hlength : candidates.length ≤ limits.maxMembers
    · obtain ⟨rows, rest, rfl, haccepted, hstate, hstop, hok, hfail⟩ :=
        captureObservation_split state set hlength
      refine ⟨fun e he => hkept ?_, fun kept hkept => ?_⟩
      · rw [hstate]
        rcases h _ rfl hlength with ⟨whole, hwhole, hacceptable⟩ | hkeeps
        · have hfront : whole <+: rows := prefix_of_stop hstop (hwhole ▸ List.prefix_refl _) hacceptable
          have hrest : rest = [] := by
            have hcount := congrArg List.length hwhole
            have hle := hfront.length_le
            rw [List.length_append, List.length_map, List.length_map] at hcount
            exact List.eq_nil_of_length_eq_zero (by omega)
          exact nomatch (hok hrest).symm.trans he
        · exact behind_eq_self (hkeeps rows (List.prefix_append _ _) haccepted)
      · have hrest : rest = [] := by
          by_contra hne
          obtain ⟨e, he⟩ := hfail hne
          exact nomatch he.symm.trans hkept
        obtain rfl := Except.ok.inj ((hok hrest).symm.trans hkept)
        rw [hstate, haccepted.behind_eq]
    · have hcapture : captureObservation state set (.decisions candidates) =
          (state, .error .providerObservationInvalid) := if_neg hlength
      refine ⟨fun _ _ => hkept (congrArg Prod.fst hcapture), fun rows hrows => ?_⟩
      exact nomatch (congrArg Prod.snd hcapture).symm.trans hrows

theorem keepsClock_of_atomic (h : Atomic state set observation) : KeepsClock state set observation := by
  rintro candidates rfl hlength
  obtain ⟨rows, rest, rfl, haccepted, hstate, hstop, -, hfail⟩ :=
    captureObservation_split state set hlength
  by_cases hrest : rest = []
  · exact .inl ⟨rows, by rw [hrest, List.append_nil], haccepted⟩
  · obtain ⟨e, he⟩ := hfail hrest
    have hself : state.behind rows = state := hstate.symm.trans (h.refused e he).1
    refine .inr fun front hfront hacceptable row hrow => ?_
    exact haccepted.currentMs_eq hself row ((prefix_of_stop hstop hfront hacceptable).subset hrow)

/-- An observation is atomic just where no acceptable part of an answer that fails moves the
clock. -/
theorem atomic_iff (state : ProviderState) (set : PackageSet) (observation : Observation) :
    Atomic state set observation ↔ KeepsClock state set observation :=
  ⟨keepsClock_of_atomic, atomic_of_keepsClock⟩

/-- A member. -/
def clockMember : Member :=
  ⟨"member:a", "asset:a", "1.0.0",
    "sha256:0000000000000000000000000000000000000000000000000000000000000000"⟩

/-- A row that allows the member. -/
def clockRow : ObservationRow :=
  ⟨clockMember, some .allow, "decision:a", "host:a", "epoch:1", 100, 200, 150⟩

/-- A row that is accepted before one that is none moves the clock. -/
theorem refused_moves_clock : ¬ ∀ state set observation, Atomic state set observation := by
  intro h
  have hkeeps := keepsClock_of_atomic (h ⟨"host:a", "epoch:1", none⟩
    ⟨"set:a", [clockMember], ⟨"asset:a", "1.0.0", "judgment:a"⟩⟩ (.decisions [some clockRow, none]))
  have hfits : RowFits "host:a" "epoch:1" (fun m => decide (m ∈ [clockMember])) clockRow := by
    refine ⟨?_, ?_, rfl, by decide, by decide, ⟨rfl, rfl⟩, by decide⟩
    · simp only [identifier, scalarString, toList_eq_quickToList, length_encode_eq]
      decide
    · unfold isDigest startsWith
      simp only [toList_eq_quickToList]
      decide
  rcases hkeeps _ rfl (by decide) with ⟨rows, hrows, -⟩ | hkeeps
  · have hnone : (none : Option ObservationRow) ∈ rows.map some := hrows ▸ by simp
    simp at hnone
  · have hclock := hkeeps [clockRow] ⟨[none], rfl⟩
      ⟨List.forall_mem_singleton.mpr hfits, List.pairwise_singleton _ _, List.nodup_singleton _⟩
      clockRow (List.mem_singleton_self _)
    cases hclock

end Observations

end Kdna.Packages

import Kdna.Data.Folding
import Kdna.Data.Upsert
import Kdna.Json.Printed
import Kdna.Read.Pipeline

/-!
# Folded omissions

`foldOmissions` of `omissions.js` on records as they come: an omission of one entry, a record that
already counts several, or anything else. Records with one fold key are replaced by one record that
counts them, in the place of the first.
-/

namespace Kdna.Omissions

open Value

/-- `targetKindOf(record)` -/
def targetKindOf (record : Json) : Option String :=
  ((record.prop "field").bind text?).filter (· ∈ Read.targetKinds)

/-- `BATCH_REASONS` -/
def batchReasons : List String := Read.batchReasons.map Read.OmissionReason.text

/-- `foldable(record)` -/
def foldable (record : Json) : Bool :=
  record.propIs "state" "explicitly_omitted" &&
    ((record.prop "target").bind text?).any (· ≠ "") &&
    (targetKindOf record).isSome &&
    ((record.prop "reason").bind text?).any (· ∈ batchReasons) &&
    match record.prop "expandable", record.prop "handle_id" with
    | some (.bool true), some (.str handle) => handle ≠ ""
    | some (.bool false), some .null => true
    | _, _ => false

/-- `foldKey(record)` -/
def foldKey (record : Json) : List Char :=
  stringify (.arr (ofText? (targetKindOf record) ::
    ["field", "reason", "expandable", "handle_id"].map fun name => (record.prop name).getD .null))

/-- The records with one key: their indices, and the first of them. -/
structure Group where
  indices : List ℕ
  record : Json

/-- One turn of the loop that makes the groups. -/
def gathered (groups : List (List Char × Group)) (p : Json × ℕ) : List (List Char × Group) :=
  if foldable p.1 then
    upsert (foldKey p.1) (fun group => match group with
      | none => ⟨[p.2], p.1⟩
      | some group => ⟨group.indices ++ [p.2], group.record⟩) groups
  else groups

/-- `groups`, by their keys. -/
def groupsOf (records : List Json) : List (List Char × Group) :=
  records.zipIdx.foldl gathered []

/-- The length of an array, as a number. -/
def lengthJson (n : ℕ) : Json := ((Binary64.ofInt n).map Value.num).getD .null

/-- The record that counts the records with the key of `record`. -/
def batchOf (record : Json) (count : ℕ) : Json :=
  .obj [("state", .str "explicitly_omitted_batch"), ("target_kind", ofText? (targetKindOf record)),
    ("field", (record.prop "field").getD .null), ("reason", (record.prop "reason").getD .null),
    ("count", lengthJson count), ("expandable", (record.prop "expandable").getD .null),
    ("handle_id", (record.prop "handle_id").getD .null)]

/-- `foldOmissions(records, enabled)` -/
def foldOmissions (enabled : Bool) (records : List Json) : List Json :=
  if !enabled || records.length < 2 then records
  else
    let folded := (groupsOf records).filter fun g => 2 ≤ g.2.indices.length
    if folded.isEmpty then records
    else
      records.zipIdx.filterMap fun p =>
        match if foldable p.1 then getKey (foldKey p.1) folded else none with
        | none => some p.1
        | some group =>
          if group.indices.head? = some p.2 then some (batchOf group.record group.indices.length)
          else none

section Keys

/-- What a fold key tells apart. -/
structure FoldKey where
  kind : String
  field : String
  reason : String
  expandable : Bool
  handleId : Option String
  deriving DecidableEq

/-- The text of a fold key. -/
def FoldKey.text (k : FoldKey) : List Char :=
  stringify (.arr [.str k.kind, .str k.field, .str k.reason, .bool k.expandable, ofText? k.handleId])

/-- A member that is `true` or `false`. -/
def flag? (record : Json) (name : String) : Option Bool :=
  match record.prop name with
  | some (.bool b) => some b
  | _ => none

/-- A member that is a text or `null`. -/
def textOrNull? (record : Json) (name : String) : Option (Option String) :=
  match record.prop name with
  | some (.str t) => some (some t)
  | some .null => some none
  | _ => none

/-- The fold key in a record that names its kind in the member `kind`. -/
def keyIn (kind : String) (record : Json) : Option FoldKey := do
  return ⟨← (record.prop kind).bind text?, ← (record.prop "field").bind text?,
    ← (record.prop "reason").bind text?, ← flag? record "expandable",
    ← textOrNull? record "handle_id"⟩

/-- The fold key of a record that may be folded. -/
def singleKey (record : Json) : Option FoldKey :=
  if foldable record then keyIn "field" record else none

/-- The fold key of a record. -/
def keyOf (record : Json) : Option FoldKey :=
  if record.propIs "state" "explicitly_omitted_batch" then keyIn "target_kind" record
  else singleKey record

/-- How many omissions a record stands for. -/
def countOf (record : Json) : ℕ :=
  if record.propIs "state" "explicitly_omitted_batch" then
    match record.prop "count" with
    | some (.num x) => (x.toInt.getD 0).toNat
    | _ => 0
  else 1

/-- What the records with a key add up to. -/
def total (k : FoldKey) (records : List Json) : ℕ :=
  (records.map fun record => if keyOf record = some k then countOf record else 0).sum

/-- A quoted text is read back from in front of more items. -/
theorem commaJoin_str_inj {s t : String} {v w : Json} {l m : List Json}
    (h : commaJoin ((.str s :: v :: l).map stringify) =
      commaJoin ((.str t :: w :: m).map stringify)) :
    s = t ∧ commaJoin ((v :: l).map stringify) = commaJoin ((w :: m).map stringify) := by
  simp only [List.map_cons, commaJoin_cons_cons, stringify_str] at h
  obtain ⟨hs, hrest⟩ := quote_append_inj h
  refine ⟨hs, ?_⟩
  simpa only [List.map_cons] using (List.cons.inj hrest).2

theorem stringify_ofText?_inj {s t : Option String}
    (h : stringify (ofText? s) = stringify (ofText? t)) : s = t := by
  cases s with
  | none =>
    cases t with
    | none => rfl
    | some t => exact absurd (congrArg List.head? h) (by simp [ofText?, quote])
  | some s =>
    cases t with
    | none => exact absurd (congrArg List.head? h) (by simp [ofText?, quote])
    | some t =>
      have hquote : quote s ++ [] = quote t ++ [] := congrArg (· ++ []) h
      rw [(quote_append_inj hquote).1]

theorem text_injective : Function.Injective FoldKey.text := by
  rintro ⟨kind, field, reason, expandable, handle⟩ ⟨kind', field', reason', expandable', handle'⟩ h
  simp only [FoldKey.text, stringify_arr, List.cons.injEq, true_and] at h
  replace h := List.append_inj_left' h rfl
  obtain ⟨hkind, h⟩ := commaJoin_str_inj h
  obtain ⟨hfield, h⟩ := commaJoin_str_inj h
  obtain ⟨hreason, h⟩ := commaJoin_str_inj h
  simp only [List.map_cons, List.map_nil, commaJoin_cons_cons, commaJoin_singleton] at h
  have hflag : expandable = expandable' ∧
      stringify (ofText? handle) = stringify (ofText? handle') := by
    cases expandable <;> cases expandable' <;> simp_all
  rw [hkind, hfield, hreason, hflag.1, stringify_ofText?_inj hflag.2]

end Keys

section Groups

variable {records : List Json} {k : List Char} {pairs : List (Json × ℕ)}

/-- The records with a key, with their indices. -/
def members (k : List Char) (pairs : List (Json × ℕ)) : List (Json × ℕ) :=
  pairs.filter fun p => foldable p.1 && foldKey p.1 = k

/-- The group of some records. -/
def groupOf : List (Json × ℕ) → Option Group
  | [] => none
  | p :: rest => some ⟨p.2 :: rest.map Prod.snd, p.1⟩

theorem groupOf_append_singleton (l : List (Json × ℕ)) (p : Json × ℕ) :
    groupOf (l ++ [p]) = some (match groupOf l with
      | none => ⟨[p.2], p.1⟩
      | some group => ⟨group.indices ++ [p.2], group.record⟩) := by
  cases l with
  | nil => rfl
  | cons q l => simp [groupOf]

theorem getKey_gathered (pairs : List (Json × ℕ)) (k : List Char) :
    getKey k (pairs.foldl gathered []) = groupOf (members k pairs) := by
  induction pairs using List.reverseRecOn with
  | nil => rfl
  | append_singleton pairs p ih =>
    rw [List.foldl_append, List.foldl_cons, List.foldl_nil, gathered, members, List.filter_append,
      ← members]
    by_cases hfoldable : foldable p.1 = true
    · rw [if_pos hfoldable, getKey_upsert]
      by_cases hk : k = foldKey p.1
      · subst hk
        rw [if_pos rfl, List.filter_cons_of_pos (by simp [hfoldable]), List.filter_nil,
          groupOf_append_singleton, ih]
      · rw [if_neg hk, List.filter_cons_of_neg (by simp [Ne.symm hk]), List.filter_nil,
          List.append_nil, ih]
    · rw [if_neg hfoldable, List.filter_cons_of_neg (by simp [hfoldable]), List.filter_nil,
        List.append_nil, ih]

theorem nodup_gathered (pairs : List (Json × ℕ)) :
    ((pairs.foldl gathered []).map Prod.fst).Nodup := by
  induction pairs using List.reverseRecOn with
  | nil => exact List.nodup_nil
  | append_singleton pairs p ih =>
    rw [List.foldl_append, List.foldl_cons, List.foldl_nil, gathered]
    split_ifs
    · exact nodup_upsert ih
    · exact ih

/-- The text of the key of a record that may be folded. -/
def textKey (record : Json) : Option (List Char) :=
  if foldable record then some (foldKey record) else none

theorem textKey_eq_some_iff {record : Json} : textKey record = some k ↔
    (foldable record && decide (foldKey record = k)) = true := by
  rw [textKey]
  split_ifs with h <;> simp [h]

theorem length_members (l : List Json) (n : ℕ) :
    (members k (l.zipIdx n)).length = sharing textKey k l := by
  rw [members, ← List.countP_eq_length_filter, sharing]
  induction l generalizing n with
  | nil => rfl
  | cons a l ih =>
    rw [List.zipIdx_cons, List.countP_cons, List.countP_cons, ih]
    simp only [textKey_eq_some_iff, Bool.decide_eq_true]

theorem members_eq_nil_iff (l : List Json) (n : ℕ) :
    members k (l.zipIdx n) = [] ↔ sharing textKey k l = 0 := by
  rw [← length_members l n, List.length_eq_zero_iff]

/-- The group of a record, seen from its place. -/
theorem groupOf_members (before rest : List Json) {a : Json} (ha : textKey a = some k) :
    ∃ group, groupOf (members k (before ++ a :: rest).zipIdx) = some group ∧
      group.indices.length = sharing textKey k (before ++ a :: rest) ∧
        (group.indices.head? = some before.length ↔ sharing textKey k before = 0) ∧
          (sharing textKey k before = 0 → group.record = a) := by
  have hmember : members k ((a :: rest).zipIdx before.length) =
      (a, before.length) :: members k (rest.zipIdx (before.length + 1)) :=
    List.filter_cons_of_pos (textKey_eq_some_iff.mp ha)
  have hsplit : members k (before ++ a :: rest).zipIdx =
      members k before.zipIdx ++ (a, before.length) :: members k (rest.zipIdx (before.length + 1)) := by
    rw [List.zipIdx_append, Nat.zero_add, members, List.filter_append, ← members, ← members, hmember]
  have hlength := length_members (k := k) (before ++ a :: rest) 0
  rw [hsplit] at hlength ⊢
  cases hbefore : members k before.zipIdx with
  | nil =>
    have hzero : sharing textKey k before = 0 := (members_eq_nil_iff before 0).mp hbefore
    rw [hbefore] at hlength
    refine ⟨_, rfl, ?_, ?_, fun _ => rfl⟩
    · simpa using hlength
    · simp [hzero]
  | cons p l =>
    have hpos : ¬ sharing textKey k before = 0 := fun hzero => by
      rw [(members_eq_nil_iff before 0).mpr hzero] at hbefore
      cases hbefore
    rw [hbefore] at hlength
    have hindex : p.2 < before.length := by
      have hmem : p ∈ before.zipIdx := (List.mem_filter.mp (hbefore ▸ List.mem_cons_self)).1
      exact (List.getElem?_eq_some_iff.mp (List.mk_mem_zipIdx_iff_getElem?.mp hmem)).1
    refine ⟨_, rfl, ?_, ?_, fun hzero => absurd hzero hpos⟩
    · simpa using hlength
    · simp [hpos, hindex.ne]

end Groups

section Folds

variable {records : List Json}

/-- What `foldOmissions` leaves in the place of a record. -/
theorem placed_eq (before rest : List Json) (a : Json) :
    (match if foldable a then getKey (foldKey a) ((groupsOf (before ++ a :: rest)).filter
        fun g => 2 ≤ g.2.indices.length) else none with
      | none => some a
      | some group =>
        if group.indices.head? = some before.length then
          some (batchOf group.record group.indices.length)
        else none) = placed textKey batchOf (before ++ a :: rest) before a := by
  rw [placed]
  by_cases hfoldable : foldable a = true
  · have ha : textKey a = some (foldKey a) := if_pos hfoldable
    obtain ⟨group, hgroup, hlength, hhead, hrecord⟩ :=
      groupOf_members before rest ha
    rw [if_pos hfoldable, groupsOf, getKey_filter (nodup_gathered _), getKey_gathered, hgroup,
      Option.filter_some, ha]
    dsimp only
    rw [hlength]
    by_cases hfew : sharing textKey (foldKey a) (before ++ a :: rest) < 2
    · rw [if_neg (fun h => Nat.not_le_of_lt hfew (of_decide_eq_true h)), if_pos hfew]
    · rw [if_pos (decide_eq_true (Nat.le_of_not_lt hfew)), if_neg hfew]
      dsimp only
      by_cases hbefore : sharing textKey (foldKey a) before = 0
      · rw [if_pos (hhead.mpr hbefore), if_neg (by omega), hrecord hbefore, hlength]
      · rw [if_neg (fun h => hbefore (hhead.mp h)), if_pos (by omega)]
  · rw [if_neg hfoldable, textKey, if_neg hfoldable]

theorem filterMap_placed (records : List Json) : (records.zipIdx.filterMap fun p =>
      match if foldable p.1 then getKey (foldKey p.1) ((groupsOf records).filter
          fun g => 2 ≤ g.2.indices.length) else none with
        | none => some p.1
        | some group =>
          if group.indices.head? = some p.2 then some (batchOf group.record group.indices.length)
          else none) = folded textKey batchOf records := by
  rw [folded_eq]
  refine List.filterMap_congr fun p hp => ?_
  obtain ⟨a, i⟩ := p
  obtain ⟨hi, ha⟩ := List.getElem?_eq_some_iff.mp (List.mk_mem_zipIdx_iff_getElem?.mp hp)
  have hsplit : records = records.take i ++ a :: records.drop (i + 1) := by
    rw [← ha, List.getElem_cons_drop hi, List.take_append_drop]
  have hlength : (records.take i).length = i := List.length_take_of_le hi.le
  have hplaced := placed_eq (records.take i) (records.drop (i + 1)) a
  rw [← hsplit, hlength] at hplaced
  exact hplaced

/-- The loops fold the records by their keys. -/
theorem foldOmissions_eq (records : List Json) :
    foldOmissions true records = folded textKey batchOf records := by
  rw [foldOmissions]
  by_cases hshort : records.length < 2
  · have hself : folded textKey batchOf records = records :=
      folded_eq_self fun k => (sharing_le_length records).trans_lt hshort
    rw [hself, if_pos (by simp [hshort])]
  · rw [if_neg (by simp [hshort])]
    dsimp only
    split_ifs with hempty
    · rw [← filterMap_placed, List.isEmpty_iff.mp hempty]
      have hkept : (records.zipIdx.filterMap fun p : Json × ℕ => some p.1) = records := by
        rw [List.filterMap_eq_map']
        exact List.zipIdx_map_fst 0 records
      conv_lhs => rw [← hkept]
      refine List.filterMap_congr fun p _ => ?_
      split_ifs <;> rfl
    · exact filterMap_placed records

end Folds

section Typed

variable {record : Json} {k : FoldKey} {n : ℕ}

/-- What the members of a record that may be folded are. -/
structure IsSingle (k : FoldKey) (record : Json) : Prop where
  state : record.prop "state" = some (.str "explicitly_omitted")
  kind : targetKindOf record = some k.kind
  field : record.prop "field" = some (.str k.kind)
  same : k.field = k.kind
  reason : record.prop "reason" = some (.str k.reason)
  expandable : record.prop "expandable" = some (.bool k.expandable)
  handleId : record.prop "handle_id" = some (ofText? k.handleId)

theorem prop_of_text {name t : String} (h : (record.prop name).bind text? = some t) :
    record.prop name = some (.str t) := by
  obtain ⟨v, hv, ht⟩ := Option.bind_eq_some_iff.mp h
  cases v <;> cases ht
  exact hv

theorem exists_isSingle (h : foldable record = true) : ∃ k, IsSingle k record := by
  simp only [foldable, Bool.and_eq_true] at h
  obtain ⟨⟨⟨⟨hstate, -⟩, hkind⟩, hreason⟩, hflags⟩ := h
  obtain ⟨kind, hkind⟩ := Option.isSome_iff_exists.mp hkind
  obtain ⟨reason, hreason⟩ := Option.isSome_iff_exists.mp (Option.isSome_of_any hreason)
  have hfield := prop_of_text (Option.filter_eq_some_iff.mp hkind).1
  have hstate := prop_of_text (beq_iff_eq.mp hstate)
  split at hflags
  · next handle hexpandable hhandle =>
    exact ⟨⟨kind, kind, reason, true, some handle⟩, hstate, hkind, hfield, rfl, prop_of_text hreason,
      hexpandable, hhandle⟩
  · next hexpandable hhandle =>
    exact ⟨⟨kind, kind, reason, false, none⟩, hstate, hkind, hfield, rfl, prop_of_text hreason,
      hexpandable, hhandle⟩
  · exact absurd hflags Bool.false_ne_true

theorem IsSingle.foldKey (h : IsSingle k record) : foldKey record = k.text := by
  simp only [Omissions.foldKey, FoldKey.text, List.map_cons, List.map_nil, h.kind, h.field, h.reason,
    h.expandable, h.handleId, h.same, Option.getD_some]
  rfl

theorem textOrNull?_of_prop {name : String} {t : Option String}
    (h : record.prop name = some (ofText? t)) : textOrNull? record name = some t := by
  rw [textOrNull?, h]
  cases t <;> rfl

theorem flag?_of_prop {name : String} {b : Bool} (h : record.prop name = some (.bool b)) :
    flag? record name = some b := by
  rw [flag?, h]

theorem IsSingle.keyIn (h : IsSingle k record) : keyIn "field" record = some k := by
  obtain ⟨kind, field, reason, expandable, handleId⟩ := k
  obtain rfl : field = kind := h.same
  simp only [Omissions.keyIn, h.field, h.reason, flag?_of_prop h.expandable,
    textOrNull?_of_prop h.handleId]
  rfl

theorem singleKey_eq_some_iff : singleKey record = some k ↔
    foldable record = true ∧ IsSingle k record := by
  rw [singleKey]
  split_ifs with hfoldable
  · obtain ⟨l, hl⟩ := exists_isSingle hfoldable
    rw [hl.keyIn, Option.some.injEq]
    exact ⟨fun h => ⟨hfoldable, h ▸ hl⟩, fun h => Option.some.inj (hl.keyIn.symm.trans h.2.keyIn)⟩
  · exact ⟨(nomatch ·), fun h => absurd h.1 hfoldable⟩

theorem textKey_eq : textKey record = (singleKey record).map FoldKey.text := by
  rw [textKey, singleKey]
  split_ifs with hfoldable
  · obtain ⟨k, hk⟩ := exists_isSingle hfoldable
    rw [hk.foldKey, hk.keyIn, Option.map_some]
  · rfl

theorem keyOf_of_singleKey (h : singleKey record = some k) : keyOf record = some k := by
  have hstate : record.propIs "state" "explicitly_omitted_batch" = false := by
    rw [propIs, (singleKey_eq_some_iff.mp h).2.state]
    rfl
  rw [keyOf, hstate]
  exact h

theorem countOf_of_singleKey (h : singleKey record = some k) : countOf record = 1 := by
  rw [countOf, propIs, (singleKey_eq_some_iff.mp h).2.state]
  rfl

theorem state_batchOf (record : Json) (n : ℕ) :
    (batchOf record n).propIs "state" "explicitly_omitted_batch" = true := rfl

theorem singleKey_batchOf (record : Json) (n : ℕ) : singleKey (batchOf record n) = none := rfl

theorem keyOf_batchOf (h : singleKey record = some k) (n : ℕ) :
    keyOf (batchOf record n) = some k := by
  obtain ⟨kind, field, reason, expandable, handleId⟩ := k
  have hsingle := (singleKey_eq_some_iff.mp h).2
  obtain rfl : field = kind := hsingle.same
  have hhandle : (batchOf record n).prop "handle_id" = some (ofText? handleId) := by
    simp [batchOf, hsingle.handleId]
  have hexpandable : (batchOf record n).prop "expandable" = some (.bool expandable) := by
    simp [batchOf, hsingle.expandable]
  rw [keyOf, state_batchOf, if_pos rfl, keyIn, flag?_of_prop hexpandable,
    textOrNull?_of_prop hhandle]
  have hkind : (batchOf record n).prop "target_kind" = some (.str field) := by
    simp [batchOf, hsingle.kind, ofText?]
  have hfield : (batchOf record n).prop "field" = some (.str field) := by
    simp [batchOf, hsingle.field]
  have hreason : (batchOf record n).prop "reason" = some (.str reason) := by
    simp [batchOf, hsingle.reason]
  rw [hkind, hfield, hreason]
  rfl

theorem lengthJson_eq (hn : n ≤ 2 ^ 53) : lengthJson n = .num (.natural n hn) := by
  have hexact : Binary64.exactInteger n = some (.natural n hn) :=
    Binary64.exactInteger_eq_some_iff.mpr ⟨Binary64.toInt_natural hn, fun _ => rfl⟩
  rw [lengthJson, (Option.filter_eq_some_iff.mp hexact).1, Option.map_some, Option.getD_some]

theorem countOf_batchOf (record : Json) (hn : n ≤ 2 ^ 53) : countOf (batchOf record n) = n := by
  have hcount : (batchOf record n).prop "count" = some (.num (.natural n hn)) := by
    simp [batchOf, lengthJson_eq hn]
  rw [countOf, state_batchOf, if_pos rfl, hcount]
  simp

end Typed

section Conservation

variable {records : List Json}

/-- What a fold `left` of `records` keeps. -/
structure Conserves (records left : List Json) : Prop where
  totals : ∀ k, total k left = total k records
  order : (left.filterMap keyOf).eraseDups = (records.filterMap keyOf).eraseDups
  places : ∃ place : Json × ℕ → Option Json, left = records.zipIdx.filterMap place ∧
    ∀ p ∈ records.zipIdx, (singleKey p.1 = none → place p = some p.1) ∧
      (place p = some p.1 ∨ place p = none ∨ ∃ n, 2 ≤ n ∧ place p = some (batchOf p.1 n))

theorem Conserves.refl (records : List Json) : Conserves records records where
  totals _ := rfl
  order := rfl
  places := ⟨fun p => some p.1, by rw [List.filterMap_eq_map', List.zipIdx_map_fst], fun _ _ =>
    ⟨fun _ => rfl, .inl rfl⟩⟩

/-- The loops fold the records by what their keys tell apart. -/
theorem foldOmissions_eq_folded (records : List Json) :
    foldOmissions true records = folded singleKey batchOf records := by
  rw [foldOmissions_eq, ← folded_map text_injective]
  exact congrArg (folded · batchOf records) (funext fun _ => textKey_eq)

theorem total_folded (hlength : records.length < 2 ^ 32) (k : FoldKey) :
    total k (folded singleKey batchOf records) = total k records := by
  refine sum_folded (k := k) records (fun record l hl => ?_) fun record l hl => ?_
  · simp only [keyOf_of_singleKey hl, countOf_of_singleKey hl, Option.some.injEq]
  · have hcount : sharing singleKey l records ≤ 2 ^ 53 :=
      (sharing_le_length records).trans (hlength.le.trans (by norm_num))
    simp only [keyOf_batchOf hl, countOf_batchOf record hcount, Option.some.injEq]

theorem conserves_folded (hlength : records.length < 2 ^ 32) :
    Conserves records (folded singleKey batchOf records) where
  totals := total_folded hlength
  order := by
    refine eraseDups_folded (fun _ _ h => ?_) (fun _ _ n h => ?_) records
    · exact keyOf_of_singleKey h
    · exact keyOf_batchOf h n
  places := by
    refine ⟨_, folded_eq records, fun p _ => ?_⟩
    rw [placed]
    cases hkey : singleKey p.1 with
    | none => exact ⟨fun _ => rfl, .inl rfl⟩
    | some k =>
      refine ⟨(fun hnone => by cases hnone), ?_⟩
      dsimp only
      split_ifs with hfew hbefore
      · exact .inl rfl
      · exact .inr (.inl rfl)
      · exact .inr (.inr ⟨_, Nat.le_of_not_lt hfew, rfl⟩)

/-- A fold conserves the omissions, and a second fold changes nothing. -/
theorem fold_conserves (enabled : Bool) (records : List Json) (hlength : records.length < 2 ^ 32) :
    Conserves records (foldOmissions enabled records) ∧
      foldOmissions enabled (foldOmissions enabled records) = foldOmissions enabled records := by
  cases enabled with
  | false => exact ⟨.refl records, rfl⟩
  | true =>
    simp only [foldOmissions_eq_folded]
    exact ⟨conserves_folded hlength, folded_folded singleKey_batchOf records⟩

end Conservation

/-- The omission of an entry. -/
def sampleOmission (target field : String) : Json :=
  .obj [("state", .str "explicitly_omitted"), ("target", .str target), ("field", .str field),
    ("reason", .str "outside_selection"), ("expandable", .bool false), ("handle_id", .null)]

/-- Two judgments and a material are omitted. -/
def sampleOmissions : List Json :=
  [sampleOmission "a" "judgment", sampleOmission "m" "material", sampleOmission "b" "judgment"]

theorem fold_conserves_sample :
    Conserves sampleOmissions (foldOmissions true sampleOmissions) ∧
      foldOmissions true (foldOmissions true sampleOmissions) = foldOmissions true sampleOmissions :=
  fold_conserves true sampleOmissions (by decide)

end Kdna.Omissions

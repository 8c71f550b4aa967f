import Kdna.Data.FirstUse
import Kdna.Json.CanonicalInjective
import Kdna.Json.Members
import Kdna.Read.HostGate

/-!
# The scope dictionary of a reference frame

A stored reference frame keeps every scope once, in the order of first use, and its records refer
to their scopes by index. Decoding restores the scopes and refuses every dictionary that encoding
does not write, so the stored frames that are accepted correspond to the frames one to one.
-/

namespace Kdna.Sections

/-- The codes of the frame codec, and what its checks of a target fail with. -/
inductive FrameFailure
  | input
  | typedShape
  | core
  | dictionaryShape
  | dictionaryDuplicate
  | dictionaryRef
  | dictionaryOrder
  | reconstructedInvalid
  | dictionaryUnused
  deriving DecidableEq, Repr

/-- The text of a failure. -/
def FrameFailure.code : FrameFailure → String
  | .input => "READ_INPUT_INVALID"
  | .typedShape => "SECTION_TYPED_SHAPE"
  | .core => "READ_CORE_INVALID"
  | .dictionaryShape => "XREF_DICTIONARY_SHAPE"
  | .dictionaryDuplicate => "XREF_DICTIONARY_DUPLICATE"
  | .dictionaryRef => "XREF_DICTIONARY_REF"
  | .dictionaryOrder => "XREF_DICTIONARY_ORDER"
  | .reconstructedInvalid => "XREF_RECONSTRUCTED_INVALID"
  | .dictionaryUnused => "XREF_DICTIONARY_UNUSED"

section Shapes

/-- `Selection` -/
def isSelection (identifier? : Json → Option String) (v : Json) : Bool :=
  Ir.closedObject v ["asset_id", "asset_version", "judgment_id"] [] &&
    ["asset_id", "asset_version", "judgment_id"].all (Read.passes identifier? v)

/-- `ExpansionAnchor` -/
def isAnchor (identifier? : Json → Option String) (v : Json) : Bool :=
  Ir.closedObject v ["kind"] [] && v.propIs "kind" "asset" ||
    Ir.closedObject v ["kind", "selection"] [] && v.propIs "kind" "judgment" &&
      (v.prop "selection").any (isSelection identifier?)

/-- `Ref` -/
def isRef (identifier? : Json → Option String) (v : Json) : Bool :=
  Ir.closedObject v ["kind", "id"] ["asset"] &&
    (Ir.Kind.all.any fun kind => v.propIs "kind" kind.text) &&
    Read.passes identifier? v "id" && (v.prop "asset").all (Read.isAssetIdentity identifier?)

/-- The `scope` of `ExpansionTarget`: distinct identifiers, at least one. -/
def isScope (identifier? : Json → Option String) (scope : List String) : Bool :=
  scope ≠ [] && scope.Nodup && scope.all fun id => (identifier? (.str id)).isSome

/-- A scope as a value. -/
def scopeJson (scope : List String) : Json := .arr (scope.map .str)

/-- A count as a value. -/
def countJson (n : ℕ) : Json :=
  match Binary64.ofInt n with
  | some x => .num x
  | none => .null

end Shapes

/-- `ExpansionTarget` -/
structure Target where
  anchor : Json
  target : Json
  scope : List String

/-- The target as a value. -/
def Target.json (x : Target) : Json :=
  .obj [("anchor", x.anchor), ("target", x.target), ("scope", scopeJson x.scope)]

/-- The members of a target pass the test. -/
def Target.shape (identifier? : Json → Option String) (x : Target) : Bool :=
  isAnchor identifier? x.anchor && isRef identifier? x.target && isScope identifier? x.scope

/-- `C.validate('ExpansionTarget', x)` -/
def validateTarget (x : Target) : Except FrameFailure Unit := do
  require ((assertStrictJson x.json).toBool) FrameFailure.input
  require (x.shape Read.shapeIdentifier?) FrameFailure.typedShape
  require (x.shape Read.identifier?) FrameFailure.core

/-- `ExperimentalStoredExpansionTarget06` -/
structure StoredTarget where
  anchor : Json
  target : Json
  scopeIndex : ℕ

/-- The stored target as a value. -/
def StoredTarget.json (x : StoredTarget) : Json :=
  .obj [("anchor", x.anchor), ("target", x.target), ("scope_index", countJson x.scopeIndex)]

/-- A frame of references. Its `kind` is `xref`. -/
structure Frame where
  sectionId : String
  records : List Target

/-- `ExperimentalStoredXrefFrame06`. Its `kind` is `xref`. -/
structure StoredFrame where
  sectionId : String
  scopeDictionary : List (List String)
  records : List StoredTarget

/-- The stored frame as a value. -/
def StoredFrame.json (f : StoredFrame) : Json :=
  .obj [("section_id", .str f.sectionId), ("kind", .str "xref"),
    ("scope_dictionary", .arr (f.scopeDictionary.map scopeJson)),
    ("records", .arr (f.records.map StoredTarget.json))]

/-- `^xref:(0|[1-9][0-9]*):(0|[1-9][0-9]*)$` -/
def isXrefId (id : String) : Bool :=
  match id.toList.splitOn ':' with
  | [lead, anchor, chunk] =>
    lead = "xref".toList && isCanonicalNumber anchor && isCanonicalNumber chunk
  | _ => false

/-- The members of a stored frame pass the test. -/
def StoredFrame.shape (identifier? : Json → Option String) (f : StoredFrame) : Bool :=
  isXrefId f.sectionId &&
    f.scopeDictionary.length ≤ 1024 &&
    (f.scopeDictionary.all fun scope => isScope identifier? scope && scope.length ≤ 10000) &&
    f.records.length ≤ 1024 &&
    f.records.all fun x =>
      isAnchor identifier? x.anchor && isRef identifier? x.target && x.scopeIndex ≤ 1023

/-- `C.shape('ExperimentalStoredXrefFrame06', stored)` -/
def isStoredFrame (f : StoredFrame) : Bool :=
  (assertStrictJson f.json).toBool && f.shape Read.shapeIdentifier? && f.shape Read.identifier?

/-- `JSON.stringify(scope)` -/
def scopeKey (scope : List String) : List Char := stringify (scopeJson scope)

/-- The loop of `decodeFrame` over the records: the restored records and the indices used. -/
def decodeRecords (dictionary : List (List String)) :
    ℕ → List ℕ → List StoredTarget → Except FrameFailure (List Target × List ℕ)
  | _, used, [] => .ok ([], used)
  | next, used, x :: xs => do
    let scope ← orFail .dictionaryRef dictionary[x.scopeIndex]?
    require (x.scopeIndex ∈ used ∨ x.scopeIndex = next) FrameFailure.dictionaryOrder
    let restored : Target := ⟨x.anchor, x.target, scope⟩
    require ((validateTarget restored).toBool) FrameFailure.reconstructedInvalid
    let (rest, used) ← decodeRecords dictionary (if x.scopeIndex ∈ used then next else next + 1)
      (if x.scopeIndex ∈ used then used else used ++ [x.scopeIndex]) xs
    return (restored :: rest, used)

/-- `decodeFrame(stored)` -/
def decodeFrame (stored : StoredFrame) : Except FrameFailure Frame := do
  require (isStoredFrame stored) FrameFailure.dictionaryShape
  require (stored.scopeDictionary.map scopeKey).Nodup FrameFailure.dictionaryDuplicate
  let (records, used) ← decodeRecords stored.scopeDictionary 0 [] stored.records
  require (used.length = stored.scopeDictionary.length) FrameFailure.dictionaryUnused
  return ⟨stored.sectionId, records⟩

/-- The loop of `encodeFrame`: the dictionary and the stored records. -/
def encodeRecords (dictionary : List (List String)) :
    List Target → Except FrameFailure (List (List String) × List StoredTarget)
  | [] => .ok (dictionary, [])
  | x :: xs => do
    validateTarget x
    let (dictionary, index) := FirstUse.place scopeKey dictionary x.scope
    let (dictionary, rest) ← encodeRecords dictionary xs
    return (dictionary, ⟨x.anchor, x.target, index⟩ :: rest)

/-- `encodeFrame(plain)` -/
def encodeFrame (plain : Frame) : Except FrameFailure StoredFrame := do
  let (dictionary, records) ← encodeRecords [] plain.records
  let stored : StoredFrame := ⟨plain.sectionId, dictionary, records⟩
  let _ ← decodeFrame stored
  return stored

section Keys

/-- The checks of a target. -/
theorem validateTarget_eq_ok_iff {x : Target} {u : Unit} : validateTarget x = .ok u ↔
    assertStrictJson x.json = .ok () ∧ x.shape Read.shapeIdentifier? ∧ x.shape Read.identifier? := by
  rw [validateTarget, require_bind_eq_ok_iff, require_bind_eq_ok_iff, require_eq_ok_iff]
  cases assertStrictJson x.json with
  | ok v => simp [Except.toBool]
  | error e => simp [Except.toBool]

/-- The scope of a checked target is a strict value. -/
theorem strict_scope {x : Target} (h : validateTarget x = .ok ()) :
    (scopeJson x.scope).Strict (maxDepth + 1) := by
  have hprop : x.json.prop "scope" = some (scopeJson x.scope) := by simp [Target.json]
  exact (assertStrictJson_eq_ok_iff.mp
    (Value.strict_prop (validateTarget_eq_ok_iff.mp h).1 hprop)).1

theorem sorted_scopeJson (scope : List String) : (scopeJson scope).sorted = scopeJson scope := by
  rw [scopeJson, Value.sorted_arr, List.map_map]
  rfl

theorem mapNum_scopeJson (scope : List String) :
    (scopeJson scope).mapNum Binary64.unsignedZero = scopeJson scope := by
  rw [scopeJson, Value.mapNum_arr, List.map_map]
  rfl

theorem distinctKeys_scopeJson (scope : List String) : (scopeJson scope).DistinctKeys := by
  rw [scopeJson, Value.distinctKeys_arr, List.forall_mem_map]
  exact fun _ _ => trivial

/-- Scopes with one text are one scope. -/
theorem scopeKey_inj {s t : List String} (hs : (scopeJson s).Strict (maxDepth + 1))
    (ht : (scopeJson t).Strict (maxDepth + 1)) (h : scopeKey s = scopeKey t) : s = t := by
  have htext : canonicalText (scopeJson s) = canonicalText (scopeJson t) := by
    rw [canonicalText_eq, canonicalText_eq, sorted_scopeJson, sorted_scopeJson]
    exact h
  have hequal := canonicalText_injective hs ht (distinctKeys_scopeJson s)
    (distinctKeys_scopeJson t) htext
  rw [Value.DeepEqual, mapNum_scopeJson, mapNum_scopeJson, sorted_scopeJson, sorted_scopeJson,
    scopeJson, scopeJson, Value.arr.injEq] at hequal
  exact List.map_injective_iff.mpr (fun _ _ h => Value.str.inj h) hequal

end Keys

section Decoding

variable {dictionary : List (List String)} {stored : StoredFrame} {plain : Frame}

/-- A record with its scope in place of the index. -/
structure Restored (dictionary : List (List String)) (x : StoredTarget) (y : Target) : Prop where
  anchor : y.anchor = x.anchor
  target : y.target = x.target
  scope : dictionary[x.scopeIndex]? = some y.scope
  valid : validateTarget y = .ok ()

theorem toBool_eq_true_iff {ε : Type} {x : Except ε Unit} : x.toBool = true ↔ x = .ok () := by
  cases x <;> simp [Except.toBool]

/-- The loop over the records accepts exactly the indices in the order of their first use. -/
theorem decodeRecords_eq_ok_iff {next last : ℕ} {used : List ℕ} {xs : List StoredTarget}
    {ys : List Target} (hused : ∀ i, i ∈ used ↔ i < next) (hlength : used.length = next) :
    (∃ used', decodeRecords dictionary next used xs = .ok (ys, used') ∧ used'.length = last) ↔
      FirstUse.Uses dictionary.length next (xs.map StoredTarget.scopeIndex) last ∧
        List.Forall₂ (Restored dictionary) xs ys := by
  induction xs generalizing next used ys with
  | nil =>
    constructor
    · rintro ⟨used', h, rfl⟩
      obtain ⟨rfl, rfl⟩ := Prod.mk.inj (Except.ok.inj h)
      rw [hlength]
      exact ⟨.nil _, .nil⟩
    · rintro ⟨huses, hys⟩
      cases huses
      cases hys
      exact ⟨used, rfl, hlength⟩
  | cons x xs ih =>
    have hnext : ∀ i, i ∈ used ++ [next] ↔ i < next + 1 := by
      intro i
      rw [List.mem_append, List.mem_singleton, hused]
      omega
    have hlength' : (used ++ [next]).length = next + 1 := by
      rw [List.length_append, hlength, List.length_singleton]
    constructor
    · rintro ⟨used', h, hlast⟩
      rw [decodeRecords] at h
      obtain ⟨scope, hscope, h⟩ := bind_eq_ok_iff.mp h
      obtain ⟨horder, h⟩ := require_bind_eq_ok_iff.mp h
      obtain ⟨hvalid, h⟩ := require_bind_eq_ok_iff.mp h
      obtain ⟨⟨rest, used''⟩, hrest, h⟩ := bind_eq_ok_iff.mp h
      obtain ⟨rfl, rfl⟩ := Prod.mk.inj (Except.ok.inj h)
      have hx : Restored dictionary x ⟨x.anchor, x.target, scope⟩ :=
        ⟨rfl, rfl, orFail_eq_ok_iff.mp hscope, toBool_eq_true_iff.mp hvalid⟩
      by_cases hmem : x.scopeIndex ∈ used
      · rw [if_pos hmem, if_pos hmem] at hrest
        obtain ⟨huses, hys⟩ := (ih hused hlength).mp ⟨_, hrest, hlast⟩
        exact ⟨.again ((hused _).mp hmem) huses, .cons hx hys⟩
      · have hindex := horder.resolve_left hmem
        rw [if_neg hmem, if_neg hmem, hindex] at hrest
        obtain ⟨huses, hys⟩ := (ih hnext hlength').mp ⟨_, hrest, hlast⟩
        have hbound := (List.getElem?_eq_some_iff.mp hx.scope).1
        rw [List.map_cons, hindex]
        exact ⟨.first (by omega) huses, .cons hx hys⟩
    · rintro ⟨huses, hys⟩
      cases hys with
      | @cons _ y _ ys hy hys =>
        have hrestored : (⟨x.anchor, x.target, y.scope⟩ : Target) = y := by
          rw [← hy.anchor, ← hy.target]
        rw [decodeRecords, hy.scope, orFail, ok_bind, hrestored]
        generalize hindex : x.scopeIndex = index
        rw [List.map_cons, hindex] at huses
        cases huses with
        | again hi huses =>
          obtain ⟨used', hrest, hlast⟩ := (ih hused hlength).mpr ⟨huses, hys⟩
          have hmem := (hused index).mpr hi
          rw [require_bind_of_pos (.inl hmem), require_bind_of_pos (toBool_eq_true_iff.mpr hy.valid),
            if_pos hmem, if_pos hmem, hrest]
          exact ⟨used', rfl, hlast⟩
        | first hi huses =>
          obtain ⟨used', hrest, hlast⟩ := (ih hnext hlength').mpr ⟨huses, hys⟩
          have hmem : next ∉ used := fun h => absurd ((hused _).mp h) (lt_irrefl _)
          rw [require_bind_of_pos (.inr rfl), require_bind_of_pos (toBool_eq_true_iff.mpr hy.valid),
            if_neg hmem, if_neg hmem, hrest]
          exact ⟨used', rfl, hlast⟩

/-- What decoding accepts, and what it returns. -/
theorem decodeFrame_eq_ok_iff : decodeFrame stored = .ok plain ↔
    isStoredFrame stored ∧ (stored.scopeDictionary.map scopeKey).Nodup ∧
      FirstUse.Uses stored.scopeDictionary.length 0 (stored.records.map StoredTarget.scopeIndex)
        stored.scopeDictionary.length ∧
      List.Forall₂ (Restored stored.scopeDictionary) stored.records plain.records ∧
      plain.sectionId = stored.sectionId := by
  have hloop : ∀ ys, (∃ used, decodeRecords stored.scopeDictionary 0 [] stored.records =
      .ok (ys, used) ∧ used.length = stored.scopeDictionary.length) ↔ _ :=
    fun ys => decodeRecords_eq_ok_iff (by simp) rfl
  rw [decodeFrame, require_bind_eq_ok_iff, require_bind_eq_ok_iff, bind_eq_ok_iff]
  refine and_congr_right fun _ => and_congr_right fun _ => ?_
  constructor
  · rintro ⟨⟨ys, used⟩, hrecords, h⟩
    obtain ⟨hused, h⟩ := require_bind_eq_ok_iff.mp h
    obtain rfl := Except.ok.inj h
    obtain ⟨huses, hys⟩ := (hloop ys).mp ⟨used, hrecords, hused⟩
    exact ⟨huses, hys, rfl⟩
  · rintro ⟨huses, hys, hid⟩
    obtain ⟨used, hrecords, hused⟩ := (hloop plain.records).mpr ⟨huses, hys⟩
    refine ⟨_, hrecords, ?_⟩
    dsimp only
    rw [require_bind_of_pos hused, ← hid]
    rfl

end Decoding

section Encoding

variable {dictionary : List (List String)}

/-- A target with an index in place of the scope. -/
def Target.storedAt (x : Target) (index : ℕ) : StoredTarget := ⟨x.anchor, x.target, index⟩

/-- The numbering of the scopes of targets. -/
abbrev numberedScopes (dictionary : List (List String)) (xs : List Target) :
    List (List String) × List ℕ :=
  FirstUse.numbered scopeKey dictionary (xs.map Target.scope)

/-- The frame with its scopes numbered. -/
def Frame.numbered (plain : Frame) : StoredFrame :=
  ⟨plain.sectionId, (numberedScopes [] plain.records).1,
    List.zipWith Target.storedAt plain.records (numberedScopes [] plain.records).2⟩

/-- The loop over the targets checks each of them and numbers their scopes. -/
theorem encodeRecords_eq_ok_iff {xs : List Target} {r : List (List String) × List StoredTarget} :
    encodeRecords dictionary xs = .ok r ↔ (∀ x ∈ xs, validateTarget x = .ok ()) ∧
      r = ((numberedScopes dictionary xs).1,
        List.zipWith Target.storedAt xs (numberedScopes dictionary xs).2) := by
  induction xs generalizing dictionary r with
  | nil =>
    rw [encodeRecords, Except.ok.injEq, eq_comm]
    exact ⟨fun h => ⟨List.forall_mem_nil _, h⟩, fun h => h.2⟩
  | cons x xs ih =>
    rw [encodeRecords, bind_eq_ok_iff, List.forall_mem_cons, and_assoc]
    simp only [bind_eq_ok_iff, ih, pure_eq_ok, Except.ok.injEq]
    constructor
    · rintro ⟨_, hx, _, ⟨hxs, rfl⟩, rfl⟩
      exact ⟨hx, hxs, rfl⟩
    · rintro ⟨hx, hxs, rfl⟩
      exact ⟨(), hx, _, ⟨hxs, rfl⟩, rfl⟩

/-- What encoding accepts, and what it returns. -/
theorem encodeFrame_eq_ok_iff {plain : Frame} {stored : StoredFrame} : encodeFrame plain = .ok stored ↔
    (∀ x ∈ plain.records, validateTarget x = .ok ()) ∧ (∃ f, decodeFrame stored = .ok f) ∧
      stored = plain.numbered := by
  rw [encodeFrame, bind_eq_ok_iff]
  simp only [bind_eq_ok_iff, encodeRecords_eq_ok_iff, pure_eq_ok, Except.ok.injEq]
  constructor
  · rintro ⟨_, ⟨hvalid, rfl⟩, f, hf, rfl⟩
    exact ⟨hvalid, ⟨f, hf⟩, rfl⟩
  · rintro ⟨hvalid, ⟨f, hf⟩, rfl⟩
    exact ⟨_, ⟨hvalid, rfl⟩, f, hf, rfl⟩

theorem scopeIndex_zipWith {xs : List Target} {is : List ℕ} (h : xs.length = is.length) :
    (List.zipWith Target.storedAt xs is).map StoredTarget.scopeIndex = is := by
  rw [List.map_zipWith, ← List.map_uncurry_zip_eq_zipWith]
  exact List.map_snd_zip h.ge

/-- The records of a numbered frame and those that they were made of. -/
theorem restored_zipWith {xs : List Target} {is : List ℕ}
    (hvalid : ∀ x ∈ xs, validateTarget x = .ok ())
    (hnamed : List.Forall₂ (fun scope i => dictionary[i]? = some scope) (xs.map Target.scope) is) :
    List.Forall₂ (Restored dictionary) (List.zipWith Target.storedAt xs is) xs := by
  induction xs generalizing is with
  | nil => exact .nil
  | cons x xs ih =>
    rw [List.forall_mem_cons] at hvalid
    cases hnamed with
    | cons hx hxs => exact .cons ⟨rfl, rfl, hx, hvalid.1⟩ (ih hvalid.2 hxs)

/-- Stored records are the numbering of what they are restored to. -/
theorem zipWith_of_restored {xs : List StoredTarget} {ys : List Target}
    (h : List.Forall₂ (Restored dictionary) xs ys) :
    List.zipWith Target.storedAt ys (xs.map StoredTarget.scopeIndex) = xs := by
  induction h with
  | nil => rfl
  | @cons x y _ _ hx _ ih =>
    rw [List.map_cons, List.zipWith_cons_cons, ih, Target.storedAt, hx.anchor, hx.target]

/-- The scopes of restored records are what their indices stand for. -/
theorem named_of_restored {xs : List StoredTarget} {ys : List Target}
    (h : List.Forall₂ (Restored dictionary) xs ys) :
    List.Forall₂ (fun scope i => dictionary[i]? = some scope) (ys.map Target.scope)
      (xs.map StoredTarget.scopeIndex) := by
  rw [List.forall₂_map_left_iff, List.forall₂_map_right_iff]
  exact h.flip.imp fun _ _ hx => hx.scope

/-- In the numbering of checked targets every index stands for the scope itself. -/
theorem named_numbered {xs : List Target} (hvalid : ∀ x ∈ xs, validateTarget x = .ok ()) :
    List.Forall₂ (fun scope i => (numberedScopes [] xs).1[i]? = some scope) (xs.map Target.scope)
      (numberedScopes [] xs).2 := by
  have hstrict : ∀ scope ∈ xs.map Target.scope, (scopeJson scope).Strict (maxDepth + 1) :=
    List.forall_mem_map.mpr fun x hx => strict_scope (hvalid x hx)
  obtain ⟨-, -, -, hnamed⟩ := @FirstUse.numbered_spec _ _ scopeKey _ []
    List.nodup_nil (xs.map Target.scope)
  rw [List.forall₂_iff_get] at hnamed ⊢
  refine ⟨hnamed.1, fun i hi hi' => ?_⟩
  obtain ⟨b, hb, hkey⟩ := hnamed.2 i hi hi'
  have hmem := (FirstUse.mem_numbered (List.mem_of_getElem? hb)).resolve_left List.not_mem_nil
  rw [hb, scopeKey_inj (hstrict b hmem) (hstrict _ (List.get_mem _ _)) hkey]

/-- A numbered frame with the shape of a stored frame is decoded to the frame. -/
theorem decodeFrame_numbered {plain : Frame}
    (hvalid : ∀ x ∈ plain.records, validateTarget x = .ok ())
    (hshape : isStoredFrame plain.numbered) : decodeFrame plain.numbered = .ok plain := by
  obtain ⟨-, hkeys, huses, -⟩ := @FirstUse.numbered_spec _ _ scopeKey _ []
    List.nodup_nil (plain.records.map Target.scope)
  have hnamed := named_numbered hvalid
  have hlength := hnamed.length_eq
  rw [List.length_map] at hlength
  have hindices := scopeIndex_zipWith hlength
  rw [decodeFrame_eq_ok_iff, Frame.numbered]
  dsimp only
  rw [hindices]
  exact ⟨hshape, hkeys, huses, restored_zipWith hvalid hnamed, rfl⟩

/-- What is decoded is numbered as it was stored. -/
theorem numbered_of_decodeFrame {plain : Frame} {stored : StoredFrame}
    (h : decodeFrame stored = .ok plain) :
    (∀ x ∈ plain.records, validateTarget x = .ok ()) ∧ plain.numbered = stored := by
  obtain ⟨-, hkeys, huses, hrestored, hid⟩ := decodeFrame_eq_ok_iff.mp h
  refine ⟨fun x hx => ?_, ?_⟩
  · obtain ⟨_, _, hx⟩ := exists_of_mem_forall₂ hrestored hx
    exact hx.valid
  · have hnumbered := FirstUse.numbered_of_uses hkeys huses (named_of_restored hrestored)
    rw [List.take_zero, List.take_length] at hnumbered
    rw [Frame.numbered, numberedScopes, hnumbered, zipWith_of_restored hrestored, hid]

end Encoding

section Frames

/-- A frame that can be stored. -/
structure Frame.Valid (f : Frame) : Prop where
  sectionId : isXrefId f.sectionId
  records : f.records.length ≤ 1024
  targets : ∀ x ∈ f.records, validateTarget x = .ok ()
  strict : assertStrictJson f.numbered.json = .ok ()

theorem isScope_of_validateTarget {x : Target} (h : validateTarget x = .ok ()) :
    isScope Read.shapeIdentifier? x.scope ∧ isScope Read.identifier? x.scope ∧
      x.scope.length ≤ 10000 := by
  obtain ⟨-, hshape, hcore⟩ := validateTarget_eq_ok_iff.mp h
  simp only [Target.shape, Bool.and_eq_true] at hshape hcore
  have hstrict := (strict_scope h).1
  rw [List.length_map] at hstrict
  exact ⟨hshape.2, hcore.2, hstrict⟩

/-- A valid frame has the shape of a stored frame when its scopes are numbered. -/
theorem Frame.Valid.isStoredFrame {f : Frame} (h : f.Valid) : isStoredFrame f.numbered := by
  have hentries : f.numbered.scopeDictionary.length ≤ f.records.length := by
    have hle := @FirstUse.length_numbered_le _ _ scopeKey _ [] (f.records.map Target.scope)
    rwa [List.length_map, List.length_nil, Nat.zero_add] at hle
  have hrestored := restored_zipWith h.targets (named_numbered h.targets)
  have hlength : f.numbered.records.length = f.records.length := hrestored.length_eq
  have hsmall := h.records
  have hscope : ∀ scope ∈ f.numbered.scopeDictionary, isScope Read.shapeIdentifier? scope ∧
      isScope Read.identifier? scope ∧ scope.length ≤ 10000 := by
    intro scope hscope
    have hmem := (FirstUse.mem_numbered hscope).resolve_left List.not_mem_nil
    obtain ⟨x, hx, rfl⟩ := List.mem_map.mp hmem
    exact isScope_of_validateTarget (h.targets x hx)
  have hrecord : ∀ r ∈ f.numbered.records, ∃ x : Target, x.anchor = r.anchor ∧
      x.target = r.target ∧ validateTarget x = .ok () ∧ r.scopeIndex ≤ 1023 := by
    intro r hr
    obtain ⟨x, -, hx⟩ := exists_mem_forall₂ hrestored hr
    have hindex : r.scopeIndex < f.numbered.scopeDictionary.length :=
      (List.getElem?_eq_some_iff.mp hx.scope).1
    exact ⟨x, hx.anchor, hx.target, hx.valid, by omega⟩
  have hshape : ∀ identifier?, (∀ x : Target, validateTarget x = .ok () → x.shape identifier?) →
      (∀ scope ∈ f.numbered.scopeDictionary, isScope identifier? scope) →
      f.numbered.shape identifier? := by
    intro identifier? htarget hscopes
    simp only [StoredFrame.shape, Bool.and_eq_true, List.all_eq_true, decide_eq_true_eq]
    refine ⟨⟨⟨⟨h.sectionId, by exact hentries.trans hsmall⟩, fun scope hmem => ?_⟩, by omega⟩,
      fun r hr => ?_⟩
    · exact ⟨hscopes scope hmem, (hscope scope hmem).2.2⟩
    · obtain ⟨x, hanchor, htarget', hvalid, hindex⟩ := hrecord r hr
      have hx := htarget x hvalid
      simp only [Target.shape, Bool.and_eq_true] at hx
      rw [← hanchor, ← htarget']
      exact ⟨hx.1, hindex⟩
  simp only [Sections.isStoredFrame, Bool.and_eq_true]
  refine ⟨⟨toBool_eq_true_iff.mpr h.strict, hshape _ (fun x hx => ?_) fun scope hmem => ?_⟩,
    hshape _ (fun x hx => ?_) fun scope hmem => ?_⟩
  · exact (validateTarget_eq_ok_iff.mp hx).2.1
  · exact (hscope scope hmem).1
  · exact (validateTarget_eq_ok_iff.mp hx).2.2
  · exact (hscope scope hmem).2.1

/-- The shape of a stored frame bounds the frame. -/
theorem Frame.valid_of_isStoredFrame {f : Frame} (htargets : ∀ x ∈ f.records, validateTarget x = .ok ())
    (h : Sections.isStoredFrame f.numbered) : f.Valid := by
  have hrestored := restored_zipWith htargets (named_numbered htargets)
  have hlength : f.numbered.records.length = f.records.length := hrestored.length_eq
  simp only [Sections.isStoredFrame, StoredFrame.shape, Bool.and_eq_true, decide_eq_true_eq] at h
  obtain ⟨⟨hstrict, ⟨⟨⟨⟨hid, -⟩, -⟩, hrecords⟩, -⟩⟩, -⟩ := h
  exact ⟨hid, by omega, htargets, toBool_eq_true_iff.mp hstrict⟩

/-- The codec is a bijection between the valid frames and the stored frames that decoding
accepts. -/
theorem frames_bijective :
    (∀ plain stored, encodeFrame plain = .ok stored → decodeFrame stored = .ok plain) ∧
    (∀ stored plain, decodeFrame stored = .ok plain → encodeFrame plain = .ok stored) ∧
    (∀ stored stored' plain, decodeFrame stored = .ok plain → decodeFrame stored' = .ok plain →
      stored = stored') ∧
    ∀ plain : Frame, (∃ stored, encodeFrame plain = .ok stored) ↔ plain.Valid := by
  have hencode : ∀ stored plain, decodeFrame stored = .ok plain →
      encodeFrame plain = .ok stored := by
    intro stored plain h
    obtain ⟨hvalid, hnumbered⟩ := numbered_of_decodeFrame h
    exact encodeFrame_eq_ok_iff.mpr ⟨hvalid, ⟨plain, h⟩, hnumbered.symm⟩
  have hdecode : ∀ plain stored, encodeFrame plain = .ok stored →
      decodeFrame stored = .ok plain := by
    intro plain stored h
    obtain ⟨hvalid, ⟨f, hf⟩, rfl⟩ := encodeFrame_eq_ok_iff.mp h
    exact decodeFrame_numbered hvalid (decodeFrame_eq_ok_iff.mp hf).1
  refine ⟨hdecode, hencode, fun stored stored' plain h h' => ?_, fun plain => ⟨?_, fun h => ?_⟩⟩
  · exact (numbered_of_decodeFrame h).2.symm.trans (numbered_of_decodeFrame h').2
  · rintro ⟨stored, h⟩
    obtain ⟨hvalid, ⟨f, hf⟩, rfl⟩ := encodeFrame_eq_ok_iff.mp h
    exact Frame.valid_of_isStoredFrame hvalid (decodeFrame_eq_ok_iff.mp hf).1
  · exact ⟨_, hencode _ _ (decodeFrame_numbered h.targets h.isStoredFrame)⟩

/-- A source that the asset refers to. -/
def sampleSource (id : String) : Json := .obj [("kind", .str "source"), ("id", .str id)]

/-- A stored frame of three references with two scopes. -/
def sampleStored : StoredFrame :=
  ⟨"xref:0:0", [["x", "y"], ["z"]], [⟨.obj [("kind", .str "asset")], sampleSource "a", 0⟩,
    ⟨.obj [("kind", .str "asset")], sampleSource "b", 1⟩,
    ⟨.obj [("kind", .str "asset")], sampleSource "c", 0⟩]⟩

/-- The frame of the three references. -/
def sampleFrame : Frame :=
  ⟨"xref:0:0", [⟨.obj [("kind", .str "asset")], sampleSource "a", ["x", "y"]⟩,
    ⟨.obj [("kind", .str "asset")], sampleSource "b", ["z"]⟩,
    ⟨.obj [("kind", .str "asset")], sampleSource "c", ["x", "y"]⟩]⟩

/-- The sample is stored with each scope once. -/
theorem frames_bijective_sample : encodeFrame sampleFrame = .ok sampleStored ∧
    decodeFrame sampleStored = .ok sampleFrame := by
  have hshape : isStoredFrame sampleStored := by decide +kernel
  have hvalid : ∀ x ∈ sampleFrame.records, (validateTarget x).toBool := by decide
  have hvalid' := fun x hx => toBool_eq_true_iff.mp (hvalid x hx)
  have hdecode : decodeFrame sampleStored = .ok sampleFrame := by
    refine decodeFrame_eq_ok_iff.mpr ⟨hshape, by decide,
      .first (by decide) (.first (by decide) (.again (by decide) (.nil _))), ?_, rfl⟩
    exact .cons ⟨rfl, rfl, rfl, hvalid' _ (by simp [sampleFrame])⟩
      (.cons ⟨rfl, rfl, rfl, hvalid' _ (by simp [sampleFrame])⟩
        (.cons ⟨rfl, rfl, rfl, hvalid' _ (by simp [sampleFrame])⟩ .nil))
  have hencode := frames_bijective.2.1 _ _ hdecode
  exact ⟨hencode, frames_bijective.1 _ _ hencode⟩

end Frames

end Kdna.Sections

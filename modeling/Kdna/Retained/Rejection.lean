import Kdna.Data.Reorder
import Kdna.Read.Budget
import Kdna.Read.HostGate

/-!
# The rejection of a retained read

`rejection` and `finish` of `native-package-retained-observation.js`, for the reads that it
rejects. The generated shape bounds an identifier of the result by 256 characters, and the
receipt of a rejection is named by the request with a prefix before it.
-/

namespace Kdna.Retained

open Value Read

/-- What a prepared read holds: an admitted request without a handle, the digest of the
contract, what its Host is bound to, and the scope of its result. -/
structure PreparedRecord where
  requestId : String
  requestIdOk : identifier requestId = true
  budgetBytes : UInt
  definitionDigest : String
  digestOk : isDigest (.str definitionDigest) = true
  gate : RetainedGate.View
  inScope : Context → Bool

namespace PreparedRecord

variable (record : PreparedRecord)

/-- `contract` of a preparation. -/
def contract : Json :=
  .obj [("id", .str "kdna.retained-sections"), ("version", .str "0.1.0-candidate"),
    ("definition_digest", .str record.definitionDigest)]

/-- What the budget reads of the request. -/
def counted : Read.Record := ⟨record.requestId, record.budgetBytes⟩

/-- What the Host gate reads of the request. -/
def request : Read.Request := ⟨record.requestId, record.budgetBytes.1, .exactSelection, none, none⟩

end PreparedRecord

/-- `READ_CORE_CAPABILITY_UNAVAILABLE` -/
def capabilityUnavailable : String := HostError.capabilityUnavailable.code

/-- `diagnostic(code, stage)` of a rejection. -/
def diagnosticOf (code : String) : Json :=
  .obj [("code", .str code),
    ("stage", .str (if code = capabilityUnavailable then "core" else stageOf code)),
    ("severity", .str "error"), ("subject", .null), ("field", .null)]

/-- `states()`, where `READ_HOST_DENIED` sets the permission. -/
def statesOf (code : String) : Json :=
  .obj [("core", .str "not_evaluated"), ("interpretation", .str "not_evaluated"),
    ("writer", .str "not_evaluated"), ("confirmation", .str "not_evaluated"),
    ("read_permission", .str (if code = HostError.denied.code then "denied" else "not_evaluated")),
    ("action_authorization", .str "not_evaluated")]

/-- The detail of a rejection by the Host. -/
def detailOf (code : String) : String :=
  if code = capabilityUnavailable then "internal_capability_unavailable" else "host_invalid"

/-- The receipt of a rejection. -/
def receiptOf (requestId : String) : Json :=
  .obj [("receipt_id", .str ("receipt:" ++ requestId)), ("request_id", .str requestId),
    ("snapshot_id", .null), ("host_id", .null), ("host_epoch", .null), ("decision_id", .null),
    ("disclosed_at", .null), ("delivery", .str "not_delivered")]

/-- `rejection(record, code, detail)` -/
def rejection (record : PreparedRecord) (code : String) : Draft where
  members :=
    [("contract", record.contract), ("request_id", .str record.requestId),
      ("status", .str "rejected"), ("tuple", .null), ("asset", .null), ("snapshot_id", .null),
      ("digests", .null), ("content", .null), ("states", statesOf code),
      ("diagnostics", .arr [diagnosticOf code]), ("omissions", .arr []), ("assessment", assessment),
      ("receipt", receiptOf record.requestId), ("retained_detail", .str (detailOf code))]
  budget := ⟨record.budgetBytes, unfilled, unfilled⟩

section Meter

/-- The bounds of `copyInternalResponse`, at a depth that leaves room for `levels` more. -/
def within : ℕ → Json → Bool
  | 0, _ => false
  | levels + 1, v =>
    match v with
    | .str t => (Utf8.encode t).length ≤ maxStringBytes
    | .arr items => items.length ≤ 10000 && items.all (within levels)
    | .obj props => props.all fun p => within levels p.2
    | _ => true

/-- `sizeInternalResponse(value)`: the copy charges the octets of the canonical text, and their
count stays a safe integer. -/
def sizeInternalResponse (v : Json) : Option ℕ := do
  guard (within (maxDepth + 1) v ∧ octets v < 2 ^ 53)
  return octets v

/-- `measureInternalResponse(envelope)`: the envelope with its counts, and its size. -/
def measureInternalResponse (e : Draft) : Option (Draft × ℕ) := do
  let count ← sizeInternalResponse { e with budget := ⟨e.budget.limitBytes, unfilled, unfilled⟩ }.json
  let actual ← fixed count
  return (e.counted actual actual, count)

end Meter

section Shape

/-- The value is one of the texts. -/
def isOneOf (texts : List String) (v : Json) : Bool := v.text?.any (texts.contains ·)

/-- The value is `null`. -/
def isNull : Json → Bool
  | .null => true
  | _ => false

/-- `Identifier` -/
def isIdentifier (v : Json) : Bool := (shapeIdentifier? v).isSome

/-- `FixedByteCount` -/
def isByteCount (v : Json) : Bool := v.text?.any fun t => t.length = 16 && t.toList.all Char.isDigit

/-- The object has exactly the members, and each passes its test. -/
def closedShape (members : List (String × (Json → Bool))) (v : Json) : Bool :=
  Ir.closedObject v (members.map Prod.fst) [] &&
    members.all fun m => (v.prop m.1).any m.2

/-- `ReadDiagnosticCode` -/
def diagnosticCodes : List String :=
  ["READ_INPUT_INVALID", "READ_SNAPSHOT_UNATTESTED", "READ_CORE_CAPABILITY_UNAVAILABLE",
    "READ_UNSUPPORTED_VERSION", "READ_MIXED_VERSION_TUPLE", "READ_CORE_INVALID",
    "READ_INTERPRETATION_INCOMPLETE", "READ_STATIC_POLICY_INVALID", "READ_ASSET_MISMATCH",
    "READ_ASSET_VERSION_MISMATCH", "READ_SELECTION_NOT_FOUND", "READ_SELECTION_AMBIGUOUS",
    "READ_HANDLE_UNTRUSTED", "READ_HANDLE_VERSION_MISMATCH", "READ_HANDLE_STALE",
    "READ_HANDLE_ASSET_MISMATCH", "READ_HANDLE_SCOPE_MISMATCH", "READ_HOST_CONTEXT_UNTRUSTED",
    "READ_HOST_EPOCH_MISMATCH", "READ_HOST_TIME_INVALID", "READ_HANDLE_EXPIRED",
    "READ_HOST_CONTEXT_EXPIRED", "READ_HOST_DENIED", "READ_SCOPE_DENIED", "READ_PROJECTION_INVALID",
    "READ_BUDGET_INSUFFICIENT", "READ_COMPONENT_DECLARATION_INVALID",
    "READ_COMPONENT_CONTENT_INVALID", "READ_COMPONENT_REFERENCE_INVALID",
    "READ_COMPONENT_GRAPH_CYCLE", "READ_COMPONENT_LIMIT_EXCEEDED", "READ_COMPONENT_BINDING_INVALID",
    "READ_COMPONENT_ADOPTION_INVALID", "READ_METHOD_PRESENCE_INVALID", "READ_R2_STRUCTURE_INVALID",
    "READ_R2_REFERENCE_INVALID", "READ_R2_METHOD_INVALID", "READ_R2_PLAN_INVALID",
    "READ_R2_POLICY_INVALID", "READ_R2_SCOPE_INVALID", "READ_R2_EXAMPLE_INVALID",
    "READ_R2_HISTORY_INVALID", "READ_UNSUPPORTED_CRITICAL", "READ_UNRESOLVED_EXTERNAL"]

/-- `ReadStage` -/
def stages : List String :=
  ["input", "version", "core", "selection", "handle", "host", "projection", "budget"]

/-- `RetainedSectionDetail06` -/
def details : List String :=
  ["input_invalid", "version_unsupported", "mixed_tuple", "origin_untrusted", "origin_protected",
    "origin_scope_insufficient", "authority_untrusted", "authority_denied",
    "signature_policy_unsatisfied", "handle_invalid", "host_invalid", "budget_insufficient",
    "internal_capability_unavailable"]

/-- `RetainedSectionContract06` -/
def contractShape : Json → Bool :=
  closedShape [("id", isOneOf ["kdna.retained-sections"]), ("version", isOneOf ["0.1.0-candidate"]),
    ("definition_digest", isDigest)]

/-- `ResponsibilityStates` -/
def statesShape : Json → Bool :=
  closedShape [("core", isOneOf ["not_evaluated", "valid", "invalid"]),
    ("interpretation", isOneOf ["not_evaluated", "complete", "degraded", "blocked"]),
    ("writer", isOneOf ["not_evaluated", "sufficient", "insufficient"]),
    ("confirmation", isOneOf ["not_evaluated", "claimed_unverified", "verified", "rejected"]),
    ("read_permission", isOneOf ["not_evaluated", "allowed", "denied"]),
    ("action_authorization", isOneOf ["not_evaluated"])]

/-- `ReadDiagnostic` -/
def diagnosticShape : Json → Bool :=
  closedShape [("code", isOneOf diagnosticCodes), ("stage", isOneOf stages),
    ("severity", isOneOf ["error", "warning"]), ("subject", fun v => isIdentifier v || isNull v),
    ("field", fun v => v.text?.isSome || isNull v)]

/-- `Assessment` -/
def assessmentShape (v : Json) : Bool :=
  closedShape [("state", isOneOf ["not_evaluated"]), ("kind", isNull), ("assessor_id", isNull),
      ("evidence_ref", isNull)] v ||
    closedShape [("state", isOneOf ["reported"]),
      ("kind", isOneOf ["semantic_understanding", "external_evaluation"]),
      ("assessor_id", isIdentifier), ("evidence_ref", isIdentifier)] v

/-- `RejectedReceipt` -/
def receiptShape : Json → Bool :=
  let optional := fun v => isIdentifier v || isNull v
  closedShape [("receipt_id", isIdentifier), ("request_id", isIdentifier), ("snapshot_id", optional),
    ("host_id", optional), ("host_epoch", optional), ("decision_id", optional),
    ("disclosed_at", isNull), ("delivery", isOneOf ["not_delivered"])]

/-- `ReadBudget` -/
def budgetShape : Json → Bool :=
  closedShape [("limit_bytes", fun v => (uint? v).isSome), ("required_bytes", isByteCount),
    ("actual_bytes", isByteCount)]

/-- `RetainedReadEnvelopeRejected06`, the only shape of an envelope with this status. -/
def rejectedShape : Json → Bool :=
  closedShape [("contract", contractShape), ("request_id", isIdentifier),
    ("status", isOneOf ["rejected"]), ("tuple", fun v => isCandidateTuple v || isNull v),
    ("asset", isNull), ("snapshot_id", isNull), ("digests", isNull), ("content", isNull),
    ("states", statesShape),
    ("diagnostics", fun v => v.items?.any fun items => items.length = 1 && items.all diagnosticShape),
    ("omissions", fun v => v.items?.any List.isEmpty), ("assessment", assessmentShape),
    ("receipt", receiptShape), ("retained_detail", isOneOf details), ("budget", budgetShape)]

end Shape

/-- What a decision makes of a measured rejection; `none` is `RETAINED_READ_OUTPUT_SHAPE`. -/
def rejected (e : Draft) (requestId : String) (decision : Decision) : Option Finished :=
  match decision.finished e e requestId with
  | .envelope body => if rejectedShape body.json then some (.envelope body) else none
  | .control cause id => some (.control cause id)

/-- `fail(record, code)`: `finish` of a rejection; `none` is a throw. -/
def fail (record : PreparedRecord) (code : String) : Option Finished := do
  let (e, count) ← measureInternalResponse (rejection record code)
  let decision ← decideBudget record.counted none count (some code)
  rejected e record.requestId decision

/-- The codes of a rejection by the Host. -/
def hostCodes : List String :=
  [HostError.contextUntrusted, .epochMismatch, .timeInvalid, .handleExpired, .contextExpired,
    .handleUntrusted, .capabilityUnavailable, .denied].map HostError.code ++ ["READ_SCOPE_DENIED"]

section Shapes

/-- An object with the keys of a closed shape, in its order, has the shape when each value
passes its test. -/
theorem closedShape_obj {t : List (String × (Json → Bool) × Json)}
    (hnodup : (t.map Prod.fst).Nodup) :
    closedShape (t.map fun r => (r.1, r.2.1)) (.obj (t.map fun r => (r.1, r.2.2))) =
      t.all fun r => r.2.1 r.2.2 := by
  have hfound (r : String × (Json → Bool) × Json) (hr : r ∈ t) :
      Value.prop (.obj (t.map fun r => (r.1, r.2.2))) r.1 = some r.2.2 := by
    have hkeys : ((t.map fun r => (r.1, r.2.2)).map Prod.fst).Nodup := by
      rwa [List.map_map]
    have hmem := List.mem_map_of_mem (f := fun r => (r.1, r.2.2)) hr
    rw [Value.prop, (find?_key_eq_some_iff hkeys).mpr ⟨hmem, rfl⟩]
    rfl
  have hclosed : Ir.closedObject (.obj (t.map fun r => (r.1, r.2.2)))
      ((t.map fun r => (r.1, r.2.1)).map Prod.fst) [] = true := by
    rw [Ir.closedObject, Bool.and_eq_true, List.all_eq_true, List.all_eq_true]
    constructor
    · rintro p hp
      obtain ⟨r, hr, rfl⟩ := List.mem_map.mp hp
      rw [Bool.or_eq_true]
      left
      rw [List.contains_iff_mem, List.map_map]
      exact List.mem_map_of_mem (f := Prod.fst ∘ fun r => (r.1, r.2.1)) hr
    · intro name hname
      rw [List.map_map] at hname
      obtain ⟨r, hr, rfl⟩ := List.mem_map.mp hname
      rw [Function.comp_apply, hfound r hr]
      rfl
  rw [closedShape, hclosed, Bool.true_and, List.all_map, Bool.eq_iff_iff, List.all_eq_true,
    List.all_eq_true]
  refine forall₂_congr fun r hr => ?_
  rw [Function.comp_apply, hfound r hr, Option.any_some]

theorem uint?_json (n : UInt) : (uint? n.json).isSome = true := by
  have hint : (n.1 : ℤ) < 2 ^ 53 := by exact_mod_cast n.2
  have htoInt := Binary64.toInt_natural n.2.le
  rw [UInt.json, uint?, htoInt, Option.isSome_map, Option.isSome_filter, Option.any_some,
    decide_eq_true_eq]
  exact ⟨Int.natCast_nonneg _, hint⟩

theorem isByteCount_wide {t : String} (h : Wide t) : isByteCount (.str t) = true := by
  simp only [isByteCount, text?, Option.any_some, Bool.and_eq_true, decide_eq_true_eq,
    List.all_eq_true]
  exact ⟨h.1, h.2⟩

theorem budgetShape_json {b : Budget} (hrequired : Wide b.requiredBytes)
    (hactual : Wide b.actualBytes) : budgetShape b.json = true := by
  have hshape := closedShape_obj (t :=
    [("limit_bytes", fun v => (uint? v).isSome, b.limitBytes.json),
      ("required_bytes", isByteCount, .str b.requiredBytes),
      ("actual_bytes", isByteCount, .str b.actualBytes)]) (by simp)
  refine hshape.trans ?_
  simp only [List.all_cons, List.all_nil, uint?_json b.limitBytes, isByteCount_wide hrequired,
    isByteCount_wide hactual, Bool.and_true]


theorem isIdentifier_iff {t : String} : isIdentifier (.str t) = true ↔
    0 < t.length ∧ t.length ≤ 256 ∧ ∀ c ∈ t.toList, isControl c = false := by
  simp only [isIdentifier, shapeIdentifier?, text?, Option.isSome_filter, Option.any_some,
    Bool.and_eq_true, decide_eq_true_eq, List.all_eq_true, Bool.not_eq_true', and_assoc]

theorem contractShape_contract (record : PreparedRecord) : contractShape record.contract = true := by
  have hshape := closedShape_obj (t :=
    [("id", isOneOf ["kdna.retained-sections"], .str "kdna.retained-sections"),
      ("version", isOneOf ["0.1.0-candidate"], .str "0.1.0-candidate"),
      ("definition_digest", isDigest, .str record.definitionDigest)]) (by simp)
  refine hshape.trans ?_
  simp only [List.all_cons, List.all_nil, record.digestOk, Bool.and_true]
  decide

theorem statesShape_statesOf (code : String) : statesShape (statesOf code) = true := by
  rw [statesOf]
  split <;> decide

theorem diagnosticShape_diagnosticOf {code : String} (h : code ∈ hostCodes) :
    diagnosticShape (diagnosticOf code) = true := by
  have hall : hostCodes.all fun code => diagnosticShape (diagnosticOf code) := by decide
  exact List.all_eq_true.mp hall code h

theorem isOneOf_detailOf (code : String) : isOneOf details (.str (detailOf code)) = true := by
  rw [detailOf]
  split <;> decide

theorem receiptShape_receiptOf (id : String) : receiptShape (receiptOf id) =
    (isIdentifier (.str ("receipt:" ++ id)) && isIdentifier (.str id)) := by
  simp [receiptShape, closedShape, receiptOf, Ir.closedObject, Value.prop, isOneOf, text?, isNull]

/-- A request id has at most 256 characters, none of which is a control character. -/
theorem isIdentifier_of_identifier {t : String} (h : identifier t = true) :
    isIdentifier (.str t) = true := by
  simp only [identifier, scalarString, Bool.and_eq_true, Bool.not_eq_true', Bool.false_or,
    List.all_eq_true, decide_eq_true_eq, List.isEmpty_eq_false_iff] at h
  obtain ⟨hne, hcontrol, hlength⟩ := h
  have hchars : t.toList.length ≤ (Utf8.encode t).length := (length_encode_bounds t).1
  refine isIdentifier_iff.mpr ⟨List.length_pos_iff.mpr hne, ?_, hcontrol⟩
  exact le_trans hchars hlength

/-- With its prefix, a request id is an identifier when it has eight characters less. -/
theorem isIdentifier_receipt {id : String} (h : identifier id = true) :
    isIdentifier (.str ("receipt:" ++ id)) = true ↔ id.length ≤ 248 := by
  have hid := isIdentifier_iff.mp (isIdentifier_of_identifier h)
  have hlength : ("receipt:" ++ id).length = 8 + id.length := String.length_append ..
  rw [isIdentifier_iff, hlength]
  constructor
  · rintro ⟨-, hle, -⟩
    omega
  · intro hle
    refine ⟨by omega, by omega, fun c hc => ?_⟩
    rw [String.toList_append, List.mem_append] at hc
    rcases hc with hprefix | hrest
    · have hall : "receipt:".toList.all fun c => !isControl c := by decide
      simpa using List.all_eq_true.mp hall c hprefix
    · exact hid.2.2 c hrest

/-- A rejection has the shape of one exactly when its receipt id is an identifier. -/
theorem rejectedShape_rejection (record : PreparedRecord) {code : String} (h : code ∈ hostCodes)
    {required actual : String} (hrequired : Wide required) (hactual : Wide actual) :
    rejectedShape ((rejection record code).counted required actual).json = true ↔
      record.requestId.length ≤ 248 := by
  have hshape := closedShape_obj (t :=
    [("contract", contractShape, record.contract),
      ("request_id", isIdentifier, .str record.requestId),
      ("status", isOneOf ["rejected"], .str "rejected"),
      ("tuple", fun v => isCandidateTuple v || isNull v, .null), ("asset", isNull, .null),
      ("snapshot_id", isNull, .null), ("digests", isNull, .null), ("content", isNull, .null),
      ("states", statesShape, statesOf code),
      ("diagnostics",
        fun v => v.items?.any fun items => items.length = 1 && items.all diagnosticShape,
        .arr [diagnosticOf code]),
      ("omissions", fun v => v.items?.any List.isEmpty, .arr []),
      ("assessment", assessmentShape, assessment),
      ("receipt", receiptShape, receiptOf record.requestId),
      ("retained_detail", isOneOf details, .str (detailOf code)),
      ("budget", budgetShape, Budget.json ⟨record.budgetBytes, required, actual⟩)]) (by simp)
  have hassessment : assessmentShape assessment = true := by decide
  have hnull : isNull .null = true := rfl
  have hstatus : isOneOf ["rejected"] (.str "rejected") = true := by decide
  have hdiagnostics : ((Value.items? (.arr [diagnosticOf code])).any fun items =>
      items.length = 1 && items.all diagnosticShape) = true := by
    simp [Value.items?, diagnosticShape_diagnosticOf h]
  have homissions : (Value.items? (.arr [])).any List.isEmpty = true := rfl
  refine Iff.trans ?_ (isIdentifier_receipt record.requestIdOk)
  refine (Bool.eq_iff_iff.mp hshape).trans ?_
  simp only [List.all_cons, List.all_nil, contractShape_contract, statesShape_statesOf,
    isIdentifier_of_identifier record.requestIdOk, hassessment, hnull, hstatus, hdiagnostics,
    homissions, isOneOf_detailOf, receiptShape_receiptOf,
    budgetShape_json (b := ⟨record.budgetBytes, required, actual⟩) hrequired hactual, Bool.and_true,
    Bool.true_and, Bool.or_true]

end Shapes

section Sizes

/-- A text of `n` octets takes at most six for each of them, and the quotes. -/
theorem octets_str_le (t : String) : octets (.str t) ≤ 2 + 6 * (Utf8.encode t).length := by
  rw [octets_str, scalarBytes, stringify_str]
  exact length_encodeChars_quote_le t

theorem octets_num_le (x : Binary64) : octets (.num x) ≤ 26 := by
  rw [octets_num, scalarBytes, stringify_num]
  exact length_encodeChars_numberText_le x

/-- An object is as large as its members let it be. -/
theorem octets_obj_le {props : List (String × Json)} {b : ℕ}
    (h : ∀ p ∈ props, scalarBytes (.str p.1) + octets p.2 ≤ b) :
    octets (.obj props) ≤ 2 + props.length * (b + 2) := by
  have hsum : (props.map fun p => scalarBytes (.str p.1) + 1 + octets p.2).sum ≤
      props.length * (b + 1) := by
    induction props with
    | nil => exact Nat.zero_le _
    | cons p props ih =>
      obtain ⟨hp, hprops⟩ := List.forall_mem_cons.mp h
      have hrest := ih hprops
      rw [List.map_cons, List.sum_cons, List.length_cons, Nat.succ_mul]
      omega
  rw [octets_obj]
  have hmul : props.length * (b + 2) = props.length * (b + 1) + props.length :=
    Nat.mul_succ _ _
  omega

variable (record : PreparedRecord)

theorem length_encode_identifier {t : String} (h : identifier t = true) :
    (Utf8.encode t).length ≤ 256 := by
  simp only [identifier, scalarString, Bool.and_eq_true, decide_eq_true_eq] at h
  exact h.2.2

theorem length_encode_receipt {id : String} (h : identifier id = true) :
    (Utf8.encode ("receipt:" ++ id)).length ≤ 264 := by
  have hprefix : (Utf8.encodeChars "receipt:".toList).length = 8 := by decide
  have hid := length_encode_identifier h
  rw [Utf8.encode] at hid
  rw [Utf8.encode, String.toList_append, Utf8.encodeChars_append, List.length_append, hprefix]
  omega

theorem length_encode_digest : (Utf8.encode record.definitionDigest).length ≤ 284 := by
  have hlength : record.definitionDigest.length = 71 := by
    have h := record.digestOk
    simp only [isDigest, text?, Option.any_some, Bool.and_eq_true, decide_eq_true_eq] at h
    exact h.1.2
  have hbytes := (length_encode_bounds record.definitionDigest).2
  omega

theorem octets_identifier {t : String} (h : identifier t = true) : octets (.str t) ≤ 2000 :=
  (octets_str_le t).trans (by have := length_encode_identifier h; omega)

theorem octets_contract : octets record.contract ≤ 20000 := by
  have hdigest : octets (.str record.definitionDigest) ≤ 2000 :=
    (octets_str_le _).trans (by have := length_encode_digest record; omega)
  have hid : scalarBytes (.str "id") + octets (.str "kdna.retained-sections") ≤ 5000 := by decide
  have hversion : scalarBytes (.str "version") + octets (.str "0.1.0-candidate") ≤ 5000 := by
    decide
  have hname : scalarBytes (.str "definition_digest") ≤ 100 := by decide
  refine (octets_obj_le (b := 5000) ?_).trans (by simp)
  simp only [List.forall_mem_cons, List.not_mem_nil, false_imp_iff, implies_true, and_true]
  exact ⟨hid, hversion, by omega⟩


theorem octets_receiptOf {id : String} (h : identifier id = true) :
    octets (receiptOf id) ≤ 50000 := by
  have hid := octets_identifier h
  have hreceipt : octets (.str ("receipt:" ++ id)) ≤ 3000 :=
    (octets_str_le _).trans (by have := length_encode_receipt h; omega)
  have hkeys : ∀ key ∈ ["receipt_id", "request_id"], scalarBytes (.str key) ≤ 100 := by decide
  have hrest : ∀ p ∈ [("snapshot_id", Value.null), ("host_id", .null), ("host_epoch", .null),
      ("decision_id", .null), ("disclosed_at", .null), ("delivery", .str "not_delivered")],
      scalarBytes (.str p.1) + octets p.2 ≤ 5000 := by decide
  have hfirst := hkeys "receipt_id" (by decide)
  have hsecond := hkeys "request_id" (by decide)
  refine (octets_obj_le (b := 5000) ?_).trans (by simp)
  refine List.forall_mem_cons.mpr ⟨?_, List.forall_mem_cons.mpr ⟨?_, hrest⟩⟩
  · change scalarBytes (.str "receipt_id") + octets (.str ("receipt:" ++ id)) ≤ 5000
    omega
  · change scalarBytes (.str "request_id") + octets (.str id) ≤ 5000
    omega

theorem octets_budget (limit : UInt) :
    octets (Budget.json ⟨limit, unfilled, unfilled⟩) ≤ 5000 := by
  have hlimit : octets limit.json ≤ 26 := octets_num_le _
  have hrest : ∀ p ∈ [("required_bytes", Value.str unfilled), ("actual_bytes", .str unfilled)],
      scalarBytes (.str p.1) + octets p.2 ≤ 1000 := by decide
  have hkey : scalarBytes (.str "limit_bytes") ≤ 100 := by decide
  refine (octets_obj_le (b := 1000) ?_).trans (by simp)
  refine List.forall_mem_cons.mpr ⟨?_, hrest⟩
  change scalarBytes (.str "limit_bytes") + octets limit.json ≤ 1000
  omega

theorem octets_statesOf (code : String) : octets (statesOf code) ≤ 1000 := by
  rw [octets_eq_weigh, statesOf]
  split <;> decide

theorem octets_diagnosticOf {code : String} (h : code ∈ hostCodes) :
    octets (.arr [diagnosticOf code]) ≤ 1000 := by
  have hall : ∀ code ∈ hostCodes, Value.weigh (.arr [diagnosticOf code]) ≤ 1000 := by decide
  rw [octets_eq_weigh]
  exact hall code h

theorem octets_detailOf (code : String) : octets (.str (detailOf code)) ≤ 1000 := by
  rw [octets_eq_weigh, detailOf]
  split <;> decide

/-- A rejection is small. -/
theorem octets_rejection {code : String} (h : code ∈ hostCodes) :
    octets (rejection record code).json < 2 ^ 53 := by
  have hid := octets_identifier record.requestIdOk
  have hcontract := octets_contract record
  have hreceipt := octets_receiptOf record.requestIdOk
  have hbudget := octets_budget record.budgetBytes
  have hstates := octets_statesOf code
  have hdiagnostics := octets_diagnosticOf h
  have hdetail := octets_detailOf code
  have hkeys : ∀ key ∈ ["contract", "request_id", "states", "diagnostics", "receipt",
      "retained_detail", "budget"], scalarBytes (.str key) ≤ 100 := by
    simp only [← Value.weigh_str]
    decide
  have hconst : ∀ p ∈ [("status", Value.str "rejected"), ("tuple", .null), ("asset", .null),
      ("snapshot_id", .null), ("digests", .null), ("content", .null), ("omissions", .arr []),
      ("assessment", assessment)], scalarBytes (.str p.1) + octets p.2 ≤ 60000 := by
    simp only [octets_eq_weigh, ← Value.weigh_str]
    decide
  refine lt_of_le_of_lt (octets_obj_le (b := 60000) ?_) (b := 2 + 15 * 60002) (by decide)
  simp only [List.forall_mem_cons, List.not_mem_nil, false_imp_iff, implies_true, and_true]
    at hkeys hconst
  obtain ⟨k₁, k₂, k₃, k₄, k₅, k₆, k₇⟩ := hkeys
  obtain ⟨c₁, c₂, c₃, c₄, c₅, c₆, c₇, c₈⟩ := hconst
  simp only [rejection, List.cons_append, List.nil_append, List.forall_mem_cons, List.not_mem_nil,
    false_imp_iff, implies_true, and_true]
  refine ⟨?_, ?_, c₁, c₂, c₃, c₄, c₅, c₆, ?_, ?_, c₇, c₈, ?_, ?_, ?_⟩ <;> omega

theorem within_str {t : String} (h : (Utf8.encode t).length ≤ maxStringBytes) (levels : ℕ) :
    within (levels + 1) (.str t) = true := decide_eq_true h

theorem within_obj (levels : ℕ) (props : List (String × Json)) :
    within (levels + 1) (.obj props) = props.all fun p => within levels p.2 := rfl

/-- A rejection is within the bounds of the copy. -/
theorem within_rejection {code : String} (h : code ∈ hostCodes) :
    within (maxDepth + 1) (rejection record code).json = true := by
  have hidBytes := length_encode_identifier record.requestIdOk
  have hid := within_str (le_trans hidBytes (by decide))
  have hreceiptId : within 63 (.str ("receipt:" ++ record.requestId)) = true :=
    within_str (le_trans (length_encode_receipt record.requestIdOk) (by decide)) 62
  have hdigest : within 63 (.str record.definitionDigest) = true :=
    within_str (le_trans (length_encode_digest record) (by decide)) 62
  have hstates : within 64 (statesOf code) = true := by
    rw [statesOf]
    split <;> decide
  have hdiagnostics : within 64 (.arr [diagnosticOf code]) = true := by
    have hall : hostCodes.all fun code => within 64 (.arr [diagnosticOf code]) := by decide
    exact List.all_eq_true.mp hall code h
  have hassessment : within 64 assessment = true := by decide
  have hdetail : within 64 (.str (detailOf code)) = true := by
    rw [detailOf]
    split <;> decide
  have hcontract : within 64 record.contract = true := by
    have hid : within 63 (.str "kdna.retained-sections") = true := by decide
    have hversion : within 63 (.str "0.1.0-candidate") = true := by decide
    simp only [PreparedRecord.contract, within_obj, List.all_cons, List.all_nil, hid, hversion, hdigest,
      Bool.and_true]
  have hreceipt : within 64 (receiptOf record.requestId) = true := by
    have hnull : within 63 .null = true := rfl
    have hdelivery : within 63 (.str "not_delivered") = true := by decide
    simp only [receiptOf, within_obj, List.all_cons, List.all_nil, hreceiptId, hid 62, hnull,
      hdelivery, Bool.and_true]
  have hbudget : within 64 (Budget.json ⟨record.budgetBytes, unfilled, unfilled⟩) = true := by
    have hlimit : within 63 record.budgetBytes.json = true := rfl
    have hunfilled : within 63 (.str unfilled) = true := by decide
    simp only [Budget.json, within_obj, List.all_cons, List.all_nil, hlimit, hunfilled,
      Bool.and_true]
  have hnull : within 64 .null = true := rfl
  have hnone : within 64 (.arr []) = true := rfl
  have hstatus : within 64 (.str "rejected") = true := by decide
  have hlevels : maxDepth + 1 = 64 + 1 := rfl
  rw [hlevels, Draft.json, within_obj]
  simp only [rejection, List.cons_append, List.nil_append, List.all_cons, List.all_nil, hcontract,
    hid 63, hstatus, hnull, hstates, hdiagnostics, hnone, hassessment, hreceipt, hdetail, hbudget,
    Bool.and_true]

/-- A rejection is measured. -/
theorem measure_rejection {code : String} (h : code ∈ hostCodes) :
    ∃ actual, Wide actual ∧ measureInternalResponse (rejection record code) =
      some ((rejection record code).counted actual actual, octets (rejection record code).json) := by
  have hoctets := octets_rejection record h
  obtain ⟨actual, hactual⟩ := fixed_isSome hoctets
  refine ⟨actual, wide_of_fixed hactual, ?_⟩
  have hsize : sizeInternalResponse (rejection record code).json =
      some (octets (rejection record code).json) := by
    rw [sizeInternalResponse, guard, if_pos ⟨within_rejection record h, hoctets⟩]
    rfl
  change (sizeInternalResponse (rejection record code).json >>= fun count => _) = _
  rw [hsize, Option.bind_eq_bind, Option.bind_some, hactual]
  rfl

/-- The decision on a rejection. -/
theorem decideBudget_rejection (counted : Read.Record) {count : ℕ} (hcount : count < 2 ^ 53)
    (code : String) : ∃ size, Wide size ∧ decideBudget counted none count (some code) =
      some (if count ≤ counted.budgetBytes.1 then .rejected size size code else .control code) := by
  obtain ⟨size, hsize⟩ := fixed_isSome hcount
  have hguard : count < 2 ^ 53 ∧ ∀ n ∈ (none : Option ℕ), n < 2 ^ 53 :=
    ⟨hcount, fun _ hn => nomatch hn⟩
  refine ⟨size, wide_of_fixed hsize, ?_⟩
  simp only [decideBudget, guard, if_pos hguard, Option.bind_eq_bind, Option.pure_def,
    Option.bind_some, Option.getD_some, requiredOf, Option.isNone_some, Bool.false_eq_true, if_false,
    hsize]
  split <;> rfl

/-- A rejection throws exactly when it fits the budget and its receipt id is too long. -/
theorem fail_eq_none_iff {code : String} (h : code ∈ hostCodes) :
    fail record code = none ↔ octets (rejection record code).json ≤ record.budgetBytes.1 ∧
      248 < record.requestId.length := by
  have hcount := octets_rejection record h
  obtain ⟨actual, hwide, hmeasure⟩ := measure_rejection record h
  rw [fail, hmeasure, Option.bind_eq_bind, Option.bind_some]
  generalize octets (rejection record code).json = count at hcount
  obtain ⟨size, hsize, hdecide⟩ := decideBudget_rejection record.counted hcount code
  have hshape := rejectedShape_rejection record h hsize hsize
  have hbody : ((rejection record code).counted actual actual).counted size size =
      (rejection record code).counted size size := rfl
  dsimp only
  rw [hdecide, Option.bind_eq_bind, Option.bind_some, PreparedRecord.counted]
  by_cases hfits : count ≤ record.budgetBytes.1
  · rw [if_pos hfits, and_iff_right hfits]
    simp only [rejected, Decision.finished, hbody]
    split
    · next hok => simpa using hshape.mp hok
    · next hbad => simpa using fun hle => hbad (hshape.mpr hle)
  · rw [if_neg hfits]
    simp only [rejected, Decision.finished, hfits, false_and, reduceCtorEq]

end Sizes

end Kdna.Retained

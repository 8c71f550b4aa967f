import Kdna.Data.ShortestDigits
import Kdna.Json.Access
import Kdna.Read.Project
import Kdna.Read.Size

/-!
# The budget of an answer

`budget.js` and `budget-decision.js`. An answer counts its own octets, with its budget in it:
the counts have a fixed width, so that filling them in leaves the size as it is, but the
limit is a number as it is printed.
-/

namespace Kdna.Read

open Value

/-- A count of the contract: a safe integer that is not negative. -/
abbrev UInt := { n : ℕ // n < 2 ^ 53 }

/-- A count as a value. -/
def UInt.json (n : UInt) : Json := .num (.natural n.1 n.2.le)

/-- `fixed(n)` -/
def fixed (n : ℕ) : Option String := do
  guard (n < 2 ^ 53 ∧ n ≤ 9999999999999999)
  let digits := Nat.toDigits 10 n
  return String.ofList (List.replicate (16 - digits.length) '0' ++ digits)

/-- A count that is not known yet. -/
def unfilled : String := "0000000000000000"

/-- `envelope.budget` -/
structure Budget where
  limitBytes : UInt
  requiredBytes : String
  actualBytes : String

/-- A budget as a value. -/
def Budget.json (b : Budget) : Json :=
  .obj [("limit_bytes", b.limitBytes.json), ("required_bytes", .str b.requiredBytes),
    ("actual_bytes", .str b.actualBytes)]

/-- An envelope in the making: its budget is written after its other members. -/
structure Draft where
  members : List (String × Json)
  budget : Budget

namespace Draft

/-- The envelope as a value. -/
def json (e : Draft) : Json := .obj (e.members ++ [("budget", e.budget.json)])

/-- `envelope[name]` of a member other than the budget. -/
def member (e : Draft) (name : String) : Option Json := Value.prop (.obj e.members) name

/-- `envelope.status === 'ready'` -/
def ready (e : Draft) : Bool := (e.member "status").any (isText · "ready")

/-- `envelope.diagnostics.find(x => x.severity === 'error')?.code ?? null`; `none` where there
are no diagnostics to search. -/
def errorCode (e : Draft) : Option (Option String) := do
  let diagnostics ← (← e.member "diagnostics").items?
  return (diagnostics.find? fun x => x.propIs "severity" "error").bind fun x =>
    (x.prop "code").bind text?

/-- `{...envelope.states}` -/
def states (e : Draft) : Json := (e.member "states").getD (.obj [])

end Draft

/-- What the budget reads of an admitted request. -/
structure Record where
  requestId : String
  budgetBytes : UInt

/-- `/a|b|c/.test(code)` -/
def mentions (parts : List String) (code : String) : Bool :=
  parts.any fun part => code.toList.tails.any fun rest => part.toList.isPrefixOf rest

/-- `diagnostic(code).stage` -/
def stageOf (code : String) : String :=
  if ["READ_INPUT_INVALID", "READ_SNAPSHOT_UNATTESTED",
      "READ_CORE_CAPABILITY_UNAVAILABLE"].contains code then "input"
  else if mentions ["UNSUPPORTED_VERSION", "MIXED_VERSION"] code then "version"
  else if mentions ["CORE_INVALID", "INTERPRETATION", "STATIC_POLICY", "COMPONENT_",
      "METHOD_PRESENCE", "R2_", "UNSUPPORTED_CRITICAL"] code then "core"
  else if mentions ["ASSET_MISMATCH", "ASSET_VERSION_MISMATCH", "SELECTION_"] code &&
      !startsWith code "READ_HANDLE" then "selection"
  else if mentions ["HANDLE_UNTRUSTED", "HANDLE_VERSION_MISMATCH", "HANDLE_STALE",
      "HANDLE_ASSET_MISMATCH", "HANDLE_SCOPE_MISMATCH"] code then "handle"
  else if ["READ_PROJECTION_INVALID", "READ_UNRESOLVED_EXTERNAL"].contains code then "projection"
  else if code = "READ_BUDGET_INSUFFICIENT" then "budget"
  else "host"

/-- `diagnostic(code)` -/
def diagnostic (code : String) : Json :=
  .obj [("code", .str code), ("stage", .str (stageOf code)), ("severity", .str "error"),
    ("subject", .null), ("field", .null)]

/-- `assessment()` -/
def assessment : Json :=
  .obj [("state", .str "not_evaluated"), ("kind", .null), ("assessor_id", .null),
    ("evidence_ref", .null)]

/-- `rejectedEnvelope(record, code, observed)` -/
def rejectedEnvelope (record : Record) (code : String) (observed : Json) : Draft where
  members :=
    [("contract", .str readVersion), ("request_id", .str record.requestId),
      ("status", .str "rejected"), ("tuple", .null), ("asset", .null), ("snapshot_id", .null),
      ("digests", .null), ("content", .null), ("states", observed),
      ("diagnostics", .arr [diagnostic code]), ("omissions", .arr []), ("assessment", assessment),
      ("receipt", .obj [("receipt_id", .str ("receipt:" ++ record.requestId)),
        ("request_id", .str record.requestId), ("snapshot_id", .null), ("host_id", .null),
        ("host_epoch", .null), ("decision_id", .null), ("disclosed_at", .null),
        ("delivery", .str "not_delivered")])]
  budget := ⟨record.budgetBytes, unfilled, unfilled⟩

/-- `required === null ? '0000000000000000' : fixed(required)` -/
def fill (required : Option ℕ) : Option String := required.elim (some unfilled) fixed

/-- `measure(envelope, required)`: the envelope with its counts, and its size. -/
def measure (e : Draft) (required : Option ℕ) : Option (Draft × ℕ) := do
  let filled ← fill required
  let count ← size { e with budget := ⟨e.budget.limitBytes, filled, unfilled⟩ }.json
  let actual ← fixed count
  let total := if required.isNone then actual else filled
  return ({ e with budget := ⟨e.budget.limitBytes, total, actual⟩ }, count)

/-- What `decideBudget` returns. -/
inductive Decision
  | ready (required actual : String)
  | rejected (required actual code : String)
  | control (code : String)

/-- `semanticCode === null ? successBytes : rejectionBytes` -/
def requiredOf (semantic : Option String) (success : Option ℕ) (rejection : ℕ) : Option ℕ :=
  if semantic.isNone then success else some rejection

/-- `decideBudget(record, successBytes, rejectionBytes, semanticCode)` -/
def decideBudget (record : Record) (success : Option ℕ) (rejection : ℕ) (semantic : Option String) :
    Option Decision := do
  guard (rejection < 2 ^ 53 ∧ ∀ n ∈ success, n < 2 ^ 53)
  match semantic, success.filter (· ≤ record.budgetBytes.1) with
  | none, some n => do
    let size ← fixed n
    return .ready size size
  | _, _ =>
    let code := semantic.getD "READ_BUDGET_INSUFFICIENT"
    if rejection ≤ record.budgetBytes.1 then do
      let required ← requiredOf semantic success rejection
      let required ← fixed required
      let actual ← fixed rejection
      return .rejected required actual code
    else return .control code

/-- What `finish` returns: an envelope, or a control result without a body. -/
inductive Finished
  | envelope (e : Draft)
  | control (semanticCause : String) (requestId : Option String)

/-- `correlation(id).request_id` -/
def correlation (id : String) : Option String := if identifier id then some id else none

/-- The envelope that `finish` answers with when it does not answer with the body. -/
def rejectionOf (e : Draft) (count : ℕ) (record : Record) : Option (Draft × ℕ) :=
  if e.ready then
    measure (rejectedEnvelope record "READ_BUDGET_INSUFFICIENT" e.states) (some count)
  else some (e, count)

/-- The envelope with the counts of a decision. -/
def Draft.counted (e : Draft) (required actual : String) : Draft :=
  { e with budget := ⟨e.budget.limitBytes, required, actual⟩ }

/-- What a decision makes of the measured envelopes. -/
def Decision.finished (e rejection : Draft) (requestId : String) : Decision → Finished
  | .ready required actual => .envelope (e.counted required actual)
  | .rejected required actual _ => .envelope (rejection.counted required actual)
  | .control code => .control code (correlation requestId)

/-- `finish(envelope, record)` -/
def finish (e : Draft) (record : Record) : Option Finished := do
  let (e, count) ← measure e none
  let code ← e.errorCode
  let (rejection, rejectionBytes) ← rejectionOf e count record
  let decision ← decideBudget record (if e.ready then some count else none) rejectionBytes code
  return decision.finished e rejection record.requestId

section Fixed

theorem fixed_isSome {n : ℕ} (h : n < 2 ^ 53) : ∃ t, fixed n = some t := by
  have hle : n ≤ 9999999999999999 := by omega
  simp only [fixed, Option.bind_eq_bind, guard, if_pos (And.intro h hle)]
  exact ⟨_, rfl⟩

theorem fixed_eq_some {n : ℕ} {t : String} (h : fixed n = some t) :
    n ≤ 9999999999999999 ∧ t.toList =
      List.replicate (16 - (Nat.toDigits 10 n).length) '0' ++ Nat.toDigits 10 n := by
  simp only [fixed, Option.bind_eq_bind, Option.bind_eq_some_iff, Option.guard_eq_some',
    Option.pure_def, Option.some.injEq, exists_const] at h
  obtain ⟨⟨-, hle⟩, rfl⟩ := h
  exact ⟨hle, String.toList_ofList⟩

/-- Texts of sixteen digits, whose size does not depend on the digits. -/
def Wide (t : String) : Prop := t.toList.length = 16 ∧ ∀ c ∈ t.toList, c.isDigit = true

theorem wide_unfilled : Wide unfilled := by
  have hzeros : unfilled.toList = List.replicate 16 '0' := by decide
  refine ⟨by rw [hzeros, List.length_replicate], fun c hc => ?_⟩
  rw [hzeros] at hc
  rw [List.eq_of_mem_replicate hc]
  decide

theorem wide_of_fixed {n : ℕ} {t : String} (h : fixed n = some t) : Wide t := by
  obtain ⟨hle, ht⟩ := fixed_eq_some h
  have hlength : (Nat.toDigits 10 n).length ≤ 16 := Binary64.length_toDigits_le (by omega) (by decide)
  rw [Wide, ht, List.length_append, List.length_replicate]
  refine ⟨by omega, fun c hc => ?_⟩
  rcases List.mem_append.mp hc with hzero | hdigit
  · rw [List.eq_of_mem_replicate hzero]
    rfl
  · exact Nat.isDigit_of_mem_toDigits (by omega) (by omega) hdigit

theorem quoteChar_digit {c : Char} (h : c.isDigit = true) : quoteChar c = [c] := by
  simp only [Char.isDigit, Bool.and_eq_true, decide_eq_true_eq] at h
  have hlo : 48 ≤ c.toNat := UInt32.le_iff_toNat_le.mp h.1
  have hhi : c.toNat ≤ 57 := UInt32.le_iff_toNat_le.mp h.2
  have hne (d : Char) (hd : d.toNat < 48 ∨ 57 < d.toNat) : c ≠ d := by
    rintro rfl
    omega
  rw [quoteChar, if_neg (hne _ (by decide)), if_neg (hne _ (by decide)), if_neg (hne _ (by decide)),
    if_neg (hne _ (by decide)), if_neg (hne _ (by decide)), if_neg (hne _ (by decide)),
    if_neg (hne _ (by decide)), if_neg (by omega)]

/-- A text of sixteen digits has eighteen octets with its quotes. -/
theorem Wide.scalarBytes {t : String} (h : Wide t) : scalarBytes (.str t) = 18 := by
  have hquote : quote t = '"' :: (t.toList ++ ['"']) := by
    have hchars : t.toList.flatMap quoteChar = t.toList.flatMap fun c => [c] :=
      List.flatMap_congr fun c hc => quoteChar_digit (h.2 c hc)
    rw [quote, hchars, List.flatMap_singleton']
  rw [Kdna.scalarBytes, stringify_str, hquote, length_encodeChars_of_ascii]
  · simp [h.1]
  · intro c hc
    rcases List.mem_cons.mp hc with rfl | hc
    · decide
    · rcases List.mem_append.mp hc with hdigit | hend
      · have hhi := h.2 c hdigit
        simp only [Char.isDigit, Bool.and_eq_true, decide_eq_true_eq] at hhi
        exact Nat.lt_of_le_of_lt (UInt32.le_iff_toNat_le.mp hhi.2) (by decide)
      · rw [List.mem_singleton.mp hend]
        decide

theorem fixed_inj {m n : ℕ} {t : String} (hm : fixed m = some t) (hn : fixed n = some t) : m = n := by
  have hvalue (k : ℕ) (hk : fixed k = some t) : decimalValue t.toList = k := by
    obtain ⟨-, ht⟩ := fixed_eq_some hk
    rw [ht, decimalValue_append, decimalValue_replicate, Nat.zero_mul, Nat.zero_add,
      decimalValue_toDigits]
  exact (hvalue m hm).symm.trans (hvalue n hn)

end Fixed

section Sizes

/-- The decimal digits of a count. -/
def digits (n : ℕ) : ℕ := (Nat.toDigits 10 n).length

/-- What an envelope weighs besides the number that is its limit. -/
def Draft.rest (members : List (String × Json)) : ℕ :=
  (members.map fun p => Kdna.scalarBytes (.str p.1) + 1 + octets p.2).sum + members.length + 97

theorem Draft.rest_eq_weigh (members : List (String × Json)) : Draft.rest members =
    (members.map fun p => Value.weigh (.str p.1) + 1 + p.2.weigh).sum + members.length + 97 := by
  simp only [Draft.rest, octets_eq_weigh, Value.weigh_str]

theorem octets_limit (n : UInt) : octets n.json = digits n := by
  rw [UInt.json, octets_num, Kdna.scalarBytes, stringify_num, Binary64.numberText_natural n.2,
    length_encodeChars_of_ascii (Binary64.ascii_toDigits _), digits]

/-- The size of an envelope does not depend on the counts in its budget, and on its limit
through the number of its digits only. -/
theorem Draft.octets_json {e : Draft} (hrequired : Wide e.budget.requiredBytes)
    (hactual : Wide e.budget.actualBytes) :
    octets e.json = Draft.rest e.members + digits e.budget.limitBytes := by
  have hkeys : Kdna.scalarBytes (.str "limit_bytes") = 13 ∧
      Kdna.scalarBytes (.str "required_bytes") = 16 ∧
      Kdna.scalarBytes (.str "actual_bytes") = 14 ∧ Kdna.scalarBytes (.str "budget") = 8 := by decide
  obtain ⟨hlimit, hreq, hact, hbudget⟩ := hkeys
  have hinner : octets e.budget.json = 86 + digits e.budget.limitBytes := by
    rw [Budget.json, octets_obj]
    simp only [List.map_cons, List.map_nil, List.sum_cons, List.sum_nil, List.length_cons,
      List.length_nil, octets_str, octets_limit, hlimit, hreq, hact, hrequired.scalarBytes,
      hactual.scalarBytes]
    omega
  rw [Draft.json, octets_obj, List.map_append, List.sum_append, List.length_append]
  simp only [List.map_cons, List.map_nil, List.sum_cons, List.sum_nil, List.length_cons,
    List.length_nil, hbudget, hinner, Draft.rest]
  omega

/-- Whether an envelope is within the bounds does not depend on its budget. -/
theorem Draft.bounded_iff {e : Draft} (hrequired : Wide e.budget.requiredBytes)
    (hactual : Wide e.budget.actualBytes) :
    Bounded (maxDepth + 1) e.json ↔ ∀ p ∈ e.members, Bounded maxDepth p.2 := by
  have hshort {t : String} (h : Wide t) : (Utf8.encode t).length ≤ maxStringBytes := by
    have hascii : ∀ c ∈ t.toList, c.toNat < 128 := fun c hc => by
      have hdigit := h.2 c hc
      simp only [Char.isDigit, Bool.and_eq_true, decide_eq_true_eq] at hdigit
      exact Nat.lt_of_le_of_lt (UInt32.le_iff_toNat_le.mp hdigit.2) (by decide)
    rw [Utf8.encode, length_encodeChars_of_ascii hascii, h.1]
    decide
  have hbudget : Bounded maxDepth e.budget.json := by
    change ∀ p ∈ _, Bounded 63 (Prod.snd p)
    simp only [List.forall_mem_cons, List.not_mem_nil, false_imp_iff, implies_true, and_true]
    exact ⟨trivial, hshort hrequired, hshort hactual⟩
  change (∀ p ∈ e.members ++ [_], Bounded maxDepth (Prod.snd p)) ↔ _
  rw [List.forall_mem_append, List.forall_mem_singleton]
  exact and_iff_left hbudget

/-- The size of an envelope whose budget has the counts in their width. -/
theorem Draft.size_eq_some_iff {e : Draft} (hrequired : Wide e.budget.requiredBytes)
    (hactual : Wide e.budget.actualBytes) {n : ℕ} :
    size e.json = some n ↔ n = Draft.rest e.members + digits e.budget.limitBytes ∧ n ≤ maxBytes ∧
      ∀ p ∈ e.members, Bounded maxDepth p.2 := by
  rw [Read.size_eq_some_iff, octets_json hrequired hactual, bounded_iff hrequired hactual]

theorem uint_of_size {x : Json} {n : ℕ} (h : size x = some n) : n < 2 ^ 53 := by
  have hle := (Read.size_eq_some_iff.mp h).2.1
  have hmax : maxBytes < 2 ^ 53 := by decide
  omega

/-- What measuring an envelope gives: its size, which is the size behind it too. -/
theorem measure_spec {e f : Draft} {required : Option ℕ} {count : ℕ}
    (h : measure e required = some (f, count)) :
    f.members = e.members ∧ f.budget.limitBytes = e.budget.limitBytes ∧
      Wide f.budget.requiredBytes ∧ fixed count = some f.budget.actualBytes ∧
      fixed (required.getD count) = some f.budget.requiredBytes ∧ size f.json = some count := by
  simp only [measure, Option.bind_eq_bind, Option.bind_eq_some_iff, Option.pure_def,
    Option.some.injEq, Prod.mk.injEq] at h
  obtain ⟨filled, hfilled, count, hcount, actual, hactual, rfl, rfl⟩ := h
  have hwide := wide_of_fixed hactual
  have hfill : Wide filled := by
    cases required with
    | none => exact Option.some.inj hfilled ▸ wide_unfilled
    | some n => exact wide_of_fixed hfilled
  have hsize := (Draft.size_eq_some_iff (by exact hfill) (by exact wide_unfilled)).mp hcount
  have htotal : fixed (required.getD count) = some (if required.isNone then actual else filled) := by
    cases required with
    | none => exact hactual
    | some n => exact hfilled
  exact ⟨rfl, rfl, wide_of_fixed htotal, hactual, htotal,
    (Draft.size_eq_some_iff (wide_of_fixed htotal) hwide).mpr hsize⟩

end Sizes

section Finish

variable {record : Record} {success : Option ℕ} {rejection : ℕ} {semantic : Option String}
  {required actual code : String}

theorem decideBudget_ready (h : decideBudget record success rejection semantic =
    some (.ready required actual)) :
    semantic = none ∧ ∃ n, success = some n ∧ n ≤ record.budgetBytes.1 ∧
      fixed n = some required ∧ fixed n = some actual := by
  simp only [decideBudget, Option.bind_eq_bind, Option.bind_eq_some_iff] at h
  obtain ⟨-, -, h⟩ := h
  split at h
  case h_1 n hsuccess =>
    obtain ⟨hsome, hle⟩ := Option.filter_eq_some_iff.mp hsuccess
    simp only [Option.bind_eq_some_iff, Option.pure_def, Option.some.injEq,
      Decision.ready.injEq] at h
    obtain ⟨t, ht, rfl, rfl⟩ := h
    exact ⟨rfl, n, hsome, of_decide_eq_true hle, ht, ht⟩
  case h_2 =>
    split_ifs at h
    · simp [Option.bind_eq_some_iff] at h
    · simp at h

theorem decideBudget_rejected (h : decideBudget record success rejection semantic =
    some (.rejected required actual code)) :
    rejection ≤ record.budgetBytes.1 ∧ fixed rejection = some actual ∧
      ∃ n, fixed n = some required ∧
        (semantic = none → success = some n ∧ record.budgetBytes.1 < n) := by
  simp only [decideBudget, Option.bind_eq_bind, Option.bind_eq_some_iff] at h
  obtain ⟨-, -, h⟩ := h
  split at h
  case h_1 => simp [Option.bind_eq_some_iff] at h
  case h_2 hno =>
    split_ifs at h with hle
    · simp only [Option.bind_eq_some_iff, Option.pure_def, Option.some.injEq,
        Decision.rejected.injEq] at h
      obtain ⟨n, hn, t, ht, u, hu, rfl, rfl, -⟩ := h
      refine ⟨hle, hu, n, ht, fun hsemantic => ?_⟩
      rw [hsemantic] at hn
      refine ⟨hn, ?_⟩
      by_contra hfits
      exact hno n hsemantic (Option.filter_eq_some_iff.mpr ⟨hn, decide_eq_true (by omega)⟩)
    · simp at h

/-- The envelope that stands for a body when the body does not fit. -/
theorem rejectedEnvelope_ready (record : Record) (code : String) (observed : Json) :
    (rejectedEnvelope record code observed).ready = false := by
  simp [Draft.ready, Draft.member, rejectedEnvelope, isText, text?]

/-- An envelope with the size it says it has. -/
structure Measured (members : List (String × Json)) (limit : UInt) (count : ℕ) (f : Draft) :
    Prop where
  members : f.members = members
  limit : f.budget.limitBytes = limit
  actual : fixed count = some f.budget.actualBytes
  size : size f.json = some count

theorem Measured.count_eq {members : List (String × Json)} {limit : UInt} {count : ℕ} {f : Draft}
    (h : Measured members limit count f) (hrequired : Wide f.budget.requiredBytes) :
    count = Draft.rest members + digits limit := by
  obtain ⟨heq, -, -⟩ := (Draft.size_eq_some_iff hrequired (wide_of_fixed h.actual)).mp h.size
  rwa [h.members, h.limit] at heq

theorem measure_measured {e f : Draft} {required : Option ℕ} {count : ℕ}
    (h : measure e required = some (f, count)) :
    Measured e.members e.budget.limitBytes count f ∧ Wide f.budget.requiredBytes := by
  obtain ⟨hmembers, hlimit, hwide, hactual, -, hsize⟩ := measure_spec h
  exact ⟨⟨hmembers, hlimit, hactual, hsize⟩, hwide⟩

/-- Other counts leave a measured envelope measured. -/
theorem Measured.recount {members : List (String × Json)} {limit : UInt} {count n : ℕ} {f : Draft}
    (h : Measured members limit count f) (hrequired : Wide f.budget.requiredBytes)
    {required actual : String} (hn : fixed n = some required) (hactual : fixed count = some actual) :
    Measured members limit count (f.counted required actual) := by
  have hsize := (Draft.size_eq_some_iff hrequired (wide_of_fixed h.actual)).mp h.size
  exact ⟨h.members, h.limit, hactual,
    (Draft.size_eq_some_iff (by exact wide_of_fixed hn) (by exact wide_of_fixed hactual)).mpr hsize⟩

/-- What `finish` does: the envelope as it is, or its rejection. -/
theorem finish_envelope {e f : Draft} (h : finish e record = some (.envelope f)) :
    (∃ count, e.ready = true ∧ e.errorCode = some none ∧ count ≤ record.budgetBytes.1 ∧
      Measured e.members e.budget.limitBytes count f ∧ fixed count = some f.budget.requiredBytes) ∨
    ∃ count required, count ≤ record.budgetBytes.1 ∧ fixed required = some f.budget.requiredBytes ∧
      Measured (if e.ready then
          (rejectedEnvelope record "READ_BUDGET_INSUFFICIENT" e.states).members else e.members)
        (if e.ready then record.budgetBytes else e.budget.limitBytes) count f ∧
      (e.ready = true → e.errorCode = some none →
        required = Draft.rest e.members + digits e.budget.limitBytes ∧
          record.budgetBytes.1 < required) := by
  simp only [finish, Option.bind_eq_bind, Option.bind_eq_some_iff, Prod.exists, Option.pure_def,
    Option.some.injEq] at h
  obtain ⟨m, count, hmeasure, semantic, hcode, rejection, bytes, hrejection, decision, hdecision, h⟩ := h
  obtain ⟨hm, hwide⟩ := measure_measured hmeasure
  have hstates : m.states = e.states := by rw [Draft.states, Draft.states, Draft.member,
    Draft.member, hm.members]
  have hready : m.ready = e.ready := by rw [Draft.ready, Draft.ready, Draft.member, Draft.member,
    hm.members]
  have herror : m.errorCode = e.errorCode := by
    rw [Draft.errorCode, Draft.errorCode, Draft.member, Draft.member, hm.members]
  rw [rejectionOf, hready, hstates] at hrejection
  rw [hready] at hdecision
  rw [herror] at hcode
  cases decision with
  | control code => cases h
  | ready required actual =>
    obtain rfl := Finished.envelope.inj h
    obtain ⟨rfl, n, hsuccess, hle, hrequired, hactual⟩ := decideBudget_ready hdecision
    have hpos : e.ready = true := by
      by_contra hnot
      rw [if_neg hnot] at hsuccess
      cases hsuccess
    rw [if_pos hpos] at hsuccess
    obtain rfl := Option.some.inj hsuccess
    exact .inl ⟨_, hpos, hcode, hle, hm.recount hwide hrequired hactual, hrequired⟩
  | rejected required actual code =>
    obtain rfl := Finished.envelope.inj h
    obtain ⟨hle, hactual, n, hrequired, hbody⟩ := decideBudget_rejected hdecision
    refine .inr ⟨bytes, n, hle, hrequired, ?_, fun hpos hnone => ?_⟩
    · by_cases hpos : e.ready = true
      · rw [if_pos hpos] at hrejection
        obtain ⟨hr, hrwide⟩ := measure_measured hrejection
        rw [if_pos hpos, if_pos hpos]
        exact hr.recount hrwide hrequired hactual
      · rw [if_neg hpos] at hrejection
        obtain ⟨rfl, rfl⟩ := Prod.mk.inj (Option.some.inj hrejection)
        rw [if_neg hpos, if_neg hpos]
        exact hm.recount hwide hrequired hactual
    · obtain ⟨hsuccess, hlt⟩ := hbody (Option.some.inj (hcode.symm.trans hnone))
      rw [if_pos hpos] at hsuccess
      obtain rfl := Option.some.inj hsuccess
      exact ⟨hm.count_eq hwide, hlt⟩

end Finish

section Repeated

/-- The read of one body at a limit. -/
def answer (e : Draft) (requestId : String) (limit : UInt) : Option Finished :=
  finish { e with budget := ⟨limit, unfilled, unfilled⟩ } ⟨requestId, limit⟩

/-- A result with a ready envelope. -/
def IsReady (result : Option Finished) : Prop := ∃ f, result = some (.envelope f) ∧ f.ready = true

variable {e f : Draft} {requestId : String} {limit : UInt}

/-- A ready answer fits its limit. -/
theorem fits_of_isReady (hready : e.ready = true) (h : IsReady (answer e requestId limit)) :
    Draft.rest e.members + digits limit ≤ limit := by
  obtain ⟨f, hf, hfready⟩ := h
  rcases finish_envelope hf with ⟨count, -, -, hle, hm, hrequired⟩ | ⟨count, required, -, -, hm, -⟩
  · exact (hm.count_eq (wide_of_fixed hrequired)).symm.trans_le hle
  · have hno : f.ready = false := by
      have hrejected := rejectedEnvelope_ready ⟨requestId, limit⟩ "READ_BUDGET_INSUFFICIENT" e.states
      rw [Draft.ready, Draft.member] at hrejected ⊢
      rw [hm.members, if_pos (by exact hready)]
      exact hrejected
    rw [hno] at hfready
    cases hfready

/-- Fewer digits never make room: at a limit below one that is too small the answer is too
large as well. -/
theorem not_fits_of_lt {rest n : ℕ} {smaller : ℕ} (hlimit : n < rest + digits n)
    (hlt : smaller < rest + digits n) : smaller < rest + digits smaller := by
  by_contra hfits
  have hdigits : digits smaller < digits n := by omega
  have hpos : 0 < digits smaller := Nat.length_toDigits_pos
  have hsmaller : smaller < 10 ^ digits smaller :=
    (Nat.length_toDigits_le_iff (by decide) hpos).mp (le_refl _)
  have hn : 10 ^ digits smaller ≤ n := by
    by_contra hlow
    exact absurd ((Nat.length_toDigits_le_iff (by decide) hpos).mpr (Nat.lt_of_not_le hlow))
      (Nat.not_le.mpr hdigits)
  obtain ⟨k, hk⟩ := Nat.exists_eq_add_of_lt hdigits
  have hgap : 10 ^ (digits smaller + k) ≤ n := by
    by_contra hlow
    have hle : digits n ≤ digits smaller + k :=
      (Nat.length_toDigits_le_iff (by decide) (by omega)).mpr (Nat.lt_of_not_le hlow)
    omega
  have hgrow : 10 ^ digits smaller * (k + 1) ≤ 10 ^ (digits smaller + k) := by
    rw [Nat.pow_add]
    exact Nat.mul_le_mul_left _ (Nat.lt_pow_self (by decide))
  have hten : 1 ≤ 10 ^ digits smaller := Nat.one_le_pow _ _ (by decide)
  nlinarith

/-- What an envelope needs to be measured at a limit. -/
def Measurable (members : List (String × Json)) (limit : UInt) : Prop :=
  Draft.rest members + digits limit ≤ maxBytes ∧ ∀ p ∈ members, Bounded maxDepth p.2

theorem measurable_of_measure {m : Draft} {required : Option ℕ} {count : ℕ}
    (h : measure e required = some (m, count)) : Measurable e.members e.budget.limitBytes := by
  obtain ⟨hm, hwide⟩ := measure_measured h
  obtain ⟨heq, hle, hbounded⟩ :=
    (Draft.size_eq_some_iff hwide (wide_of_fixed hm.actual)).mp hm.size
  rw [hm.members, hm.limit] at heq
  rw [hm.members] at hbounded
  exact ⟨heq ▸ hle, hbounded⟩

theorem measure_of_measurable (h : Measurable e.members e.budget.limitBytes) (required : Option ℕ)
    (hrequired : ∀ n ∈ required, n < 2 ^ 53) :
    ∃ m, measure e required = some (m, Draft.rest e.members + digits e.budget.limitBytes) := by
  obtain ⟨filled, hfilled⟩ : ∃ filled, fill required = some filled ∧ Wide filled := by
    cases required with
    | none => exact ⟨_, rfl, wide_unfilled⟩
    | some n =>
      obtain ⟨t, ht⟩ := fixed_isSome (hrequired n rfl)
      exact ⟨t, ht, wide_of_fixed ht⟩
  have hsize : size { e with budget := ⟨e.budget.limitBytes, filled, unfilled⟩ }.json =
      some (Draft.rest e.members + digits e.budget.limitBytes) :=
    (Draft.size_eq_some_iff (by exact hfilled.2) (by exact wide_unfilled)).mpr ⟨rfl, h.1, h.2⟩
  obtain ⟨actual, hactual⟩ := fixed_isSome (uint_of_size hsize)
  simp only [measure, hfilled.1, hsize, hactual, Option.bind_eq_bind, Option.bind_some,
    Option.pure_def, Option.some.injEq, Prod.mk.injEq, and_true]
  exact ⟨_, rfl⟩

/-- An answer has measured the body and its rejection. -/
theorem measurable_of_answer {result : Finished} (hready : e.ready = true)
    (h : answer e requestId limit = some result) :
    Measurable e.members limit ∧
      Measurable (rejectedEnvelope ⟨requestId, limit⟩ "READ_BUDGET_INSUFFICIENT" e.states).members
        limit := by
  simp only [answer, finish, Option.bind_eq_bind, Option.bind_eq_some_iff, Prod.exists] at h
  obtain ⟨m, count, hmeasure, -, -, rejection, bytes, hrejection, -⟩ := h
  have hm := (measure_measured hmeasure).1
  have hmready : m.ready = true := by
    rw [Draft.ready, Draft.member, hm.members]
    exact hready
  have hstates : m.states = e.states := by
    rw [Draft.states, Draft.member, hm.members]
    rfl
  rw [rejectionOf, if_pos hmready, hstates] at hrejection
  exact ⟨measurable_of_measure hmeasure, measurable_of_measure hrejection⟩

/-- What `finish` returns for an envelope that is measured. -/
theorem finish_of_measured {e m r : Draft} {record : Record} {count bytes : ℕ} {code : Option String}
    (hm : measure e none = some (m, count)) (hcode : m.errorCode = some code)
    (hr : rejectionOf m count record = some (r, bytes)) :
    finish e record = (decideBudget record (if m.ready then some count else none) bytes code).map
      (·.finished m r record.requestId) := by
  simp only [finish, hm, Option.bind_eq_bind, Option.bind_some, hcode, hr, Option.pure_def]
  exact Option.map_eq_bind.symm

theorem rejectionOf_ready {record : Record} {count : ℕ} (h : e.ready = true) :
    rejectionOf e count record =
      measure (rejectedEnvelope record "READ_BUDGET_INSUFFICIENT" e.states) (some count) :=
  if_pos h

theorem rejectedEnvelope_limitBytes (record : Record) (code : String) (states : Json) :
    (rejectedEnvelope record code states).budget.limitBytes = record.budgetBytes := rfl

/-- What `finish` has decided on, for a body and its rejection that are measured. -/
theorem answer_eq (hready : e.ready = true) (hcode : e.errorCode = some none)
    (hbody : Measurable e.members limit)
    (hrejection : Measurable
      (rejectedEnvelope ⟨requestId, limit⟩ "READ_BUDGET_INSUFFICIENT" e.states).members limit) :
    ∃ m r : Draft, m.ready = true ∧ r.ready = false ∧
      answer e requestId limit = (decideBudget ⟨requestId, limit⟩
        (some (Draft.rest e.members + digits limit))
        (Draft.rest (rejectedEnvelope ⟨requestId, limit⟩ "READ_BUDGET_INSUFFICIENT"
          e.states).members + digits limit) none).map (·.finished m r requestId) := by
  obtain ⟨m, hmeasure⟩ := measure_of_measurable
    (e := { e with budget := ⟨limit, unfilled, unfilled⟩ }) hbody none (fun _ h => nomatch h)
  generalize hcount : Draft.rest e.members + digits limit = count at *
  have hmax : maxBytes < 2 ^ 53 := by decide
  have hle : count ≤ maxBytes := hcount ▸ hbody.1
  have hm := (measure_measured hmeasure).1
  have hmready : m.ready = true := by
    rw [Draft.ready, Draft.member, hm.members]
    exact hready
  have hmcode : m.errorCode = some none := by
    rw [Draft.errorCode, Draft.member, hm.members]
    exact hcode
  have hstates : m.states = e.states := by
    rw [Draft.states, Draft.member, hm.members]
    rfl
  obtain ⟨r, hr⟩ := measure_of_measurable
    (e := rejectedEnvelope ⟨requestId, limit⟩ "READ_BUDGET_INSUFFICIENT" e.states)
    hrejection (some count) (fun n hn => Option.some.inj hn ▸ Nat.lt_of_le_of_lt hle hmax)
  have hrready : r.ready = false := by
    rw [Draft.ready, Draft.member, (measure_measured hr).1.members]
    exact rejectedEnvelope_ready _ _ _
  refine ⟨m, r, hmready, hrready, ?_⟩
  rw [rejectedEnvelope_limitBytes] at hr
  have hrejectionOf : rejectionOf m count ⟨requestId, limit⟩ = _ := rejectionOf_ready hmready
  rw [hstates, hr] at hrejectionOf
  rw [answer, finish_of_measured hmeasure hmcode hrejectionOf, if_pos hmready]

theorem decideBudget_guard {count bytes : ℕ} (hcount : count ≤ maxBytes) (hbytes : bytes ≤ maxBytes) :
    bytes < 2 ^ 53 ∧ ∀ n ∈ some count, n < 2 ^ 53 := by
  have hmax : maxBytes < 2 ^ 53 := by decide
  exact ⟨by omega, fun n hn => Option.some.inj hn ▸ by omega⟩

/-- A body that is measured and fits is answered with. -/
theorem isReady_of_fits (hready : e.ready = true) (hcode : e.errorCode = some none)
    (hbody : Measurable e.members limit)
    (hrejection : Measurable
      (rejectedEnvelope ⟨requestId, limit⟩ "READ_BUDGET_INSUFFICIENT" e.states).members limit)
    (hfits : Draft.rest e.members + digits limit ≤ limit) : IsReady (answer e requestId limit) := by
  obtain ⟨m, r, hmready, -, hanswer⟩ := answer_eq hready hcode hbody hrejection
  have hguard := decideBudget_guard hbody.1 hrejection.1
  obtain ⟨t, ht⟩ := fixed_isSome (Nat.lt_of_le_of_lt hfits limit.2)
  have hfilter : (some (Draft.rest e.members + digits limit)).filter
      (fun n => decide (n ≤ limit.1)) = some (Draft.rest e.members + digits limit) :=
    Option.filter_eq_some_iff.mpr ⟨rfl, decide_eq_true hfits⟩
  refine ⟨m.counted t t, ?_, hmready⟩
  simp only [hanswer, decideBudget, guard, if_pos hguard, hfilter, ht, Option.bind_eq_bind,
    Option.bind_some, Option.pure_def, Option.map_some, Decision.finished]

/-- A body that is measured and does not fit is rejected with the size it has, where the
rejection fits. -/
theorem answer_of_not_fits {rejection : Draft} {n : ℕ}
    (hr : rejectedEnvelope ⟨requestId, limit⟩ "READ_BUDGET_INSUFFICIENT" e.states = rejection)
    (hn : Draft.rest e.members + digits limit = n) (hready : e.ready = true)
    (hcode : e.errorCode = some none)
    (hbody : Measurable e.members limit)
    (hrejection : Measurable rejection.members limit)
    (hfits : limit.1 < n)
    (hsmall : Draft.rest rejection.members + digits limit ≤ limit) :
    ∃ f, answer e requestId limit = some (.envelope f) ∧ f.ready = false ∧
      fixed n = some f.budget.requiredBytes := by
  subst hn hr
  obtain ⟨m, r, -, hrready, hanswer⟩ := answer_eq hready hcode hbody hrejection
  have hguard := decideBudget_guard hbody.1 hrejection.1
  obtain ⟨t, ht⟩ := fixed_isSome (hguard.2 _ rfl)
  obtain ⟨u, hu⟩ := fixed_isSome hguard.1
  have hfilter : (some (Draft.rest e.members + digits limit)).filter
      (fun n => decide (n ≤ limit.1)) = none := by
    rw [Option.filter_some, if_neg (by simpa using hfits)]
  refine ⟨r.counted t u, ?_, hrready, ht⟩
  simp only [hanswer, decideBudget, guard, if_pos hguard, hfilter, if_pos hsmall, requiredOf,
    Option.isNone_none, if_true, ht, hu, Option.bind_eq_bind, Option.bind_some, Option.pure_def,
    Option.map_some, Decision.finished]

/-- An answer counts its own octets and is within its limit. The size that it requires instead
of a body that does not fit suffices exactly if it has as many digits as the limit had, and no
smaller limit does. -/
theorem answer_consistent (h : answer e requestId limit = some (.envelope f)) :
    (∃ n, size f.json = some n ∧ fixed n = some f.budget.actualBytes ∧ n ≤ limit.1 ∧
      f.budget.limitBytes = limit) ∧
    (e.ready = true → e.errorCode = some none → f.ready = false →
      ∃ n : UInt, fixed n.1 = some f.budget.requiredBytes ∧ limit.1 < n.1 ∧
        (IsReady (answer e requestId n) ↔ digits n = digits limit) ∧
        ∀ smaller : UInt, smaller.1 < n.1 → ¬ IsReady (answer e requestId smaller)) := by
  constructor
  · rcases finish_envelope h with ⟨n, -, -, hle, hm, -⟩ | ⟨n, -, hle, -, hm, -⟩
    · exact ⟨n, hm.size, hm.actual, hle, hm.limit⟩
    · refine ⟨n, hm.size, hm.actual, hle, hm.limit.trans ?_⟩
      split_ifs <;> rfl
  · intro hready hcode hrejected
    rcases finish_envelope h with ⟨n, -, -, -, hm, -⟩ | ⟨-, n, -, hrequired, -, hbody⟩
    · have hfready : f.ready = true := by
        rw [Draft.ready, Draft.member, hm.members]
        exact hready
      rw [hrejected] at hfready
      cases hfready
    · obtain ⟨hn, hlt⟩ := hbody hready hcode
      obtain ⟨hmeasured, hrejection⟩ := measurable_of_answer hready h
      have hn : n = Draft.rest e.members + digits limit := hn
      have hmax : maxBytes < 2 ^ 53 := by decide
      have hsafe : n < 2 ^ 53 := Nat.lt_of_le_of_lt (hn ▸ hmeasured.1) hmax
      have hlt : limit.1 < n := hlt
      refine ⟨⟨n, hsafe⟩, hrequired, hlt, ⟨fun hagain => ?_, fun hdigits => ?_⟩, ?_⟩
      · have hfits : Draft.rest e.members + digits n ≤ n := fits_of_isReady hready hagain
        have hmono : digits limit ≤ digits n :=
          (Nat.length_toDigits_le_iff (by decide) Nat.length_toDigits_pos).mpr (hlt.trans
            ((Nat.length_toDigits_le_iff (by decide) Nat.length_toDigits_pos).mp (le_refl _)))
        change digits n = digits limit
        omega
      · have hdigits : digits n = digits limit := hdigits
        refine isReady_of_fits hready hcode ?_ ?_ ?_
        · rw [Measurable, hdigits]
          exact hmeasured
        · rw [Measurable, hdigits]
          exact hrejection
        · change Draft.rest e.members + digits n ≤ n
          omega
      · intro smaller hsmaller hagain
        have hfits := fits_of_isReady hready hagain
        have hsmaller : smaller.1 < n := hsmaller
        exact absurd hfits (Nat.not_le.mpr
          (not_fits_of_lt (n := limit.1) (by omega) (by omega)))

end Repeated

section Sample

/-- The members of a ready answer to a catalog request. -/
def sampleBody : Draft where
  members :=
    [("contract", .str readVersion), ("request_id", .str "r"), ("status", .str "ready"),
      ("tuple", .obj [("container", .str "0.5.0"), ("core", .str coreVersion),
        ("host", .str "kdna.agent-host/0.3.1"), ("ir", .str irVersion),
        ("payload_profile", .str "kdna.payload.judgment"), ("payload_version", .str "0.5.1"),
        ("plan", .str "kdna.consumption-plan/0.3.1"), ("read", .str readVersion),
        ("runtime", .str "kdna.runtime-capsule/0.3.1"), ("trace", .str "kdna.judgment-trace/0.3.1")]),
      ("asset", .obj [("asset_id", .str "a"), ("asset_version", .str "1"),
        ("judgment_version", .str "1")]),
      ("snapshot_id", .str "s"), ("digests", .obj []),
      ("content", .obj [("declarations", .arr []),
        ("catalog", .arr [.obj [("judgment_id", .str "q"), ("focus", .str "f"),
          ("node_ref", .str "n")]]), ("selected", .null), ("closure", .arr []),
        ("references", .arr []), ("relationships", .arr []), ("missing", .arr []),
        ("provenance", .obj [("declarations", .arr []), ("confirmation", .str "not_evaluated"),
          ("verifier_id", .null), ("evidence_ref", .null)]),
        ("asset_capability", .str "asserted_answers"), ("asset_index", .arr []),
        ("expansion_handles", .arr [])]),
      ("states", .obj [("core", .str "valid"), ("interpretation", .str "complete"),
        ("writer", .str "not_evaluated"), ("confirmation", .str "not_evaluated"),
        ("read_permission", .str "allowed"), ("action_authorization", .str "not_evaluated")]),
      ("diagnostics", .arr []), ("omissions", .arr []), ("assessment", assessment),
      ("receipt", .obj [("receipt_id", .str "receipt:s:1"), ("request_id", .str "r"),
        ("snapshot_id", .str "s"), ("host_id", .str "h"), ("host_epoch", .str "e"),
        ("decision_id", .str "d"), ("disclosed_at", msZero), ("delivery", .str "delivered")])]
  budget := ⟨⟨0, by decide⟩, unfilled, unfilled⟩

/-- A limit that the catalog does not fit, and the size it then requires. -/
def sampleLimit : UInt := ⟨999, by decide⟩

@[inherit_doc sampleLimit]
def sampleRequired : UInt := ⟨1393, by decide⟩

/-- The rejection of the catalog. -/
def sampleRejection : Draft :=
  rejectedEnvelope ⟨"r", sampleLimit⟩ "READ_BUDGET_INSUFFICIENT" sampleBody.states

theorem sampleRejection_eq : rejectedEnvelope ⟨"r", sampleLimit⟩ "READ_BUDGET_INSUFFICIENT"
    sampleBody.states = sampleRejection := rfl

theorem rest_sample : Draft.rest sampleBody.members = 1390 ∧
    Draft.rest sampleRejection.members = 808 := by
  rw [Draft.rest_eq_weigh, Draft.rest_eq_weigh]
  decide +kernel

theorem bounded_sample : ∀ p ∈ sampleBody.members ++ sampleRejection.members,
    Bounded maxDepth p.2 := by
  have hquick : ∀ p ∈ sampleBody.members ++ sampleRejection.members,
      p.2.shallow maxDepth = true ∧ p.2.bulk ≤ maxStringBytes := by
    decide +kernel
  exact fun p hp => bounded_of_strict (Value.strict_of_shallow (hquick p hp).1 (hquick p hp).2)

theorem digits_sample : digits sampleLimit = 3 ∧ digits sampleRequired = 4 := by decide

theorem ready_sample : sampleBody.ready = true ∧ sampleBody.errorCode = some none := by
  constructor
  · simp [Draft.ready, Draft.member, sampleBody, isText, text?]
  · simp [Draft.errorCode, Draft.member, sampleBody, items?]

/-- The catalog is rejected at the limit. -/
theorem answer_sample : ∃ f, answer sampleBody "r" sampleLimit = some (.envelope f) ∧
    f.ready = false ∧ fixed sampleRequired = some f.budget.requiredBytes := by
  obtain ⟨hbody, hrejection⟩ := rest_sample
  obtain ⟨hbounded, hbounded'⟩ := List.forall_mem_append.mp bounded_sample
  have hlimit : sampleLimit.1 = 999 := rfl
  have hrequired : sampleRequired.1 = 1393 := rfl
  have hmax : 1393 ≤ maxBytes := by decide
  have hrest : Draft.rest sampleBody.members + digits sampleLimit = sampleRequired := by
    rw [hbody, digits_sample.1, hrequired]
  have hrest' : Draft.rest sampleRejection.members + digits sampleLimit = 811 := by
    rw [hrejection, digits_sample.1]
  obtain ⟨f, hf, hrejected, hcount⟩ := answer_of_not_fits sampleRejection_eq hrest
    ready_sample.1 ready_sample.2 ⟨by omega, hbounded⟩ ⟨by omega, hbounded'⟩ (by omega) (by omega)
  exact ⟨f, hf, hrejected, hcount⟩

/-- The catalog of 1393 octets does not fit 999; repeated with 1393 it has 1394 octets. -/
theorem answer_insufficient : ∃ (f : Draft) (n : UInt),
    answer sampleBody "r" sampleLimit = some (.envelope f) ∧ f.ready = false ∧
      fixed n = some f.budget.requiredBytes ∧ ¬ IsReady (answer sampleBody "r" n) := by
  obtain ⟨f, hf, hrejected, hrequired⟩ := answer_sample
  refine ⟨f, sampleRequired, hf, hrejected, hrequired, fun hagain => ?_⟩
  have hfits := fits_of_isReady ready_sample.1 hagain
  have hcount : sampleRequired.1 = 1393 := rfl
  rw [rest_sample.1, digits_sample.2] at hfits
  omega

theorem answer_consistent_sample : ∃ f, answer sampleBody "r" sampleLimit = some (.envelope f) ∧
    ∃ n, size f.json = some n ∧ n ≤ sampleLimit.1 := by
  obtain ⟨f, hf, -, -⟩ := answer_sample
  obtain ⟨n, hn, -, hle, -⟩ := (answer_consistent hf).1
  exact ⟨f, hf, n, hn, hle⟩

end Sample

end Kdna.Read

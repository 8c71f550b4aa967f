import Kdna.Source.Steps

/-!
# The observations of the Host

An observation that a route accepts allows the whole source of the original asset under the original
context and epoch before the original expiry, and what the shared checks of each route establish.
-/

namespace Kdna.Source

open EventLoop Value Read Execution

variable {k : Route} {config : Config} {id : ℕ} {c : Option Call} {v v' : Sight} {ε : Type}

section Readings

theorem member?_uint {v : Json} {name : String} {n : UInt} (h : member? v name uintOf? = some n) :
    member? v name uint? = some n.1 := by
  rw [member?, Option.bind_eq_some_iff] at h ⊢
  obtain ⟨w, hw, hn⟩ := h
  refine ⟨w, hw, ?_⟩
  rw [uintOf?, Option.bind_eq_some_iff] at hn
  obtain ⟨m, hm, hn⟩ := hn
  split at hn
  · rw [hm, ← Option.some.inj hn]
  · cases hn

theorem member?_identifier {v : Json} {name : String} {i : Identifier}
    (h : member? v name identifierOf? = some i) : v.prop name = some i.json := by
  rw [member?, Option.bind_eq_some_iff] at h
  obtain ⟨w, hw, hi⟩ := h
  cases w with
  | str t =>
    rw [identifierOf?] at hi
    split at hi
    · rw [hw, ← Option.some.inj hi]
      rfl
    · cases hi
  | _ => cases hi

end Readings

namespace Sections

/-- The members of an observation that has its shape. -/
theorem readObservation_spec {v : Json} {o : Observation} (h : readObservation v = some o) :
    v.prop "context_id" = some o.contextId.json ∧ v.prop "epoch" = some o.epoch.json ∧
      member? v "current_ms" uint? = some o.currentMs.1 ∧
      member? v "expires_at_ms" uint? = some o.expiresAtMs.1 := by
  simp only [readObservation, Option.bind_eq_bind, Option.bind_eq_some_iff, Option.pure_def,
    Option.some.injEq] at h
  obtain ⟨_, -, _, -, _, -, _, -, contextId, hcontext, epoch, hepoch, _, -, currentMs, hcurrent,
    expiresAtMs, hexpires, rfl⟩ := h
  exact ⟨member?_identifier hcontext, member?_identifier hepoch, member?_uint hcurrent,
    member?_uint hexpires⟩

/-- A later observation that passes allows the whole source, at a time that is not earlier than the
last one. -/
theorem allows_of_checkObservation {owner : Owner} {raw : Json} {o : Observation}
    (h : checkObservation config owner raw false = .ok o) :
    Allows .sections config owner raw o.currentMs.1 ∧ owner.lastMs ≤ o.currentMs.1 := by
  rw [checkObservation] at h
  obtain ⟨value, hvalue, h⟩ := bind_eq_ok_iff.mp h
  obtain ⟨⟨hscope, hasset⟩, h⟩ := require_bind_eq_ok_iff.mp h
  obtain ⟨⟨hallowed, hrevoked⟩, h⟩ := require_bind_eq_ok_iff.mp h
  obtain ⟨o', hread, h⟩ := bind_eq_ok_iff.mp h
  obtain ⟨hexpires, h⟩ := require_bind_eq_ok_iff.mp h
  obtain ⟨hagrees, h⟩ := require_bind_eq_ok_iff.mp h
  obtain rfl := Except.ok.inj h
  rw [orFail_eq_ok_iff] at hvalue hread
  obtain ⟨hcontext, hepoch, hcurrent, hexpiry⟩ := readObservation_spec hread
  have hagrees : o'.agrees owner = true := hagrees.resolve_left Bool.false_ne_true
  rw [Observation.agrees, Bool.and_eq_true, Bool.and_eq_true, Bool.and_eq_true, decide_eq_true_eq,
    Option.any_eq_true] at hagrees
  obtain ⟨⟨⟨hid, hsame⟩, hlast⟩, original, horiginal, hbefore⟩ := hagrees
  refine ⟨⟨value, original, toOption_eq_some_iff.mp hvalue, horiginal, hscope, hasset, hallowed,
    hrevoked, hcontext ▸ hid, hepoch ▸ hsame, hcurrent, of_decide_eq_true hbefore, _, hexpiry,
    hexpires⟩, hlast⟩

end Sections

namespace Ordinary

/-- An observation that passes allows the whole source, at a time that is not earlier than the last
one. -/
theorem allows_of_verifyObservation {owner : Owner} {value : Json} {currentMs : ℕ}
    (h : verifyObservation config owner value = .ok currentMs) :
    Allows .ordinary config owner value currentMs ∧ owner.lastMs ≤ currentMs := by
  rw [verifyObservation] at h
  obtain ⟨-, h⟩ := require_bind_eq_ok_iff.mp h
  obtain ⟨hscope, h⟩ := require_bind_eq_ok_iff.mp h
  obtain ⟨⟨hid, hsame⟩, h⟩ := require_bind_eq_ok_iff.mp h
  obtain ⟨hasset, h⟩ := require_bind_eq_ok_iff.mp h
  obtain ⟨⟨hallowed, hrevoked⟩, h⟩ := require_bind_eq_ok_iff.mp h
  obtain ⟨current, hcurrent, h⟩ := bind_eq_ok_iff.mp h
  obtain ⟨expires, hexpiry, h⟩ := bind_eq_ok_iff.mp h
  obtain ⟨hlast, h⟩ := require_bind_eq_ok_iff.mp h
  obtain ⟨hexpires, h⟩ := require_bind_eq_ok_iff.mp h
  obtain ⟨hbefore, h⟩ := require_bind_eq_ok_iff.mp h
  obtain rfl := Except.ok.inj h
  rw [orFail_eq_ok_iff] at hcurrent hexpiry
  obtain ⟨original, horiginal, hbefore⟩ := (Option.any_eq_true _ _).mp hbefore
  exact ⟨⟨value, original, rfl, horiginal, hscope, hasset, hallowed, hrevoked, hid, hsame, hcurrent,
    of_decide_eq_true hbefore, expires, hexpiry, hexpires⟩, hlast⟩

end Ordinary

section Times

/-- The owner behind a later observation. -/
theorem Good.record (hv : Good k config id c v) {owner : Owner} (howner : v.state.owner = some owner)
    {currentMs : ℕ} (hlast : owner.lastMs ≤ currentMs) {f : Owner → Owner}
    (hf : ∀ o, f o = { o with lastMs := currentMs }) :
    Good k config id c { v with state := v.state.own f } ∧ v.state.Moves (v.state.own f) := by
  have hmoves : v.state.Moves (v.state.own f) := by
    refine ⟨Onward.map fun o ho => ?_, .refl Delivery.Moves.refl _, .refl Context.Moves.refl _,
      fun _ => rfl⟩
    obtain rfl := Option.some.inj (howner.symm.trans ho)
    rw [hf]
    exact ⟨fun hc => hc, fun x hx => ⟨hx, rfl, rfl, hlast⟩⟩
  refine ⟨⟨hv.inv.own (fun o => by rw [hf]) fun o => by rw [hf], fun e he => ?_, hv.clean, hv.tracks,
    hv.alone, fun hid => ?_, hv.turned⟩, hmoves⟩
  · exact State.Moves.trans _ _ _ (hv.past e he) hmoves
  · have hshut := hv.shut hid
    refine ⟨hshut.delivery, fun hk o ho hc => ?_, hshut.context⟩
    obtain ⟨o', ho', rfl⟩ := Option.map_eq_some_iff.mp ho
    rw [hf] at hc
    exact hshut.owner hk o' ho' hc

end Times

end Kdna.Source

import Kdna.Data.Reentrant
import Mathlib.Data.List.Nodup

/-!
# Calls that await

Calls on one object that stop at synchronous callbacks and at awaits. While a callback runs, the
calls that it makes run up to their first await and nothing else goes on; while a call awaits,
every other call may. A specification has an invariant of the state and the history that holds
wherever a call stops, a preorder that every step keeps to, and a finer one for what happens
before a first await, which is all that can happen while a callback runs.
-/

namespace Kdna.EventLoop

open Reentrant

/-- What a call did: it asked, what it awaits was settled, or it returned. -/
inductive Outcome (ω α β : Type)
  | asked (q : ω)
  | settled (a : α)
  | returned (b : β)

namespace Outcome

variable {ω α β : Type} {q : ω} {a : α} {b : β}

theorem asked_ne_settled : (asked q : Outcome ω α β) ≠ settled a := nofun

theorem asked_ne_returned : (asked q : Outcome ω α β) ≠ returned b := nofun

theorem returned_ne_asked : (returned b : Outcome ω α β) ≠ asked q := nofun

theorem returned_ne_settled : (returned b : Outcome ω α β) ≠ settled a := nofun

end Outcome

/-- What a call did, with what it was asked and answered before, and the state behind it. -/
structure Entry (κ σ ω α β : Type) where
  id : ℕ
  call : κ
  log : List (ω × α)
  outcome : Outcome ω α β
  state : σ

/-- An object with its calls: those inside callbacks, the innermost first, and those at an await,
with what it was settled with. -/
structure Loop (κ σ ω α β : Type) where
  state : σ
  stack : List (Frame κ σ ω α β)
  waiting : List (Frame κ σ ω α β × Option α)
  history : List (Entry κ σ ω α β)
  count : ℕ

/-- What happens next: a call is made, the innermost callback returns, what a call awaits is
settled, a call goes on behind a settled await, or the environment takes a step of its own. -/
inductive Event (γ α ε : Type)
  | call (c : γ)
  | answer (a : α)
  | settle (id : ℕ) (a : α)
  | resume (id : ℕ)
  | environment (e : ε)

/-- Every entry of a history has the property, behind the entries before it. -/
def Always {τ : Type} (P : List τ → τ → Prop) (h : List τ) : Prop :=
  ∀ pre e post, h = pre ++ e :: post → P pre e

theorem always_nil {τ : Type} (P : List τ → τ → Prop) : Always P [] :=
  fun _ _ _ h => absurd h.symm (List.append_ne_nil_of_right_ne_nil _ (List.cons_ne_nil _ _))

theorem Always.imp {τ : Type} {P Q : List τ → τ → Prop} {h : List τ} (hh : Always P h)
    (himp : ∀ pre e, P pre e → Q pre e) : Always Q h :=
  fun pre e post heq => himp pre e (hh pre e post heq)

/-- Every entry of a history has the property at its position. -/
theorem Always.get {τ : Type} {P : List τ → τ → Prop} {h : List τ} (hh : Always P h) (n : ℕ)
    (hn : n < h.length) : P (h.take n) h[n] := by
  refine hh _ _ (h.drop (n + 1)) ?_
  rw [← List.drop_eq_getElem_cons hn, List.take_append_drop]

/-- A history with one more entry has the property where that entry has it. -/
theorem Always.append {τ : Type} {P : List τ → τ → Prop} {h : List τ} {e : τ} (hh : Always P h)
    (he : P h e) : Always P (h ++ [e]) := by
  intro pre e' post heq
  rcases List.eq_nil_or_concat post with rfl | ⟨post', last, rfl⟩
  · obtain ⟨rfl, hlast⟩ := List.append_inj' heq rfl
    exact (List.singleton_inj.mp hlast) ▸ he
  · rw [List.concat_eq_append, ← List.cons_append, ← List.append_assoc] at heq
    exact hh pre e' post' (List.append_inj' heq rfl).1

namespace Loop

variable {κ σ ω α β γ ε : Type}

/-- A call goes on up to where it stops next. -/
def advance (sync : ω → Bool) (m : Loop κ σ ω α β) (id : ℕ) (c : κ) (log : List (ω × α))
    (p : Prog σ ω α β) : Loop κ σ ω α β :=
  match p.run m.state with
  | (.returned b, s) =>
    { m with state := s, history := m.history ++ [⟨id, c, log, .returned b, s⟩] }
  | (.asked q next, s) =>
    if sync q then
      { m with
        state := s, history := m.history ++ [⟨id, c, log, .asked q, s⟩]
        stack := ⟨id, c, log, q, next⟩ :: m.stack }
    else
      { m with
        state := s, history := m.history ++ [⟨id, c, log, .asked q, s⟩]
        waiting := m.waiting ++ [(⟨id, c, log, q, next⟩, none)] }

/-- The main call has started, and no other one. -/
def start (sync : ω → Bool) (s : σ) (c : κ) (main : Prog σ ω α β) : Loop κ σ ω α β :=
  advance sync ⟨s, [], [], [], 1⟩ 0 c [] main

/-- The call with the id at an await. -/
def find (m : Loop κ σ ω α β) (id : ℕ) : Option (Frame κ σ ω α β × Option α) :=
  m.waiting.find? fun w => w.1.id = id

def step (sync : ω → Bool) (label : γ → κ) (body : γ → Prog σ ω α β) (env : ε → σ → σ)
    (m : Loop κ σ ω α β) : Event γ α ε → Loop κ σ ω α β
  | .call c => advance sync { m with count := m.count + 1 } m.count (label c) [] (body c)
  | .answer a =>
    match m.stack with
    | [] => m
    | f :: rest =>
      advance sync { m with stack := rest } f.id f.call (f.log ++ [(f.question, a)]) (f.next a)
  | .settle id a =>
    match m.find id with
    | some (f, none) =>
      { m with
        waiting := m.waiting.map fun w => if w.1.id = id then (w.1, some a) else w
        history := m.history ++ [⟨id, f.call, f.log, .settled a, m.state⟩] }
    | _ => m
  | .resume id =>
    match m.stack, m.find id with
    | [], some (f, some a) =>
      advance sync { m with waiting := m.waiting.filter fun w => w.1.id ≠ id } f.id f.call
        (f.log ++ [(f.question, a)]) (f.next a)
    | _, _ => m
  | .environment e => { m with state := env e m.state }

end Loop

/-- What a run is held to. -/
structure Rules (κ σ ω α β : Type) where
  inv : σ → List (Entry κ σ ω α β) → Prop
  always : σ → σ → Prop
  turn : σ → σ → Prop
  nested : σ → σ → Prop

/-- Where a call is: whether it is before its first await, with its log, the history and the
state. -/
structure View (κ σ ω α β : Type) where
  fresh : Bool
  log : List (ω × α)
  history : List (Entry κ σ ω α β)
  state : σ

section Specification

variable {κ σ ω α β γ δ : Type} (sync : ω → Bool) (ρ : Rules κ σ ω α β) (id : ℕ) (c : κ)

/-- The history goes on with nothing of the call but what it awaits being settled. -/
def Extends (h h' : List (Entry κ σ ω α β)) : Prop :=
  ∃ more, h' = h ++ more ∧ ∀ e ∈ more, e.id = id → ∃ a, e.outcome = .settled a

/-- The history behind a question. -/
def View.asking (v : View κ σ ω α β) (q : ω) : List (Entry κ σ ω α β) :=
  v.history ++ [⟨id, c, v.log, .asked q, v.state⟩]

/-- What a call that stopped at the question, in the state and behind the history, finds when it
goes on. -/
structure Resumes (q : ω) (s : σ) (h : List (Entry κ σ ω α β)) (t : σ)
    (h' : List (Entry κ σ ω α β)) : Prop where
  nested : sync q = true → ρ.nested s t
  always : ρ.always s t
  inv : ρ.inv t h'
  past : ∀ e ∈ h', ρ.always e.state t
  history : Extends id h h'
  alive : ∀ e ∈ h', e.id = id → ∀ b, e.outcome ≠ .returned b

/-- From the view, the call keeps to the rules and ends in what `Q` says. -/
def Holds (Q : View κ σ ω α β → γ → Prop) : Prog σ ω α γ → View κ σ ω α β → Prop
  | .ret b, v => Q v b
  | .get next, v => Holds Q (next v.state) v
  | .set t next, v =>
    ρ.turn v.state t ∧ (v.fresh = true → ρ.nested v.state t) ∧ Holds Q next { v with state := t }
  | .ask q next, v =>
    ρ.inv v.state (v.asking id c q) ∧ ∀ a t h,
      Resumes sync ρ id q v.state (v.asking id c q) t h →
        Holds Q (next a) ⟨v.fresh && sync q, v.log ++ [(q, a)], h, t⟩

variable {sync ρ id c} {Q Q' : View κ σ ω α β → γ → Prop} {v : View κ σ ω α β}

theorem holds_bind {p : Prog σ ω α γ} {f : γ → Prog σ ω α δ} {P : View κ σ ω α β → δ → Prop}
    (h : Holds sync ρ id c (fun v b => Holds sync ρ id c P (f b) v) p v) :
    Holds sync ρ id c P (p >>= f) v := by
  change Holds sync ρ id c P (p.bind f) v
  induction p generalizing v with
  | ret b => exact h
  | get next ih => exact ih v.state h
  | set t next ih => exact ⟨h.1, h.2.1, ih h.2.2⟩
  | ask q next ih => exact ⟨h.1, fun a t h' hr => ih a (h.2 a t h' hr)⟩

theorem Holds.imp {p : Prog σ ω α γ} (h : Holds sync ρ id c Q p v)
    (himp : ∀ v b, Q v b → Q' v b) : Holds sync ρ id c Q' p v := by
  induction p generalizing v with
  | ret b => exact himp v b h
  | get next ih => exact ih v.state h
  | set t next ih => exact ⟨h.1, h.2.1, ih h.2.2⟩
  | ask q next ih => exact ⟨h.1, fun a t h' hr => ih a (h.2 a t h' hr)⟩

theorem Extends.refl (h : List (Entry κ σ ω α β)) : Extends id h h :=
  ⟨[], (List.append_nil h).symm, fun _ he => absurd he List.not_mem_nil⟩

theorem Extends.trans {h h' h'' : List (Entry κ σ ω α β)} (hh : Extends id h h')
    (hh' : Extends id h' h'') : Extends id h h'' := by
  obtain ⟨more, rfl, hmore⟩ := hh
  obtain ⟨more', rfl, hmore'⟩ := hh'
  refine ⟨more ++ more', List.append_assoc _ _ _, fun e he => ?_⟩
  exact (List.mem_append.mp he).elim (hmore e) (hmore' e)

/-- What another call does leaves the history of the call as it is. -/
theorem Extends.other {h h' : List (Entry κ σ ω α β)} (hh : Extends id h h')
    {e : Entry κ σ ω α β} (he : e.id ≠ id) : Extends id h (h' ++ [e]) :=
  hh.trans ⟨[e], rfl, fun _ he' hid => absurd (List.mem_singleton.mp he' ▸ hid) he⟩

end Specification

/-- A call that may stop with an error. -/
abbrev Act (σ ω α ε β : Type) := ExceptT ε (Prog σ ω α) β

namespace Act

variable {σ ω α ε β : Type}

def ask (q : ω) : Act σ ω α ε α := ExceptT.lift (.ask q .ret)

def state : Act σ ω α ε σ := ExceptT.lift (.get .ret)

def setState (s : σ) : Act σ ω α ε Unit := ExceptT.lift (.set s (.ret ()))

/-- The state is replaced by its image. -/
def update (f : σ → σ) : Act σ ω α ε Unit := do
  setState (f (← state))

/-- A condition that stops with the error. -/
def check (p : Prop) [Decidable p] (e : ε) : Act σ ω α ε Unit := if p then return () else throw e

/-- A value, or the error. -/
def need (e : ε) : Option β → Act σ ω α ε β
  | some b => return b
  | none => throw e

/-- A call within a call: what it comes to. -/
def attempt {ε' : Type} (x : Act σ ω α ε' β) : Act σ ω α ε (Except ε' β) := ExceptT.lift x.run

/-- A call with its error renamed. -/
def mapError {ε' : Type} (f : ε → ε') (x : Act σ ω α ε β) : Act σ ω α ε' β := do
  match ← attempt x with
  | .ok b => return b
  | .error e => throw (f e)

end Act

section Actions

variable {κ σ ω α β γ δ ε ε' : Type} (sync : ω → Bool) (ρ : Rules κ σ ω α β) (id : ℕ) (c : κ)

/-- From the view, the call keeps to the rules and ends in what `Q` says of its value or `E` of its
error. -/
def Acts (Q : View κ σ ω α β → γ → Prop) (E : View κ σ ω α β → ε → Prop) (x : Act σ ω α ε γ)
    (v : View κ σ ω α β) : Prop :=
  Holds sync ρ id c (fun v r => match r with | .ok b => Q v b | .error e => E v e) x.run v

variable {sync ρ id c} {Q Q' : View κ σ ω α β → γ → Prop} {E E' : View κ σ ω α β → ε → Prop}
  {v : View κ σ ω α β}

theorem acts_bind {x : Act σ ω α ε δ} {f : δ → Act σ ω α ε γ}
    (h : Acts sync ρ id c (fun v b => Acts sync ρ id c Q E (f b) v) E x v) :
    Acts sync ρ id c Q E (x >>= f) v := by
  refine holds_bind (Holds.imp h fun v r hr => ?_)
  cases r with
  | ok b => exact hr
  | error e => exact hr

theorem Acts.imp {x : Act σ ω α ε γ} (h : Acts sync ρ id c Q E x v)
    (hQ : ∀ v b, Q v b → Q' v b) (hE : ∀ v e, E v e → E' v e) : Acts sync ρ id c Q' E' x v := by
  refine Holds.imp h fun v r hr => ?_
  cases r with
  | ok b => exact hQ v b hr
  | error e => exact hE v e hr

theorem acts_return {b : γ} (h : Q v b) : Acts sync ρ id c Q E (pure b) v := h

theorem acts_throw {e : ε} (h : E v e) : Acts sync ρ id c Q E (throw e) v := h

theorem acts_check {p : Prop} [Decidable p] {e : ε} {Q : View κ σ ω α β → Unit → Prop}
    (h : p → Q v ()) (he : ¬ p → E v e) : Acts sync ρ id c Q E (Act.check p e) v := by
  unfold Act.check
  split
  · next hp => exact h hp
  · next hp => exact he hp

theorem acts_need {e : ε} {value : Option γ} (h : ∀ b, value = some b → Q v b)
    (he : value = none → E v e) : Acts sync ρ id c Q E (Act.need e value) v := by
  cases value with
  | none => exact he rfl
  | some b => exact h b rfl

theorem acts_ask {q : ω} {Q : View κ σ ω α β → α → Prop}
    (hinv : ρ.inv v.state (v.asking id c q))
    (h : ∀ a t h', Resumes sync ρ id q v.state (v.asking id c q) t h' →
      Q ⟨v.fresh && sync q, v.log ++ [(q, a)], h', t⟩ a) :
    Acts sync ρ id c Q E (Act.ask q) v := ⟨hinv, h⟩

theorem acts_state {Q : View κ σ ω α β → σ → Prop} (h : Q v v.state) :
    Acts sync ρ id c Q E Act.state v := h

theorem acts_setState {t : σ} {Q : View κ σ ω α β → Unit → Prop} (hturn : ρ.turn v.state t)
    (hnested : v.fresh = true → ρ.nested v.state t) (h : Q { v with state := t } ()) :
    Acts sync ρ id c Q E (Act.setState t) v := ⟨hturn, hnested, h⟩

theorem acts_update {f : σ → σ} {Q : View κ σ ω α β → Unit → Prop}
    (hturn : ρ.turn v.state (f v.state))
    (hnested : v.fresh = true → ρ.nested v.state (f v.state))
    (h : Q { v with state := f v.state } ()) : Acts sync ρ id c Q E (Act.update f) v :=
  acts_bind (acts_state (acts_setState hturn hnested h))

theorem acts_tryCatch {x : Act σ ω α ε γ} {handle : ε → Act σ ω α ε γ}
    (h : Acts sync ρ id c Q (fun v e => Acts sync ρ id c Q E (handle e) v) x v) :
    Acts sync ρ id c Q E (tryCatch x handle) v := by
  refine holds_bind (Holds.imp h fun v r hr => ?_)
  cases r with
  | ok b => exact hr
  | error e => exact hr

theorem acts_attempt {x : Act σ ω α ε' γ} {Q : View κ σ ω α β → Except ε' γ → Prop}
    (h : Acts sync ρ id c (fun v b => Q v (.ok b)) (fun v e => Q v (.error e)) x v) :
    Acts sync ρ id c Q E (Act.attempt x) v := by
  refine holds_bind (Holds.imp h fun v r hr => ?_)
  cases r with
  | ok b => exact hr
  | error e => exact hr

theorem acts_mapError {f : ε' → ε} {x : Act σ ω α ε' γ}
    (h : Acts sync ρ id c Q (fun v e => E v (f e)) x v) :
    Acts sync ρ id c Q E (Act.mapError f x) v :=
  acts_bind (acts_attempt (h.imp (fun _ _ hq => hq) fun _ _ he => he))

end Actions

/-- The rules fit together: the orders are preorders, and what is settled keeps the invariant. -/
structure Lawful {κ σ ω α β : Type} (ρ : Rules κ σ ω α β) : Prop where
  refl : ∀ s, ρ.always s s
  trans : ∀ s t u, ρ.always s t → ρ.always t u → ρ.always s u
  turn_refl : ∀ s, ρ.turn s s
  turn_trans : ∀ s t u, ρ.turn s t → ρ.turn t u → ρ.turn s u
  always_of_turn : ∀ s t, ρ.turn s t → ρ.always s t
  nested_refl : ∀ s, ρ.nested s s
  nested_trans : ∀ s t u, ρ.nested s t → ρ.nested t u → ρ.nested s u
  settled : ∀ s h id c log a, ρ.inv s h → ρ.inv s (h ++ [⟨id, c, log, .settled a, s⟩])

section Turn

variable {κ σ ω α β γ : Type} {sync : ω → Bool} {ρ : Rules κ σ ω α β} {id : ℕ} {c : κ}
  {Q : View κ σ ω α β → γ → Prop} {v : View κ σ ω α β} (hρ : Lawful ρ)
include hρ

/-- A call that returns keeps to the orders and ends as it should. -/
theorem Holds.returned {p : Prog σ ω α γ} {b : γ} {t : σ} (h : Holds sync ρ id c Q p v)
    (hrun : p.run v.state = (.returned b, t)) :
    ρ.turn v.state t ∧ (v.fresh = true → ρ.nested v.state t) ∧ Q { v with state := t } b := by
  induction p generalizing v with
  | ret b' =>
    obtain ⟨hvalue, rfl⟩ := Prod.mk.inj hrun
    obtain rfl := Pause.returned.inj hvalue
    exact ⟨hρ.turn_refl _, fun _ => hρ.nested_refl _, h⟩
  | get next ih => exact ih v.state h hrun
  | set u next ih =>
    obtain ⟨hturn, hnested, hq⟩ := ih h.2.2 hrun
    exact ⟨hρ.turn_trans _ _ _ h.1 hturn,
      fun hfresh => hρ.nested_trans _ _ _ (h.2.1 hfresh) (hnested hfresh), hq⟩
  | ask q next => exact nomatch congrArg Prod.fst hrun

/-- A call that stops at a question keeps to the orders and the invariant, and goes on as it
should. -/
theorem Holds.asked {p : Prog σ ω α γ} {q : ω} {next : α → Prog σ ω α γ} {t : σ}
    (h : Holds sync ρ id c Q p v) (hrun : p.run v.state = (.asked q next, t)) :
    ρ.turn v.state t ∧ (v.fresh = true → ρ.nested v.state t) ∧
      Holds sync ρ id c Q (.ask q next) { v with state := t } := by
  induction p generalizing v with
  | ret b => exact nomatch congrArg Prod.fst hrun
  | get next ih => exact ih v.state h hrun
  | set u next ih =>
    obtain ⟨hturn, hnested, hq⟩ := ih h.2.2 hrun
    exact ⟨hρ.turn_trans _ _ _ h.1 hturn,
      fun hfresh => hρ.nested_trans _ _ _ (h.2.1 hfresh) (hnested hfresh), hq⟩
  | ask q' next' =>
    obtain ⟨hvalue, rfl⟩ := Prod.mk.inj hrun
    obtain ⟨rfl, rfl⟩ := Pause.asked.inj hvalue
    exact ⟨hρ.turn_refl _, fun _ => hρ.nested_refl _, h⟩

end Turn

section Soundness

variable {κ σ ω α β γ ε : Type} {sync : ω → Bool} {ρ : Rules κ σ ω α β}

/-- A call keeps to the rules up to its end. -/
def Meets (sync : ω → Bool) (ρ : Rules κ σ ω α β) (id : ℕ) (c : κ) (p : Prog σ ω α β)
    (v : View κ σ ω α β) : Prop :=
  Holds sync ρ id c (fun v b => ρ.inv v.state (v.history ++ [⟨id, c, v.log, .returned b, v.state⟩]))
    p v

/-- A call that has stopped will go on as it should, whatever happens until then. -/
def Ready (sync : ω → Bool) (ρ : Rules κ σ ω α β) (s : σ) (h : List (Entry κ σ ω α β))
    (fresh : Bool) (f : Frame κ σ ω α β) : Prop :=
  ∀ a t h', Resumes sync ρ f.id f.question s h t h' →
    Meets sync ρ f.id f.call (f.next a) ⟨fresh, f.log ++ [(f.question, a)], h', t⟩

/-- Every call inside a callback is ready, and all but the outermost are before their first
await. -/
def Stacked (sync : ω → Bool) (ρ : Rules κ σ ω α β) (s : σ) (h : List (Entry κ σ ω α β)) :
    List (Frame κ σ ω α β) → Prop
  | [] => True
  | f :: below =>
    (∃ fresh, (below ≠ [] → fresh = true) ∧ Ready sync ρ s h fresh f) ∧ Stacked sync ρ s h below

/-- The ids of the open calls. -/
def Loop.ids (m : Loop κ σ ω α β) : List ℕ :=
  m.stack.map Frame.id ++ m.waiting.map fun w => w.1.id

/-- An entry keeps to the rules behind the entries before it, and its call had not returned. -/
structure Entered (ρ : Rules κ σ ω α β) (pre : List (Entry κ σ ω α β)) (e : Entry κ σ ω α β) :
    Prop where
  inv : ρ.inv e.state (pre ++ [e])
  past : ∀ f ∈ pre, ρ.always f.state e.state
  alive : ∀ f ∈ pre, f.id = e.id → ∀ b, f.outcome ≠ .returned b

/-- The object is where the rules want it, and so are its calls. -/
structure Sound (sync : ω → Bool) (ρ : Rules κ σ ω α β) (m : Loop κ σ ω α β) : Prop where
  inv : ρ.inv m.state m.history
  past : ∀ e ∈ m.history, ρ.always e.state m.state
  each : Always (Entered ρ) m.history
  waiting : ∀ w ∈ m.waiting, sync w.1.question = false ∧ Ready sync ρ m.state m.history false w.1
  stack : Stacked sync ρ m.state m.history m.stack
  distinct : m.ids.Nodup
  alive : ∀ i ∈ m.ids, ∀ e ∈ m.history, e.id = i → ∀ b, e.outcome ≠ .returned b
  open_lt : ∀ i ∈ m.ids, i < m.count
  past_lt : ∀ e ∈ m.history, e.id < m.count

section Steps

variable {s t : σ} {h h' : List (Entry κ σ ω α β)} {fresh : Bool} {f : Frame κ σ ω α β}
  {m : Loop κ σ ω α β}

theorem Ready.step (hρ : Lawful ρ) (hf : Ready sync ρ s h fresh f)
    (hnested : sync f.question = true → ρ.nested s t) (halways : ρ.always s t)
    (hh : Extends f.id h h') : Ready sync ρ t h' fresh f :=
  fun a u h'' hr => hf a u h''
    { hr with
      nested := fun hsync => hρ.nested_trans _ _ _ (hnested hsync) (hr.nested hsync)
      always := hρ.trans _ _ _ halways hr.always
      history := hh.trans hr.history }

theorem Stacked.step (hρ : Lawful ρ) {stack : List (Frame κ σ ω α β)}
    (hstack : Stacked sync ρ s h stack) (hnested : stack ≠ [] → ρ.nested s t)
    (halways : ρ.always s t) (hh : ∀ f ∈ stack, Extends f.id h h') :
    Stacked sync ρ t h' stack := by
  induction stack with
  | nil => trivial
  | cons f below ih =>
    obtain ⟨⟨fresh, hfresh, hf⟩, hbelow⟩ := hstack
    have hn := hnested (List.cons_ne_nil f below)
    refine ⟨⟨fresh, hfresh, hf.step hρ (fun _ => hn) halways (hh f List.mem_cons_self)⟩, ?_⟩
    exact ih hbelow (fun _ => hn) fun g hg => hh g (List.mem_cons_of_mem f hg)

/-- A step of the state alone. -/
theorem Sound.shift (hρ : Lawful ρ) (hm : Sound sync ρ m) (hinv : ρ.inv t m.history)
    (hnested : ρ.nested m.state t) (halways : ρ.always m.state t) :
    Sound sync ρ { m with state := t } :=
  { hm with
    inv := hinv
    past := fun e he => hρ.trans _ _ _ (hm.past e he) halways
    waiting := fun w hw =>
      ⟨(hm.waiting w hw).1, (hm.waiting w hw).2.step hρ (fun _ => hnested) halways (Extends.refl _)⟩
    stack := hm.stack.step hρ (fun _ => hnested) halways fun _ _ => Extends.refl _ }

/-- An entry of a call that is not open, or one that what an open call awaits is settled. -/
theorem Sound.enter (hρ : Lawful ρ) (hm : Sound sync ρ m) {e : Entry κ σ ω α β}
    (hinv : ρ.inv e.state (m.history ++ [e])) (hnested : m.stack ≠ [] → ρ.nested m.state e.state)
    (halways : ρ.always m.state e.state)
    (hid : ∀ i ∈ m.ids, e.id = i → ∃ a, e.outcome = .settled a)
    (halive : ∀ f ∈ m.history, f.id = e.id → ∀ b, f.outcome ≠ .returned b) (hlt : e.id < m.count) :
    Sound sync ρ { m with state := e.state, history := m.history ++ [e] } := by
  have hext (i : ℕ) (hi : i ∈ m.ids) : Extends i m.history (m.history ++ [e]) :=
    ⟨[e], rfl, fun e' he' heq => List.mem_singleton.mp he' ▸ hid i hi (List.mem_singleton.mp he' ▸ heq)⟩
  have hpast : ∀ e' ∈ m.history, ρ.always e'.state e.state :=
    fun e' he' => hρ.trans _ _ _ (hm.past e' he') halways
  refine ⟨hinv, fun e' he' => ?_, hm.each.append ⟨hinv, hpast, halive⟩, fun w hw => ?_, ?_, hm.distinct,
    fun i hi e' he' heq b hb => ?_, hm.open_lt, fun e' he' => ?_⟩
  · rcases List.mem_append.mp he' with he' | he'
    · exact hpast e' he'
    · rw [List.mem_singleton.mp he']
      exact hρ.refl _
  · obtain ⟨hsync, hready⟩ := hm.waiting w hw
    refine ⟨hsync, hready.step hρ (fun hs => ?_) halways (hext _ ?_)⟩
    · exact absurd (hsync.symm.trans hs) Bool.false_ne_true
    · exact List.mem_append_right _ (List.mem_map.mpr ⟨w, hw, rfl⟩)
  · exact hm.stack.step hρ hnested halways fun f hf =>
      hext f.id (List.mem_append_left _ (List.mem_map.mpr ⟨f, hf, rfl⟩))
  · rcases List.mem_append.mp he' with he' | he'
    · exact hm.alive i hi e' he' heq b hb
    · obtain rfl := List.mem_singleton.mp he'
      obtain ⟨a, ha⟩ := hid i hi heq
      rw [ha] at hb
      cases hb
  · rcases List.mem_append.mp he' with he' | he'
    · exact hm.past_lt e' he'
    · rw [List.mem_singleton.mp he']
      exact hlt

/-- A call that goes on keeps the object sound, where it is not one of the open calls and has not
returned. -/
theorem Sound.advance (hρ : Lawful ρ) (hm : Sound sync ρ m) {id : ℕ} {c : κ}
    {log : List (ω × α)} {p : Prog σ ω α β}
    (hp : Meets sync ρ id c p ⟨fresh, log, m.history, m.state⟩)
    (hfresh : m.stack ≠ [] → fresh = true) (hid : id ∉ m.ids)
    (halive : ∀ e ∈ m.history, e.id = id → ∀ b, e.outcome ≠ .returned b) (hlt : id < m.count) :
    Sound sync ρ (m.advance sync id c log p) := by
  have hother (P : ℕ → Prop) (i : ℕ) (hi : i ∈ m.ids) (heq : id = i) : P i := absurd (heq ▸ hi) hid
  rw [Loop.advance]
  cases hrun : p.run m.state with
  | mk pause t =>
    cases pause with
    | returned b =>
      obtain ⟨hturn, hnested, hend⟩ := Holds.returned hρ hp hrun
      have halways := hρ.always_of_turn _ _ hturn
      exact hm.enter (e := ⟨id, c, log, .returned b, t⟩) hρ hend (fun hne => hnested (hfresh hne))
        halways (hother _) halive hlt
    | asked q next =>
      obtain ⟨hturn, hnested, hinv, hnext⟩ := Holds.asked hρ hp hrun
      have halways := hρ.always_of_turn _ _ hturn
      have hmove := hm.enter (e := ⟨id, c, log, .asked q, t⟩) hρ hinv
        (fun hne => hnested (hfresh hne)) halways (hother _) halive hlt
      have hready : Ready sync ρ t (m.history ++ [⟨id, c, log, .asked q, t⟩]) (fresh && sync q)
          ⟨id, c, log, q, next⟩ := hnext
      have halive' : ∀ e ∈ m.history ++ [⟨id, c, log, .asked q, t⟩], e.id = id →
          ∀ b, e.outcome ≠ .returned b := by
        intro e he heq b hb
        rcases List.mem_append.mp he with he | he
        · exact halive e he heq b hb
        · rw [List.mem_singleton.mp he] at hb
          cases hb
      have halives : ∀ i ∈ id :: m.ids, ∀ e ∈ m.history ++ [⟨id, c, log, .asked q, t⟩], e.id = i →
          ∀ b, e.outcome ≠ .returned b :=
        List.forall_mem_cons.mpr ⟨halive', hmove.alive⟩
      have hlts : ∀ i ∈ id :: m.ids, i < m.count := List.forall_mem_cons.mpr ⟨hlt, hm.open_lt⟩
      have hdistinct : (id :: m.ids).Nodup := List.nodup_cons.mpr ⟨hid, hm.distinct⟩
      dsimp only
      split
      · next hsync =>
        rw [hsync, Bool.and_true] at hready
        exact ⟨hmove.inv, hmove.past, hmove.each, hmove.waiting,
          ⟨⟨fresh, hfresh, hready⟩, hmove.stack⟩, hdistinct, halives, hlts, hmove.past_lt⟩
      · next hsync =>
        have hsync' : sync q = false := Bool.eq_false_iff.mpr hsync
        rw [hsync', Bool.and_false] at hready
        have hids : (m.stack.map Frame.id ++ (m.waiting ++
            [((⟨id, c, log, q, next⟩ : Frame κ σ ω α β), (none : Option α))]).map fun w => w.1.id)
              = m.ids ++ [id] := by
          rw [List.map_append, ← List.append_assoc]
          rfl
        have hperm := (List.perm_append_singleton id m.ids).symm
        refine ⟨hmove.inv, hmove.past, hmove.each, fun w hw => ?_, hmove.stack, ?_, ?_, ?_,
          hmove.past_lt⟩
        · rcases List.mem_append.mp hw with hw | hw
          · exact hmove.waiting w hw
          · obtain rfl := List.mem_singleton.mp hw
            exact ⟨hsync', hready⟩
        · rw [Loop.ids, hids]
          exact hperm.nodup_iff.mp hdistinct
        · intro i hi
          rw [Loop.ids, hids] at hi
          exact halives i (hperm.mem_iff.mpr hi)
        · intro i hi
          rw [Loop.ids, hids] at hi
          exact hlts i (hperm.mem_iff.mpr hi)

end Steps

variable {label : γ → κ} {body : γ → Prog σ ω α β} {env : ε → σ → σ} {m : Loop κ σ ω α β}

/-- What the calls and the environment of a run are asked for. -/
structure Obeys (sync : ω → Bool) (ρ : Rules κ σ ω α β) (label : γ → κ)
    (body : γ → Prog σ ω α β) (env : ε → σ → σ) : Prop where
  lawful : Lawful ρ
  body : ∀ c id s h, ρ.inv s h → (∀ e ∈ h, ρ.always e.state s) → (∀ e ∈ h, e.id < id) → 0 < id →
    Meets sync ρ id (label c) (body c) ⟨true, [], h, s⟩
  env : ∀ e s h, ρ.inv s h → (∀ e' ∈ h, ρ.always e'.state s) →
    ρ.inv (env e s) h ∧ ρ.always s (env e s) ∧ ρ.nested s (env e s)

theorem mem_ids_of_mem {w : Frame κ σ ω α β × Option α} (hw : w ∈ m.waiting) : w.1.id ∈ m.ids :=
  List.mem_append_right _ (List.mem_map.mpr ⟨w, hw, rfl⟩)

/-- The object without the innermost call. -/
theorem Sound.pop (hm : Sound sync ρ m) {f : Frame κ σ ω α β} {below : List (Frame κ σ ω α β)}
    (hstack : m.stack = f :: below) : Sound sync ρ { m with stack := below } := by
  have hdistinct := hm.distinct
  have hlt := hm.open_lt
  have hs := hm.stack
  rw [Loop.ids, hstack, List.map_cons, List.cons_append] at hdistinct hlt
  rw [hstack] at hs
  have halive := hm.alive
  rw [Loop.ids, hstack, List.map_cons, List.cons_append] at halive
  exact ⟨hm.inv, hm.past, hm.each, hm.waiting, hs.2, (List.nodup_cons.mp hdistinct).2,
    (List.forall_mem_cons.mp halive).2, (List.forall_mem_cons.mp hlt).2, hm.past_lt⟩

/-- The object without a call at an await. -/
theorem Sound.wake (hm : Sound sync ρ m) (id : ℕ) :
    Sound sync ρ { m with waiting := m.waiting.filter fun w => w.1.id ≠ id } := by
  have hsub : (m.waiting.filter fun w => w.1.id ≠ id).Sublist m.waiting := List.filter_sublist
  have hids : (m.stack.map Frame.id ++
      (m.waiting.filter fun w => w.1.id ≠ id).map fun w => w.1.id).Sublist m.ids :=
    (List.Sublist.refl _).append (hsub.map _)
  exact ⟨hm.inv, hm.past, hm.each, fun w hw => hm.waiting w (hsub.subset hw), hm.stack,
    hm.distinct.sublist hids, fun i hi => hm.alive i (hids.subset hi),
    fun i hi => hm.open_lt i (hids.subset hi), hm.past_lt⟩

theorem find_some {id : ℕ} {w : Frame κ σ ω α β × Option α} (h : m.find id = some w) :
    w ∈ m.waiting ∧ w.1.id = id :=
  ⟨List.mem_of_find?_eq_some h, by simpa using List.find?_some h⟩

/-- What a call awaits is settled. -/
theorem Sound.settle (hρ : Lawful ρ) (hm : Sound sync ρ m) {id : ℕ} (a : α)
    {f : Frame κ σ ω α β} {answer : Option α} (hfind : m.find id = some (f, answer)) :
    Sound sync ρ { m with
      waiting := m.waiting.map fun w => if w.1.id = id then (w.1, some a) else w
      history := m.history ++ [⟨id, f.call, f.log, .settled a, m.state⟩] } := by
  obtain ⟨hw, hid⟩ := find_some hfind
  have hkeep : (m.waiting.map fun w => if w.1.id = id then (w.1, some a) else w).map
      (fun w => w.1.id) = m.waiting.map fun w => w.1.id := by
    rw [List.map_map]
    refine List.map_congr_left fun w _ => ?_
    rw [Function.comp_apply]
    split <;> rfl
  have hmove := hm.enter (e := ⟨id, f.call, f.log, .settled a, m.state⟩) hρ
    (hρ.settled _ _ _ _ _ _ hm.inv) (fun _ => hρ.nested_refl _) (hρ.refl _)
    (fun _ _ _ => ⟨a, rfl⟩) (hid ▸ hm.alive _ (mem_ids_of_mem hw))
    (hid ▸ hm.open_lt _ (mem_ids_of_mem hw))
  refine ⟨hmove.inv, hmove.past, hmove.each, fun w hw' => ?_, hmove.stack, ?_, ?_, ?_,
    hmove.past_lt⟩
  · obtain ⟨v, hv, rfl⟩ := List.mem_map.mp hw'
    split
    · exact hmove.waiting v hv
    · exact hmove.waiting v hv
  · rw [Loop.ids, hkeep]
    exact hm.distinct
  · intro i hi
    rw [Loop.ids, hkeep] at hi
    exact hmove.alive i hi
  · intro i hi
    rw [Loop.ids, hkeep] at hi
    exact hm.open_lt i hi

/-- A step keeps the object sound. -/
theorem Sound.step (h : Obeys sync ρ label body env) (hm : Sound sync ρ m) (hcount : 0 < m.count)
    (e : Event γ α ε) : Sound sync ρ (m.step sync label body env e) := by
  have hρ := h.lawful
  cases e with
  | call c =>
    have hnext : Sound sync ρ { m with count := m.count + 1 } :=
      { hm with
        open_lt := fun i hi => Nat.lt_succ_of_lt (hm.open_lt i hi)
        past_lt := fun e' he' => Nat.lt_succ_of_lt (hm.past_lt e' he') }
    refine hnext.advance hρ (h.body c m.count m.state m.history hm.inv hm.past hm.past_lt hcount)
      (fun _ => rfl) (fun hi => absurd (hm.open_lt _ hi) (Nat.lt_irrefl _)) (fun e' he' heq => ?_)
      (Nat.lt_succ_self _)
    exact absurd (hm.past_lt e' he') (heq ▸ Nat.lt_irrefl _)
  | answer a =>
    rw [Loop.step]
    cases hstack : m.stack with
    | nil => exact hm
    | cons f below =>
      obtain ⟨⟨fresh, hfresh, hready⟩, -⟩ := (hstack ▸ hm.stack : Stacked _ _ _ _ (f :: below))
      have hmem : f.id ∈ m.ids := by
        rw [Loop.ids, hstack]
        exact List.mem_cons_self
      have hdistinct := hm.distinct
      rw [Loop.ids, hstack, List.map_cons, List.cons_append, List.nodup_cons] at hdistinct
      exact (hm.pop hstack).advance hρ (hready a _ _ ⟨fun _ => hρ.nested_refl _, hρ.refl _, hm.inv,
        hm.past, Extends.refl _, hm.alive _ hmem⟩) hfresh hdistinct.1 (hm.alive _ hmem)
        (hm.open_lt _ hmem)
  | settle id a =>
    rw [Loop.step]
    split
    · next f hfind => exact hm.settle hρ a hfind
    · exact hm
  | resume id =>
    rw [Loop.step]
    split
    · next f a hstack hfind =>
      obtain ⟨hw, hid⟩ := find_some hfind
      obtain ⟨hsync, hready⟩ := hm.waiting _ hw
      have hmem := mem_ids_of_mem hw
      refine (hm.wake id).advance hρ (hready a _ _ ⟨fun _ => hρ.nested_refl _, hρ.refl _, hm.inv,
        hm.past, Extends.refl _, hm.alive _ hmem⟩) (fun hne => absurd hstack hne)
        (fun hi => ?_) (hm.alive _ hmem) (hm.open_lt _ hmem)
      rcases List.mem_append.mp hi with hi | hi
      · obtain ⟨g, hg, -⟩ := List.mem_map.mp hi
        exact absurd (hstack ▸ hg) List.not_mem_nil
      · obtain ⟨w, hw', hwid⟩ := List.mem_map.mp hi
        exact of_decide_eq_true (List.mem_filter.mp hw').2 (hwid.trans hid)
    · exact hm
  | environment e =>
    obtain ⟨hinv, halways, hnested⟩ := h.env e m.state m.history hm.inv hm.past
    exact hm.shift hρ hinv hnested halways

theorem count_advance (id : ℕ) (c : κ) (log : List (ω × α)) (p : Prog σ ω α β) :
    (m.advance sync id c log p).count = m.count := by
  rw [Loop.advance]
  split
  · rfl
  · split <;> rfl

theorem count_le_step (e : Event γ α ε) : m.count ≤ (m.step sync label body env e).count := by
  cases e with
  | call c =>
    rw [Loop.step, count_advance]
    exact Nat.le_succ _
  | answer a =>
    rw [Loop.step]
    split
    · exact Nat.le_refl _
    · refine Nat.le_trans ?_ (Nat.le_of_eq (count_advance _ _ _ _).symm)
      exact Nat.le_refl _
  | settle id a =>
    rw [Loop.step]
    split
    · exact Nat.le_refl _
    · exact Nat.le_refl _
  | resume id =>
    rw [Loop.step]
    split
    · refine Nat.le_trans ?_ (Nat.le_of_eq (count_advance _ _ _ _).symm)
      exact Nat.le_refl _
    · exact Nat.le_refl _
  | environment e => exact Nat.le_refl _

theorem count_start (s : σ) (c : κ) (main : Prog σ ω α β) : (Loop.start sync s c main).count = 1 := by
  rw [Loop.start, count_advance]

/-- The start leads to the first stop of the main call. -/
theorem history_start (s : σ) (c : κ) (main : Prog σ ω α β) :
    ∃ e, (Loop.start sync s c main).history = [e] := by
  rw [Loop.start, Loop.advance]
  split
  · exact ⟨_, rfl⟩
  · split
    · exact ⟨_, rfl⟩
    · exact ⟨_, rfl⟩

/-- Behind every run the object is sound. -/
theorem sound_run (h : Obeys sync ρ label body env) {s : σ} {c : κ} {main : Prog σ ω α β}
    (hinv : ρ.inv s []) (hmain : Meets sync ρ 0 c main ⟨false, [], [], s⟩)
    (events : List (Event γ α ε)) :
    Sound sync ρ (events.foldl (Loop.step sync label body env) (Loop.start sync s c main)) := by
  have hstart : Sound sync ρ (⟨s, [], [], [], 1⟩ : Loop κ σ ω α β) :=
    ⟨hinv, List.forall_mem_nil _, always_nil _, List.forall_mem_nil _, trivial, List.nodup_nil,
      List.forall_mem_nil _, List.forall_mem_nil _, List.forall_mem_nil _⟩
  have hfirst : Sound sync ρ (Loop.start sync s c main) :=
    hstart.advance h.lawful hmain (fun hne => absurd rfl hne) List.not_mem_nil
      (List.forall_mem_nil _) Nat.one_pos
  have hcount : 0 < (Loop.start sync s c main).count := by
    rw [count_start]
    exact Nat.one_pos
  generalize Loop.start sync s c main = m at hfirst hcount
  induction events generalizing m with
  | nil => exact hfirst
  | cons e events ih =>
    exact ih _ (hfirst.step h hcount e) (Nat.lt_of_lt_of_le hcount (count_le_step e))

/-- A call that goes on adds one entry, whose state its own turn leads to. -/
theorem advance_entry (hρ : Lawful ρ) {fresh : Bool} {id : ℕ} {c : κ} {log : List (ω × α)}
    {p : Prog σ ω α β} (hp : Meets sync ρ id c p ⟨fresh, log, m.history, m.state⟩) :
    ∃ e, (m.advance sync id c log p).history = m.history ++ [e] ∧ e.call = c ∧ e.log = log ∧
      ρ.turn m.state e.state := by
  rw [Loop.advance]
  cases hrun : p.run m.state with
  | mk pause t =>
    cases pause with
    | returned b => exact ⟨_, rfl, rfl, rfl, (Holds.returned hρ hp hrun).1⟩
    | asked q next =>
      dsimp only
      split
      · exact ⟨_, rfl, rfl, rfl, (Holds.asked hρ hp hrun).1⟩
      · exact ⟨_, rfl, rfl, rfl, (Holds.asked hρ hp hrun).1⟩

/-- A step adds at most one entry, and one whose last question is synchronous only where that
question is answered. -/
theorem Sound.step_entry (h : Obeys sync ρ label body env) (hm : Sound sync ρ m) (hcount : 0 < m.count)
    (ev : Event γ α ε) : (m.step sync label body env ev).history = m.history ∨
      ∃ e, (m.step sync label body env ev).history = m.history ++ [e] ∧
        ∀ log q a, e.log = log ++ [(q, a)] → sync q = true → (∀ x, e.outcome ≠ .settled x) →
          ∃ f below, ev = .answer a ∧ m.stack = f :: below ∧ f.question = q ∧ f.log = log ∧
            f.call = e.call ∧ ρ.turn m.state e.state := by
  have hρ := h.lawful
  cases ev with
  | call c =>
    obtain ⟨e, hhistory, -, hlog, -⟩ := advance_entry (m := { m with count := m.count + 1 }) hρ
      (h.body c m.count m.state m.history hm.inv hm.past hm.past_lt hcount)
    refine .inr ⟨e, hhistory, fun log q a heq => ?_⟩
    exact absurd (hlog.symm.trans heq).symm (List.append_ne_nil_of_right_ne_nil _ (List.cons_ne_nil _ _))
  | answer a =>
    rw [Loop.step]
    cases hstack : m.stack with
    | nil => exact .inl rfl
    | cons f below =>
      obtain ⟨⟨fresh, -, hready⟩, -⟩ := (hstack ▸ hm.stack : Stacked _ _ _ _ (f :: below))
      have hmem : f.id ∈ m.ids := by
        rw [Loop.ids, hstack]
        exact List.mem_cons_self
      obtain ⟨e, hhistory, hcall, hlog, hturn⟩ := advance_entry (m := { m with stack := below }) hρ
        (hready a _ _ ⟨fun _ => hρ.nested_refl _, hρ.refl _, hm.inv, hm.past, Extends.refl _,
          hm.alive _ hmem⟩)
      refine .inr ⟨e, hhistory, fun log q b heq _ _ => ⟨f, below, ?_⟩⟩
      obtain ⟨rfl, hlast⟩ := List.append_inj' (hlog.symm.trans heq) rfl
      obtain ⟨rfl, rfl⟩ := Prod.mk.inj (List.singleton_inj.mp hlast)
      exact ⟨rfl, rfl, rfl, rfl, hcall.symm, hturn⟩
  | settle id a =>
    rw [Loop.step]
    split
    · next f _ => exact .inr ⟨_, rfl, fun _ _ _ _ _ hne => absurd rfl (hne a)⟩
    · exact .inl rfl
  | resume id =>
    rw [Loop.step]
    split
    · next f a hstack hfind =>
      obtain ⟨hw, -⟩ := find_some hfind
      obtain ⟨hsync, hready⟩ := hm.waiting _ hw
      obtain ⟨e, hhistory, -, hlog, -⟩ := advance_entry
        (m := { m with waiting := m.waiting.filter fun w => w.1.id ≠ id }) hρ
        (hready a _ _ ⟨fun _ => hρ.nested_refl _, hρ.refl _, hm.inv, hm.past, Extends.refl _,
          hm.alive _ (mem_ids_of_mem hw)⟩)
      refine .inr ⟨e, hhistory, fun log q b heq hq => ?_⟩
      obtain ⟨-, hlast⟩ := List.append_inj' (hlog.symm.trans heq) rfl
      obtain ⟨rfl, -⟩ := Prod.mk.inj (List.singleton_inj.mp hlast)
      exact absurd (hsync.symm.trans hq) Bool.false_ne_true
    · exact .inl rfl
  | environment e => exact .inl rfl

end Soundness

end Kdna.EventLoop

import Mathlib.Data.List.Basic

/-!
# Calls that ask while they run

A call on an object reads and replaces the object's state and asks its environment. Between a
question and its answer the environment may make further calls on the same object, which run to
their own end before the answer comes: the open calls form a stack. A specification of one call
relies on a preorder that the state keeps to while the call waits, and guarantees it; it then
holds of every call of every run.
-/

namespace Kdna.Reentrant

/-- A call on a state: it returns, reads the state, replaces it, or asks and goes on with the
answer. -/
inductive Prog (σ ω α β : Type)
  | ret (value : β)
  | get (next : σ → Prog σ ω α β)
  | set (state : σ) (next : Prog σ ω α β)
  | ask (question : ω) (next : α → Prog σ ω α β)

/-- Where a call stops: it returns, or it waits for the answer to a question. -/
inductive Pause (σ ω α β : Type)
  | returned (value : β)
  | asked (question : ω) (next : α → Prog σ ω α β)

namespace Prog

variable {σ ω α β γ : Type}

/-- The call followed by another one that takes its value. -/
protected def bind (p : Prog σ ω α β) (f : β → Prog σ ω α γ) : Prog σ ω α γ :=
  match p with
  | .ret b => f b
  | .get next => .get fun s => (next s).bind f
  | .set s next => .set s (next.bind f)
  | .ask q next => .ask q fun a => (next a).bind f

instance : Monad (Prog σ ω α) where
  pure := .ret
  bind := Prog.bind

/-- The call up to its first question, with the state that it leaves. -/
def run : Prog σ ω α β → σ → Pause σ ω α β × σ
  | .ret b, s => (.returned b, s)
  | .get next, s => (next s).run s
  | .set t next, _ => next.run t
  | .ask q next, s => (.asked q next, s)

/-- Behind the questions and answers of the log, and from the state, the call only asks what `G`
allows and returns what `Q` says, where the state keeps to `R` at each step of the call and is
relied on to keep to it while the call waits. -/
def Meets (R : σ → σ → Prop) (G : List (ω × α) → σ → ω → Prop)
    (Q : List (ω × α) → σ → β → Prop) : Prog σ ω α β → List (ω × α) → σ → Prop
  | .ret b, log, s => Q log s b
  | .get next, log, s => (next s).Meets R G Q log s
  | .set t next, log, s => R s t ∧ next.Meets R G Q log t
  | .ask q next, log, s =>
    G log s q ∧ ∀ a t, R s t → (next a).Meets R G Q (log ++ [(q, a)]) t

variable {R : σ → σ → Prop} {G : List (ω × α) → σ → ω → Prop}
  {Q Q' : List (ω × α) → σ → β → Prop} {log : List (ω × α)} {s t : σ}

theorem meets_bind {p : Prog σ ω α β} {f : β → Prog σ ω α γ} {P : List (ω × α) → σ → γ → Prop}
    (h : p.Meets R G (fun log s b => (f b).Meets R G P log s) log s) :
    (p >>= f).Meets R G P log s := by
  change (p.bind f).Meets R G P log s
  induction p generalizing log s with
  | ret b => exact h
  | get next ih => exact ih s h
  | set t next ih => exact ⟨h.1, ih h.2⟩
  | ask q next ih => exact ⟨h.1, fun a t ht => ih a (h.2 a t ht)⟩

theorem Meets.imp {p : Prog σ ω α β} (h : p.Meets R G Q log s)
    (himp : ∀ log s b, Q log s b → Q' log s b) : p.Meets R G Q' log s := by
  induction p generalizing log s with
  | ret b => exact himp log s b h
  | get next ih => exact ih s h
  | set t next ih => exact ⟨h.1, ih h.2⟩
  | ask q next ih => exact ⟨h.1, fun a t ht => ih a (h.2 a t ht)⟩

section Turn

variable (hrefl : ∀ s, R s s) (htrans : ∀ s t u, R s t → R t u → R s u)
include hrefl htrans

/-- A call that returns keeps to the preorder up to its end and returns what it should. -/
theorem Meets.returned {p : Prog σ ω α β} {b : β} (h : p.Meets R G Q log s)
    (hrun : p.run s = (.returned b, t)) : R s t ∧ Q log t b := by
  induction p generalizing log s with
  | ret b' =>
    obtain ⟨hvalue, rfl⟩ := Prod.mk.inj hrun
    obtain rfl := Pause.returned.inj hvalue
    exact ⟨hrefl s, h⟩
  | get next ih => exact ih s h hrun
  | set u next ih =>
    obtain ⟨hstep, hq⟩ := ih h.2 hrun
    exact ⟨htrans _ _ _ h.1 hstep, hq⟩
  | ask q next => exact nomatch congrArg Prod.fst hrun

/-- A call that waits has asked what it may, and goes on as it should. -/
theorem Meets.asked {p : Prog σ ω α β} {q : ω} {next : α → Prog σ ω α β}
    (h : p.Meets R G Q log s) (hrun : p.run s = (.asked q next, t)) :
    R s t ∧ G log t q ∧ ∀ a u, R t u → (next a).Meets R G Q (log ++ [(q, a)]) u := by
  induction p generalizing log s with
  | ret b => exact nomatch congrArg Prod.fst hrun
  | get next ih => exact ih s h hrun
  | set u next ih =>
    obtain ⟨hstep, hq⟩ := ih h.2 hrun
    exact ⟨htrans _ _ _ h.1 hstep, hq⟩
  | ask q' next' =>
    obtain ⟨hvalue, rfl⟩ := Prod.mk.inj hrun
    obtain ⟨rfl, rfl⟩ := Pause.asked.inj hvalue
    exact ⟨hrefl s, h⟩

end Turn

end Prog

/-- A call that waits for an answer. -/
structure Frame (κ σ ω α β : Type) where
  id : ℕ
  call : κ
  log : List (ω × α)
  question : ω
  next : α → Prog σ ω α β

/-- A question or a return of a call, with what it was asked and answered before. -/
structure Entry (κ ω α β : Type) where
  id : ℕ
  call : κ
  log : List (ω × α)
  outcome : ω ⊕ β

/-- An object with its open calls, the last one first, and what its calls asked and returned. -/
structure Machine (κ σ ω α β : Type) where
  state : σ
  frames : List (Frame κ σ ω α β)
  history : List (Entry κ ω α β)
  count : ℕ

/-- What the environment does: it makes a call, answers the last open one, or takes a step of its
own on the state. -/
inductive Event (κ α ε : Type)
  | call (c : κ)
  | answer (a : α)
  | environment (e : ε)

namespace Machine

variable {κ σ ω α β ε : Type}

/-- The object before its first call. -/
def initial (s : σ) : Machine κ σ ω α β := ⟨s, [], [], 0⟩

/-- A call goes on up to its next question or to its return. -/
def advance (m : Machine κ σ ω α β) (id : ℕ) (c : κ) (log : List (ω × α))
    (rest : List (Frame κ σ ω α β)) (p : Prog σ ω α β) : Machine κ σ ω α β :=
  match p.run m.state with
  | (.returned b, s) => ⟨s, rest, m.history ++ [⟨id, c, log, .inr b⟩], m.count⟩
  | (.asked q next, s) =>
    ⟨s, ⟨id, c, log, q, next⟩ :: rest, m.history ++ [⟨id, c, log, .inl q⟩], m.count⟩

def step (body : κ → Prog σ ω α β) (env : ε → σ → σ) (m : Machine κ σ ω α β) :
    Event κ α ε → Machine κ σ ω α β
  | .call c => advance { m with count := m.count + 1 } m.count c [] m.frames (body c)
  | .answer a =>
    match m.frames with
    | [] => m
    | f :: rest => m.advance f.id f.call (f.log ++ [(f.question, a)]) rest (f.next a)
  | .environment e => { m with state := env e m.state }

section Soundness

variable {R : σ → σ → Prop} {G : κ → List (ω × α) → σ → ω → Prop}
  {Q : κ → List (ω × α) → σ → β → Prop} {m : Machine κ σ ω α β}

/-- The open calls go on as they should, and everything asked and returned so far was as it should
be. -/
structure Sound (R : σ → σ → Prop) (G : κ → List (ω × α) → σ → ω → Prop)
    (Q : κ → List (ω × α) → σ → β → Prop) (m : Machine κ σ ω α β) : Prop where
  resumes : ∀ f ∈ m.frames, ∀ a t, R m.state t →
    (f.next a).Meets R (G f.call) (Q f.call) (f.log ++ [(f.question, a)]) t
  distinct : (m.frames.map Frame.id).Nodup
  open_lt : ∀ f ∈ m.frames, f.id < m.count
  past_lt : ∀ e ∈ m.history, e.id < m.count
  asked : ∀ e ∈ m.history, ∀ q, e.outcome = .inl q → ∃ s, R s m.state ∧ G e.call e.log s q
  returned : ∀ e ∈ m.history, ∀ b, e.outcome = .inr b → ∃ s, R s m.state ∧ Q e.call e.log s b
  opened : ∀ f ∈ m.frames, ∃ e ∈ m.history, ∃ q, e.id = f.id ∧ e.call = f.call ∧ e.outcome = .inl q
  pending : ∀ f ∈ m.frames, ∀ e ∈ m.history, e.id = f.id → ∀ q, e.outcome = .inl q →
    q ∈ f.log.map Prod.fst ∨ q = f.question
  ordered : m.history.Pairwise fun e e' =>
    e.id = e'.id → ∀ q, e.outcome = .inl q → q ∈ e'.log.map Prod.fst

theorem sound_initial (s : σ) : (initial s : Machine κ σ ω α β).Sound R G Q where
  resumes := fun _ hf => nomatch hf
  distinct := List.nodup_nil
  open_lt := fun _ hf => nomatch hf
  past_lt := fun _ he => nomatch he
  asked := fun _ he => nomatch he
  returned := fun _ he => nomatch he
  opened := fun _ hf => nomatch hf
  pending := fun _ hf => nomatch hf
  ordered := List.Pairwise.nil

/-- A step of the state alone. -/
theorem Sound.state (htrans : ∀ s t u, R s t → R t u → R s u) (h : m.Sound R G Q) {t : σ}
    (ht : R m.state t) : ({ m with state := t } : Machine κ σ ω α β).Sound R G Q where
  resumes := fun f hf a u hu => h.resumes f hf a u (htrans _ _ _ ht hu)
  distinct := h.distinct
  open_lt := h.open_lt
  past_lt := h.past_lt
  asked := fun e he q hq =>
    let ⟨s, hs, hg⟩ := h.asked e he q hq
    ⟨s, htrans _ _ _ hs ht, hg⟩
  returned := fun e he b hb =>
    let ⟨s, hs, hq⟩ := h.returned e he b hb
    ⟨s, htrans _ _ _ hs ht, hq⟩
  opened := h.opened
  pending := h.pending
  ordered := h.ordered

/-- One more call. -/
theorem Sound.count (h : m.Sound R G Q) :
    ({ m with count := m.count + 1 } : Machine κ σ ω α β).Sound R G Q where
  resumes := h.resumes
  distinct := h.distinct
  open_lt := fun f hf => Nat.lt_succ_of_lt (h.open_lt f hf)
  past_lt := fun e he => Nat.lt_succ_of_lt (h.past_lt e he)
  asked := h.asked
  returned := h.returned
  opened := h.opened
  pending := h.pending
  ordered := h.ordered

/-- Without its last open call the object stays sound. -/
theorem Sound.pop (h : m.Sound R G Q) {f : Frame κ σ ω α β} {rest : List (Frame κ σ ω α β)}
    (hframes : m.frames = f :: rest) :
    ({ m with frames := rest } : Machine κ σ ω α β).Sound R G Q := by
  have hsub (g : Frame κ σ ω α β) (hg : g ∈ rest) : g ∈ m.frames :=
    hframes ▸ List.mem_cons_of_mem f hg
  have hdistinct := h.distinct
  rw [hframes, List.map_cons, List.nodup_cons] at hdistinct
  exact ⟨fun g hg => h.resumes g (hsub g hg), hdistinct.2, fun g hg => h.open_lt g (hsub g hg),
    h.past_lt, h.asked, h.returned, fun g hg => h.opened g (hsub g hg),
    fun g hg => h.pending g (hsub g hg), h.ordered⟩

variable (hrefl : ∀ s, R s s) (htrans : ∀ s t u, R s t → R t u → R s u)
include hrefl htrans

/-- A call that goes on keeps the object sound. -/
theorem Sound.advance (h : m.Sound R G Q) {id : ℕ} {c : κ} {log : List (ω × α)}
    {p : Prog σ ω α β} (hp : p.Meets R (G c) (Q c) log m.state) (hlt : id < m.count)
    (hnew : id ∉ m.frames.map Frame.id)
    (hpast : ∀ e ∈ m.history, e.id = id → ∀ q, e.outcome = .inl q → q ∈ log.map Prod.fst) :
    (m.advance id c log m.frames p).Sound R G Q := by
  have hordered (outcome : ω ⊕ β) :
      (m.history ++ [(⟨id, c, log, outcome⟩ : Entry κ ω α β)]).Pairwise fun e e' =>
        e.id = e'.id → ∀ q, e.outcome = .inl q → q ∈ e'.log.map Prod.fst := by
    refine List.pairwise_append.mpr ⟨h.ordered, List.pairwise_singleton _ _, fun e he e' he' => ?_⟩
    obtain rfl := List.mem_singleton.mp he'
    exact hpast e he
  rw [Machine.advance]
  cases hrun : p.run m.state with
  | mk pause s =>
    cases pause with
    | returned b =>
      obtain ⟨hs, hq⟩ := hp.returned hrefl htrans hrun
      have hm := h.state htrans hs
      refine ⟨hm.resumes, hm.distinct, hm.open_lt, fun e he => ?_, fun e he q' hq' => ?_,
        fun e he b' hb' => ?_, fun f hf => ?_, fun f hf e he hid q' hq' => ?_, hordered _⟩
      · rcases List.mem_append.mp he with he | he
        · exact hm.past_lt e he
        · exact List.mem_singleton.mp he ▸ hlt
      · rcases List.mem_append.mp he with he | he
        · exact hm.asked e he q' hq'
        · obtain rfl := List.mem_singleton.mp he
          exact nomatch hq'
      · rcases List.mem_append.mp he with he | he
        · exact hm.returned e he b' hb'
        · obtain rfl := List.mem_singleton.mp he
          exact ⟨s, hrefl s, Sum.inr.inj hb' ▸ hq⟩
      · obtain ⟨e, he, hopened⟩ := hm.opened f hf
        exact ⟨e, List.mem_append_left _ he, hopened⟩
      · rcases List.mem_append.mp he with he | he
        · exact hm.pending f hf e he hid q' hq'
        · obtain rfl := List.mem_singleton.mp he
          exact nomatch hq'
    | asked q next =>
      obtain ⟨hs, hg, hnext⟩ := hp.asked hrefl htrans hrun
      have hm := h.state htrans hs
      have hlast : (⟨id, c, log, .inl q⟩ : Entry κ ω α β) ∈ m.history ++ [⟨id, c, log, .inl q⟩] :=
        List.mem_append_right _ (List.mem_singleton_self _)
      refine ⟨?_, List.nodup_cons.mpr ⟨hnew, hm.distinct⟩, ?_, fun e he => ?_, fun e he q' hq' => ?_,
        fun e he b' hb' => ?_, ?_, ?_, hordered _⟩
      · exact List.forall_mem_cons.mpr ⟨hnext, hm.resumes⟩
      · exact List.forall_mem_cons.mpr ⟨hlt, hm.open_lt⟩
      · rcases List.mem_append.mp he with he | he
        · exact hm.past_lt e he
        · exact List.mem_singleton.mp he ▸ hlt
      · rcases List.mem_append.mp he with he | he
        · exact hm.asked e he q' hq'
        · obtain rfl := List.mem_singleton.mp he
          exact ⟨s, hrefl s, Sum.inl.inj hq' ▸ hg⟩
      · rcases List.mem_append.mp he with he | he
        · exact hm.returned e he b' hb'
        · obtain rfl := List.mem_singleton.mp he
          exact nomatch hb'
      · refine List.forall_mem_cons.mpr ⟨⟨_, hlast, q, rfl, rfl, rfl⟩, fun f hf => ?_⟩
        obtain ⟨e, he, hopened⟩ := hm.opened f hf
        exact ⟨e, List.mem_append_left _ he, hopened⟩
      · refine List.forall_mem_cons.mpr ⟨fun e he hid q' hq' => ?_, fun f hf e he hid q' hq' => ?_⟩
        · rcases List.mem_append.mp he with he | he
          · exact .inl (hpast e he hid q' hq')
          · obtain rfl := List.mem_singleton.mp he
            exact .inr (Sum.inl.inj hq').symm
        · rcases List.mem_append.mp he with he | he
          · exact hm.pending f hf e he hid q' hq'
          · obtain rfl := List.mem_singleton.mp he
            exact absurd (List.mem_map.mpr ⟨f, hf, hid.symm⟩) hnew

variable {body : κ → Prog σ ω α β} {env : ε → σ → σ}

/-- A step keeps the object sound, where every call meets its specification. -/
theorem Sound.step (henv : ∀ e s, R s (env e s))
    (hbody : ∀ c s, (body c).Meets R (G c) (Q c) [] s) (h : m.Sound R G Q) (e : Event κ α ε) :
    (m.step body env e).Sound R G Q := by
  cases e with
  | call c =>
    refine h.count.advance hrefl htrans (hbody c _) (Nat.lt_succ_self _) (fun hmem => ?_)
      (fun e he hid => ?_)
    · obtain ⟨f, hf, hid⟩ := List.mem_map.mp hmem
      exact absurd (h.open_lt f hf) (hid ▸ Nat.lt_irrefl _)
    · exact absurd (h.past_lt e he) (hid ▸ Nat.lt_irrefl _)
  | answer a =>
    rw [Machine.step]
    cases hframes : m.frames with
    | nil => exact h
    | cons f rest =>
      have hf : f ∈ m.frames := hframes ▸ List.mem_cons_self
      have hdistinct := h.distinct
      rw [hframes, List.map_cons, List.nodup_cons] at hdistinct
      refine (h.pop hframes).advance hrefl htrans (h.resumes f hf a _ (hrefl _)) (h.open_lt f hf)
        hdistinct.1 fun e he hid q hq => ?_
      rw [List.map_append, List.mem_append, List.map_singleton, List.mem_singleton]
      exact h.pending f hf e he hid q hq
  | environment e => exact h.state htrans (henv e _)

/-- Behind every run the object is sound. -/
theorem sound_run (henv : ∀ e s, R s (env e s))
    (hbody : ∀ c s, (body c).Meets R (G c) (Q c) [] s) (s : σ) (events : List (Event κ α ε)) :
    (events.foldl (Machine.step body env) (initial s)).Sound R G Q := by
  have hrun (m : Machine κ σ ω α β) (h : m.Sound R G Q) :
      (events.foldl (Machine.step body env) m).Sound R G Q := by
    induction events generalizing m with
    | nil => exact h
    | cons e events ih => exact ih _ (h.step hrefl htrans henv hbody e)
  exact hrun _ (sound_initial s)

end Soundness

section Exclusion

variable {R : σ → σ → Prop} {G : κ → List (ω × α) → σ → ω → Prop}
  {Q : κ → List (ω × α) → σ → β → Prop} {C : κ → κ → Prop} {H : κ → σ → Prop}
  {body : κ → Prog σ ω α β} {env : ε → σ → σ} {m : Machine κ σ ω α β}

/-- Calls that clash do not both ask. -/
def Exclusive (C : κ → κ → Prop) (m : Machine κ σ ω α β) : Prop :=
  ∀ e ∈ m.history, ∀ e' ∈ m.history, ∀ q q', e.outcome = .inl q → e'.outcome = .inl q' →
    e.id ≠ e'.id → ¬ C e.call e'.call

theorem Exclusive.advance (hsymm : ∀ c c', C c c' → C c' c) (h : m.Exclusive C) {id : ℕ}
    {c : κ} {log : List (ω × α)} {rest : List (Frame κ σ ω α β)} {p : Prog σ ω α β}
    (hclash : ∀ e ∈ m.history, ∀ q, e.outcome = .inl q → e.id ≠ id → C e.call c →
      ∀ q next t, p.run m.state ≠ (.asked q next, t)) :
    (m.advance id c log rest p).Exclusive C := by
  rw [Machine.advance]
  cases hrun : p.run m.state with
  | mk pause s =>
    cases pause with
    | returned b =>
      intro e he e' he' q q' hq hq'
      rcases List.mem_append.mp he with he | he
      · rcases List.mem_append.mp he' with he' | he'
        · exact h e he e' he' q q' hq hq'
        · obtain rfl := List.mem_singleton.mp he'
          exact nomatch hq'
      · obtain rfl := List.mem_singleton.mp he
        exact nomatch hq
    | asked question next =>
      intro e he e' he' q q' hq hq' hid hboth
      rcases List.mem_append.mp he with he | he
      · rcases List.mem_append.mp he' with he' | he'
        · exact h e he e' he' q q' hq hq' hid hboth
        · obtain rfl := List.mem_singleton.mp he'
          exact hclash e he q hq hid hboth _ _ _ hrun
      · obtain rfl := List.mem_singleton.mp he
        rcases List.mem_append.mp he' with he' | he'
        · exact hclash e' he' q' hq' hid.symm (hsymm _ _ hboth) _ _ _ hrun
        · obtain rfl := List.mem_singleton.mp he'
          exact hid rfl

/-- A call that clashes with one that has asked does not ask, where every question of a call finds
it held and a call that clashes with a held one does not ask. -/
theorem Exclusive.step (hsymm : ∀ c c', C c c' → C c' c)
    (hheld : ∀ c log s q, G c log s q → H c s)
    (hkeep : ∀ c s t, R s t → H c s → H c t)
    (hblocked : ∀ c c' s, C c c' → H c s → ∀ q next t, (body c').run s ≠ (.asked q next, t))
    (hm : m.Sound R G Q) (h : m.Exclusive C) (e : Event κ α ε) :
    (m.step body env e).Exclusive C := by
  cases e with
  | call c =>
    refine Exclusive.advance (m := { m with count := m.count + 1 }) hsymm h
      fun e he q hq _ hclash => ?_
    obtain ⟨s, hs, hg⟩ := hm.asked e he q hq
    exact hblocked _ _ _ hclash (hkeep _ _ _ hs (hheld _ _ _ _ hg))
  | answer a =>
    rw [Machine.step]
    cases hframes : m.frames with
    | nil => exact h
    | cons f rest =>
      refine Exclusive.advance hsymm h fun e he q hq hid hclash => ?_
      have hf : f ∈ m.frames := hframes ▸ List.mem_cons_self
      obtain ⟨e', he', q', hid', hcall, hq'⟩ := hm.opened f hf
      rw [← hcall] at hclash
      rw [← hid'] at hid
      exact absurd hclash (h e he e' he' q q' hq hq' hid)
  | environment e => exact h

/-- No run has two calls ask that clash. -/
theorem exclusive_run (hrefl : ∀ s, R s s) (htrans : ∀ s t u, R s t → R t u → R s u)
    (henv : ∀ e s, R s (env e s)) (hbody : ∀ c s, (body c).Meets R (G c) (Q c) [] s)
    (hsymm : ∀ c c', C c c' → C c' c) (hheld : ∀ c log s q, G c log s q → H c s)
    (hkeep : ∀ c s t, R s t → H c s → H c t)
    (hblocked : ∀ c c' s, C c c' → H c s → ∀ q next t, (body c').run s ≠ (.asked q next, t))
    (s : σ) (events : List (Event κ α ε)) :
    (events.foldl (Machine.step body env) (initial s)).Exclusive C := by
  have hrun (m : Machine κ σ ω α β) (hm : m.Sound R G Q) (h : m.Exclusive C) :
      (events.foldl (Machine.step body env) m).Exclusive C := by
    induction events generalizing m with
    | nil => exact h
    | cons e events ih =>
      exact ih _ (hm.step hrefl htrans henv hbody e) (h.step hsymm hheld hkeep hblocked hm e)
  exact hrun _ (sound_initial s) fun _ he => nomatch he

end Exclusion

end Machine

end Kdna.Reentrant

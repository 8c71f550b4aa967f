import Kdna.Json.HeapExact

/-!
# Canonical texts that are kept

`canonical-json-memo.js` keeps the canonical text of a frozen object under its identity. Between two
calls objects change. A frozen object does not, but an object that it refers to may.
-/

namespace Kdna.Heap

variable {n : ℕ}

/-- `frozen.includes(i)` -/
local instance decidableListed (i : Fin n) (frozen : List (Fin n)) : Decidable (i ∈ frozen) :=
  decidable_of_iff (frozen.any fun j => decide (j = i)) (by simp)

/-- The objects, those that are frozen, and the texts that are kept. -/
structure Store (n : ℕ) where
  graph : Graph n
  frozen : List (Fin n)
  memo : List (Fin n × String)

section Model

/-- The loop of `freeze` over the values of an object: whether it ends, and what is frozen then. -/
def freezeAll (freeze : Slot n → List (Fin n) → Bool × List (Fin n)) :
    List (Slot n) → List (Fin n) → Bool × List (Fin n)
  | [], frozen => (true, frozen)
  | v :: vs, frozen =>
    match freeze v frozen with
    | (true, frozen) => freezeAll freeze vs frozen
    | (false, frozen) => (false, frozen)

/-- `freeze(value)` with room for `levels` calls on the stack, where `got` is what accessors return.
An object is frozen behind the objects that it refers to. -/
def freeze (g : Graph n) (got : Fin n → List ℕ → Slot n) :
    ℕ → Slot n → List (Fin n) → Bool × List (Fin n)
  | 0, _, frozen => (false, frozen)
  | levels + 1, value, frozen =>
    match value with
    | .ref i =>
      if i ∈ frozen then (true, frozen)
      else
        match freezeAll (freeze g got levels) ((g i).props.map fun p => p.2.getD (got i p.1))
          frozen with
        | (true, frozen) => (true, i :: frozen)
        | (false, frozen) => (false, frozen)
    | _ => (true, frozen)

variable (limit : Option ℕ)

/-- `canonicalJson(input)` of `canonical-json-memo.js` -/
def Store.canonicalJson (s : Store n) (input : Slot n) : Except Failure String × Store n :=
  match input with
  | .ref i =>
    if i ∈ s.frozen then
      match getKey i s.memo with
      | some hit => (.ok hit, s)
      | none =>
        match Heap.canonicalJson s.graph limit (.ref i) with
        | .ok out => (.ok out, { s with memo := upsert i (fun _ => out) s.memo })
        | .error e => (.error e, s)
    else (Heap.canonicalJson s.graph limit (.ref i), s)
  | input => (Heap.canonicalJson s.graph limit input, s)

/-- What can happen to the objects. -/
inductive Step (n : ℕ)
  /-- An object is given another prototype or other properties. -/
  | write (i : Fin n) (o : Node n)
  /-- `Object.freeze(value)` -/
  | objectFreeze (i : Fin n)
  /-- `freeze(value)` -/
  | freeze (levels : ℕ) (got : Fin n → List ℕ → Slot n) (value : Slot n)
  /-- `canonicalJson(value)` -/
  | encode (value : Slot n)

/-- One step. A frozen object is not written. -/
def Store.step (s : Store n) : Step n → Store n
  | .write i o => if i ∈ s.frozen then s else { s with graph := Function.update s.graph i o }
  | .objectFreeze i => { s with frozen := i :: s.frozen }
  | .freeze levels got value => { s with frozen := (freeze s.graph got levels value s.frozen).2 }
  | .encode value => (s.canonicalJson limit value).2

/-- The store behind a history. -/
def Store.after (s : Store n) (history : List (Step n)) : Store n := history.foldl (Store.step limit) s

end Model

/-- An object is the value, or is reached from it. -/
def Reaches (g : Graph n) (i j : Fin n) : Prop := Relation.ReflTransGen (Edge g) i j

section Congruence

variable {g g' : Graph n} {limit : Option ℕ} {S : Set (Fin n)}

/-- Two graphs agree on objects that refer to no others. -/
def AgreeOn (g g' : Graph n) (S : Set (Fin n)) : Prop :=
  ∀ i ∈ S, g i = g' i ∧ ∀ j, Edge g i j → j ∈ S

/-- The value is no object outside of the set. -/
def Slot.Inside (S : Set (Fin n)) (value : Slot n) : Prop := ∀ i, value = .ref i → i ∈ S

theorem AgreeOn.inside (h : AgreeOn g g' S) {i : Fin n} (hi : i ∈ S)
    {p : List ℕ × Option (Slot n)} (hp : p ∈ (g i).props) {w : Slot n} (hw : p.2 = some w) :
    w.Inside S := by
  rintro j rfl
  exact (h i hi).2 j ⟨p, hp, hw⟩

theorem checkKeys_congr {check check' : Slot n → State n → Except Failure (ℕ × State n)} {o : Node n}
    {props : List (List ℕ × Option (Slot n))}
    (h : ∀ p ∈ props, ∀ w, p.2 = some w → check w = check' w) (index height : ℕ) (s : State n) :
    checkKeys limit check o index height props s = checkKeys limit check' o index height props s := by
  induction props generalizing index height s with
  | nil => rfl
  | cons p props ih =>
    obtain ⟨key, property⟩ := p
    obtain ⟨hfirst, hrest⟩ := List.forall_mem_cons.mp h
    unfold checkKeys
    cases property with
    | none => rfl
    | some w =>
      simp only [orFail, ok_bind, hfirst w rfl, ih hrest]

/-- The check does not look behind the objects that it reaches. -/
theorem check_congr (h : AgreeOn g g' S) {levels : ℕ} {active : List (Fin n)} {value : Slot n}
    (hvalue : value.Inside S) :
    check g limit levels active value = check g' limit levels active value := by
  induction levels generalizing active value with
  | zero => rfl
  | succ levels ih =>
    funext s
    cases value with
    | null => rfl
    | bool b => rfl
    | number x => rfl
    | text units => rfl
    | other => rfl
    | ref i =>
      have hi := hvalue i rfl
      have hkeys : ∀ s, checkKeys limit (check g limit levels (i :: active)) (g i) 0 0 (g i).props s =
          checkKeys limit (check g' limit levels (i :: active)) (g i) 0 0 (g i).props s :=
        fun s => checkKeys_congr (fun p hp w hw => ih (h.inside hi hp hw)) 0 0 s
      unfold check
      simp only [hkeys]
      rw [(h i hi).1]

theorem unfolded_congr (h : AgreeOn g g' S) {levels : ℕ} {value : Slot n} (hvalue : value.Inside S) :
    unfolded g levels value = unfolded g' levels value := by
  induction levels generalizing value with
  | zero => rfl
  | succ levels ih =>
    cases value with
    | null => rfl
    | bool b => rfl
    | number x => rfl
    | text units => rfl
    | other => rfl
    | ref i =>
      have hi := hvalue i rfl
      have hprops : (g i).props.map (fun p => (textOf p.1, p.2.elim .null (unfolded g levels))) =
          (g i).props.map fun p => (textOf p.1, p.2.elim .null (unfolded g' levels)) := by
        refine List.map_congr_left fun p hp => Prod.ext rfl ?_
        cases hw : p.2 with
        | none => rfl
        | some w => exact ih (h.inside hi hp hw)
      unfold unfolded
      simp only [hprops]
      rw [(h i hi).1]

/-- The uncached text of a value depends on the objects that it reaches. -/
theorem canonicalJson_congr (h : AgreeOn g g' S) {value : Slot n} (hvalue : value.Inside S) :
    Heap.canonicalJson g limit value = Heap.canonicalJson g' limit value := by
  unfold Heap.canonicalJson assertStrictJson meter
  rw [check_congr h hvalue, unfolded_congr h hvalue]

end Congruence

section Histories

variable {limit : Option ℕ} {s t : Store n} {i : Fin n} {text : String}

/-- What refers to frozen objects only, of those that are frozen. -/
def Closed (g : Graph n) (frozen : List (Fin n)) : Prop := ∀ i ∈ frozen, ∀ j, Edge g i j → j ∈ frozen

/-- What a frozen object reaches in a closed set is frozen. -/
theorem Closed.reaches {g : Graph n} {frozen : List (Fin n)} (h : Closed g frozen) (hi : i ∈ frozen)
    {j : Fin n} (hj : Reaches g i j) : j ∈ frozen := by
  induction hj with
  | refl => exact hi
  | tail _ hedge ih => exact h _ ih _ hedge

/-- What a call of `freeze` does to the frozen objects. -/
structure Freezes (g : Graph n) (value : Slot n) (frozen : List (Fin n))
    (result : Bool × List (Fin n)) : Prop where
  subset : frozen ⊆ result.2
  closed : Closed g frozen → Closed g result.2
  /-- A call that returns has frozen its object. -/
  froze : result.1 = true → ∀ i, value = .ref i → i ∈ result.2

theorem freezeAll_spec {g : Graph n} {freeze : Slot n → List (Fin n) → Bool × List (Fin n)}
    (hfreeze : ∀ v frozen, Freezes g v frozen (freeze v frozen)) (vs : List (Slot n))
    (frozen : List (Fin n)) :
    frozen ⊆ (freezeAll freeze vs frozen).2 ∧
      (Closed g frozen → Closed g (freezeAll freeze vs frozen).2) ∧
      ((freezeAll freeze vs frozen).1 = true → ∀ i, .ref i ∈ vs → i ∈ (freezeAll freeze vs frozen).2) := by
  induction vs generalizing frozen with
  | nil => exact ⟨List.Subset.refl _, id, fun _ i hi => absurd hi List.not_mem_nil⟩
  | cons v vs ih =>
    have hv := hfreeze v frozen
    unfold freezeAll
    rcases hresult : freeze v frozen with ⟨returned, frozen'⟩
    rw [hresult] at hv
    cases returned with
    | false => exact ⟨hv.subset, hv.closed, fun h => by cases h⟩
    | true =>
      obtain ⟨hsubset, hclosed, hfroze⟩ := ih frozen'
      refine ⟨List.Subset.trans hv.subset hsubset, fun h => hclosed (hv.closed h), fun h i hi => ?_⟩
      rcases List.mem_cons.mp hi with heq | htail
      · exact hsubset (hv.froze rfl i heq.symm)
      · exact hfroze h i htail

/-- `freeze` keeps a closed set closed, also where the stack ends before it does. -/
theorem freeze_spec (g : Graph n) (got : Fin n → List ℕ → Slot n) (levels : ℕ) (value : Slot n)
    (frozen : List (Fin n)) : Freezes g value frozen (freeze g got levels value frozen) := by
  induction levels generalizing value frozen with
  | zero => exact ⟨List.Subset.refl _, id, fun h => by cases h⟩
  | succ levels ih =>
    have hother : (∀ i, value ≠ .ref i) → Freezes g value frozen (true, frozen) := fun hne =>
      ⟨List.Subset.refl _, id, fun _ i hi => absurd hi (hne i)⟩
    cases value with
    | null => exact hother nofun
    | bool b => exact hother nofun
    | number x => exact hother nofun
    | text units => exact hother nofun
    | other => exact hother nofun
    | ref i =>
      unfold freeze
      dsimp only
      split
      · next hmem =>
        refine ⟨List.Subset.refl _, id, fun _ j hj => ?_⟩
        cases hj
        exact hmem
      · obtain ⟨hsubset, hclosed, hfroze⟩ :=
          freezeAll_spec ih ((g i).props.map fun p => p.2.getD (got i p.1)) frozen
        generalize freezeAll (freeze g got levels) ((g i).props.map fun p => p.2.getD (got i p.1))
          frozen = result at *
        obtain ⟨returned, frozen'⟩ := result
        cases returned with
        | false => exact ⟨hsubset, hclosed, fun h => by cases h⟩
        | true =>
          refine ⟨List.Subset.trans hsubset (List.subset_cons_self _ _), fun h => ?_, fun _ j hj => ?_⟩
          · -- the values of the object are frozen before the object is
            intro j hj k hedge
            rcases List.mem_cons.mp hj with rfl | hj
            · obtain ⟨p, hp, hk⟩ := hedge
              exact List.mem_cons_of_mem _ (hfroze rfl k (List.mem_map.mpr ⟨p, hp, by rw [hk]; rfl⟩))
            · exact List.mem_cons_of_mem _ (hclosed h j hj k hedge)
          · cases hj
            exact List.mem_cons_self

/-- What later stores keep: frozen objects stay as they are, and kept texts are kept. -/
structure Keeps (s t : Store n) : Prop where
  frozen : s.frozen ⊆ t.frozen
  graph : ∀ i ∈ s.frozen, t.graph i = s.graph i
  memo : ∀ i text, getKey i s.memo = some text → getKey i t.memo = some text

theorem Keeps.refl (s : Store n) : Keeps s s :=
  ⟨List.Subset.refl _, fun _ _ => rfl, fun _ _ h => h⟩

theorem Keeps.trans {u : Store n} (h : Keeps s t) (h' : Keeps t u) : Keeps s u where
  frozen := List.Subset.trans h.frozen h'.frozen
  graph i hi := (h'.graph i (h.frozen hi)).trans (h.graph i hi)
  memo i text htext := h'.memo i text (h.memo i text htext)

/-- What a memoised call does: it returns a kept text, or what the uncached encoder returns, which
it may keep under a frozen object. -/
theorem canonicalJson_cases (limit : Option ℕ) (s : Store n) (input : Slot n) :
    (∃ i hit, input = .ref i ∧ getKey i s.memo = some hit ∧
        s.canonicalJson limit input = (.ok hit, s)) ∨
      (∃ i out, input = .ref i ∧ i ∈ s.frozen ∧ getKey i s.memo = none ∧
        Heap.canonicalJson s.graph limit input = .ok out ∧
        s.canonicalJson limit input = (.ok out, ⟨s.graph, s.frozen, upsert i (fun _ => out) s.memo⟩)) ∨
      s.canonicalJson limit input = (Heap.canonicalJson s.graph limit input, s) := by
  cases input with
  | null => exact .inr (.inr rfl)
  | bool b => exact .inr (.inr rfl)
  | number x => exact .inr (.inr rfl)
  | text units => exact .inr (.inr rfl)
  | other => exact .inr (.inr rfl)
  | ref i =>
    unfold Store.canonicalJson
    dsimp only
    split
    · next hfrozen =>
      cases hhit : getKey i s.memo with
      | some hit => exact .inl ⟨i, hit, rfl, hhit, rfl⟩
      | none =>
        cases hout : Heap.canonicalJson s.graph limit (.ref i) with
        | ok out => exact .inr (.inl ⟨i, out, rfl, hfrozen, hhit, rfl, rfl⟩)
        | error e => exact .inr (.inr rfl)
    · exact .inr (.inr rfl)

theorem keeps_step (limit : Option ℕ) (s : Store n) (e : Step n) : Keeps s (s.step limit e) := by
  cases e with
  | write i o =>
    unfold Store.step
    dsimp only
    split
    · exact Keeps.refl s
    · next hnot =>
      refine ⟨List.Subset.refl _, fun j hj => Function.update_of_ne ?_ _ _, fun _ _ h => h⟩
      rintro rfl
      exact hnot hj
  | objectFreeze i => exact ⟨List.subset_cons_self _ _, fun _ _ => rfl, fun _ _ h => h⟩
  | freeze levels got value =>
    exact ⟨(freeze_spec s.graph got levels value s.frozen).subset, fun _ _ => rfl, fun _ _ h => h⟩
  | encode value =>
    unfold Store.step
    dsimp only
    rcases canonicalJson_cases limit s value with
      ⟨i, hit, -, -, hcall⟩ | ⟨i, out, -, -, hnone, -, hcall⟩ | hcall
    · rw [hcall]
      exact Keeps.refl s
    · rw [hcall]
      refine ⟨List.Subset.refl _, fun _ _ => rfl, fun j text hj => ?_⟩
      dsimp only
      rw [getKey_upsert, if_neg]
      · exact hj
      · rintro rfl
        rw [hnone] at hj
        cases hj
    · rw [hcall]
      exact Keeps.refl s

theorem keeps_after (limit : Option ℕ) (s : Store n) (history : List (Step n)) :
    Keeps s (s.after limit history) := by
  induction history generalizing s with
  | nil => exact Keeps.refl s
  | cons e history ih => exact (keeps_step limit s e).trans (ih _)

/-- The uncached text of an object that reaches only frozen ones is the same later. -/
theorem Keeps.canonicalJson_eq (h : Keeps s t) (hfrozen : ∀ j, Reaches s.graph i j → j ∈ s.frozen) :
    Heap.canonicalJson t.graph limit (.ref i) = Heap.canonicalJson s.graph limit (.ref i) := by
  have hagree : AgreeOn s.graph t.graph {j | Reaches s.graph i j} := fun j hj =>
    ⟨(h.graph j (hfrozen j hj)).symm, fun k hedge => Relation.ReflTransGen.tail hj hedge⟩
  refine (canonicalJson_congr hagree fun j hj => ?_).symm
  cases hj
  exact Relation.ReflTransGen.refl

/-- Every kept text is the uncached one, and stays it. -/
structure Sound (limit : Option ℕ) (s : Store n) : Prop where
  closed : Closed s.graph s.frozen
  frozen : ∀ i text, getKey i s.memo = some text → i ∈ s.frozen
  text : ∀ i text, getKey i s.memo = some text → Heap.canonicalJson s.graph limit (.ref i) = .ok text

/-- An object that is frozen alone refers to frozen objects only. -/
def Step.Deep (s : Store n) : Step n → Prop
  | .objectFreeze i => ∀ j, Edge s.graph i j → j ∈ s.frozen
  | _ => True

/-- Every step of a history is deep where it is taken. -/
def DeepHistory (limit : Option ℕ) (s : Store n) : List (Step n) → Prop
  | [] => True
  | e :: history => e.Deep s ∧ DeepHistory limit (s.step limit e) history

/-- A memoised call on a sound store returns what the uncached encoder returns. -/
theorem Sound.agrees (h : Sound limit s) (value : Slot n) :
    (s.canonicalJson limit value).1 = Heap.canonicalJson s.graph limit value := by
  rcases canonicalJson_cases limit s value with
    ⟨i, hit, rfl, hhit, hcall⟩ | ⟨i, out, rfl, -, -, hout, hcall⟩ | hcall
  · rw [hcall, h.text i hit hhit]
  · rw [hcall, hout]
  · rw [hcall]

theorem Closed.step (h : Closed s.graph s.frozen) {e : Step n} (he : e.Deep s) :
    Closed (s.step limit e).graph (s.step limit e).frozen := by
  cases e with
  | write i o =>
    unfold Store.step
    dsimp only
    split
    · exact h
    · next hnot =>
      rintro j hj k ⟨p, hp, hk⟩
      have hne : j ≠ i := fun heq => hnot (heq ▸ hj)
      dsimp only at hp
      rw [Function.update_of_ne hne] at hp
      exact h j hj k ⟨p, hp, hk⟩
  | objectFreeze i =>
    intro j hj k hedge
    rcases List.mem_cons.mp hj with rfl | hj
    · exact List.mem_cons_of_mem _ (he k hedge)
    · exact List.mem_cons_of_mem _ (h j hj k hedge)
  | freeze levels got value => exact (freeze_spec s.graph got levels value s.frozen).closed h
  | encode value =>
    unfold Store.step
    dsimp only
    rcases canonicalJson_cases limit s value with
      ⟨_, _, -, -, hcall⟩ | ⟨_, _, -, -, -, -, hcall⟩ | hcall
    · rw [hcall]
      exact h
    · rw [hcall]
      exact h
    · rw [hcall]
      exact h

/-- A step keeps a store sound. -/
theorem Sound.step (h : Sound limit s) {e : Step n} (he : e.Deep s) : Sound limit (s.step limit e) := by
  have hkeeps := keeps_step limit s e
  -- a text that was kept before is kept of an object that reaches frozen ones
  have hold : ∀ i text, getKey i s.memo = some text → i ∈ (s.step limit e).frozen ∧
      Heap.canonicalJson (s.step limit e).graph limit (.ref i) = .ok text := by
    intro i text htext
    have hi := h.frozen i text htext
    refine ⟨hkeeps.frozen hi, ?_⟩
    rw [hkeeps.canonicalJson_eq fun j hj => h.closed.reaches hi hj, h.text i text htext]
  have hall : ∀ i text, getKey i (s.step limit e).memo = some text → i ∈ (s.step limit e).frozen ∧
      Heap.canonicalJson (s.step limit e).graph limit (.ref i) = .ok text := by
    intro i text htext
    cases e with
    | write j o =>
      apply hold i text
      unfold Store.step at htext
      dsimp only at htext
      split at htext
      · exact htext
      · exact htext
    | objectFreeze j => exact hold i text htext
    | freeze levels got value => exact hold i text htext
    | encode value =>
      unfold Store.step at htext ⊢
      dsimp only at htext ⊢
      rcases canonicalJson_cases limit s value with
        ⟨_, _, -, -, hcall⟩ | ⟨j, out, rfl, hfrozen, -, hout, hcall⟩ | hcall
      · rw [hcall] at htext ⊢
        exact ⟨h.frozen i text htext, h.text i text htext⟩
      · rw [hcall] at htext ⊢
        dsimp only at htext ⊢
        rw [getKey_upsert] at htext
        split_ifs at htext with hij
        · subst hij
          rw [← Option.some.inj htext]
          exact ⟨hfrozen, hout⟩
        · exact ⟨h.frozen i text htext, h.text i text htext⟩
      · rw [hcall] at htext ⊢
        exact ⟨h.frozen i text htext, h.text i text htext⟩
  exact ⟨h.closed.step he, fun i text htext => (hall i text htext).1,
    fun i text htext => (hall i text htext).2⟩

theorem Sound.after (h : Sound limit s) {history : List (Step n)} (hdeep : DeepHistory limit s history) :
    Sound limit (s.after limit history) := by
  induction history generalizing s with
  | nil => exact h
  | cons e history ih => exact ih (h.step hdeep.1) hdeep.2

/-- Objects of which none is frozen and no text is kept. -/
def fresh (g : Graph n) : Store n := ⟨g, [], []⟩

/-- In every history of changes, calls of `freeze` and memoised calls in which an object is frozen
alone only when what it refers to is frozen, a memoised call on any value returns what the uncached
encoder returns, its failures included. -/
theorem memo_exact (limit : Option ℕ) (g : Graph n) (history : List (Step n))
    (hdeep : DeepHistory limit (fresh g) history) (value : Slot n) :
    (((fresh g).after limit history).canonicalJson limit value).1 =
      Heap.canonicalJson ((fresh g).after limit history).graph limit value := by
  have hfresh : Sound limit (fresh g) :=
    ⟨fun _ h => absurd h List.not_mem_nil, (fun _ _ h => by cases h), (fun _ _ h => by cases h)⟩
  exact (hfresh.after hdeep).agrees value

/-- No object: neither an array nor of an ordinary prototype. -/
def foreign : Node n := ⟨none, false, false, []⟩

/-- Behind a change of an object that a value reaches, it is still reached. -/
theorem Reaches.update {g : Graph n} {j : Fin n} (h : Reaches g i j) (o : Node n) :
    Reaches (Function.update g j o) i j := by
  induction h using Relation.ReflTransGen.head_induction_on with
  | refl => exact Relation.ReflTransGen.refl
  | @head a b hedge _ ih =>
    by_cases ha : a = j
    · rw [ha]
      exact Relation.ReflTransGen.refl
    · obtain ⟨p, hp, hb⟩ := hedge
      refine Relation.ReflTransGen.head ⟨p, ?_, hb⟩ ih
      rwa [Function.update_of_ne ha]

/-- What the uncached encoder accepts reaches plain data. -/
theorem sound_of_canonicalJson {g : Graph n}
    (h : Heap.canonicalJson g limit (.ref i) = .ok text) {j : Fin n} (hj : Reaches g i j) :
    (g j).Sound := by
  unfold Heap.canonicalJson assertStrictJson at h
  obtain ⟨_, hstrict, -⟩ := bind_eq_ok_iff.mp h
  obtain ⟨octets, hmeter, -⟩ := bind_eq_ok_iff.mp hstrict
  have hfits : Fits g (maxDepth + 1) (.ref i) := fits_of_meter g limit hmeter
  rcases Relation.reflTransGen_iff_eq_or_transGen.mp hj with rfl | hbehind
  · exact hfits.1
  · obtain ⟨below, -, hbelow⟩ := hfits.reaches hbehind
    cases below with
    | zero => exact hbelow.elim
    | succ below => exact hbelow.1

/-- A text that is kept is right in every later history exactly when all that its object reaches was
frozen when it was kept. -/
theorem kept_exact (hfrozen : i ∈ s.frozen) (hkept : getKey i s.memo = some text)
    (htext : Heap.canonicalJson s.graph limit (.ref i) = .ok text) :
    (∀ history, ((s.after limit history).canonicalJson limit (.ref i)).1 =
        Heap.canonicalJson (s.after limit history).graph limit (.ref i)) ↔
      ∀ j, Reaches s.graph i j → j ∈ s.frozen := by
  have hhit {t : Store n} (ht : Keeps s t) : (t.canonicalJson limit (.ref i)).1 = .ok text := by
    unfold Store.canonicalJson
    dsimp only
    rw [if_pos (ht.frozen hfrozen), ht.memo i text hkept]
  constructor
  · intro h j hj
    by_contra hnot
    -- the object that is not frozen can be changed to one that is no plain data
    have hbroken := h [.write j foreign]
    rw [hhit (keeps_after limit s _)] at hbroken
    have hgraph : (s.after limit [.write j foreign]).graph = Function.update s.graph j foreign := by
      change (s.step limit (.write j foreign)).graph = _
      rw [Store.step, if_neg hnot]
    rw [hgraph] at hbroken
    have hsound := sound_of_canonicalJson hbroken.symm (hj.update foreign)
    rw [Function.update_self] at hsound
    exact absurd hsound.prototype (by simp [foreign])
  · intro h history
    have hkeeps := keeps_after limit s history
    rw [hhit hkeeps, hkeeps.canonicalJson_eq h, htext]

end Histories

section Samples

/-- The object that refers to the other one. -/
def outer : Fin 2 := (Fin.last 0).castSucc

/-- The empty object. -/
def inner : Fin 2 := Fin.last 1

/-- An object with one property, which is an empty object. -/
def nested : Graph 2 := fun i =>
  ⟨none, true, false, if i.val = 0 then [([97], some (.ref inner))] else []⟩

/-- The objects are frozen, the text is kept, and a change is tried. -/
def nestedHistory : List (Step 2) :=
  [.freeze 3 (fun _ _ => .null) (.ref outer), .encode (.ref outer), .write inner foreign]

theorem memo_exact_nested :
    (((fresh nested).after none nestedHistory).canonicalJson none (.ref outer)).1 =
      Heap.canonicalJson ((fresh nested).after none nestedHistory).graph none (.ref outer) :=
  memo_exact none nested nestedHistory ⟨trivial, trivial, trivial, trivial⟩ (.ref outer)

/-- The outer object alone is frozen, and its text is kept. -/
def shallow : Store 2 := ⟨nested, [outer], [(outer, "\x7b\"a\":\x7b\x7d\x7d")]⟩

theorem kept_exact_shallow : ¬ ∀ history,
    ((shallow.after none history).canonicalJson none (.ref outer)).1 =
      Heap.canonicalJson (shallow.after none history).graph none (.ref outer) := by
  intro h
  have hreaches : Reaches nested outer inner :=
    Relation.ReflTransGen.single ⟨([97], some (.ref inner)), List.mem_singleton_self _, rfl⟩
  have hfrozen := (@kept_exact 2 none shallow outer "\x7b\"a\":\x7b\x7d\x7d" (by decide) rfl
    (by decide +kernel)).mp h inner hreaches
  exact absurd hfrozen (by decide)

end Samples

end Kdna.Heap

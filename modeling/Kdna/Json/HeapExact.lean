import Kdna.Json.Heap
import Mathlib.Logic.Relation

/-!
# The memoised check and the full walk

Both walks accept exactly the values whose paths are short and lead to plain data only: a value on
a cycle has paths of every length. The check knows the height of every object that it has left,
so it may skip the object; what it charges is then less than the text of the tree that the value
unfolds to, and the same on a tree.
-/

namespace Kdna.Heap

variable {n : ℕ}

/-- The tests of an object that do not look at the values of its properties. -/
structure Node.Sound (o : Node n) : Prop where
  prototype : o.array.isSome ∨ o.ordinary
  symbols : !o.symbols
  length : ∀ length ∈ o.array, length ≤ 10000
  dense : o.dense

/-- Every path from the value is at most `levels` values long and leads to plain data. -/
def Fits (g : Graph n) : ℕ → Slot n → Prop
  | 0, _ => False
  | levels + 1, value =>
    match value with
    | .null => True
    | .bool _ => True
    | .number x => x.isSome
    | .text units => scalarUnits units
    | .other => False
    | .ref i => (g i).Sound ∧
      ∀ p ∈ (g i).props, scalarUnits p.1 ∧ ∃ w, p.2 = some w ∧ Fits g levels w

/-- The objects on the paths from a value, down to a depth, once for each path. -/
def visits (g : Graph n) : ℕ → Slot n → List (Fin n)
  | 0, _ => []
  | levels + 1, value =>
    match value with
    | .ref i => i :: (g i).props.flatMap fun p => p.2.elim [] (visits g levels)
    | _ => []

/-- The value is a tree: no object is on two paths. -/
def IsTree (g : Graph n) (value : Slot n) : Prop := (visits g (maxDepth + 1) value).Nodup

/-- One object refers to the other. -/
def Edge (g : Graph n) (i j : Fin n) : Prop := ∃ p ∈ (g i).props, p.2 = some (.ref j)

section Paths

variable {g : Graph n} {limit : Option ℕ}

theorem within_mono {a b : ℕ} (hle : a ≤ b) (h : within limit b) : within limit a := by
  cases limit with
  | none => rfl
  | some most =>
    simp only [within, Option.all_some, decide_eq_true_eq] at h ⊢
    omega

theorem within_zero : within limit 0 := by
  cases limit with
  | none => rfl
  | some most => exact decide_eq_true (Nat.zero_le most)

/-- The paths from an object go through the objects it refers to. -/
theorem Fits.reaches {levels : ℕ} {i j : Fin n} (h : Fits g levels (.ref i))
    (hreach : Relation.TransGen (Edge g) i j) : ∃ below < levels, Fits g below (.ref j) := by
  have hstep : ∀ {levels : ℕ} {i j : Fin n}, Fits g levels (.ref i) → Edge g i j →
      ∃ below < levels, Fits g below (.ref j) := by
    rintro levels i j h ⟨p, hp, hj⟩
    cases levels with
    | zero => exact h.elim
    | succ levels =>
      obtain ⟨-, w, hw, hfits⟩ := h.2 p hp
      obtain rfl := Option.some.inj (hj.symm.trans hw)
      exact ⟨levels, Nat.lt_succ_self _, hfits⟩
  induction hreach with
  | single hij => exact hstep h hij
  | tail _ hjk ih =>
    obtain ⟨below, hbelow, hfits⟩ := ih
    obtain ⟨below', hbelow', hfits'⟩ := hstep hfits hjk
    exact ⟨below', hbelow'.trans hbelow, hfits'⟩

/-- A value on a cycle has paths of every length. -/
theorem Fits.not_cycle {levels : ℕ} {i : Fin n} (h : Fits g levels (.ref i)) :
    ¬ Relation.TransGen (Edge g) i i := by
  intro hcycle
  induction levels using Nat.strong_induction_on with
  | _ levels ih =>
    obtain ⟨below, hbelow, hfits⟩ := h.reaches hcycle
    exact ih below hbelow hfits

/-- The objects on the path to a value. -/
def OnPath (g : Graph n) (path : List (Fin n)) (value : Slot n) : Prop :=
  ∀ u ∈ path, ∀ j, value = .ref j → Relation.TransGen (Edge g) u j

theorem onPath_nil (value : Slot n) : OnPath g [] value := fun _ h => absurd h List.not_mem_nil

/-- An object is behind those on the path to it. -/
theorem OnPath.below {path : List (Fin n)} {i : Fin n} (h : OnPath g path (.ref i))
    {p : List ℕ × Option (Slot n)} (hp : p ∈ (g i).props) {w : Slot n} (hw : p.2 = some w) :
    OnPath g (i :: path) w := by
  intro u hu j hj
  have hedge : Edge g i j := ⟨p, hp, by rw [hw, hj]⟩
  rcases List.mem_cons.mp hu with rfl | hmem
  · exact .single hedge
  · exact (h u hmem i rfl).tail hedge

/-- An object that fits is not on the path to it. -/
theorem Fits.not_mem {levels : ℕ} {path : List (Fin n)} {i : Fin n} (h : Fits g levels (.ref i))
    (hpath : OnPath g path (.ref i)) : i ∉ path :=
  fun hmem => h.not_cycle (hpath i hmem i rfl)

end Paths

section Charges

variable {g : Graph n}

/-- What the keys of an object and the trees below them charge. -/
def keysCharge (o : Node n) (tree : Slot n → Json) : ℕ → List (List ℕ × Option (Slot n)) → ℕ
  | _, [] => 0
  | index, p :: rest =>
    keyCost o index p.1 + scalarBytes (p.2.elim .null tree) + keysCharge o tree (index + 1) rest

theorem keysCharge_eq (o : Node n) (tree : Slot n → Json) (index : ℕ)
    (props : List (List ℕ × Option (Slot n))) :
    keysCharge o tree index props =
      (props.map fun p => (if o.array.isSome then 0 else scalarBytes (.str (textOf p.1)) + 1) +
        scalarBytes (p.2.elim .null tree)).sum +
        (if index = 0 then props.length - 1 else props.length) := by
  induction props generalizing index with
  | nil => simp [keysCharge]
  | cons p rest ih =>
    rw [keysCharge, ih, List.map_cons, List.sum_cons, List.length_cons, keyCost,
      if_neg (Nat.succ_ne_zero index)]
    split <;> omega

/-- An object charges the octets of its text. -/
theorem scalarBytes_unfolded_ref (levels : ℕ) (i : Fin n) :
    scalarBytes (unfolded g (levels + 1) (.ref i)) =
      2 + keysCharge (g i) (unfolded g levels) 0 (g i).props := by
  rw [keysCharge_eq, if_pos rfl, unfolded]
  split
  case isTrue harray =>
    rw [scalarBytes_arr, List.map_map, List.map_map, List.length_map, List.length_map]
    simp only [Nat.zero_add, Function.comp_def]
    omega
  case isFalse harray =>
    rw [scalarBytes_obj, List.map_map, List.length_map]
    simp only [Function.comp_def]
    omega

end Charges

section Copying

variable {g : Graph n} {limit : Option ℕ}

theorem spend_eq_ok_iff {bytes cost after : ℕ} :
    spend limit bytes cost = .ok after ↔ after = bytes + cost ∧ within limit after := by
  rw [spend, require_bind_eq_ok_iff, pure_eq_ok, Except.ok.injEq]
  constructor
  · rintro ⟨hwithin, rfl⟩
    exact ⟨rfl, hwithin⟩
  · rintro ⟨rfl, hwithin⟩
    exact ⟨hwithin, rfl⟩

/-- Copying a value succeeds exactly under the condition and within the budget, yields the tree,
and charges its text. -/
def CopiesAs (limit : Option ℕ) (copy : Slot n → ℕ → Except Failure (Json × ℕ)) (fits : Prop)
    (tree : Json) (value : Slot n) : Prop :=
  ∀ bytes r, within limit bytes → (copy value bytes = .ok r ↔
    fits ∧ r = (tree, bytes + scalarBytes tree) ∧ within limit (bytes + scalarBytes tree))

/-- The loop over the keys copies every property. -/
theorem copyKeys_eq_ok_iff {copy : Slot n → ℕ → Except Failure (Json × ℕ)} {o : Node n}
    {fits : Slot n → Prop} {tree : Slot n → Json} {props : List (List ℕ × Option (Slot n))}
    (hcopy : ∀ p ∈ props, ∀ w, p.2 = some w → CopiesAs limit copy (fits w) (tree w) w)
    {index bytes : ℕ} {r : List (String × Json) × ℕ} (hbytes : within limit bytes) :
    copyKeys limit copy o index props bytes = .ok r ↔
      (∀ p ∈ props, scalarUnits p.1 ∧ ∃ w, p.2 = some w ∧ fits w) ∧
        r = (props.map fun p => (textOf p.1, p.2.elim .null tree),
          bytes + keysCharge o tree index props) ∧
        within limit (bytes + keysCharge o tree index props) := by
  induction props generalizing index bytes r with
  | nil =>
    simp only [copyKeys, keysCharge, Except.ok.injEq, List.not_mem_nil, false_implies, implies_true,
      true_and, List.map_nil, Nat.add_zero, hbytes, and_true]
    exact eq_comm
  | cons p rest ih =>
    obtain ⟨key, property⟩ := p
    rw [List.forall_mem_cons] at hcopy
    rw [copyKeys, require_bind_eq_ok_iff, List.forall_mem_cons]
    cases property with
    | none => simp [orFail]
    | some w =>
      have hw := hcopy.1 w rfl
      simp only [orFail, ok_bind, bind_eq_ok_iff, spend_eq_ok_iff, Prod.exists, pure_eq_ok,
        Except.ok.injEq, List.map_cons, keysCharge, Option.elim_some]
      constructor
      · rintro ⟨hkey, b, ⟨rfl, hb⟩, c, b', hc, cs, b'', hcs, rfl⟩
        obtain ⟨hfits, hcb, hb'⟩ := (hw _ _ hb).mp hc
        obtain ⟨rfl, rfl⟩ := Prod.mk.inj hcb
        obtain ⟨hrest, hcsb, hb''⟩ := (ih hcopy.2 hb').mp hcs
        obtain ⟨rfl, rfl⟩ := Prod.mk.inj hcsb
        have hsum : bytes + keyCost o index key + scalarBytes (tree w) +
            keysCharge o tree (index + 1) rest =
            bytes + (keyCost o index key + scalarBytes (tree w) +
              keysCharge o tree (index + 1) rest) := by omega
        exact ⟨⟨⟨hkey, w, rfl, hfits⟩, hrest⟩, by rw [hsum], by rwa [← hsum]⟩
      · rintro ⟨⟨⟨hkey, w', hw', hfits⟩, hrest⟩, rfl, hwithin⟩
        obtain rfl := Option.some.inj hw'
        have hb : within limit (bytes + keyCost o index key) := within_mono (by omega) hwithin
        have hb' : within limit (bytes + keyCost o index key + scalarBytes (tree w)) :=
          within_mono (by omega) hwithin
        have hsum : bytes + keyCost o index key + scalarBytes (tree w) +
            keysCharge o tree (index + 1) rest =
            bytes + (keyCost o index key + scalarBytes (tree w) +
              keysCharge o tree (index + 1) rest) := by omega
        exact ⟨hkey, _, ⟨rfl, hb⟩, _, _, (hw _ _ hb).mpr ⟨hfits, rfl, hb'⟩, _, _,
          (ih hcopy.2 hb').mpr ⟨hrest, rfl, by rwa [hsum]⟩, by rw [hsum]⟩

/-- A value that is no object is charged with its text. -/
theorem spend_leaf_eq_ok_iff {tree : Json} {bytes : ℕ} {r : Json × ℕ} :
    (do let bytes ← spend limit bytes (scalarBytes tree)
        return (tree, bytes) : Except Failure (Json × ℕ)) = .ok r ↔
      r = (tree, bytes + scalarBytes tree) ∧ within limit (bytes + scalarBytes tree) := by
  simp only [bind_eq_ok_iff, spend_eq_ok_iff, pure_eq_ok, Except.ok.injEq]
  constructor
  · rintro ⟨b, ⟨rfl, hb⟩, rfl⟩
    exact ⟨rfl, hb⟩
  · rintro ⟨rfl, hb⟩
    exact ⟨_, ⟨rfl, hb⟩, rfl⟩

/-- The full walk accepts what fits, within the budget. -/
theorem copiesAs_copy {levels : ℕ} {path : List (Fin n)} {value : Slot n}
    (hpath : OnPath g path value) :
    CopiesAs limit (copy g limit levels path) (Fits g levels value) (unfolded g levels value)
      value := by
  induction levels generalizing path value with
  | zero =>
    intro bytes r _
    simp [copy, Fits]
  | succ levels ih =>
    intro bytes r hbytes
    cases value with
    | null =>
      rw [copy, spend_leaf_eq_ok_iff]
      exact (and_iff_right trivial).symm
    | bool b =>
      rw [copy, spend_leaf_eq_ok_iff]
      exact (and_iff_right trivial).symm
    | number x =>
      cases x with
      | none => simp [copy, Fits, orFail]
      | some x =>
        rw [copy, orFail, ok_bind, spend_leaf_eq_ok_iff]
        exact (and_iff_right rfl).symm
    | text units =>
      rw [copy, require_bind_eq_ok_iff, spend_leaf_eq_ok_iff]
      exact Iff.rfl
    | other => simp [copy, Fits]
    | ref i =>
      have hkeys := fun (b : ℕ) (cs : List (String × Json) × ℕ) (hb : within limit b) =>
        @copyKeys_eq_ok_iff n limit (copy g limit levels (i :: path)) (g i) (Fits g levels)
          (unfolded g levels) (g i).props (fun p hp w hw => ih (hpath.below hp hw)) 0 b cs hb
      have hcharge : bytes + scalarBytes (unfolded g (levels + 1) (.ref i)) =
          bytes + 2 + keysCharge (g i) (unfolded g levels) 0 (g i).props := by
        rw [scalarBytes_unfolded_ref, Nat.add_assoc]
      rw [hcharge, copy, require_bind_eq_ok_iff, require_bind_eq_ok_iff, require_bind_eq_ok_iff,
        require_bind_eq_ok_iff]
      constructor
      · rintro ⟨-, hprototype, hsymbols, hlength, h⟩
        obtain ⟨b, hb, h⟩ := bind_eq_ok_iff.mp h
        obtain ⟨rfl, hb⟩ := spend_eq_ok_iff.mp hb
        obtain ⟨⟨cs, b'⟩, hcs, h⟩ := bind_eq_ok_iff.mp h
        obtain ⟨hdense, h⟩ := require_bind_eq_ok_iff.mp h
        obtain ⟨hprops, hcsb, hwithin⟩ := (hkeys _ _ hb).mp hcs
        obtain ⟨rfl, rfl⟩ := Prod.mk.inj hcsb
        exact ⟨⟨⟨hprototype, hsymbols, hlength, hdense⟩, hprops⟩, (Except.ok.inj h).symm, hwithin⟩
      · rintro ⟨hfits, rfl, hwithin⟩
        have hb : within limit (bytes + 2) := within_mono (by omega) hwithin
        have hmem := @Fits.not_mem n g (levels + 1) path i hfits hpath
        have hcs := (hkeys _ _ hb).mpr ⟨hfits.2, rfl, hwithin⟩
        refine ⟨hmem, hfits.1.prototype, hfits.1.symbols, hfits.1.length, ?_⟩
        rw [spend_eq_ok_iff.mpr ⟨rfl, hb⟩, ok_bind, hcs, ok_bind]
        exact require_bind_eq_ok_iff.mpr ⟨hfits.1.dense, rfl⟩

/-- What the strict copy accepts. -/
theorem copyJson_eq_ok_iff {value : Slot n} {tree : Json} :
    copyJson g limit value = .ok tree ↔ Fits g (maxDepth + 1) value ∧
      tree = unfolded g (maxDepth + 1) value ∧
      within limit (scalarBytes (unfolded g (maxDepth + 1) value)) := by
  have hcopy := fun r => @copiesAs_copy n g limit (maxDepth + 1) [] value (onPath_nil value) 0 r
    within_zero
  rw [copyJson, bind_eq_ok_iff]
  constructor
  · rintro ⟨r, hr, h⟩
    obtain ⟨hfits, rfl, hwithin⟩ := (hcopy r).mp hr
    rw [Nat.zero_add] at hwithin
    exact ⟨hfits, (Except.ok.inj h).symm, hwithin⟩
  · rintro ⟨hfits, rfl, hwithin⟩
    exact ⟨_, (hcopy _).mpr ⟨hfits, rfl, by rwa [Nat.zero_add]⟩, rfl⟩

end Copying

section Checking

variable {g : Graph n} {limit : Option ℕ}

/-- The longest path from a value that fits goes over `height` properties. -/
def HasHeight (g : Graph n) (value : Slot n) (height : ℕ) : Prop :=
  ∀ levels, Fits g levels value ↔ height + 1 ≤ levels

/-- The heights that the check keeps are those of the objects. -/
def State.Exact (g : Graph n) (s : State n) : Prop := ∀ p ∈ s.heights, HasHeight g (.ref p.1) p.2

theorem State.spend_eq_ok_iff {s s' : State n} {cost : ℕ} :
    s.spend limit cost = .ok s' ↔ s' = ⟨s.heights, s.bytes + cost⟩ ∧
      within limit (s.bytes + cost) := by
  rw [State.spend, require_bind_eq_ok_iff, pure_eq_ok, Except.ok.injEq, and_comm, eq_comm]

/-- A value that is no object has height zero. -/
theorem hasHeight_zero {value : Slot n} (hfits : ∀ levels, Fits g (levels + 1) value) :
    HasHeight g value 0 := by
  intro levels
  cases levels with
  | zero => exact iff_of_false id (by omega)
  | succ levels => exact iff_of_true (hfits levels) (by omega)

/-- What the check of a value has shown when it accepts. -/
structure Shown (g : Graph n) (levels : ℕ) (value : Slot n) (height : ℕ) (s : State n) : Prop where
  hasHeight : HasHeight g value height
  le : height + 1 ≤ levels
  exact : s.Exact g

theorem Shown.fits {levels height : ℕ} {value : Slot n} {s : State n}
    (h : Shown g levels value height s) : Fits g levels value :=
  (h.hasHeight levels).mpr h.le

/-- The loop over the keys bounds the heights of the values and says when they fit. -/
theorem checkKeys_sound {check : Slot n → State n → Except Failure (ℕ × State n)} {o : Node n}
    {levels : ℕ} {props : List (List ℕ × Option (Slot n))}
    (hcheck : ∀ p ∈ props, ∀ w, p.2 = some w → ∀ s height s', s.Exact g →
      check w s = .ok (height, s') → Shown g levels w height s')
    {index height height' : ℕ} {s s' : State n} (hs : s.Exact g)
    (h : checkKeys limit check o index height props s = .ok (height', s')) :
    s'.Exact g ∧ height ≤ height' ∧ (height ≤ levels → height' ≤ levels) ∧
      ∀ k, height' ≤ k ↔
        height ≤ k ∧ ∀ p ∈ props, scalarUnits p.1 ∧ ∃ w, p.2 = some w ∧ Fits g k w := by
  induction props generalizing index height s with
  | nil =>
    obtain ⟨rfl, rfl⟩ := Prod.mk.inj (Except.ok.inj h)
    exact ⟨hs, le_rfl, id, fun k => ⟨fun hk => ⟨hk, List.forall_mem_nil _⟩, And.left⟩⟩
  | cons p rest ih =>
    obtain ⟨key, property⟩ := p
    rw [List.forall_mem_cons] at hcheck
    rw [checkKeys, require_bind_eq_ok_iff] at h
    obtain ⟨hkey, h⟩ := h
    obtain ⟨w, hw, hstep⟩ := bind_eq_ok_iff.mp h
    obtain rfl := orFail_eq_ok_iff.mp hw
    obtain ⟨s₁, hs₁, hstep'⟩ := bind_eq_ok_iff.mp hstep
    obtain ⟨rfl, -⟩ := State.spend_eq_ok_iff.mp hs₁
    obtain ⟨⟨below, s₂⟩, hbelow, hrest⟩ := bind_eq_ok_iff.mp hstep'
    have hshown := hcheck.1 w rfl ⟨s.heights, s.bytes + keyCost o index key⟩ below s₂ hs hbelow
    obtain ⟨hexact, hle, hbound, hfits⟩ := ih hcheck.2 hshown.exact hrest
    have hbelow := hshown.le
    refine ⟨hexact, by omega, fun hheight => hbound (by omega), fun k => ?_⟩
    rw [hfits, List.forall_mem_cons]
    have hk := hshown.hasHeight k
    constructor
    · rintro ⟨hmax, hrest⟩
      exact ⟨by omega, ⟨hkey, w, rfl, hk.mpr (by omega)⟩, hrest⟩
    · rintro ⟨hheight, ⟨-, w', hw', hw''⟩, hrest⟩
      obtain rfl := Option.some.inj hw'
      have := hk.mp hw''
      exact ⟨by omega, hrest⟩

/-- What the check accepts has the height that it returns. -/
theorem check_sound {levels : ℕ} {active : List (Fin n)} {value : Slot n} {s s' : State n}
    {height : ℕ} (hs : s.Exact g) (h : check g limit levels active value s = .ok (height, s')) :
    Shown g levels value height s' := by
  induction levels generalizing active value s s' height with
  | zero => exact nomatch h
  | succ levels ih =>
    have hleaf : ∀ cost, (do let s ← s.spend limit cost; return (0, s)) = .ok (height, s') →
        (∀ levels, Fits g (levels + 1) value) → Shown g (levels + 1) value height s' := by
      intro cost h hfits
      obtain ⟨s₁, hs₁, h⟩ := bind_eq_ok_iff.mp h
      obtain ⟨rfl, -⟩ := State.spend_eq_ok_iff.mp hs₁
      obtain ⟨rfl, rfl⟩ := Prod.mk.inj (Except.ok.inj h)
      exact ⟨hasHeight_zero hfits, by omega, hs⟩
    cases value with
    | null => exact hleaf _ h fun _ => trivial
    | bool b => exact hleaf _ h fun _ => trivial
    | number x =>
      obtain ⟨y, hy, hrest⟩ := bind_eq_ok_iff.mp h
      obtain rfl := orFail_eq_ok_iff.mp hy
      exact hleaf _ hrest fun _ => rfl
    | text units =>
      obtain ⟨hunits, h⟩ := require_bind_eq_ok_iff.mp h
      exact hleaf _ h fun _ => hunits
    | other => exact nomatch h
    | ref i =>
      rw [check] at h
      obtain ⟨-, h⟩ := require_bind_eq_ok_iff.mp h
      obtain ⟨hprototype, h⟩ := require_bind_eq_ok_iff.mp h
      obtain ⟨hsymbols, h⟩ := require_bind_eq_ok_iff.mp h
      cases hknown : getKey i s.heights with
      | some known =>
        rw [hknown] at h
        obtain ⟨hle, h⟩ := require_bind_eq_ok_iff.mp h
        obtain ⟨rfl, rfl⟩ := Prod.mk.inj (Except.ok.inj h)
        exact ⟨hs _ (mem_of_getKey hknown), by omega, hs⟩
      | none =>
        rw [hknown] at h
        obtain ⟨hlength, h⟩ := require_bind_eq_ok_iff.mp h
        obtain ⟨⟨below, s₁⟩, hkeys, h⟩ := bind_eq_ok_iff.mp h
        obtain ⟨hdense, h⟩ := require_bind_eq_ok_iff.mp h
        obtain ⟨rfl, rfl⟩ := Prod.mk.inj (Except.ok.inj h)
        obtain ⟨hexact, -, hbound, hfits⟩ := checkKeys_sound
          (fun p _ w _ s height s' hs h => ih hs h) (s := ⟨s.heights, s.bytes + 2⟩) hs hkeys
        have hheight : HasHeight g (.ref i) below := by
          intro k
          cases k with
          | zero => exact iff_of_false id (by omega)
          | succ k =>
            rw [Nat.add_le_add_iff_right, hfits]
            constructor
            · rintro ⟨-, hprops⟩
              exact ⟨Nat.zero_le _, hprops⟩
            · rintro ⟨-, hprops⟩
              exact ⟨⟨hprototype, hsymbols, hlength, hdense⟩, hprops⟩
        have hbelow := hbound (Nat.zero_le _)
        exact ⟨hheight, by omega, List.forall_mem_cons.mpr ⟨hheight, hexact⟩⟩

/-- The check of a value succeeds and charges at most `cost`. -/
def Accepts (limit : Option ℕ) (check : Slot n → State n → Except Failure (ℕ × State n))
    (g : Graph n) (cost : ℕ) (value : Slot n) : Prop :=
  ∀ s : State n, s.Exact g → within limit (s.bytes + cost) →
    ∃ height s', check value s = .ok (height, s') ∧ s'.Exact g ∧ s'.bytes ≤ s.bytes + cost

/-- The loop over the keys goes through when every value is accepted. -/
theorem checkKeys_complete {check : Slot n → State n → Except Failure (ℕ × State n)} {o : Node n}
    {tree : Slot n → Json} {props : List (List ℕ × Option (Slot n))}
    (hprops : ∀ p ∈ props, scalarUnits p.1 ∧ ∃ w, p.2 = some w ∧
      Accepts limit check g (scalarBytes (tree w)) w) {index height : ℕ} {s : State n}
    (hs : s.Exact g) (hwithin : within limit (s.bytes + keysCharge o tree index props)) :
    ∃ height' s', checkKeys limit check o index height props s = .ok (height', s') ∧
      s'.bytes ≤ s.bytes + keysCharge o tree index props := by
  induction props generalizing index height s with
  | nil => exact ⟨_, _, rfl, Nat.le_add_right _ _⟩
  | cons p rest ih =>
    obtain ⟨key, property⟩ := p
    rw [List.forall_mem_cons] at hprops
    obtain ⟨⟨hkey, w, rfl, hw⟩, hrest⟩ := hprops
    rw [keysCharge] at hwithin ⊢
    dsimp only [Option.elim_some] at hwithin ⊢
    have hspend : s.spend limit (keyCost o index key) =
        .ok ⟨s.heights, s.bytes + keyCost o index key⟩ :=
      State.spend_eq_ok_iff.mpr ⟨rfl, within_mono (by omega) hwithin⟩
    obtain ⟨below, s₁, hcheck, hs₁, hle⟩ := hw ⟨s.heights, s.bytes + keyCost o index key⟩ hs
      (within_mono (by dsimp only; omega) hwithin)
    obtain ⟨height', s₂, hkeys, hle'⟩ := @ih hrest (index + 1) (max height (1 + below)) s₁ hs₁
      (within_mono (by dsimp only at hle; omega) hwithin)
    refine ⟨height', s₂, ?_, by dsimp only at hle; omega⟩
    rw [checkKeys, require_bind_of_pos hkey, orFail, ok_bind, hspend, ok_bind, hcheck, ok_bind]
    exact hkeys

/-- What fits is accepted within the budget. -/
theorem check_complete {levels : ℕ} {active : List (Fin n)} {value : Slot n}
    (hpath : OnPath g active value) (hfits : Fits g levels value) :
    Accepts limit (check g limit levels active) g (scalarBytes (unfolded g levels value)) value := by
  induction levels generalizing active value with
  | zero => exact hfits.elim
  | succ levels ih =>
    intro s hs hwithin
    have hleaf : ∃ height s', (do
        let s ← s.spend limit (scalarBytes (unfolded g (levels + 1) value))
        return (0, s)) = .ok (height, s') ∧ s'.Exact g ∧
          s'.bytes ≤ s.bytes + scalarBytes (unfolded g (levels + 1) value) := by
      refine ⟨0, ⟨s.heights, s.bytes + scalarBytes (unfolded g (levels + 1) value)⟩, ?_, hs, le_rfl⟩
      rw [State.spend_eq_ok_iff.mpr ⟨rfl, hwithin⟩]
      rfl
    cases value with
    | null => exact hleaf
    | bool b => exact hleaf
    | number x =>
      obtain ⟨y, rfl⟩ := Option.isSome_iff_exists.mp hfits
      exact hleaf
    | text units =>
      have hunits : scalarUnits units := hfits
      rw [check, require_bind_of_pos hunits]
      exact hleaf
    | other => exact hfits.elim
    | ref i =>
      have hsound := hfits.1
      cases hknown : getKey i s.heights with
      | some known =>
        have hheight := (hs _ (mem_of_getKey hknown) _).mp hfits
        refine ⟨known, s, ?_, hs, Nat.le_add_right _ _⟩
        rw [check, require_bind_of_pos (hfits.not_mem hpath),
          require_bind_of_pos hsound.prototype, require_bind_of_pos hsound.symbols, hknown]
        dsimp only
        rw [require_bind_of_pos (by omega)]
        rfl
      | none =>
        rw [scalarBytes_unfolded_ref, ← Nat.add_assoc] at hwithin ⊢
        have hprops : ∀ p ∈ (g i).props, scalarUnits p.1 ∧ ∃ w, p.2 = some w ∧
            Accepts limit (check g limit levels (i :: active)) g
              (scalarBytes (unfolded g levels w)) w := by
          intro p hp
          obtain ⟨hkey, w, hw, hbelow⟩ := hfits.2 p hp
          exact ⟨hkey, w, hw, ih (hpath.below hp hw) hbelow⟩
        obtain ⟨height, s', hkeys, hle⟩ := @checkKeys_complete n g limit
          (check g limit levels (i :: active)) (g i) (unfolded g levels) (g i).props hprops 0 0
          ⟨s.heights, s.bytes + 2⟩ hs hwithin
        have hcheck : check g limit (levels + 1) active (.ref i) s =
            .ok (height, ⟨(i, height) :: s'.heights, s'.bytes⟩) := by
          rw [check, require_bind_of_pos (hfits.not_mem hpath),
            require_bind_of_pos hsound.prototype, require_bind_of_pos hsound.symbols, hknown]
          dsimp only
          rw [require_bind_of_pos hsound.length, hkeys, ok_bind]
          exact require_bind_of_pos hsound.dense _
        exact ⟨height, _, hcheck, (check_sound hs hcheck).exact, hle⟩

/-- The check of a value that is met for the first time, with all below it. -/
def Charges (check : Slot n → State n → Except Failure (ℕ × State n)) (cost : ℕ)
    (visited : List (Fin n)) (value : Slot n) : Prop :=
  ∀ s height s', check value s = .ok (height, s') → (∀ i ∈ visited, i ∉ s.heights.map Prod.fst) →
    s'.bytes = s.bytes + cost ∧ ∀ i ∈ s'.heights.map Prod.fst,
      i ∈ s.heights.map Prod.fst ∨ i ∈ visited

/-- The loop over the keys charges every value that is met for the first time. -/
theorem checkKeys_charges {check : Slot n → State n → Except Failure (ℕ × State n)} {o : Node n}
    {tree : Slot n → Json} {visited : Slot n → List (Fin n)}
    {props : List (List ℕ × Option (Slot n))}
    (hcheck : ∀ p ∈ props, ∀ w, p.2 = some w → (visited w).Nodup →
      Charges check (scalarBytes (tree w)) (visited w) w)
    (hnodup : (props.flatMap fun p => p.2.elim [] visited).Nodup)
    {index height height' : ℕ} {s s' : State n}
    (h : checkKeys limit check o index height props s = .ok (height', s'))
    (hnew : ∀ i ∈ props.flatMap fun p => p.2.elim [] visited, i ∉ s.heights.map Prod.fst) :
    s'.bytes = s.bytes + keysCharge o tree index props ∧ ∀ i ∈ s'.heights.map Prod.fst,
      i ∈ s.heights.map Prod.fst ∨ i ∈ props.flatMap fun p => p.2.elim [] visited := by
  induction props generalizing index height s with
  | nil =>
    obtain ⟨rfl, rfl⟩ := Prod.mk.inj (Except.ok.inj h)
    exact ⟨rfl, fun i hi => .inl hi⟩
  | cons p rest ih =>
    obtain ⟨key, property⟩ := p
    rw [List.forall_mem_cons] at hcheck
    rw [checkKeys, require_bind_eq_ok_iff] at h
    obtain ⟨w, hw, hstep⟩ := bind_eq_ok_iff.mp h.2
    obtain rfl := orFail_eq_ok_iff.mp hw
    obtain ⟨s₁, hs₁, hstep'⟩ := bind_eq_ok_iff.mp hstep
    obtain ⟨rfl, -⟩ := State.spend_eq_ok_iff.mp hs₁
    obtain ⟨⟨below, s₂⟩, hbelow, hrest⟩ := bind_eq_ok_iff.mp hstep'
    simp only [List.flatMap_cons, Option.elim_some, List.mem_append, List.nodup_append] at hnodup hnew ⊢
    obtain ⟨hbytes, hheights⟩ := hcheck.1 w rfl hnodup.1 _ below s₂ hbelow
      fun i hi => hnew i (.inl hi)
    obtain ⟨hbytes', hheights'⟩ := ih hcheck.2 hnodup.2.1 hrest fun i hi hmem => by
      rcases hheights i hmem with hold | hvisited
      · exact hnew i (.inr hi) hold
      · exact hnodup.2.2 i hvisited i hi rfl
    refine ⟨?_, fun i hi => ?_⟩
    · rw [hbytes', hbytes, keysCharge, Option.elim_some]
      dsimp only
      omega
    · rcases hheights' i hi with hmid | hvisited
      · exact (hheights i hmid).imp_right .inl
      · exact .inr (.inr hvisited)

/-- On a tree the check charges the text of the tree. -/
theorem check_charges {levels : ℕ} {active : List (Fin n)} {value : Slot n}
    (hnodup : (visits g levels value).Nodup) :
    Charges (check g limit levels active) (scalarBytes (unfolded g levels value))
      (visits g levels value) value := by
  induction levels generalizing active value with
  | zero => exact fun s height s' h => nomatch h
  | succ levels ih =>
    intro s height s' h hnew
    have hleaf : (do
        let s ← s.spend limit (scalarBytes (unfolded g (levels + 1) value))
        return (0, s)) = .ok (height, s') →
          s'.bytes = s.bytes + scalarBytes (unfolded g (levels + 1) value) ∧
            ∀ i ∈ s'.heights.map Prod.fst, i ∈ s.heights.map Prod.fst ∨
              i ∈ visits g (levels + 1) value := by
      intro h
      obtain ⟨s₁, hs₁, h⟩ := bind_eq_ok_iff.mp h
      obtain ⟨rfl, -⟩ := State.spend_eq_ok_iff.mp hs₁
      obtain ⟨rfl, rfl⟩ := Prod.mk.inj (Except.ok.inj h)
      exact ⟨rfl, fun i hi => .inl hi⟩
    cases value with
    | null => exact hleaf h
    | bool b => exact hleaf h
    | number x =>
      obtain ⟨y, hy, hrest⟩ := bind_eq_ok_iff.mp h
      obtain rfl := orFail_eq_ok_iff.mp hy
      exact hleaf hrest
    | text units => exact hleaf (require_bind_eq_ok_iff.mp h).2
    | other => exact nomatch h
    | ref i =>
      rw [visits, List.nodup_cons] at hnodup
      rw [visits, List.forall_mem_cons] at hnew
      rw [check, require_bind_eq_ok_iff, require_bind_eq_ok_iff, require_bind_eq_ok_iff] at h
      have hunknown : getKey i s.heights = none := by
        by_contra hsome
        obtain ⟨known, hknown⟩ := Option.ne_none_iff_exists'.mp hsome
        exact hnew.1 (List.mem_map_of_mem (mem_of_getKey hknown))
      rw [hunknown] at h
      obtain ⟨-, hrest⟩ := require_bind_eq_ok_iff.mp h.2.2.2
      obtain ⟨⟨below, s₁⟩, hkeys, hrest'⟩ := bind_eq_ok_iff.mp hrest
      obtain ⟨rfl, rfl⟩ := Prod.mk.inj (Except.ok.inj (require_bind_eq_ok_iff.mp hrest').2)
      obtain ⟨hbytes, hheights⟩ := checkKeys_charges (s := ⟨s.heights, s.bytes + 2⟩)
        (fun p _ w _ hw => ih hw) hnodup.2 hkeys hnew.2
      rw [scalarBytes_unfolded_ref]
      refine ⟨by rw [hbytes]; exact Nat.add_assoc _ _ _, fun j hj => ?_⟩
      rw [visits, List.mem_cons]
      rcases List.mem_cons.mp hj with rfl | hmem
      · exact .inr (.inl rfl)
      · exact (hheights j hmem).imp_right .inr

end Checking

section Agreement

/-- Sorting the keys keeps the octets of a text. -/
theorem length_canonicalText (v : Json) :
    (Utf8.encodeChars (canonicalText v)).length = scalarBytes v := by
  induction v using Json.induction with
  | null => rfl
  | bool b => rfl
  | num x => rfl
  | str t => rfl
  | arr items ih =>
    have hitems := congrArg List.sum (List.map_congr_left ih)
    rw [canonicalText_arr, length_encodeChars_bracketed (by decide) (by decide),
      length_encodeChars_commaJoin, scalarBytes_arr, List.map_map, List.length_map]
    simp only [Function.comp_def]
    omega
  | obj props ih =>
    have hcolon : (String.utf8EncodeChar ':').length = 1 := by decide
    have hprop : ∀ p ∈ props, (Utf8.encodeChars (quote p.1 ++ ':' :: canonicalText p.2)).length =
        scalarBytes (.str p.1) + 1 + scalarBytes p.2 := by
      intro p hp
      rw [Utf8.encodeChars_append, Utf8.encodeChars_cons, List.length_append, List.length_append,
        ih p hp, hcolon]
      exact (Nat.add_assoc _ _ _).symm
    rw [canonicalText_obj, length_encodeChars_bracketed (by decide) (by decide),
      length_encodeChars_commaJoin, scalarBytes_obj, List.map_map, List.length_map,
      ((sortKeys_perm props).map _).sum_nat, (sortKeys_perm props).length_eq]
    simp only [Function.comp_def, List.map_congr_left hprop]
    omega

variable (g : Graph n) (limit : Option ℕ) {value : Slot n}

/-- The check starts with nothing kept. -/
theorem exact_nil : State.Exact g ⟨[], 0⟩ := List.forall_mem_nil _

/-- What the check accepts fits. -/
theorem fits_of_meter {octets : ℕ} (h : meter g limit value = .ok octets) :
    Fits g (maxDepth + 1) value := by
  obtain ⟨⟨height, s⟩, hcheck, -⟩ := bind_eq_ok_iff.mp h
  exact (check_sound (exact_nil g) hcheck).fits

/-- What fits is accepted when its text is within the budget. -/
theorem exists_meter (hfits : Fits g (maxDepth + 1) value)
    (hwithin : within limit (scalarBytes (unfolded g (maxDepth + 1) value))) :
    ∃ octets, meter g limit value = .ok octets := by
  obtain ⟨height, s, hcheck, -, hle⟩ := check_complete (onPath_nil value) hfits ⟨[], 0⟩
    (exact_nil g) (by rwa [Nat.zero_add])
  refine ⟨s.bytes, ?_⟩
  rw [meter, hcheck, ok_bind]
  exact require_bind_of_pos (within_mono (by simpa using hle) hwithin) _

/-- On a tree the meter shows the octets of the text, within the budget. -/
theorem meter_of_tree (htree : IsTree g value) {octets : ℕ}
    (h : meter g limit value = .ok octets) :
    octets = scalarBytes (unfolded g (maxDepth + 1) value) ∧ within limit octets := by
  obtain ⟨⟨height, s⟩, hcheck, hrest⟩ := bind_eq_ok_iff.mp h
  obtain ⟨hwithin, hoctets⟩ := require_bind_eq_ok_iff.mp hrest
  obtain rfl := Except.ok.inj hoctets
  have hbytes := (check_charges htree ⟨[], 0⟩ height s hcheck fun _ _ => List.not_mem_nil).1
  exact ⟨by rw [hbytes, Nat.zero_add], hwithin⟩

theorem assertStrictJson_eq_ok_iff {u : Unit} :
    assertStrictJson g limit value = .ok u ↔ ∃ octets, meter g limit value = .ok octets := by
  rw [assertStrictJson, bind_eq_ok_iff]
  exact exists_congr fun _ => and_iff_left rfl

/-- The memoised check accepts the graphs that the full walk accepts when the budget is left
aside. On a tree the meter shows the octets of canonical JSON, and both accept the same values
under any budget. -/
theorem memoised_check_exact (value : Slot n) :
    (assertStrictJson g none value = .ok () ↔ ∃ tree, copyJson g none value = .ok tree) ∧
    (IsTree g value →
      (∀ limit octets, meter g limit value = .ok octets → ∃ text,
        canonicalJson g limit value = .ok text ∧ octets = (Utf8.encode text).length) ∧
      ∀ limit, assertStrictJson g limit value = .ok () ↔
        ∃ tree, copyJson g limit value = .ok tree) := by
  refine ⟨?_, fun htree => ⟨fun limit octets h => ?_, fun limit => ?_⟩⟩
  · rw [assertStrictJson_eq_ok_iff]
    simp only [copyJson_eq_ok_iff]
    constructor
    · rintro ⟨octets, h⟩
      exact ⟨_, fits_of_meter g none h, rfl, rfl⟩
    · rintro ⟨_, hfits, -, hwithin⟩
      exact exists_meter g none hfits hwithin
  · refine ⟨_, bind_eq_ok_iff.mpr ⟨(), (assertStrictJson_eq_ok_iff g limit).mpr ⟨octets, h⟩, rfl⟩, ?_⟩
    rw [Utf8.encode, String.toList_ofList, length_canonicalText]
    exact (meter_of_tree g limit htree h).1
  · rw [assertStrictJson_eq_ok_iff]
    simp only [copyJson_eq_ok_iff]
    constructor
    · rintro ⟨octets, h⟩
      obtain ⟨rfl, hwithin⟩ := meter_of_tree g limit htree h
      exact ⟨_, fits_of_meter g limit h, rfl, hwithin⟩
    · rintro ⟨_, hfits, -, hwithin⟩
      exact exists_meter g limit hfits hwithin

/-- The array `[{}, true, null]`, with the object apart. -/
def sampleGraph : Graph 2 := fun i =>
  if i = 0 then ⟨some 3, false, false, [([48], some (.ref 1)), ([49], some (.bool true)),
    ([50], some .null)]⟩
  else ⟨none, true, false, []⟩

/-- The sample is a tree of fourteen octets. -/
theorem memoised_check_exact_sample : ∃ text,
    canonicalJson sampleGraph (some maxGraphBytes) (.ref 0) = .ok text ∧
      14 = (Utf8.encode text).length := by
  have htree : IsTree sampleGraph (.ref 0) := by
    unfold IsTree
    decide
  exact ((memoised_check_exact sampleGraph (.ref 0)).2 htree).1 _ 14 (by decide)

/-- The array `[{}, {}]` with one object twice, which is met but not charged again. -/
example : meter (fun i : Fin 2 => if i = 0 then
    ⟨some 2, false, false, [([48], some (.ref 1)), ([49], some (.ref 1))]⟩
    else ⟨none, true, false, []⟩) (some maxGraphBytes) (.ref 0) = .ok 5 := by decide

end Agreement

end Kdna.Heap

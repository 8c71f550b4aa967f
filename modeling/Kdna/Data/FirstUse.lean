import Mathlib.Data.List.Forall2
import Mathlib.Data.List.Infix
import Mathlib.Data.List.Nodup

/-!
# Dictionaries in the order of first use

A list is numbered by looking each element up in a dictionary, which grows by the elements that
it lacks. The indices that come about are those that name the entries in the order of their first
use, and a dictionary without repetitions together with such indices is the numbering of the list
that it stands for.
-/

namespace Kdna.FirstUse

variable {α κ : Type} {key : α → κ}

/-- Entries with one key are at one place. -/
theorem eq_of_key_eq {entries : List α} (hnodup : (entries.map key).Nodup) {i j : ℕ}
    (hi : i < entries.length) (hj : j < entries.length)
    (hkey : key entries[i] = key entries[j]) : i = j := by
  have hi' : i < (entries.map key).length := by rwa [List.length_map]
  have hj' : j < (entries.map key).length := by rwa [List.length_map]
  have hentries : (entries.map key)[i] = (entries.map key)[j] := by
    rw [List.getElem_map, List.getElem_map, hkey]
  exact hnodup.getElem_inj_iff.mp hentries

variable [DecidableEq κ]

/-- The dictionary after `a` was looked up, and the index of `a`. -/
def place (key : α → κ) (entries : List α) (a : α) : List α × ℕ :=
  match entries.findIdx? fun b => key b = key a with
  | some i => (entries, i)
  | none => (entries ++ [a], entries.length)

/-- The dictionary after a list was looked up, and the indices of its elements. -/
def numbered (key : α → κ) (entries : List α) : List α → List α × List ℕ
  | [] => (entries, [])
  | a :: as =>
    let (entries, i) := place key entries a
    let (entries, is) := numbered key entries as
    (entries, i :: is)

/-- Indices below `size` that name the entries from `next` to `last` in the order of their
first use. -/
inductive Uses (size : ℕ) : ℕ → List ℕ → ℕ → Prop
  | nil (next : ℕ) : Uses size next [] next
  | again {next i last : ℕ} {is : List ℕ} : i < next → Uses size next is last →
      Uses size next (i :: is) last
  | first {next last : ℕ} {is : List ℕ} : next < size → Uses size (next + 1) is last →
      Uses size next (next :: is) last

theorem Uses.le {size next last : ℕ} {is : List ℕ} (h : Uses size next is last) : next ≤ last := by
  induction h with
  | nil => exact le_rfl
  | again _ _ ih => exact ih
  | first _ _ ih => omega

/-- An entry is found at its place. -/
theorem findIdx?_getElem {entries : List α} (hnodup : (entries.map key).Nodup) {n i : ℕ} {a : α}
    (hi : i < n) (ha : entries[i]? = some a) :
    (entries.take n).findIdx? (fun b => key b = key a) = some i := by
  obtain ⟨hlength, rfl⟩ := List.getElem?_eq_some_iff.mp ha
  have hlt : i < (entries.take n).length := by
    rw [List.length_take]
    omega
  rw [List.findIdx?_eq_some_iff_getElem]
  refine ⟨hlt, by rw [List.getElem_take]; exact decide_eq_true rfl, fun j hj => ?_⟩
  rw [List.getElem_take, Bool.not_eq_true, decide_eq_false_iff_not]
  intro hkey
  have hij := eq_of_key_eq hnodup (by omega) hlength hkey
  omega

/-- A new entry is not found before its place. -/
theorem findIdx?_take {entries : List α} (hnodup : (entries.map key).Nodup) {n : ℕ} {a : α}
    (ha : entries[n]? = some a) :
    (entries.take n).findIdx? (fun b => key b = key a) = none := by
  obtain ⟨hlength, rfl⟩ := List.getElem?_eq_some_iff.mp ha
  rw [List.findIdx?_eq_none_iff]
  intro b hb
  obtain ⟨j, hj, rfl⟩ := List.mem_iff_getElem.mp hb
  rw [List.length_take] at hj
  rw [List.getElem_take, decide_eq_false_iff_not]
  intro hkey
  have hjn := eq_of_key_eq hnodup (by omega) hlength hkey
  omega

/-- What the numbering of an element does to the dictionary. -/
theorem place_spec {entries : List α} (hnodup : (entries.map key).Nodup) (a : α) :
    (∃ i b, i < entries.length ∧ entries[i]? = some b ∧ key b = key a ∧
      place key entries a = (entries, i)) ∨
    ((entries ++ [a]).map key).Nodup ∧ place key entries a = (entries ++ [a], entries.length) := by
  unfold place
  cases hfind : entries.findIdx? fun b => key b = key a with
  | some i =>
    obtain ⟨hlength, hkey, -⟩ := List.findIdx?_eq_some_iff_getElem.mp hfind
    exact .inl ⟨i, entries[i], hlength, List.getElem?_eq_getElem hlength, of_decide_eq_true hkey, rfl⟩
  | none =>
    have hnew : ∀ b ∈ entries, key b ≠ key a := by
      intro b hb
      simpa using List.findIdx?_eq_none_iff.mp hfind b hb
    refine .inr ⟨?_, rfl⟩
    rw [List.map_append, List.nodup_append]
    refine ⟨hnodup, List.pairwise_singleton _ _, fun k hk l hl => ?_⟩
    obtain ⟨b, hb, rfl⟩ := List.mem_map.mp hk
    obtain rfl := List.mem_singleton.mp hl
    exact hnew b hb

/-- The numbering of a list extends a dictionary without repetitions to one, uses the new entries
in their order, and gives each element the index of an entry with its key. -/
theorem numbered_spec {entries : List α} (hnodup : (entries.map key).Nodup) (as : List α) :
    entries <+: (numbered key entries as).1 ∧ ((numbered key entries as).1.map key).Nodup ∧
    Uses (numbered key entries as).1.length entries.length (numbered key entries as).2
      (numbered key entries as).1.length ∧
    List.Forall₂ (fun a i => ∃ b, (numbered key entries as).1[i]? = some b ∧ key b = key a) as
      (numbered key entries as).2 := by
  induction as generalizing entries with
  | nil => exact ⟨List.prefix_rfl, hnodup, .nil _, .nil⟩
  | cons a as ih =>
    rw [numbered]
    dsimp only
    rcases place_spec hnodup a with ⟨i, b, hi, hb, hkey, hplace⟩ | ⟨hnew, hplace⟩
    · rw [hplace]
      obtain ⟨hbegins, hkeys, huses, hnamed⟩ := ih hnodup
      refine ⟨hbegins, hkeys, .again hi huses, .cons ⟨b, ?_, hkey⟩ hnamed⟩
      obtain ⟨rest, hrest⟩ := hbegins
      rw [← hrest, List.getElem?_append_left hi, hb]
    · rw [hplace]
      obtain ⟨hbegins, hkeys, huses, hnamed⟩ := ih hnew
      have hlength : (entries ++ [a]).length = entries.length + 1 := by
        rw [List.length_append, List.length_singleton]
      have hle := hbegins.length_le
      rw [hlength] at huses hle
      dsimp only
      refine ⟨(List.prefix_append _ _).trans hbegins, hkeys, .first (by omega) huses,
        .cons ⟨a, ?_, rfl⟩ hnamed⟩
      obtain ⟨rest, hrest⟩ := hbegins
      rw [← hrest, List.getElem?_append_left (by omega), List.getElem?_concat_length]

/-- Every entry was there before or is an element of the list. -/
theorem mem_numbered {entries as : List α} {b : α} (h : b ∈ (numbered key entries as).1) :
    b ∈ entries ∨ b ∈ as := by
  induction as generalizing entries with
  | nil => exact .inl h
  | cons a as ih =>
    rw [numbered] at h
    rcases ih h with hentry | has
    · unfold place at hentry
      split at hentry
      · exact .inl hentry
      · rcases List.mem_append.mp hentry with hold | hnew
        · exact .inl hold
        · exact .inr (List.mem_cons.mpr (.inl (List.mem_singleton.mp hnew)))
    · exact .inr (.tail _ has)

/-- A list adds at most one entry for each of its elements. -/
theorem length_numbered_le (entries as : List α) :
    (numbered key entries as).1.length ≤ entries.length + as.length := by
  induction as generalizing entries with
  | nil => exact le_rfl
  | cons a as ih =>
    rw [numbered]
    have hplace : (place key entries a).1.length ≤ entries.length + 1 := by
      unfold place
      split
      · exact Nat.le_succ _
      · rw [List.length_append, List.length_singleton]
    have hrest := ih (place key entries a).1
    rw [List.length_cons]
    dsimp only
    omega

/-- A dictionary without repetitions is the numbering of what its indices stand for. -/
theorem numbered_of_uses {entries : List α} (hnodup : (entries.map key).Nodup) {next last : ℕ}
    {is : List ℕ} (huses : Uses entries.length next is last) {as : List α}
    (has : List.Forall₂ (fun a i => entries[i]? = some a) as is) :
    numbered key (entries.take next) as = (entries.take last, is) := by
  induction huses generalizing as with
  | nil next =>
    cases has
    rfl
  | again hi _ ih =>
    cases has with
    | cons ha has =>
      have hfind := findIdx?_getElem hnodup hi ha
      rw [numbered, place, hfind]
      dsimp only
      rw [ih has]
  | first hnext _ ih =>
    cases has with
    | cons ha has =>
      have hfind := findIdx?_take hnodup ha
      obtain ⟨hlength, rfl⟩ := List.getElem?_eq_some_iff.mp ha
      have htake := List.take_concat_get' entries _ hlength
      rw [numbered, place, hfind]
      dsimp only
      rw [htake, ih has, List.length_take, min_eq_left hlength.le]

end Kdna.FirstUse

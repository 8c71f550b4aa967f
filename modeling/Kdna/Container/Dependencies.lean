import Kdna.Container.Semver
import Kdna.Data.Declared

/-!
# Dependency resolution

`resolveDependencies` of `container/index.js` over a resolver of finitely many assets. A manifest
lists its dependencies in the order in which the language enumerates them; what else it holds is
not read. The recursion is counted, and more than the number of assets is never needed.
-/

namespace Kdna.Dependencies

open Semver Declared

/-- `manifest.dependencies`: names with their ranges. -/
structure Manifest where
  dependencies : List (String × List Char)

/-- What the resolver returns. -/
structure Asset where
  version : List Char
  path : String
  manifest : Manifest

/-- An entry of the result. -/
structure Resolved where
  name : String
  version : List Char
  path : String
  manifest : Manifest

/-- The assets that a resolver knows by name. -/
abbrev Assets := List (String × Asset)

/-- `resolveAssetCallback(name)` -/
def Assets.resolve (assets : Assets) (name : String) : Option Asset :=
  (assets.find? fun a => a.1 = name).map Prod.snd

/-- What `resolveDependencies` throws. -/
inductive Failure
  | circular (stack : List String) (name : String)
  | notInstalled (name : String) (range : List Char)
  | mismatch (name : String) (version range : List Char)

/-- The message of a failure. -/
def Failure.message : Failure → String
  | circular stack name =>
    "Circular dependency detected: " ++ " -> ".intercalate stack ++ " -> " ++ name
  | notInstalled name range =>
    "Dependency not satisfied: \"" ++ name ++ "\" matching \"" ++ String.ofList range ++
      "\" is not installed."
  | mismatch name version range =>
    "Dependency mismatch: installed \"" ++ name ++ "\" version \"" ++ String.ofList version ++
      "\" does not satisfy range \"" ++ String.ofList range ++ "\"."

/-- How a resolution ends without a result: it throws, or its recursion was counted too short. -/
inductive Stop
  | fuel
  | thrown (f : Failure)

/-- `resolved` with `seen`. -/
abbrev Found := List Resolved × List String

section Code

variable (assets : Assets)

/-- One turn of the loop of `resolveDependencies`. -/
def visit (recurse : Manifest → List String → List String → Except Stop Found)
    (stack : List String) (found : Found) (dep : String × List Char) : Except Stop Found :=
  let (name, range) := dep
  let (resolved, seen) := found
  if name ∈ stack then .error (.thrown (.circular stack name))
  else if name ∈ seen then .ok (resolved, seen)
  else match assets.resolve name with
    | none => .error (.thrown (.notInstalled name range))
    | some depAsset =>
      if satisfies depAsset.version range then do
        let (subResolved, seen) ← recurse depAsset.manifest seen (stack ++ [name])
        return (resolved ++ subResolved ++
          [⟨name, depAsset.version, depAsset.path, depAsset.manifest⟩], seen ++ [name])
      else .error (.thrown (.mismatch name depAsset.version range))

/-- `resolveDependencies(manifest, resolveAssetCallback, seen, stack)` -/
def resolveDependencies : ℕ → Manifest → List String → List String → Except Stop Found
  | 0, _, _, _ => .error .fuel
  | k + 1, manifest, seen, stack =>
    manifest.dependencies.foldlM (visit assets (resolveDependencies k) stack) ([], seen)

/-- What an asset depends on. -/
def next (name : String) : Option (List (String × List Char)) :=
  (assets.resolve name).map fun a => a.manifest.dependencies

/-- The resolved version of a dependency lies in its range. -/
def Fits (dep : String × List Char) : Prop :=
  ∃ a, assets.resolve dep.1 = some a ∧ satisfies a.version dep.2 = true

end Code

section Turns

variable {assets : Assets} {k : ℕ} {manifest : Manifest} {seen stack : List String}
  {recurse : Manifest → List String → List String → Except Stop Found} {found after : Found}
  {name : String} {range : List Char}

/-- A turn of the loop that goes on: the name has been seen, or its asset is resolved. -/
theorem visit_eq_ok_iff : visit assets recurse stack found (name, range) = .ok after ↔
    name ∉ stack ∧ (name ∈ found.2 ∧ after = found ∨ name ∉ found.2 ∧ ∃ a sub,
      assets.resolve name = some a ∧ satisfies a.version range = true ∧
      recurse a.manifest found.2 (stack ++ [name]) = .ok sub ∧
      after = (found.1 ++ sub.1 ++ [⟨name, a.version, a.path, a.manifest⟩], sub.2 ++ [name])) := by
  obtain ⟨resolved, seen⟩ := found
  rw [visit]
  dsimp only
  by_cases hstack : name ∈ stack
  · rw [if_pos hstack]
    exact ⟨fun h => (by cases h), fun h => absurd hstack h.1⟩
  rw [if_neg hstack, and_iff_right hstack]
  by_cases hseen : name ∈ seen
  · rw [if_pos hseen, and_iff_right hseen, or_iff_left fun h => h.1 hseen, Except.ok.injEq, eq_comm]
  rw [if_neg hseen, or_iff_right fun h => hseen h.1, and_iff_right hseen]
  cases hresolve : assets.resolve name with
  | none => exact ⟨fun h => (by cases h), fun ⟨_, _, h, _⟩ => absurd h.symm (Option.some_ne_none _)⟩
  | some a =>
    dsimp only
    by_cases hfits : satisfies a.version range = true
    · rw [if_pos hfits]
      cases hsub : recurse a.manifest seen (stack ++ [name]) with
      | error e =>
        refine ⟨fun h => (by cases h), fun ⟨_, _, h, _, h', _⟩ => ?_⟩
        obtain rfl := Option.some.inj h
        cases hsub.symm.trans h'
      | ok sub =>
        constructor
        · intro h
          exact ⟨a, sub, rfl, hfits, hsub, (Except.ok.inj h).symm⟩
        · rintro ⟨a', sub', h, -, h', rfl⟩
          obtain rfl := Option.some.inj h
          obtain rfl := Except.ok.inj (hsub.symm.trans h')
          rfl
    · rw [if_neg hfits]
      refine ⟨fun h => (by cases h), fun ⟨_, _, h, h', _⟩ => ?_⟩
      obtain rfl := Option.some.inj h
      exact absurd h' hfits

end Turns

end Kdna.Dependencies

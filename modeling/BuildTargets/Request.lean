import BuildTargets.Source
import BuildTargets.Template
import BuildTargets.Text.Blank

/-!
# Requests

A request says what a build file has to declare: a target, its source, and perhaps an output
directory. It is worked out once, from the path of the source, the directory of the build file and the
settings.
-/

namespace BuildTargets

/-- What a build file has to declare. -/
structure Request where
  /-- The directory of the build file, as it was given. -/
  base : Path
  /-- The output directory, if there is to be one. -/
  outputDirectory : Option Text
  /-- The path of the source as seen from `base`. -/
  relativePath : Text
  source : Source
  targetName : Text
  deriving DecidableEq, Repr

namespace Request

/-- Whether a character cannot stand in the name of a target. -/
def isForbidden (c : Char) : Bool := isBlank c || c = '(' || c = ')' || c = '"'

/-- Why a text cannot be the name of a target, if it cannot. -/
def nameProblem? (name : Text) : Option Text :=
  if name = [] then some "resolves to an empty target name".toList
  else if name.any isForbidden then
    some "target name may not contain whitespace, parentheses, or quotes".toList
  else none

/-- Whether a text can be the name of a target. -/
def IsTargetName (name : Text) : Prop := name ≠ [] ∧ ∀ c ∈ name, isForbidden c = false

theorem nameProblem?_eq_none_iff {name : Text} :
    nameProblem? name = none ↔ IsTargetName name := by
  unfold nameProblem? IsTargetName
  split
  · next h => exact iff_of_false (by exact Option.some_ne_none _) (fun hn => hn.1 h)
  · next h =>
    split
    · next ha =>
      obtain ⟨c, hc, hf⟩ := List.any_eq_true.1 ha
      exact iff_of_false (by exact Option.some_ne_none _) fun hn => by simp [hn.2 c hc] at hf
    · next ha =>
      refine iff_of_true rfl ⟨h, fun c hc => ?_⟩
      rw [← Bool.not_eq_true]
      exact fun hf => ha (List.any_eq_true.2 ⟨c, hc, hf⟩)

instance (name : Text) : Decidable (IsTargetName name) :=
  decidable_of_iff ((nameProblem? name).isNone = true) <| by
    rw [Option.isNone_iff_eq_none, nameProblem?_eq_none_iff]

/-- The request for a source against the directory `base`. -/
def ofPaths (path base : Path) (settings : Settings) : Except Fault Request := do
  let source ← Source.ofPath path
  let relativePath ← Source.relativePath base source.path
  let directory ← Source.relativeDirectory base source.path
  let values := Template.Values.ofSource source.stem directory
  let targetName := Template.resolve values settings.targetName
  match nameProblem? targetName with
  | some problem =>
    .error (.badSetting Settings.Key.targetName.text settings.targetName problem)
  | none =>
    let output := Template.resolve values settings.outputDirectory
    .ok {
      base := base
      outputDirectory := if output = [] then none else some output
      relativePath := relativePath
      source := source
      targetName := targetName }

end Request

end BuildTargets

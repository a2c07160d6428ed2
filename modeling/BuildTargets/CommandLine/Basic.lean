import BuildTargets.Text.Basic

/-!
# The arguments of the command line

The commands of the program form a tree. Each has options, arguments that are known by their position,
and perhaps commands below it.
-/

namespace BuildTargets.CommandLine

/-- What an argument takes. -/
inductive Arity where
  /-- Nothing: it is given or not. -/
  | flag
  /-- Nothing, but it may be given more than once. -/
  | counted
  /-- Nothing: it asks for help. -/
  | help
  /-- Nothing: it asks for the version. -/
  | version
  /-- A text. -/
  | text
  /-- A path, which must not be empty. -/
  | path
  /-- One of a few words. -/
  | word (choices : List Text)
  deriving DecidableEq, Repr

/-- An argument. -/
structure Argument where
  /-- The name of an option, without its dashes; empty for an argument known by its position. -/
  long : Text := []
  /-- The letter of an option, if it has one. -/
  short : Option Char := none
  /-- The word that stands for the value in messages. -/
  placeholder : Text := []
  arity : Arity := .flag
  deriving DecidableEq, Repr

namespace Argument

/-- Whether an argument takes a value. -/
def takesValue (a : Argument) : Bool :=
  match a.arity with
  | .text | .path | .word _ => true
  | _ => false

/-- An argument in messages. -/
def text (a : Argument) : Text :=
  let value := '<' :: a.placeholder ++ ['>']
  if a.long = [] then value
  else
    ['-', '-'] ++ a.long ++
      (if a.takesValue then ' ' :: value
        else if a.arity = .counted then ['.', '.', '.']
        else [])

def help : Argument := { long := "help".toList, short := some 'h', arity := .help }

def version : Argument := { long := "version".toList, short := some 'V', arity := .version }

def verbose : Argument := { long := "verbose".toList, short := some 'v', arity := .counted }

def format : Argument where
  long := "format".toList
  placeholder := "FORMAT".toList
  arity := .word ["text".toList, "json".toList]

def noInput : Argument := { long := "no-input".toList }

def yes : Argument := { long := "yes".toList, short := some 'y' }

def name : Argument := { long := "name".toList, placeholder := "NAME".toList, arity := .text }

def outputDirectory : Argument :=
  { long := "output-dir".toList, placeholder := "OUTPUT_DIR".toList, arity := .text }

def projectRoot : Argument :=
  { long := "project-root".toList, placeholder := "PROJECT_ROOT".toList, arity := .path }

def source : Argument := { placeholder := "SOURCE".toList, arity := .path }

def key : Argument := { placeholder := "KEY".toList, arity := .text }

def value : Argument := { placeholder := "VALUE".toList, arity := .text }

end Argument

/-- A command of the program, or the program itself. -/
inductive Level where
  | program
  | add
  | check
  | config
  | setSetting
  | showSettings
  | help
  deriving DecidableEq, Repr

namespace Level

/-- The word for a command. -/
def word : Level → Text
  | program => "entrypoint".toList
  | add => "add".toList
  | check => "check".toList
  | config => "config".toList
  | setSetting => "set".toList
  | showSettings => "show".toList
  | help => "help".toList

/-- The commands below a command. -/
def below : Level → List Level
  | program => [add, check, config, help]
  | config => [setSetting, showSettings, help]
  | _ => []

/-- The words that lead to a command. -/
def title : Level → Text
  | program => word program
  | setSetting => word program ++ ' ' :: word config ++ ' ' :: word setSetting
  | showSettings => word program ++ ' ' :: word config ++ ' ' :: word showSettings
  | l => word program ++ ' ' :: word l

/-- The options of a command. -/
def options : Level → List Argument
  | program => [.version, .verbose, .help]
  | add => [.format, .noInput, .yes, .name, .outputDirectory, .projectRoot, .verbose, .help]
  | check => [.name, .outputDirectory, .projectRoot, .verbose, .help]
  | config => [.projectRoot, .verbose, .help]
  | _ => [.verbose, .help]

/-- The arguments of a command that are known by their position. -/
def positionals : Level → List Argument
  | add | check => [.source]
  | setSetting => [.key, .value]
  | _ => []

/-- The command with a given word below another. -/
def child? (l : Level) (t : Text) : Option Level := l.below.find? (·.word = t)

end Level

end BuildTargets.CommandLine

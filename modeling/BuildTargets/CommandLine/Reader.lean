import BuildTargets.Command
import BuildTargets.CommandLine.Basic
import BuildTargets.Text.Visible

/-!
# Reading the command line

Arguments are read from left to right. The value of an option is checked when the next argument is
recognised, so an argument that nobody knows is reported before a bad value in front of it. Two dashes
end the options. A message quotes arguments without what a terminal would take as an instruction.
-/

namespace BuildTargets.CommandLine

/-- Why no command is run. -/
inductive Ending where
  /-- The arguments are wrong. -/
  | refused (message : Text)
  /-- Help was asked for; or, if `wanted` is false, it is shown because nothing was asked for. -/
  | help (wanted : Bool)
  /-- The version was asked for. -/
  | version
  deriving DecidableEq, Repr

/-- What is visible of a text, between single quotes. -/
def quoted (t : Text) : Text := '\'' :: t.visible ++ ['\'']

namespace Ending

/-- An argument that nobody knows. -/
def unexpected (arg : Text) : Ending :=
  refused ("unexpected argument ".toList ++ quoted arg ++ " found".toList)

/-- A word that is no command. -/
def unknownCommand (arg : Text) : Ending :=
  refused ("unrecognized subcommand ".toList ++ quoted arg)

/-- An option without its value. -/
def missingValue (a : Argument) : Ending :=
  refused ("a value is required for ".toList ++ quoted a.text ++ " but none was supplied".toList)

/-- A value that is none of the words for an option. -/
def badValue (a : Argument) (value : Text) : Ending :=
  refused ("invalid value ".toList ++ quoted value ++ " for ".toList ++ quoted a.text)

/-- A value for an option that takes none. -/
def unneededValue (a : Argument) (value : Text) : Ending :=
  refused ("unexpected value ".toList ++ quoted value ++ " for ".toList ++ quoted a.text ++
    " found; no more were expected".toList)

/-- An option that is given twice. -/
def repeated (a : Argument) : Ending :=
  refused ("the argument ".toList ++ quoted a.text ++ " cannot be used multiple times".toList)

/-- Two options that exclude each other. -/
def conflict (a b : Argument) : Ending :=
  refused ("the argument ".toList ++ quoted a.text ++ " cannot be used with ".toList ++ quoted b.text)

/-- An argument is missing. -/
def missingArgument : Ending :=
  refused "the following required arguments were not provided:".toList

/-- A command is missing. -/
def missingCommand (l : Level) : Ending :=
  refused (quoted l.title ++ " requires a subcommand but one was not provided".toList)

end Ending

/-- The arguments given so far, each with its value. -/
abbrev Given := List (Argument × Text)

/-- The value given for an argument. -/
def Given.value? (g : Given) (a : Argument) : Option Text := g.lookup a

/-- Whether an argument has been given. -/
def Given.has (g : Given) (a : Argument) : Bool := (g.value? a).isSome

/-- Whether a value suits an argument. -/
def checkValue (a : Argument) (value : Text) : Except Ending Unit :=
  match a.arity with
  | .path => if value = [] then .error (.missingValue a) else .ok ()
  | .word choices =>
    if value = [] then .error (.missingValue a)
    else if value ∈ choices then .ok ()
    else .error (.badValue a value)
  | _ => .ok ()

/-- Takes an argument with its value, if it has come with one. -/
def Given.add (g : Given) (a : Argument) (value : Option Text) : Except Ending Given :=
  match a.arity with
  | .help => .error (.help true)
  | .version => .error .version
  | .counted => .ok (if g.has a then g else g ++ [(a, [])])
  | .flag => if g.has a then .error (.repeated a) else .ok (g ++ [(a, [])])
  | _ =>
    match value with
    | none => .error (.missingValue a)
    | some v =>
      if g.has a then .error (.repeated a) else (checkValue a v).map fun () => g ++ [(a, v)]

/-- How far the arguments of a command have been read. -/
structure Scan where
  given : Given := []
  /-- The last argument that takes a value, with the value if it has come; not checked yet. -/
  pending : Option (Argument × Option Text) := none
  /-- Whether the options have ended. -/
  trailing : Bool := false
  /-- How many arguments have been known by their position. -/
  position : Nat := 0
  deriving DecidableEq, Repr

namespace Scan

/-- Whether the next argument is the value of an option. -/
def isOpen (s : Scan) : Bool :=
  match s.pending with
  | some (_, none) => true
  | _ => false

/-- Checks the last value. -/
def settle (s : Scan) : Except Ending Scan :=
  match s.pending with
  | none => .ok s
  | some (a, value) => (s.given.add a value).map fun g => { s with given := g, pending := none }

/-- Takes an argument that has come with its value or has none. -/
def accept (s : Scan) (a : Argument) (value : Option Text) : Except Ending Scan := do
  let s ← s.settle
  let g ← s.given.add a value
  return { s with given := g }

/-- Reads an argument that starts with two dashes, which are left out. A value may follow an equals
sign. -/
def takeLong (l : Level) (s : Scan) (arg : Text) : Except Ending Scan :=
  let name := arg.takeWhile (· ≠ '=')
  let value :=
    match arg.dropWhile (· ≠ '=') with
    | [] => none
    | _ :: v => some v
  match l.options.find? (·.long = name) with
  | none => .error (.unexpected (['-', '-'] ++ name))
  | some a =>
    match a.takesValue, value with
    | true, none => s.settle.map fun s => { s with pending := some (a, none) }
    | false, some v => .error (.unneededValue a v)
    | _, value => s.accept a value

/-- Reads the letters behind a dash. -/
def takeShort (l : Level) (s : Scan) : Text → Except Ending Scan
  | [] => .ok s
  | c :: cs =>
    match l.options.find? (·.short = some c) with
    | none => .error (.unexpected ['-', c])
    | some a => do
      let s ← s.accept a none
      takeShort l s cs

/-- Reads an argument that is known by its position. -/
def takePositional (l : Level) (s : Scan) (arg : Text) : Except Ending Scan :=
  match l.positionals[s.position]? with
  | some a =>
    s.settle.map fun s => { s with pending := some (a, some arg), position := s.position + 1 }
  | none =>
    if l.below = [] || (s.trailing && (l.child? arg).isSome) then .error (.unexpected arg)
    else .error (.unknownCommand arg)

/-- Reads an argument that is no command. -/
def take (l : Level) (s : Scan) (arg : Text) : Except Ending Scan :=
  if s.trailing then s.takePositional l arg
  else
    match arg with
    | ['-', '-'] => .ok { s with trailing := true }
    | '-' :: '-' :: name => s.takeLong l name
    | '-' :: c :: cs => s.takeShort l (c :: cs)
    | _ =>
      match s.pending with
      | some (a, none) => .ok { s with pending := some (a, some arg) }
      | _ => s.takePositional l arg

/-- Reads the arguments of a command up to the word for a command below it; gives that command and the
arguments left for it. -/
def takeAll (l : Level) (s : Scan) : List Text → Except Ending (Scan × Option (Level × List Text))
  | [] => .ok (s, none)
  | arg :: rest =>
    match if s.trailing || s.isOpen then none else l.child? arg with
    | some below => .ok (s, some (below, rest))
    | none => do
      let s ← s.take l arg
      takeAll l s rest

/-- The arguments of a command that has none below it. -/
def all (l : Level) (args : List Text) : Except Ending Given := do
  let (s, _) ← takeAll l {} args
  return (← s.settle).given

end Scan

/-- Why no command is run where a command below `l` is missing: if nothing was asked for, help is
shown. -/
def withoutCommand (l : Level) (s : Scan) : Ending :=
  match s.settle with
  | .error e => e
  | .ok s => if s.given = [] then .help false else .missingCommand l

/-- The help for a command, which the words lead to. -/
def helpFor (l : Level) : List Text → Ending
  | [] => .help true
  | t :: ts =>
    match l.child? t with
    | some below => helpFor below ts
    | none => .unknownCommand t

/-- The path that is the value of an argument. An empty text gives none. -/
def pathOf (a : Argument) (value : Text) : Except Ending NonemptyPath :=
  if h : (Path.ofText value).bytes ≠ [] then .ok ⟨Path.ofText value, h⟩ else .error (.missingValue a)

/-- The source, the project and the overrides that arguments name. -/
def targetOf (g : Given) : Except Ending Target :=
  match g.value? .source with
  | none => .error .missingArgument
  | some source => do
    return {
      source := ← pathOf .source source
      projectRoot := ← pathOf .projectRoot ((g.value? .projectRoot).getD ['.'])
      overrides := {
        targetName := g.value? .name
        outputDirectory := g.value? .outputDirectory
        skipConfirmation := g.has .yes } }

/-- The two options that exclude each other, in the order in which they have been given. -/
def conflict? (g : Given) : Option (Argument × Argument) :=
  match (g.map (·.1)).filter (· ∈ [Argument.noInput, Argument.yes]) with
  | a :: b :: _ => some (a, b)
  | _ => none

/-- The command to declare a source. -/
def readAdd (args : List Text) : Except Ending Command := do
  let g ← Scan.all .add args
  if let some (a, b) := conflict? g then throw (.conflict a b)
  let target ← targetOf g
  let format := if g.value? .format = some "json".toList then Format.json else Format.text
  return .add target (g.has .noInput) format

/-- The command to check a source. -/
def readCheck (args : List Text) : Except Ending Command := do
  return .check (← targetOf (← Scan.all .check args))

/-- The command to show the settings, for any project. -/
def readShow (args : List Text) : Except Ending (Path → Command) :=
  (Scan.all .showSettings args).map fun _ => .showSettings

/-- The command to set a setting, for any project. -/
def readSet (args : List Text) : Except Ending (Path → Command) := do
  let g ← Scan.all .setSetting args
  match g.value? .key, g.value? .value with
  | some key, some value => return fun root => .setSetting root key value
  | _, _ => throw .missingArgument

/-- The command about the settings of a project. What precedes the word for a command is settled after
the rest has been read. -/
def readConfig (args : List Text) : Except Ending Command := do
  let (s, below) ← Scan.takeAll .config {} args
  let command ←
    match below with
    | some (.setSetting, rest) => readSet rest
    | some (.showSettings, rest) => readShow rest
    | some (.help, rest) => throw (helpFor .config rest)
    | _ => throw (withoutCommand .config s)
  let g := (← s.settle).given
  return command (Path.ofText ((g.value? .projectRoot).getD ['.']))

/-- The command that the arguments of the program ask for. -/
def read (args : List Text) : Except Ending Command := do
  let (s, below) ← Scan.takeAll .program {} args
  match below with
  | some (.add, rest) => readAdd rest
  | some (.check, rest) => readCheck rest
  | some (.config, rest) => readConfig rest
  | some (.help, rest) => throw (helpFor .program rest)
  | _ => throw (withoutCommand .program s)

end BuildTargets.CommandLine

import BuildTargets.Path.Basic
import BuildTargets.Settings.Basic
import BuildTargets.Text.Line
import BuildTargets.Text.Position

/-!
# Faults

The reasons for which an operation fails, each with what a reader needs to know. A fault has a short
message and a longer diagnostic in Markdown, which says what happened and often how to mend it.
-/

namespace BuildTargets

/-- The name of a build file. -/
def buildFileName : Text := "CMakeLists.txt".toList

/-- The name of the file that holds the settings of a project. -/
def settingsFileName : Text := ".entrypoint.toml".toList

/-- Why the system refused to read or write. -/
inductive IoCause where
  /-- An entry on the way, or the file itself, does not exist. -/
  | notFound
  /-- An entry on the way is no directory. -/
  | notADirectory
  /-- The entry is a directory where a file is wanted. -/
  | isADirectory
  /-- The entry may not be used in this way. -/
  | forbidden
  /-- A path, or a name in it, is longer than any can be. -/
  | nameTooLong
  /-- A path holds a zero octet, which no path can. -/
  | zeroInPath
  /-- Too many symbolic links were followed. -/
  | linkLoop
  /-- The entry is in use and cannot be replaced. -/
  | busy
  /-- The octets of a file are no text. -/
  | notText
  /-- No file could be set up in the directory to hold the new content. -/
  | noStaging (cause : IoCause) (directory : Path)
  /-- Anything else, in the words of whoever refused. -/
  | other (words : Text)
  deriving DecidableEq, Repr

/-- The words for a refusal. -/
def IoCause.message : IoCause → Text
  | notFound => "No such file or directory (os error 2)".toList
  | notADirectory => "Not a directory (os error 20)".toList
  | isADirectory => "Is a directory (os error 21)".toList
  | forbidden => "Permission denied (os error 13)".toList
  | nameTooLong => "File name too long (os error 36)".toList
  | zeroInPath => "file name contained an unexpected NUL byte".toList
  | linkLoop => "Too many levels of symbolic links (os error 40)".toList
  | busy => "Device or resource busy (os error 16)".toList
  | notText => "stream did not contain valid UTF-8".toList
  | noStaging cause directory =>
    cause.message ++ " at path \"".toList ++ directory.text ++ "\"".toList
  | other words => words

/-- Why a text holds no settings. -/
inductive SettingsProblem where
  /-- The text is no well-formed document. -/
  | malformed
  /-- There is no setting with this name. -/
  | unknownKey (key : Text)
  /-- A setting has a value of another type than it should; both are given in words. -/
  | wrongType (found wanted : Text)
  deriving DecidableEq, Repr

/-- Why an operation failed. -/
inductive Fault where
  /-- The settings file cannot be edited because it is malformed. -/
  | malformedSettings (file : Path) (reason : Text)
  /-- There is no build file; the paths are the candidates, in the order in which they were tried. -/
  | noBuildFile (searched : List Path)
  /-- The source does not lie below the base directory. -/
  | outsideBase (base source : Path)
  /-- A setting was given a value that it cannot have. -/
  | badSetting (key value reason : Text)
  /-- The path of the source names no file. -/
  | notASource (path : Path)
  /-- Reading or writing failed. -/
  | io (cause : IoCause)
  /-- The report cannot be written in its machine-readable form. -/
  | unreportable (reason : Text)
  /-- The settings file is malformed, or does not hold settings. -/
  | invalidSettings (problem : SettingsProblem)
  /-- The settings cannot be written down. -/
  | unprintableSettings (reason : Text)
  /-- There is no setting with this name. -/
  | unknownSetting (key : Text)
  deriving DecidableEq, Repr

/-- A text between backquotes. -/
def Fault.quoted (t : Text) : Text := '`' :: t ++ ['`']

/-- The words for a problem with settings. -/
def SettingsProblem.message : SettingsProblem → Text
  | malformed => "the document is not well formed".toList
  | unknownKey key =>
    "unknown field ".toList ++ Fault.quoted key ++ ", expected one of ".toList ++
      joinWith ", ".toList (Settings.Key.all.map fun k => Fault.quoted k.text)
  | wrongType found wanted => "invalid type: ".toList ++ found ++ ", expected ".toList ++ wanted

namespace Fault

/-- The short message of a fault. -/
def message : Fault → Text
  | malformedSettings file reason =>
    "config parse failed: ".toList ++ file.text ++ ": ".toList ++ reason
  | noBuildFile searched =>
    "no CMakeLists.txt found (searched: ".toList ++
      joinWith ", ".toList (searched.map Path.text) ++ ")".toList
  | outsideBase base source =>
    source.text ++ " is not inside base directory ".toList ++ base.text
  | badSetting key value reason =>
    "invalid value ".toList ++ quoted value ++ " for setting ".toList ++ quoted key ++
      ": ".toList ++ reason
  | notASource path => "not a source file: ".toList ++ path.text
  | io cause => "io: ".toList ++ cause.message
  | unreportable reason => "json: ".toList ++ Text.withPlainPosition reason
  | invalidSettings problem => "toml deserialize: ".toList ++ problem.message
  | unprintableSettings reason => "toml serialize: ".toList ++ reason
  | unknownSetting key => "unknown setting: ".toList ++ quoted key

/-- Lines, each with a line feed behind it. -/
def lines (ls : List Text) : Text := ls.flatMap (· ++ ['\n'])

/-- An item of a list. -/
def item (t : Text) : Text := "- ".toList ++ quoted t

/-- The diagnostic of a fault, in Markdown. -/
def diagnostic : Fault → Text
  | malformedSettings file reason => lines
      ["# Error: Config Parse Failed".toList, [],
        "Could not parse ".toList ++ quoted file.text ++ ": ".toList ++ reason]
  | noBuildFile searched => lines <|
      ["# Error: No Build File".toList, [],
        "No ".toList ++ quoted buildFileName ++ " was found for this source file.".toList, [],
        "## Searched".toList, []] ++
      searched.map (fun p => item p.text) ++
      [[], "## Fix".toList, [],
        "Create a build file next to the source or at the project root, or pass".toList,
        "`--project-root` pointing at the directory that has one.".toList]
  | outsideBase base source => lines
      ["# Error: Source Outside Base Directory".toList, [],
        quoted source.text ++ " is not inside ".toList ++ quoted base.text ++
          ", so it cannot be referenced without `..` segments.".toList, [],
        "## Fix".toList, [],
        "Run from the project that contains the source, or pass `--project-root`.".toList]
  | badSetting key value reason => lines
      ["# Error: Invalid Setting".toList, [],
        quoted key ++ " = ".toList ++ quoted value ++ ": ".toList ++ reason, [],
        "## Fix".toList, [],
        "    entrypoint config set ".toList ++ key ++ " <value>".toList]
  | notASource path => lines
      ["# Error: Not A Source File".toList, [],
        quoted path.text ++ " does not name a file.".toList]
  | io cause => lines ["# Error: I/O".toList, [], cause.message]
  | unreportable reason => lines
      ["# Error".toList, [], message (unreportable reason)]
  | invalidSettings problem => lines
      ["# Error: Invalid Settings".toList, [], problem.message, [], "## Fix".toList, [],
        "Check ".toList ++ quoted settingsFileName ++ ". Known settings: ".toList ++
          joinWith ", ".toList (Settings.Key.all.map Settings.Key.text) ++ ".".toList]
  | unprintableSettings reason => lines
      ["# Error: TOML Serialization".toList, [], reason]
  | unknownSetting key => lines <|
      ["# Error: Unknown Setting".toList, [], quoted key ++ " is not a setting.".toList, [],
        "## Known settings".toList, []] ++
      Settings.Key.all.map (fun k => item k.text)

/-- The diagnostic as it is shown on a terminal: headings are bold. -/
def shown (f : Fault) : Text :=
  lines <| (Line.split f.diagnostic).map fun l =>
    if l.content.head? = some '#' then "\x1b[1m".toList ++ l.content ++ "\x1b[0m".toList
    else l.content

end Fault

end BuildTargets

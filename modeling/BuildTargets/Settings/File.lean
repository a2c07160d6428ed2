import BuildTargets.Decimal.Shortest
import BuildTargets.Fault
import BuildTargets.Text.Blank
import BuildTargets.Text.Quoted
import BuildTargets.Toml.Document
import BuildTargets.Toml.Written

/-!
# The settings file

Settings are kept as the top entries of a TOML document. Reading takes the entries in their order, and
the first that is no setting decides what is wrong with the document. Setting one of them leaves the
rest of the document as it is.
-/

namespace BuildTargets.Settings

/-- The words for what a value denotes. -/
def described : Toml.Datum → Text
  | .string t => "string ".toList ++ Text.quoted t
  | .integer n => "integer ".toList ++ Fault.quoted (toString n).toList
  | .float x => "floating point ".toList ++ Fault.quoted x.text
  | .boolean b => "boolean ".toList ++ Fault.quoted (Toml.writtenBool b)
  | .moment | .map => "map".toList
  | .sequence => "sequence".toList

/-- The settings with one of them as a value says. -/
def assign (s : Settings) : Key → Toml.Datum → Except SettingsProblem Settings
  | .targetName, .string t => .ok { s with targetName := t }
  | .outputDirectory, .string t => .ok { s with outputDirectory := t }
  | .skipConfirmation, .boolean b => .ok { s with skipConfirmation := b }
  | .skipConfirmation, d => .error (.wrongType (described d) "a boolean".toList)
  | _, d => .error (.wrongType (described d) "a string".toList)

/-- The settings with the one of a given name as a value says. -/
def assignNamed (s : Settings) (name : Text) (d : Toml.Datum) : Except SettingsProblem Settings :=
  match Key.ofText? name with
  | some key => s.assign key d
  | none => .error (.unknownKey name)

/-- The settings with those that a table holds. -/
def assignAll (s : Settings) : Toml.Table → Except SettingsProblem Settings
  | .empty => .ok s
  | .value key v rest => do
    let s ← s.assignNamed key.name v.datum
    s.assignAll rest
  | .table key kind _ rest => do
    let s ← s.assignNamed key.name (if kind.isElement then .sequence else .map)
    s.assignAll rest

/-- The settings that a text holds. -/
def read (text : Text) : Except SettingsProblem Settings :=
  match Toml.Document.read? text with
  | some d => default.assignAll d.root
  | none => .error .malformed

/-- The settings of a project whose settings file has been read with the given result. A project without
a settings file sets nothing. -/
def load : Except IoCause Text → Except Fault Settings
  | .error .notFound => .ok default
  | .error cause => .error (.io cause)
  | .ok text => (read text).mapError .invalidSettings

/-- The value of a setting, as written in a document. -/
def written (s : Settings) : Key → Text
  | .targetName => Toml.writtenString s.targetName
  | .outputDirectory => Toml.writtenString s.outputDirectory
  | .skipConfirmation => Toml.writtenBool s.skipConfirmation

/-- The settings as a document, a line each. -/
def text (s : Settings) : Text :=
  Key.all.flatMap fun key => key.text ++ " = ".toList ++ s.written key ++ ['\n']

/-- What a raw value makes of a setting. The template for the name of a target must not be blank. -/
def value (key : Text) (raw : Text) : Except Fault Toml.Datum :=
  match Key.ofText? key with
  | none => .error (.unknownSetting key)
  | some .targetName =>
    if Text.trim raw = [] then
      .error (.badSetting key raw "executable name template must not be empty".toList)
    else .ok (.string raw)
  | some .outputDirectory => .ok (.string raw)
  | some .skipConfirmation =>
    if raw = Toml.writtenBool true then .ok (.boolean true)
    else if raw = Toml.writtenBool false then .ok (.boolean false)
    else .error (.badSetting key raw "expected `true` or `false`".toList)

/-- A text or a truth value as a new value of a document. -/
def fresh (d : Toml.Datum) : Toml.Value where
  datum := d
  spelling :=
    match d with
    | .string t => Toml.writtenString t
    | .boolean b => Toml.writtenBool b
    | _ => []
  before := [' ']
  after := []

/-- The new text of a settings file in which one setting is set, the file having been read with the
given result. A missing file counts as an empty one. -/
def set (file : Path) (key raw : Text) (old : Except IoCause Text) : Except Fault Text := do
  let datum ← value key raw
  let text ←
    match old with
    | .error .notFound => pure []
    | .error cause => throw (.io cause)
    | .ok text => pure text
  match Toml.Document.read? text with
  | none => throw (.malformedSettings file SettingsProblem.malformed.message)
  | some d => return (d.put key (fresh datum)).text

end BuildTargets.Settings

import BuildTargets.Fault
import BuildTargets.Path.Normal

/-!
# Source files

What a path tells about a source file, without a look at the file itself.
-/

namespace BuildTargets

/-- A source file. -/
structure Source where
  /-- The name of the file without its last extension. -/
  stem : Text
  /-- The name of the file. -/
  fileName : Text
  /-- The directory that the file lies in. -/
  directory : Path
  /-- The normal path of the file. -/
  path : Path
  deriving DecidableEq, Repr

namespace Source

/-- A file name in front of its last dot; the whole name if it has none. -/
def stemOf (fileName : Text) : Text :=
  match cutLast '.' fileName with
  | some (front, _) => front
  | none => fileName

/-- The source file at a path. Its normal path must end in a name. -/
def ofPath (p : Path) : Except Fault Source :=
  let path := p.normalize
  match path.fileName? with
  | none => .error (.notASource path)
  | some name =>
    let fileName := Utf8.decodeLossy name
    .ok {
      stem := stemOf fileName
      fileName := fileName
      directory := path.parent?.getD ⟨[]⟩
      path := path }

/-- The path of a source as seen from `base`, with slashes between its names. The source must lie
strictly below `base`. -/
def relativePath (base source : Path) : Except Fault Text :=
  match base.below? source with
  | some names => .ok (Path.namesText names)
  | none => .error (.outsideBase base source)

/-- The directory of a source as seen from `base`, empty if that is `base` itself. -/
def relativeDirectory (base source : Path) : Except Fault Text :=
  (relativePath base source).map Path.directoryText

end Source

end BuildTargets

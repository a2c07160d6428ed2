import BuildTargets.Text.Basic

/-!
# Templates

A template is a text with placeholders. Resolving it is one pass from left to right: each placeholder
is replaced by its value, all else is copied, and what was put in is not looked at again. The
placeholders of a template can also be told apart beforehand, by `Template.pieces`.
-/

namespace BuildTargets

namespace Template

/-- The placeholders that a template may hold. -/
inductive Token where
  /-- The name of the source file without its extension. -/
  | fileName
  /-- The top directory of the project. -/
  | projectDirectory
  /-- The directory of the source file. -/
  | fileDirectory
  deriving DecidableEq, Repr

namespace Token

/-- The spelling of a placeholder. -/
def text : Token → Text
  | fileName => "%FILENAME%".toList
  | projectDirectory => "%PROJECT_DIR%".toList
  | fileDirectory => "%FILE_DIR%".toList

/-- All placeholders. -/
def all : List Token := [fileName, projectDirectory, fileDirectory]

/-- The placeholder at the beginning of `s`, and what follows it. -/
def leading? (s : Text) : Option (Token × Text) :=
  all.findSome? fun t => (after? t.text s).map fun rest => (t, rest)

theorem leading?_eq_some {s rest : Text} {t : Token} (h : leading? s = some (t, rest)) :
    s = t.text ++ rest := by
  obtain ⟨u, _, hu⟩ := List.exists_of_findSome?_eq_some h
  obtain ⟨r, hr, he⟩ := Option.map_eq_some_iff.1 hu
  cases he
  exact after?_eq_some_iff.1 hr

theorem length_of_leading? {s rest : Text} {t : Token} (h : leading? s = some (t, rest)) :
    rest.length < s.length := by
  have hpos : 0 < t.text.length := by cases t <;> decide
  rw [leading?_eq_some h, List.length_append]
  omega

end Token

/-- A value for each placeholder. -/
structure Values where
  fileName : Text
  projectDirectory : Text
  fileDirectory : Text
  deriving DecidableEq, Repr

namespace Values

/-- The value of a placeholder. -/
def get (v : Values) : Token → Text
  | .fileName => v.fileName
  | .projectDirectory => v.projectDirectory
  | .fileDirectory => v.fileDirectory

/-- The values for a source file with the name `stem`, in directory `directory` below the build
file's own; an empty text stands for that directory itself. -/
def ofSource (stem directory : Text) : Values where
  fileName := stem
  projectDirectory := "$\x7bPROJECT_SOURCE_DIR\x7d".toList
  fileDirectory :=
    let here := "$\x7bCMAKE_CURRENT_SOURCE_DIR\x7d".toList
    if directory = [] then here else here ++ '/' :: directory

end Values

/-- The template with its placeholders replaced. -/
def resolve (v : Values) : Text → Text
  | [] => []
  | c :: s =>
    match _h : Token.leading? (c :: s) with
    | some (t, rest) => v.get t ++ resolve v rest
    | none => c :: resolve v s
termination_by s => s.length
decreasing_by
  · exact Token.length_of_leading? _h
  · simp

/-- A stretch of a template. -/
inductive Piece where
  | token (t : Token)
  | literal (s : Text)
  deriving DecidableEq, Repr

namespace Piece

/-- The spelling of a piece. -/
def text : Piece → Text
  | token t => t.text
  | literal s => s

/-- What a piece becomes. -/
def value (v : Values) : Piece → Text
  | token t => v.get t
  | literal s => s

/-- Puts a character in front, into the first piece if that is a literal. -/
def consLiteral (c : Char) : List Piece → List Piece
  | literal s :: ps => literal (c :: s) :: ps
  | ps => literal [c] :: ps

end Piece

/-- The stretches of a template: its placeholders, and the longest literals between them. -/
def pieces : Text → List Piece
  | [] => []
  | c :: s =>
    match _h : Token.leading? (c :: s) with
    | some (t, rest) => .token t :: pieces rest
    | none => Piece.consLiteral c (pieces s)
termination_by s => s.length
decreasing_by
  · exact Token.length_of_leading? _h
  · simp

end Template

end BuildTargets

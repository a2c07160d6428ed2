import BuildTargets.BuildFile.Status
import BuildTargets.Statement.Writer

/-!
# Editing a build file

A target that is not declared is declared at the end of the file. One that is declared for another
source is declared anew in its place, and the lines that set its output directory are left out.
-/

namespace BuildTargets

namespace BuildFile

/-- The statements that declare a target: its source, and its output directory if there is one. -/
def statements (target path : Text) (directory : Option Text) : List Text :=
  Statement.executableLine target path :: (directory.map (Statement.propertiesLine target)).toList

/-- The text with the statements behind its end, each on a line of its own that is not ended. -/
def append (text target path : Text) (directory : Option Text) : Text :=
  text ++ (statements target path directory).flatMap ('\n' :: ·)

/-- Whether a line sets the output directory of the target. -/
def isOutputLine (target : Text) (l : Line) : Bool :=
  Statement.isStatement .properties target l.content

/-- Whether a line declares the target. -/
def isDeclaration (target : Text) (l : Line) : Bool :=
  Statement.isStatement .executable target l.content

/-- The lines with the first declaration of the target replaced by the statements `fresh`, and
without the lines that set its output directory. An unended last line gets a terminator. -/
def replaceDeclaration (target : Text) (fresh : List Text) : List Line → List Line
  | [] => []
  | l :: ls =>
    if isOutputLine target l then replaceDeclaration target fresh ls
    else if isDeclaration target l then
      fresh.map (fun s => ⟨s, l.ending.closed⟩) ++
        (ls.filter (!isOutputLine target ·)).map fun l => ⟨l.content, l.ending.closed⟩
    else ⟨l.content, l.ending.closed⟩ :: replaceDeclaration target fresh ls

/-- The text with the declaration of the target replaced. -/
def rewrite (text target path : Text) (directory : Option Text) : Text :=
  Line.join (replaceDeclaration target (statements target path directory) (Line.split text))

/-- The text that declares the target as wanted, given the status of the target. An empty output
directory counts as none. -/
def edit (text : Text) (status : Status) (target path : Text) (directory : Option Text) : Text :=
  let directory := directory.filter (· ≠ [])
  match status with
  | .absent => append text target path directory
  | .different => rewrite text target path directory
  | .same => text

end BuildFile

end BuildTargets

import BuildTargets.Source

/-!
# The build file of a source

A source belongs to the build file next to it, or else to the one at the root of its project.
-/

namespace BuildTargets.BuildFile

/-- The paths at which the build file of a source is looked for, in this order. A path is tried once. -/
def candidates (source : Source) (root : Path) : List Path :=
  let beside := source.directory.join (Path.ofText buildFileName)
  let atRoot := root.join (Path.ofText buildFileName)
  if beside.same atRoot then [beside] else [beside, atRoot]

/-- The first of some paths that leads to a regular file, as `isFile` says. -/
def firstFile {m : Type → Type} [Monad m] (isFile : Path → m Bool) : List Path → m (Option Path)
  | [] => return none
  | p :: ps => do
    if ← isFile p then return some p
    firstFile isFile ps

/-- The build file that a source belongs to. -/
def locate {m : Type → Type} [Monad m] (isFile : Path → m Bool) (source : Source) (root : Path) :
    ExceptT Fault m Path := do
  let paths := candidates source root
  match ← ExceptT.lift (firstFile isFile paths) with
  | some p => return p
  | none => throw (.noBuildFile paths)

end BuildTargets.BuildFile

import BuildTargets.FileTree.Access
import BuildTargets.Host

/-!
# A machine that is a value

A file tree, a working directory, a terminal and what has been printed: all that a command can see or
change. On this machine the effect of a command is a function. The standard output takes everything
(`World.host`), or nothing (`World.hostRefusing`).
-/

namespace BuildTargets

/-- All that a command can see or change. -/
structure World where
  tree : FileTree
  directory : Location
  terminal : Prompt.Terminal
  /-- What has been printed to the standard output. -/
  printed : Bytes := []
  deriving DecidableEq, Repr

namespace World

/-- The terminal of a world as a console. -/
def console : Console (StateM World) where
  write octets := fun w =>
    let (done, terminal) := Prompt.Terminal.console.write octets w.terminal
    (done, { w with terminal := terminal })
  readLine := fun w =>
    let (line, terminal) := Prompt.Terminal.console.readLine w.terminal
    (line, { w with terminal := terminal })

/-- The services of a world whose standard output takes everything. -/
def host : Host (StateM World) where
  directory := fun w => (FileTree.pathOf w.directory, w)
  read p := fun w => (w.tree.read w.directory p, w)
  isFile p := fun w => (w.tree.isFile w.directory p, w)
  write p content := fun w =>
    match w.tree.write w.directory p content with
    | .ok tree => (.ok (), { w with tree := tree })
    | .error cause => (.error cause, w)
  replace p content := fun w =>
    let (result, tree) := w.tree.replace w.directory p content
    (result, { w with tree := tree })
  terminal := console
  print octets := fun w => (.ok (), { w with printed := w.printed ++ octets })

/-- The services of a world whose standard output takes nothing. -/
def hostRefusing (cause : IoCause) : Host (StateM World) :=
  { host with print := fun _ w => (.error cause, w) }

end World

end BuildTargets

import BuildTargets.Prompt

/-!
# The machine that commands run on

What a command needs from its machine: files, a working directory, a terminal and a standard output.
The machine is a parameter, so that a command can be run on a real one or on one that is a value.
-/

namespace BuildTargets

/-- The services of a machine. -/
structure Host (m : Type → Type) where
  /-- The working directory, as an absolute path. -/
  directory : m Path
  /-- The content of a file. -/
  read : Path → m (Except IoCause Bytes)
  /-- Whether a path leads to a regular file. -/
  isFile : Path → m Bool
  /-- Puts new content into a file, which is created if it is missing. -/
  write : Path → Bytes → m (Except IoCause Unit)
  /-- Replaces the whole content of a file, which keeps its permissions. A new file is private. -/
  replace : Path → Bytes → m (Except IoCause Unit)
  /-- Where questions are asked and diagnostics are shown. -/
  terminal : Console m
  /-- Writes to the standard output. -/
  print : Bytes → m (Except IoCause Unit)

namespace Host

variable {m : Type → Type} [Monad m] (h : Host m)

/-- The text of a file. -/
def readText (p : Path) : m (Except IoCause Text) := do
  match ← h.read p with
  | .error cause => return .error cause
  | .ok octets =>
    match Utf8.decode? octets with
    | some t => return .ok t
    | none => return .error .notText

/-- The build file at a path, as a store. -/
def store (p : Path) : Store m where
  location := p
  read := do
    match ← h.readText p with
    | .ok t => return some t
    | .error .notFound => return none
    | .error cause => throw (.io cause)
  replace t := do
    match ← h.replace p (Utf8.encode t) with
    | .ok () => return ()
    | .error cause => throw (.io cause)

/-- Shows a text at the terminal, as far as that takes it. -/
def tell (t : Text) : m Unit := do
  let _ ← h.terminal.write (Utf8.encode t)

/-- Writes a line to the standard output. -/
def printLine (t : Text) : m (Except IoCause Unit) := h.print (Utf8.encode (t ++ ['\n']))

end Host

end BuildTargets

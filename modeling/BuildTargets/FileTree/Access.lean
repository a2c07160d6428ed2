import BuildTargets.FileTree.Resolve

/-!
# Access to a file tree

Reading, writing and replacing files by their paths. A replacement is staged: the new content is set up
under a fresh name in the directory of the file, given the permissions of the old file, and then moved
into its place. If one of these steps fails, what was set up is removed again.
-/

namespace BuildTargets.FileTree

/-- The permissions of a file that a plain write creates. -/
def usualMode : Nat := 0o644

/-- The permissions of a file that a replacement creates. -/
def privateMode : Nat := 0o600

/-- The content of the file that a path leads to. -/
def read (t : FileTree) (cwd : Location) (p : Path) : Except IoCause Bytes :=
  match t.resolve cwd .look p with
  | .error cause => .error cause
  | .ok (.vacant _) => .error .notFound
  | .ok (.existing _ n) =>
    if !n.permits .read then .error .forbidden
    else
      match n with
      | .file _ content => .ok content
      | _ => .error .isADirectory

/-- Whether a path leads to a regular file. -/
def isFile (t : FileTree) (cwd : Location) (p : Path) : Bool :=
  match t.resolve cwd .look p with
  | .ok (.existing _ (.file _ _)) => true
  | _ => false

/-- The permissions of the file or directory that a path leads to. -/
def mode (t : FileTree) (cwd : Location) (p : Path) : Except IoCause Nat :=
  match t.resolve cwd .look p with
  | .error cause => .error cause
  | .ok (.existing _ (.file mode _)) => .ok mode
  | .ok (.existing _ (.directory mode)) => .ok mode
  | .ok _ => .error .notFound

/-- The tree with new permissions for the file or directory that a path leads to. -/
def setMode (t : FileTree) (cwd : Location) (p : Path) (mode : Nat) : FileTree :=
  match t.resolve cwd .look p with
  | .ok (.existing l (.file _ content)) => t.set l (.file mode content)
  | .ok (.existing l (.directory _)) => t.set l (.directory mode)
  | _ => t

/-- The tree with new content in the file that a path leads to, which is created if its name is free. -/
def write (t : FileTree) (cwd : Location) (p : Path) (content : Bytes) :
    Except IoCause FileTree :=
  match t.resolve cwd .create p with
  | .error cause => .error cause
  | .ok (.existing l (.file mode old)) =>
    if (Node.file mode old).permits .write then .ok (t.set l (.file mode content))
    else .error .forbidden
  | .ok (.existing _ _) => .error .isADirectory
  | .ok (.vacant l) =>
    if t.permits .write l.dropLast then .ok (t.set l (.file usualMode content)) else .error .forbidden

/-- The path that a replacement goes to: the location of the file, links resolved, or the path itself if
it leads nowhere yet. -/
def replacementPath (t : FileTree) (cwd : Location) (p : Path) : Except IoCause Path :=
  match t.trace cwd .locate p with
  | .ok (.existing l _) => .ok (pathOf l)
  | .ok (.vacant _) | .error .notFound => .ok p
  | .error cause => .error cause

/-- The directory in which a replacement is staged. -/
def stagingDirectory (target : Path) : Path :=
  match target.parent? with
  | none | some ⟨[]⟩ => ⟨[Path.dot]⟩
  | some d => d

/-- How many octets the name of a staged file adds to a path. -/
def stagingRoom : Nat := 10

/-- A name longer than all names in a tree. -/
def freshName (t : FileTree) : Bytes :=
  let longest := (t.nodes.map fun e => (e.1.map List.length).foldl max 0).foldl max 0
  Path.dot :: List.replicate (longest + 1) 116

/-- The tree with a new private file in a directory, and the location of that file. -/
def stage (t : FileTree) (cwd : Location) (directory : Path) (content : Bytes) :
    Except IoCause (Location × FileTree) :=
  if longestPath < (directory.join ⟨[]⟩).bytes.length + stagingRoom then .error .nameTooLong
  else
    match t.resolve cwd .look directory with
    | .ok (.existing l (.directory _)) =>
      if t.permits .search l && t.permits .write l then
        let staged := l ++ [t.freshName]
        .ok (staged, t.set staged (.file privateMode content))
      else .error .forbidden
    | .ok (.existing _ _) => .error .notADirectory
    | .ok (.vacant _) => .error .notFound
    | .error cause => .error cause

/-- The tree in which a staged file has the permissions of what `target` leads to, if it leads to
something. -/
def copyMode (t : FileTree) (cwd : Location) (target : Path) (staged : Location) :
    Except IoCause FileTree :=
  match t.mode cwd target, t.get? staged with
  | .ok mode, some (.file _ content) => .ok (t.set staged (.file mode content))
  | .ok _, _ => .error .notFound
  | .error .notFound, _ => .ok t
  | .error cause, _ => .error cause

/-- The tree in which the file at a location has been moved to where `target` leads. A link at the end
of `target` is replaced, not followed; a directory is not replaced, and the root least of all. -/
def move (t : FileTree) (cwd : Location) (staged : Location) (target : Path) :
    Except IoCause FileTree :=
  let place : Except IoCause Location :=
    match t.resolve cwd .rename target with
    | .error cause => .error cause
    | .ok (.existing [] _) => .error .busy
    | .ok (.existing _ (.directory _)) => .error .isADirectory
    | .ok (.existing l _) | .ok (.vacant l) => .ok l
  match place, t.get? staged with
  | .error cause, _ => .error cause
  | .ok _, none => .error .notFound
  | .ok l, some n => .ok ((t.erase staged).set l n)

/-- Replaces the content of the file that a path leads to. The result comes with the tree afterwards,
also if the replacement fails. -/
def replace (t : FileTree) (cwd : Location) (p : Path) (content : Bytes) :
    Except IoCause Unit × FileTree :=
  match t.replacementPath cwd p with
  | .error cause => (.error cause, t)
  | .ok target =>
    let directory := stagingDirectory target
    match t.stage cwd directory content with
    | .error cause => (.error (.noStaging cause directory), t)
    | .ok (staged, t₁) =>
      match t₁.copyMode cwd target staged >>= fun t₂ => t₂.move cwd staged target with
      | .error cause => (.error cause, t₁.erase staged)
      | .ok t₂ => (.ok (), t₂)

end BuildTargets.FileTree

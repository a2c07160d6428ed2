import BuildTargets.Fault
import BuildTargets.FileTree.Basic

/-!
# Where a path leads

A path is followed name by name. Every name must be looked up in a directory, which must grant it; a
symbolic link on the way is replaced by its target. What becomes of the last name depends on the purpose
for which the path is followed. Only so many links are followed.
-/

namespace BuildTargets.FileTree

/-- What a path is followed for. -/
inductive Purpose where
  /-- To look at an entry. A link at the end is followed, and a slash at the end asks for a directory. -/
  | look
  /-- To open a file that is created if its name is free. A link at the end is followed, and a slash at
  the end is refused. -/
  | create
  /-- To give that name to a file. A link at the end is not followed, and a slash at the end is refused. -/
  | rename
  /-- To spell out the location of an entry. Goes where `look` does, but a dot or two dots may also be
  taken in a directory that cannot be searched: they name nothing that must be looked up there. -/
  | locate
  deriving DecidableEq, Repr

/-- Why a slash behind the last name of a path is refused, if it is. -/
def Purpose.slashRefusal? : Purpose → Option IoCause
  | look | locate => none
  | create => some .isADirectory
  | rename => some .notADirectory

/-- Where a path leads. -/
inductive Target where
  /-- To an entry. -/
  | existing (location : Location) (node : Node)
  /-- To a name that is free, in a directory. -/
  | vacant (location : Location)
  deriving DecidableEq, Repr

/-- How many symbolic links are followed. -/
def mostLinks : Nat := 40

/-- How many octets a name may have. -/
def longestName : Nat := 255

/-- How many octets a path may have. -/
def longestPath : Nat := 4095

/-- Where the target of a link starts, for a link in directory `here`. -/
def startOf (here : Location) (target : Bytes) : Location :=
  if target.head? = some Path.slash then [] else here

/-- Why a name with the parts `rest` behind it is not even looked up, if it is not: for the slash behind
it, or for its length. -/
def nameRefusal? (purpose : Purpose) (name : Bytes) (rest : List Bytes) : Option IoCause :=
  let slash := if rest ≠ [] && rest.all (· = []) then purpose.slashRefusal? else none
  match slash with
  | some cause => some cause
  | none => if longestName < name.length then some .nameTooLong else none

/-- Whether a part of a path goes on only from a directory that can be searched. -/
def needsSearch (purpose : Purpose) (part : Bytes) : Bool :=
  purpose ≠ .locate || !(part = [Path.dot] || part = [Path.dot, Path.dot])

/-- How far a path goes without a link being followed. -/
inductive Passage where
  /-- To its end. -/
  | arrived (target : Target)
  /-- To a place where it cannot go on. -/
  | stopped (cause : IoCause)
  /-- To a link. The way goes on from `start` with the parts given. -/
  | diverted (start : Location) (parts : List Bytes)
  deriving DecidableEq, Repr

/-- Follows the parts of a path from `here`, an entry of the tree, up to the first link that is to be
followed. -/
def pass (t : FileTree) (purpose : Purpose) (here : Location) : List Bytes → Passage
  | [] =>
    match t.get? here with
    | some n => .arrived (.existing here n)
    | none => .stopped .notFound
  | p :: rest =>
    if !(t.get? here).any Node.isDirectory then .stopped .notADirectory
    else if p = [] then pass t purpose here rest
    else if needsSearch purpose p && !t.permits .search here then .stopped .forbidden
    else if p = [Path.dot] then pass t purpose here rest
    else if p = [Path.dot, Path.dot] then pass t purpose here.dropLast rest
    else
      match nameRefusal? purpose p rest with
      | some cause => .stopped cause
      | none =>
        let next := here ++ [p]
        match t.get? next with
        | none => if rest.all (· = []) then .arrived (.vacant next) else .stopped .notFound
        | some (.link target) =>
          if rest.isEmpty && purpose = .rename then .arrived (.existing next (.link target))
          else .diverted (startOf here target) (Path.parts target ++ rest)
        | some _ => pass t purpose next rest

/-- Follows the parts of a path from `here`, and `links` links on the way at most. -/
def walk (t : FileTree) (purpose : Purpose) (links : Nat) (here : Location) (parts : List Bytes) :
    Except IoCause Target :=
  match t.pass purpose here parts with
  | .arrived target => .ok target
  | .stopped cause => .error cause
  | .diverted start parts =>
    match links with
    | 0 => .error .linkLoop
    | links + 1 => walk t purpose links start parts

/-- Where a path leads for a process working in directory `cwd`, however long it is. The empty path
leads nowhere. -/
def trace (t : FileTree) (cwd : Location) (purpose : Purpose) (p : Path) : Except IoCause Target :=
  if 0 ∈ p.bytes then .error .zeroInPath
  else if p.bytes = [] then .error .notFound
  else walk t purpose mostLinks (startOf cwd p.bytes) (Path.parts p.bytes)

/-- Where a path leads for a process working in directory `cwd`. -/
def resolve (t : FileTree) (cwd : Location) (purpose : Purpose) (p : Path) : Except IoCause Target :=
  if 0 ∉ p.bytes && longestPath < p.bytes.length then .error .nameTooLong else t.trace cwd purpose p

end BuildTargets.FileTree

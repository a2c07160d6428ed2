import BuildTargets.Text.Basic
import BuildTargets.Text.Utf8

/-!
# Paths

A path is a sequence of octets, read as names between slashes. Two paths are the same when their
components are: repeated slashes and inner dots make no difference. The operations that return a
path keep the spelling of what they keep. The empty path cannot be seen from the root, so a path that is
to be is known not to be empty.
-/

namespace BuildTargets

/-- A path as it was written. -/
structure Path where
  bytes : Bytes
  deriving DecidableEq, Repr, Inhabited

/-- A path that is not empty. -/
structure NonemptyPath where
  path : Path
  bytes_ne_nil : path.bytes ≠ []
  deriving DecidableEq, Repr

/-- A step that a path spells. -/
inductive Component where
  /-- The root directory. -/
  | root
  /-- A dot that starts a relative path. -/
  | here
  /-- Two dots. -/
  | up
  /-- The name of an entry. -/
  | name (bytes : Bytes)
  deriving DecidableEq, Repr

namespace Path

/-- The octet of a slash. -/
def slash : UInt8 := 47

/-- The octet of a dot. -/
def dot : UInt8 := 46

/-- The path that a text spells. -/
def ofText (t : Text) : Path := ⟨Utf8.encode t⟩

/-- The path for a reader: octets that are no characters appear as `U+FFFD`. -/
def text (p : Path) : Text := Utf8.decodeLossy p.bytes

/-- The path as a text, if it is one. -/
def text? (p : Path) : Option Text := Utf8.decode? p.bytes

@[simp] theorem text_ofText (t : Text) : (ofText t).text = t := by simp [text, ofText]

/-- What stands between the slashes, empty parts included. -/
def parts : Bytes → List Bytes
  | [] => [[]]
  | b :: s =>
    if b = slash then [] :: parts s
    else
      match parts s with
      | [] => [[b]]
      | q :: qs => (b :: q) :: qs

/-- Whether a part names no step of its own: nothing, or a dot. -/
def isIdle (part : Bytes) : Bool := part = [] || part = [dot]

/-- The step that a part spells. -/
def step? (part : Bytes) : Option Component :=
  if isIdle part then none else if part = [dot, dot] then some .up else some (.name part)

/-- Whether the path starts at the root. -/
def isAbsolute (p : Path) : Bool := p.bytes.head? = some slash

/-- The steps of a path. A dot counts only where it starts a relative path. -/
def components (p : Path) : List Component :=
  if p.isAbsolute then .root :: (parts p.bytes).filterMap step?
  else
    match parts p.bytes with
    | [] => []
    | first :: rest =>
      if first = [dot] then .here :: rest.filterMap step? else (first :: rest).filterMap step?

/-- Whether two paths spell the same steps. -/
def same (p q : Path) : Bool := p.components = q.components

/-- The octets that spell a step. -/
def stepBytes : Component → Bytes
  | .root => [slash]
  | .here => [dot]
  | .up => [dot, dot]
  | .name n => n

/-- The path of the steps, with single slashes. -/
def ofComponents : List Component → Path
  | .root :: cs => ⟨slash :: joinWith [slash] (cs.map stepBytes)⟩
  | cs => ⟨joinWith [slash] (cs.map stepBytes)⟩

/-- The name of the entry that the path leads to, if its last step is a name. -/
def fileName? (p : Path) : Option Bytes :=
  match p.components.getLast? with
  | some (.name n) => some n
  | _ => none

/-- The path without its last step, spelled as before; `none` if there is no step to take off. -/
def parent? (p : Path) : Option Path :=
  match parts p.bytes with
  | [] => none
  | first :: rest =>
    match dropEndWhile isIdle rest with
    | [] => if first = [] then none else some ⟨[]⟩
    | q :: qs =>
      match dropEndWhile isIdle (q :: qs).dropLast with
      | [] => some ⟨if first = [] then [slash] else first⟩
      | r :: rs => some ⟨joinWith [slash] (first :: r :: rs)⟩

/-- The path `q` as seen from directory `p`. -/
def join (p q : Path) : Path :=
  if q.isAbsolute || p.bytes = [] then q
  else if p.bytes.getLast? = some slash then ⟨p.bytes ++ q.bytes⟩
  else ⟨p.bytes ++ slash :: q.bytes⟩

/-- Goes on by one step. -/
def push (p : Path) (c : Component) : Path := p.join ⟨stepBytes c⟩

/-- The path as seen from the root, for a process working in directory `cwd`. Steps up are kept,
and so are a slash at the end and a pair of slashes at the beginning. -/
def absolute (cwd : Path) (given : NonemptyPath) : Path :=
  let p := given.path
  let start : Path :=
    if p.isAbsolute then
      if (after? [slash, slash] p.bytes).isSome && (after? [slash, slash, slash] p.bytes).isNone then
        ⟨[slash, slash]⟩
      else ⟨[slash]⟩
    else cwd
  let steps := p.components.filter fun c => c ≠ .root && c ≠ .here
  let whole := steps.foldl push start
  if p.bytes.getLast? = some slash then whole.join ⟨[]⟩ else whole

end Path

end BuildTargets

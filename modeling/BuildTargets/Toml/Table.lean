import BuildTargets.Decimal.Binary64
import BuildTargets.Toml.Key

/-!
# Tables of a TOML document

A table is a sequence of entries, in the order in which they came about: values, and tables of four
kinds. An array of tables is a run of entries with one name. The operations here are those that a
document is built up with: adding a value under a dotted key, and reaching a table to change it. Each
is refused where it would define something twice.
-/

namespace BuildTargets.Toml

/-- What a value denotes, as far as a reader of settings can tell. -/
inductive Datum where
  | string (text : Text)
  | integer (n : Int)
  | float (x : Binary64)
  | boolean (b : Bool)
  /-- A date, a time, or both. -/
  | moment
  /-- An array. -/
  | sequence
  /-- A table in braces. -/
  | map
  deriving DecidableEq, Repr

/-- A value as written. -/
structure Value where
  datum : Datum
  spelling : Text
  /-- What stands between the equals sign and the value. -/
  before : Text
  /-- What stands behind the value. -/
  after : Text
  deriving DecidableEq, Repr

/-- A header. -/
structure Header where
  /-- The number of the header in the document, the first of them being number one. -/
  place : Nat
  /-- What stands in front of the header. -/
  before : Text
  /-- What stands behind it, on its line. -/
  after : Text
  deriving DecidableEq, Repr

/-- How a table has come about. -/
inductive Kind where
  /-- By a header of its own. -/
  | headed (header : Header)
  /-- By a header in double brackets, as one element of an array of tables. -/
  | element (header : Header)
  /-- As a step on the way to the table of a header. -/
  | implied
  /-- As a step of a dotted key. -/
  | dotted
  deriving DecidableEq, Repr

/-- Whether a table of this kind is one of an array. -/
def Kind.isElement : Kind → Bool
  | element _ => true
  | _ => false

/-- The entries of a table. -/
inductive Table where
  | empty
  | value (key : Key) (value : Value) (rest : Table)
  | table (key : Key) (kind : Kind) (inner rest : Table)
  deriving DecidableEq, Repr

namespace Table

/-- Whether a table has an entry with a name. -/
def has (name : Text) : Table → Bool
  | empty => false
  | value k _ rest => k.name = name || has name rest
  | table k _ _ rest => k.name = name || has name rest

/-- The entries of one table, followed by those of another. -/
def append : Table → Table → Table
  | empty, u => u
  | value k v rest, u => value k v (append rest u)
  | table k kind inner rest, u => table k kind inner (append rest u)

/-- A table that holds one value under a dotted key. -/
def single (leading : List Key) (last : Key) (v : Value) : Table :=
  leading.foldr (fun k inner => table k .dotted inner empty) (value last v empty)

/-- Whether a dotted key may lead through a table, `final` saying that it is the one to hold the value:
that must be a table which only dotted keys have made. -/
def admits (final : Bool) : Kind → Bool
  | .headed _ => false
  | .element _ => !final
  | .implied => !final
  | .dotted => true

/-- Adds a value under a dotted key. In an array of tables the key leads through the last element. -/
def insert? (v : Value) (leading : List Key) (last : Key) : Table → Option Table
  | empty => some (single leading last v)
  | value k w rest =>
    if k.name = (leading.head?.getD last).name then none
    else (insert? v leading last rest).map (value k w ·)
  | table k kind inner rest =>
    match leading with
    | [] => if k.name = last.name then none else (insert? v leading last rest).map (table k kind inner ·)
    | step :: steps =>
      if k.name = step.name && !(kind.isElement && rest.has step.name) then
        if admits steps.isEmpty kind then
          (insert? v steps last inner).map fun inner => table k kind inner rest
        else none
      else (insert? v leading last rest).map (table k kind inner ·)

/-- Changes the table that a path leads to, making the tables on the way that are missing. In an array
of tables the path leads through the last element. -/
def within? (change : Table → Option Table) (path : List Key) (t : Table) : Option Table :=
  match path with
  | [] => change t
  | step :: steps => descend step steps t
where
  /-- Looks for the entry of the next step. -/
  descend (step : Key) (steps : List Key) : Table → Option Table
    | empty =>
      steps.foldr (fun k inner => inner.map fun i => table k .implied i empty) (change empty)
        |>.map fun inner => table step .implied inner empty
    | value k v rest =>
      if k.name = step.name then none else (descend step steps rest).map (value k v ·)
    | table k kind inner rest =>
      if k.name = step.name && !(kind.isElement && rest.has step.name) then
        (match steps with
          | [] => change inner
          | next :: steps => descend next steps inner).map fun inner => table k kind inner rest
      else (descend step steps rest).map (table k kind inner ·)

/-- Takes the entry with a name out of a table, if it is a table that has been implied so far, and gives
what that table holds. No entry counts as an empty one; any other is refused. -/
def takeImplied? (name : Text) : Table → Option (Table × Table)
  | empty => some (empty, empty)
  | value k v rest =>
    if k.name = name then none
    else (takeImplied? name rest).map fun (inner, rest) => (inner, value k v rest)
  | table k kind inner rest =>
    if k.name = name then if kind = .implied then some (inner, rest) else none
    else (takeImplied? name rest).map fun (found, rest) => (found, table k kind inner rest)

/-- Adds an element to the array of tables with the name of `key`, which is made if it is missing. -/
def addElement? (key : Key) (header : Header) (inner : Table) : Table → Option Table
  | empty => some (table key (.element header) inner empty)
  | value k v rest =>
    if k.name = key.name then none else (addElement? key header inner rest).map (value k v ·)
  | table k kind held rest =>
    if k.name = key.name then
      if !kind.isElement then none
      else if rest.has key.name then
        (addElement? key header inner rest).map (table k kind held ·)
      else some (table k kind held (table k (.element header) inner rest))
    else (addElement? key header inner rest).map (table k kind held ·)

/-- The values that a table holds itself or through dotted keys, each under its whole key; `outer` is
the key so far. -/
def values (outer : List Key) : Table → List (List Key × Value)
  | empty => []
  | value k v rest => (outer ++ [k], v) :: values outer rest
  | table k kind inner rest =>
    if kind = .dotted then values (outer ++ [k]) inner ++ values outer rest
    else values outer rest

/-- The tables inside a table that dotted keys have not made, each with its whole path and followed by
those inside it. -/
def sections (outer : List Key) : Table → List (List Key × Kind × Table)
  | empty => []
  | value _ _ rest => sections outer rest
  | table k kind inner rest =>
    let nested := sections (outer ++ [k]) inner
    (if kind = .dotted then nested else (outer ++ [k], kind, inner) :: nested) ++ sections outer rest

/-- The text of an entry. -/
def entryText (entry : List Key × Value) : Text :=
  Key.text ([], [' ']) entry.1 ++ '=' :: entry.2.before ++ entry.2.spelling ++ entry.2.after

/-- Puts a value in the place of whatever has its name, or at the end if nothing has. A key that is
there keeps its spelling and what stands around it. -/
def put (name : Text) (v : Value) : Table → Table
  | empty => value (.bare name) v empty
  | value k w rest => if k.name = name then value k v rest else value k w (put name v rest)
  | table k kind inner rest =>
    if k.name = name then value k v (without name rest) else table k kind inner (put name v rest)
where
  /-- The table without the entries of a name. -/
  without (name : Text) : Table → Table
    | empty => empty
    | value k w rest => if k.name = name then without name rest else value k w (without name rest)
    | table k kind inner rest =>
      if k.name = name then without name rest else table k kind inner (without name rest)

end Table

end BuildTargets.Toml

import BuildTargets.Toml.Value

/-!
# TOML documents

A document is read into its outline, which is the sequence of its entries and headers, and from that
into tables. What stands between the entries is kept, so that a document can be changed in one place and
written back. Writing puts the tables in the order of their headers, and next to each other the entries
whose keys begin with the same part.
-/

namespace BuildTargets.Toml

/-- A value under its key. -/
structure Entry where
  key : DottedKey
  value : Value
  deriving DecidableEq, Repr

/-- A header with the entries below it. -/
structure Section where
  /-- Whether the header adds an element to an array of tables. -/
  isElement : Bool
  key : DottedKey
  /-- What stands in front of the header. -/
  before : Text
  /-- What stands behind it, on its line. -/
  after : Text
  entries : List Entry
  deriving DecidableEq, Repr

/-- The entries and headers of a document, in order. -/
structure Outline where
  /-- The entries in front of the first header. -/
  entries : List Entry
  sections : List Section
  /-- What stands behind the last of them. -/
  trailing : Text
  deriving DecidableEq, Repr

namespace Outline

/-- An outline with an entry in front of it. -/
def consEntry (e : Entry) (o : Outline) : Outline := { o with entries := e :: o.entries }

/-- An outline with a header in front of it. -/
def consHeader (isElement : Bool) (key : DottedKey) (before after : Text) (o : Outline) : Outline :=
  { o with entries := [], sections := ⟨isElement, key, before, after, o.entries⟩ :: o.sections }

/-- A header with `before` in front of it, read from behind its brackets, as a change to the outline of
what follows it. -/
def header? (isElement : Bool) (before s : Text) : Option ((Outline → Outline) × Text) := do
  let (key, s) ← DottedKey.read? [] s
  let s ← after? (if isElement then [']', ']'] else [']']) s
  let (after, s) ← lineRest false s
  return (consHeader isElement key before after, s)

/-- An entry with `before` in front of it, as a change to the outline of what follows it. -/
def entry? (before s : Text) : Option ((Outline → Outline) × Text) := do
  let (key, s) ← DottedKey.read? before s
  let s ← after? ['='] s
  let (before, s) := spaces s
  let (datum, spelled, s) ← reading mostNested s
  let (after, s) ← lineRest false s
  return (consEntry ⟨key, datum, spelled, before, after⟩, s)

/-- An entry or a header with `before` in front of it. -/
def clause? (before s : Text) : Option ((Outline → Outline) × Text) :=
  match s with
  | '[' :: '[' :: t => header? true before t
  | '[' :: t => header? false before t
  | _ => entry? before s

/-- The outline of a text. -/
def read? (s : Text) : Option Outline :=
  match trivia false s with
  | none => none
  | some (trailing, []) => some ⟨[], [], trailing⟩
  | some (before, t) =>
    match clause? before t with
    | none => none
    | some (change, rest) => if _h : rest.length < s.length then (read? rest).map change else none
termination_by s.length

end Outline

namespace Table

/-- Adds entries one after the other. -/
def insertAll? (entries : List Entry) (t : Table) : Option Table :=
  entries.foldlM (fun t e => t.insert? e.value e.key.leading e.key.last) t

/-- Adds a section, the `place`-th of its document. A table that was implied so far goes to the end with
all it holds. -/
def addSection? (place : Nat) (s : Section) (root : Table) : Option Table :=
  let header : Header := ⟨place, s.before, s.after⟩
  let change (t : Table) : Option Table :=
    if s.isElement then do
      let inner ← insertAll? s.entries .empty
      addElement? s.key.last header inner t
    else do
      let (inner, t) ← t.takeImplied? s.key.last.name
      let inner ← insertAll? s.entries inner
      return t.append (.table s.key.last (.headed header) inner .empty)
  root.within? change s.key.leading

/-- The tables of an outline. -/
def ofOutline? (o : Outline) : Option Table := do
  let root ← insertAll? o.entries .empty
  (o.sections.zipIdx 1).foldlM (fun t (s, place) => t.addSection? place s) root

end Table

/-- A document. -/
structure Document where
  root : Table
  /-- What stands behind the last entry or header. -/
  trailing : Text
  deriving DecidableEq, Repr

namespace Document

/-- The document that a text spells, if it is well formed. -/
def read? (text : Text) : Option Document := do
  let outline ← Outline.read? (withoutMark text)
  let root ← Table.ofOutline? outline
  return ⟨root, outline.trailing⟩

/-- The entries that a table holds itself or through dotted keys, a line each. -/
def entriesText (t : Table) : Text := (t.values []).flatMap fun e => Table.entryText e ++ ['\n']

/-- A table with its header. One that has only been implied needs a header where it holds values. -/
def sectionText (path : List Key) (kind : Kind) (t : Table) : Text :=
  let name := Key.text ([], []) path
  match kind with
  | .headed h => h.before ++ '[' :: name ++ ']' :: h.after ++ '\n' :: entriesText t
  | .element h => h.before ++ ['[', '['] ++ name ++ [']', ']'] ++ h.after ++ '\n' :: entriesText t
  | .implied => if t.values [] = [] then [] else '\n' :: '[' :: name ++ [']', '\n'] ++ entriesText t
  | .dotted => []

/-- The texts of tables with their places. A table without a header is placed with the one before. -/
def placed (last : Nat) : List (List Key × Kind × Table) → List (Nat × Text)
  | [] => []
  | (path, kind, t) :: rest =>
    let place :=
      match kind with
      | .headed h | .element h => h.place
      | _ => last
    (place, sectionText path kind t) :: placed place rest

/-- The text of a document. -/
def text (d : Document) : Text :=
  let sections := (placed 0 (d.root.sections [])).mergeSort fun a b => a.1 ≤ b.1
  entriesText d.root ++ sections.flatMap (·.2) ++ d.trailing

/-- The document with a value put under a name at its top. -/
def put (name : Text) (v : Value) (d : Document) : Document :=
  { d with root := d.root.put name v }

end Document

end BuildTargets.Toml

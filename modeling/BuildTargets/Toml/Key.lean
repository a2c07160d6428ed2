import BuildTargets.Toml.Quoted

/-!
# Keys of a TOML document

A key is a sequence of parts with dots between them. A part is a bare word or a quoted string; it
keeps its spelling and the blanks around it, so that a key can be written back as it was.
-/

namespace BuildTargets.Toml

/-- A part of a key. -/
structure Key where
  /-- What the part denotes. -/
  name : Text
  /-- How the part is spelled. -/
  spelling : Text
  /-- The blanks behind the dot in front of the part. -/
  before : Text := []
  /-- The blanks in front of the dot behind the part. -/
  after : Text := []
  /-- For a part that ends a key of the document: what stands before and behind the whole key. -/
  around : Option (Text × Text) := none
  deriving DecidableEq, Repr

namespace Key

/-- The part that a bare word makes. -/
def bare (name : Text) : Key := { name := name, spelling := name }

/-- Whether a character may stand in a bare word. -/
def isBare (c : Char) : Bool := c.isAlphanum || c = '-' || c = '_'

/-- What a part denotes, and what follows the part. -/
def name? (s : Text) : Option (Text × Text) :=
  match s with
  | '"' :: t => basic? t
  | '\'' :: t => literal? t
  | _ =>
    match s.takeWhile isBare with
    | [] => none
    | name => some (name, s.dropWhile isBare)

/-- How many parts a key may have. -/
def mostParts : Nat := 79

/-- The parts of a key, of which there may be `most`, and what follows the key. -/
def parts? (most : Nat) (s : Text) : Option (List Key × Text) :=
  match most with
  | 0 => none
  | most + 1 =>
    let (before, s) := spaces s
    match name? s with
    | none => none
    | some (name, rest) =>
      let (after, rest') := spaces rest
      let key : Key :=
        { name := name, spelling := Toml.spelling s rest, before := before, after := after }
      match rest' with
      | '.' :: t => (parts? most t).map fun (keys, u) => (key :: keys, u)
      | _ => some ([key], rest')

/-- The text of a key from its first part on, without the blanks at either end. -/
def joined : List Key → Text
  | [] => []
  | [k] => k.spelling
  | k :: l :: ks => k.spelling ++ k.after ++ '.' :: l.before ++ joined (l :: ks)

/-- The text of a key. `usual` stands before and behind one that was not read as a whole. -/
def text (usual : Text × Text) (ks : List Key) : Text :=
  let (before, after) := (ks.getLast?.bind around).getD usual
  before ++ joined ks ++ after

end Key

/-- A key as it was read: the parts in front of the last, and the last one. -/
structure DottedKey where
  leading : List Key
  last : Key
  deriving DecidableEq, Repr

namespace DottedKey

/-- The key with the given parts, with `lead` in front of it. What stands around the whole key is kept
with its last part, and no longer with the first or the last as a part. -/
def ofParts? (lead : Text) (ks : List Key) : Option DottedKey :=
  match ks with
  | [] => none
  | [k] => some ⟨[], { k with before := [], after := [], around := some (lead ++ k.before, k.after) }⟩
  | k :: rest =>
    rest.getLast?.map fun last =>
      ⟨{ k with before := [] } :: rest.dropLast,
        { last with after := [], around := some (lead ++ k.before, last.after) }⟩

/-- A key with `lead` in front of it, and what follows the key. -/
def read? (lead s : Text) : Option (DottedKey × Text) :=
  match Key.parts? Key.mostParts s with
  | none => none
  | some (ks, rest) => (ofParts? lead ks).map fun key => (key, rest)

/-- All parts of a key. -/
def parts (k : DottedKey) : List Key := k.leading ++ [k.last]

end DottedKey

end BuildTargets.Toml

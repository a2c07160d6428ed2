import BuildTargets.Toml.Moment
import BuildTargets.Toml.Number
import BuildTargets.Toml.Table

/-!
# Values of a TOML document

Strings, numbers, truth values, dates and times, arrays, and tables in braces. A value keeps its
spelling; a table in braces is spelled with the entries that share a part of their keys next to each
other. Nesting has a limit, and the reader recurses on what is left of it.
-/

namespace BuildTargets.Toml

/-- A value that holds no others, and what follows it. -/
def scalar? (s : Text) : Option (Datum × Text) :=
  match s with
  | [] => none
  | c :: _ =>
    if c = '"' || c = '\'' then (string? s).map fun (t, rest) => (.string t, rest)
    else if c = 't' then (after? "true".toList s).map fun rest => (.boolean true, rest)
    else if c = 'f' then (after? "false".toList s).map fun rest => (.boolean false, rest)
    else
      match moment? s with
      | some rest => some (.moment, rest)
      | none =>
        match float? s with
        | some (x, rest) => some (.float x, rest)
        | none => (integer? s).map fun (n, rest) => (.integer n, rest)

/-- A value with its spelling, as a reader gives it, and what follows it. -/
abbrev Reading := Option (Datum × Text × Text)

/-- The members of an array, read from behind its bracket or a comma, and what follows the array. -/
def members? (read : Text → Reading) (s : Text) : Option (Text × Text) :=
  match trivia false s with
  | none => none
  | some (before, ']' :: rest) => some (before ++ [']'], rest)
  | some (before, s₁) =>
    match read s₁ with
    | none => none
    | some (_, spelled, s₂) =>
      match trivia false s₂ with
      | none => none
      | some (after, ']' :: rest) => some (before ++ spelled ++ after ++ [']'], rest)
      | some (after, ',' :: s₃) =>
        if _h : s₃.length < s.length then
          (members? read s₃).map fun (others, rest) =>
            (before ++ spelled ++ after ++ ',' :: others, rest)
        else none
      | some _ => none
termination_by s.length

/-- An entry of a table in braces, and what follows it. -/
def pair? (read : Text → Reading) (s : Text) : Option (DottedKey × Value × Text) :=
  match DottedKey.read? [] s with
  | some (key, '=' :: s₁) =>
    let (before, s₂) := spaces s₁
    match read s₂ with
    | none => none
    | some (datum, spelled, s₃) =>
      let (after, s₄) := spaces s₃
      some (key, ⟨datum, spelled, before, after⟩, s₄)
  | _ => none

/-- The entries of a table in braces, added to those read so far, and what follows the table. -/
def pairs? (read : Text → Reading) (t : Table) (s : Text) : Option (Table × Text) :=
  match pair? read s with
  | none => none
  | some (key, v, s₁) =>
    match t.insert? v key.leading key.last, s₁ with
    | some t, '\x7d' :: rest => some (t, rest)
    | some t, ',' :: s₂ => if _h : s₂.length < s.length then pairs? read t s₂ else none
    | _, _ => none
termination_by s.length

/-- The text of a table in braces. -/
def bracesText (t : Table) : Text :=
  '\x7b' :: joinWith [','] ((t.values []).map Table.entryText) ++ ['\x7d']

/-- A table in braces, read from behind the opening one. -/
def braces? (read : Text → Reading) (s : Text) : Reading :=
  match spaces s with
  | (blanks, '\x7d' :: rest) => some (.map, '\x7b' :: blanks ++ ['\x7d'], rest)
  | _ => (pairs? read .empty s).map fun (t, rest) => (.map, bracesText t, rest)

/-- A value in which arrays and tables in braces are nested up to `depth` deep. -/
def reading (depth : Nat) (s : Text) : Reading :=
  match depth, s with
  | depth + 1, '[' :: t =>
    (members? (reading depth) t).map fun (spelled, rest) => (.sequence, '[' :: spelled, rest)
  | depth + 1, '\x7b' :: t => braces? (reading depth) t
  | _, _ => (scalar? s).map fun (datum, rest) => (datum, spelling s rest, rest)

/-- How deep arrays and tables in braces may be nested. -/
def mostNested : Nat := 79

end BuildTargets.Toml

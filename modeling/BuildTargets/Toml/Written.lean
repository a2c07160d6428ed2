import BuildTargets.Toml.Trivia

/-!
# Writing a string of a TOML document

A text is written in the first of four plain forms that can hold it, and otherwise with escapes.
-/

namespace BuildTargets.Toml

/-- Whether a character can only be written as an escape: a control character other than the tab and
the line feed. -/
def needsEscape (c : Char) : Bool := isControl c && c ≠ '\n'

/-- Whether a text holds `n` consecutive characters `c`; `seen` of them stand right before it. -/
def hasRun (c : Char) (n : Nat) (seen : Nat) : Text → Bool
  | [] => n ≤ seen
  | d :: s => n ≤ seen || hasRun c n (if d = c then seen + 1 else 0) s

/-- The forms of a written string. -/
inductive Form where
  /-- Between double quotes. -/
  | basic
  /-- Between single quotes. -/
  | literal
  /-- Between triple double quotes. -/
  | basicLines
  /-- Between triple single quotes. -/
  | literalLines
  deriving DecidableEq, Repr

/-- The form in which a text is written. -/
def Form.of (t : Text) : Form :=
  let plain := !t.any needsEscape
  if plain && !t.contains '"' && !t.contains '\\' && !t.contains '\n' then .basic
  else if plain && !t.contains '\'' && !t.contains '\n' then .literal
  else if plain && !t.contains '\\' && !hasRun '"' 3 0 t then .basicLines
  else if plain && !hasRun '\'' 3 0 t then .literalLines
  else if t.contains '\n' then .basicLines
  else .basic

/-- A hexadecimal digit, in upper case. -/
def hexDigit (n : Nat) : Char := if n < 10 then Char.ofNat (48 + n) else Char.ofNat (55 + n)

/-- A character other than the double quote between double quotes. With `several`, a line feed stands
for itself. -/
def escaped (several : Bool) (c : Char) : Text :=
  if c = '\x08' then ['\\', 'b']
  else if c = '\t' then ['\\', 't']
  else if c = '\n' then if several then ['\n'] else ['\\', 'n']
  else if c = '\x0c' then ['\\', 'f']
  else if c = '\r' then ['\\', 'r']
  else if c = '\\' then ['\\', '\\']
  else if isControl c then ['\\', 'u', '0', '0', hexDigit (c.toNat / 16), hexDigit (c.toNat % 16)]
  else [c]

/-- A text between double quotes. A double quote is escaped as soon as `most` of them stand right
before it; `seen` says how many do. -/
def escapedText (several : Bool) (most : Nat) (seen : Nat) : Text → Text
  | [] => []
  | c :: s =>
    if c = '"' then
      if seen < most then '"' :: escapedText several most (seen + 1) s
      else '\\' :: '"' :: escapedText several most 0 s
    else escaped several c ++ escapedText several most 0 s

/-- The line feed behind opening triple quotes, which a text that holds a line feed gets. -/
def opening (t : Text) : Text := if t.contains '\n' then ['\n'] else []

/-- A text in a given form. -/
def Form.write (t : Text) : Form → Text
  | basic => '"' :: escapedText false 0 0 t ++ ['"']
  | literal => '\'' :: t ++ ['\'']
  | basicLines =>
    ['"', '"', '"'] ++ opening t ++ escapedText true 2 0 t ++ ['"', '"', '"']
  | literalLines => ['\'', '\'', '\''] ++ opening t ++ t ++ ['\'', '\'', '\'']

/-- A text as a string of a document. -/
def writtenString (t : Text) : Text := (Form.of t).write t

/-- A truth value as a word of a document. -/
def writtenBool (b : Bool) : Text := if b then "true".toList else "false".toList

end BuildTargets.Toml

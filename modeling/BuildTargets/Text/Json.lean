import BuildTargets.Text.Basic

/-!
# JSON text

Strings and flat objects as JSON on one line: what has a short escape gets it, other control
characters are numbered, and all else stands for itself.
-/

namespace BuildTargets.Json

/-- A hexadecimal digit, in lower case. -/
def hexDigit (n : Nat) : Char := if n < 10 then Char.ofNat (48 + n) else Char.ofNat (87 + n)

/-- What a character is written as inside a JSON string. -/
def escape (c : Char) : Text :=
  if c = '"' then ['\\', '"']
  else if c = '\\' then ['\\', '\\']
  else if c = '\x08' then ['\\', 'b']
  else if c = '\t' then ['\\', 't']
  else if c = '\n' then ['\\', 'n']
  else if c = '\x0c' then ['\\', 'f']
  else if c = '\r' then ['\\', 'r']
  else if c.toNat < 0x20 then
    ['\\', 'u', '0', '0', hexDigit (c.toNat / 16), hexDigit (c.toNat % 16)]
  else [c]

/-- A text as a JSON string. -/
def string (t : Text) : Text := '"' :: t.flatMap escape ++ ['"']

/-- A member of an object whose value is a string. -/
def member (m : Text × Text) : Text := string m.1 ++ ':' :: string m.2

/-- An object whose values are strings, its members in the given order. -/
def object (members : List (Text × Text)) : Text :=
  '\x7b' :: joinWith [','] (members.map member) ++ ['\x7d']

end BuildTargets.Json

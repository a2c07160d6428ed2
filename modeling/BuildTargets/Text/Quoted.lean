import BuildTargets.Text.Shown

/-!
# Quoted text

A text between double quotes, for a reader who wants to see what is in it: what does not show on its
own is written as an escape, with the number of the character where it has no letter.
-/

namespace BuildTargets.Text

/-- What a character is written as between double quotes. -/
def quotedChar (c : Char) : Text :=
  if c = '\x00' then ['\\', '0']
  else if c = '\t' then ['\\', 't']
  else if c = '\r' then ['\\', 'r']
  else if c = '\n' then ['\\', 'n']
  else if c = '"' then ['\\', '"']
  else if c = '\\' then ['\\', '\\']
  else if isShown c then [c]
  else ['\\', 'u', '\x7b'] ++ Nat.toDigits 16 c.toNat ++ ['\x7d']

/-- A text between double quotes. -/
def quoted (t : Text) : Text := '"' :: t.flatMap quotedChar ++ ['"']

end BuildTargets.Text

import BuildTargets.Text.Basic

/-!
# Blank characters

The characters of the Unicode property `White_Space`, and the text that is left when those at either
end are taken off.
-/

namespace BuildTargets

/-- The ranges of the property `White_Space`, by code point, ends included. -/
def blankRanges : List (Nat × Nat) :=
  [(0x09, 0x0D), (0x20, 0x20), (0x85, 0x85), (0xA0, 0xA0), (0x1680, 0x1680), (0x2000, 0x200A),
    (0x2028, 0x2029), (0x202F, 0x202F), (0x205F, 0x205F), (0x3000, 0x3000)]

/-- Whether a character is white space in the sense of Unicode. -/
def isBlank (c : Char) : Bool :=
  blankRanges.any fun (first, last) => first ≤ c.toNat && c.toNat ≤ last

namespace Text

/-- The text without its leading blanks. -/
def trimStart (s : Text) : Text := s.dropWhile isBlank

/-- The text without its trailing blanks. -/
def trimEnd (s : Text) : Text := dropEndWhile isBlank s

/-- The text without the blanks at either end. -/
def trim (s : Text) : Text := trimEnd (trimStart s)

end Text

end BuildTargets

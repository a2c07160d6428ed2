import BuildTargets.Text.Basic

/-!
# Positions at the end of a remark

A remark about a text may end in a line and a column. They are numbers of 64 bits, written without
zeros in front; lines are counted from one, so a remark at line zero is a remark about no place.
-/

namespace BuildTargets.Text

/-- What stands before and behind the last occurrence of `part`. -/
def splitLast? (part : Text) : Text → Option (Text × Text)
  | [] => none
  | c :: s =>
    match splitLast? part s with
    | some (front, back) => some (c :: front, back)
    | none => (after? part (c :: s)).map fun back => ([], back)

/-- The number of 64 bits at the beginning of a text, and what follows its digits. -/
def leadingNumber? (s : Text) : Option (Nat × Text) :=
  let digits := s.takeWhile Char.isDigit
  let n := digits.foldl (fun n c => n * 10 + (c.toNat - 48)) 0
  if digits = [] || Nat.pow 2 64 ≤ n then none else some (n, s.dropWhile Char.isDigit)

/-- A remark without the position at its end, and the line and the column of that position. -/
def position? (t : Text) : Option (Text × Nat × Nat) := do
  let (remark, s) ← splitLast? " at line ".toList t
  let (line, s) ← leadingNumber? s
  let s ← after? " column ".toList s
  let (column, s) ← leadingNumber? s
  if s = [] then return (remark, line, column) else none

/-- A remark with the position at its end, if there is one, written plainly. -/
def withPlainPosition (t : Text) : Text :=
  match position? t with
  | none => t
  | some (remark, line, column) =>
    if line = 0 then remark
    else
      remark ++ " at line ".toList ++ Nat.toDigits 10 line ++ " column ".toList ++
        Nat.toDigits 10 column

end BuildTargets.Text

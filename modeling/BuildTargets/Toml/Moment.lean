import BuildTargets.Toml.Trivia

/-!
# Dates and times of a TOML document

A day of the calendar, a time of day, or both, and then perhaps an offset. Nothing is computed with
them: a scanner checks that they exist and gives what follows.
-/

namespace BuildTargets.Toml

/-- A number of exactly `count` digits, and what follows. -/
def fixed? (count : Nat) (s : Text) : Option (Nat × Text) :=
  let digits := s.take count
  if digits.length = count && digits.all Char.isDigit then
    some (digits.foldl (fun n c => n * 10 + (c.toNat - 48)) 0, s.drop count)
  else none

/-- A number of two digits between `low` and `high`, and what follows. -/
def twoDigits? (low high : Nat) (s : Text) : Option (Nat × Text) :=
  match fixed? 2 s with
  | some (n, rest) => if low ≤ n && n ≤ high then some (n, rest) else none
  | none => none

/-- How many days a month has. -/
def daysIn (year month : Nat) : Nat :=
  if month = 2 then
    if year % 4 = 0 && (year % 100 ≠ 0 || year % 400 = 0) then 29 else 28
  else if month ∈ [4, 6, 9, 11] then 30
  else 31

/-- What follows a day of the calendar. -/
def date? (s : Text) : Option Text := do
  let (year, s) ← fixed? 4 s
  let s ← after? ['-'] s
  let (month, s) ← twoDigits? 1 12 s
  let s ← after? ['-'] s
  let (_, s) ← twoDigits? 1 (daysIn year month) s
  return s

/-- What follows hours and minutes. -/
def minutes? (s : Text) : Option Text := do
  let (_, s) ← twoDigits? 0 23 s
  let s ← after? [':'] s
  let (_, s) ← twoDigits? 0 59 s
  return s

/-- What follows the fraction of a second, if there is one. -/
def withoutFraction (s : Text) : Text :=
  match s with
  | '.' :: t => if t.head?.any Char.isDigit then t.dropWhile Char.isDigit else s
  | _ => s

/-- What follows a time of day. There may be a leap second. -/
def time? (s : Text) : Option Text := do
  let s ← minutes? s
  let s ← after? [':'] s
  let (_, s) ← twoDigits? 0 60 s
  return withoutFraction s

/-- What follows an offset, if there is one. -/
def withoutOffset (s : Text) : Text :=
  match s with
  | [] => []
  | c :: t =>
    if c = 'Z' || c = 'z' then t
    else if c = '+' || c = '-' then (minutes? t).getD s
    else s

/-- What follows a time of day that a mark sets apart from the day before it, and its offset. -/
def timeOfDay? : Text → Option Text
  | [] => none
  | c :: s => if c = 'T' || c = 't' || c = ' ' then (time? s).map withoutOffset else none

/-- What follows a day with or without a time, or a time alone. -/
def moment? (s : Text) : Option Text :=
  match date? s with
  | some rest => some ((timeOfDay? rest).getD rest)
  | none => time? s

end BuildTargets.Toml

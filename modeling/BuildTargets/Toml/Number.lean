import BuildTargets.Decimal.Binary64
import BuildTargets.Toml.Quoted

/-!
# Numbers of a TOML document

Whole numbers of 64 bits, in four bases, and floating-point numbers. An underscore may stand between
two digits. A reader gives the number and what follows it.
-/

namespace BuildTargets.Toml

/-- Digits in the sense of `p`, without the underscores between them, and what follows. With `needed`
the text has to begin with a digit. -/
def digitsFrom? (p : Char → Bool) (needed : Bool) : Text → Option (Text × Text)
  | [] => if needed then none else some ([], [])
  | c :: s =>
    if p c then consTaken c (digitsFrom? p false s)
    else if needed then none
    else if c = '_' then digitsFrom? p true s
    else some ([], c :: s)

/-- One or more digits in the sense of `p`, without the underscores between them, and what follows. -/
def digits? (p : Char → Bool) (s : Text) : Option (Text × Text) := digitsFrom? p true s

/-- The number that digits denote in a base. -/
def numberOf (base : Nat) (digits : Text) : Nat :=
  digits.foldl (fun n c => n * base + (hexValue? c).getD 0) 0

/-- The digits in front of a point: only a lone one may be a zero. -/
def whole? : Text → Option (Text × Text)
  | [] => none
  | c :: s => if c = '0' then some (['0'], s) else digits? Char.isDigit (c :: s)

/-- A sign at the beginning of a text: whether it is a minus, and what follows. -/
def sign : Text → Bool × Text
  | [] => (false, [])
  | c :: s => if c = '-' then (true, s) else if c = '+' then (false, s) else (false, c :: s)

/-- The number with a sign. -/
def signed (negative : Bool) (n : Nat) : Int := if negative then -(n : Int) else n

/-- The least number beyond those of 64 bits with a sign. -/
def integerBound : Nat := Nat.pow 2 63

/-- A whole number in a base other than ten, read from behind the mark of the base. -/
def based? (base : Nat) (s : Text) : Option (Int × Text) :=
  match digits? (fun c => (hexValue? c).any (· < base)) s with
  | none => none
  | some (digits, rest) =>
    let n := numberOf base digits
    if n < integerBound then some (n, rest) else none

/-- A whole number of 64 bits. -/
def integer? (s : Text) : Option (Int × Text) :=
  match s with
  | '0' :: 'x' :: t => based? 16 t
  | '0' :: 'o' :: t => based? 8 t
  | '0' :: 'b' :: t => based? 2 t
  | _ =>
    let (negative, t) := sign s
    match whole? t with
    | none => none
    | some (digits, rest) =>
      let n := signed negative (numberOf 10 digits)
      if -(integerBound : Int) ≤ n && n < integerBound then some (n, rest) else none

/-- A power of ten behind a number: its exponent, and what follows. -/
def power? : Text → Option (Int × Text)
  | [] => none
  | c :: s =>
    if c = 'e' || c = 'E' then
      let (negative, t) := sign s
      (digits? Char.isDigit t).map fun (digits, rest) => (signed negative (numberOf 10 digits), rest)
    else none

/-- The number `front.back * 10 ^ e`. Too large a number is refused, but not too small a one. -/
def decimal? (negative : Bool) (front back : Text) (e : Int) : Option Binary64 :=
  let x := Binary64.ofDecimal negative (numberOf 10 (front ++ back)) (e - back.length)
  if x = .infinite false then none else some x

/-- A floating-point number: with a fraction, with a power of ten, or with both; or one of the words
for what is no finite number. -/
def float? (s : Text) : Option (Binary64 × Text) :=
  let (negative, t) := sign s
  match after? "inf".toList t with
  | some rest => some (.infinite negative, rest)
  | none =>
    match after? "nan".toList t with
    | some rest => some (.nan, rest)
    | none =>
      match whole? t with
      | none => none
      | some (front, '.' :: u) =>
        match digits? Char.isDigit u with
        | none => none
        | some (back, rest) =>
          let (e, rest) := (power? rest).getD (0, rest)
          (decimal? negative front back e).map fun x => (x, rest)
      | some (front, u) =>
        match power? u with
        | none => none
        | some (e, rest) => (decimal? negative front [] e).map fun x => (x, rest)

end BuildTargets.Toml

import BuildTargets.Text.Basic

/-!
# Binary floating-point numbers of 64 bits

A finite number is a whole significand times a power of two. Reading a decimal gives the nearest number,
the one with the even significand if two are equally near; what is too large becomes infinite.
-/

namespace BuildTargets

/-- A floating-point number with 53 significant bits. -/
inductive Binary64 where
  /-- The number `significand * 2 ^ exponent`, or its opposite. -/
  | finite (negative : Bool) (significand : Nat) (exponent : Int)
  | infinite (negative : Bool)
  | nan
  deriving DecidableEq, Repr

namespace Binary64

/-- The quotient rounded to the nearest whole number, a half to the even one. -/
def roundDiv (num den : Nat) : Nat :=
  let q := num / den
  let r := num % den
  if 2 * r > den || (2 * r = den && q % 2 = 1) then q + 1 else q

/-- The number `base ^ e * num / den` as a quotient of whole numbers. -/
def scale (base : Nat) (e : Int) (num den : Nat) : Nat × Nat :=
  if 0 ≤ e then (num * Nat.pow base e.toNat, den)
  else (num, den * Nat.pow base (-e).toNat)

/-- The least number with more bits than a significand has. -/
def significandBound : Nat := Nat.pow 2 53

/-- The exponent of the floating-point numbers around a positive quotient: the one with which the
quotient has 53 bits before the point, but not below the least. -/
def exponentOf (num den : Nat) : Int :=
  let low : Int := (num.log2 : Int) - den.log2 - 53
  let (n, d) := scale 2 (-low) num den
  max (-1074) (if n / d < significandBound then low else low + 1)

/-- The floating-point number nearest to a positive quotient. -/
def ofQuotient (negative : Bool) (num den : Nat) : Binary64 :=
  let e := exponentOf num den
  let (n, d) := scale 2 (-e) num den
  let m := roundDiv n d
  let (m, e) := if m = significandBound then (m / 2, e + 1) else (m, e)
  if e > 971 then infinite negative else finite negative m e

/-- The floating-point number nearest to `digits * 10 ^ e`. A number that lies far out of range is
settled by its size. -/
def ofDecimal (negative : Bool) (digits : Nat) (e : Int) : Binary64 :=
  let size : Int := (Nat.toDigits 10 digits).length + e
  if digits = 0 || size < -330 then finite negative 0 (-1074)
  else if size > 310 then infinite negative
  else
    let (n, d) := scale 10 e digits 1
    ofQuotient negative n d

end Binary64

end BuildTargets

import BuildTargets.Decimal.Binary64

/-!
# The shortest decimal

A floating-point number is shown by the fewest digits that read back as that number, and of several
such decimals by the nearest. Digits stand at their places: no power of ten is split off, and a whole
number ends in a point and a zero.
-/

namespace BuildTargets.Binary64

/-- The place of the first digit of a positive quotient: the least `k` with `num / den < 10 ^ k`. -/
def firstPlace (num den : Nat) : Int :=
  if den ≤ num then (Nat.toDigits 10 (num / den)).length
  else
    let places := (Nat.toDigits 10 (den / num)).length
    if den ≤ num * Nat.pow 10 (places - 1) then 2 - places else 1 - places

/-- The decimal with `count` digits that reads back as `m * 2 ^ e`, as its digits and its power of
ten. Only the two neighbours on the grid of such decimals come into question; the nearer is
preferred. -/
def decimal? (m : Nat) (e : Int) (count : Nat) : Option (Nat × Int) :=
  let (num, den) := scale 2 e m 1
  let power := firstPlace num den - count
  let (n, d) := scale 10 (-power) num den
  let below := n / d
  let readsBack (digits : Nat) : Bool := ofDecimal false digits power = finite false m e
  let (first, second) :=
    if 2 * (n % d) < d then (below, below + 1) else (below + 1, below)
  if readsBack first then some (first, power)
  else if readsBack second then some (second, power)
  else none

/-- The shortest decimal that reads back as `m * 2 ^ e`: seventeen digits always do. Where the upper
neighbour on the grid is the next power of ten, its zero belongs to the power. -/
def shortest (m : Nat) (e : Int) : Nat × Int :=
  let (digits, power) := ((List.range 17).findSome? fun i => decimal? m e (i + 1)).getD (0, 0)
  if digits % 10 = 0 then (digits / 10, power + 1) else (digits, power)

/-- Digits with the point at its place. -/
def positional (digits : Text) (power : Int) : Text :=
  if 0 ≤ power then digits ++ List.replicate power.toNat '0' ++ ['.', '0']
  else
    let places := (-power).toNat
    let padded := List.replicate (places + 1 - digits.length) '0' ++ digits
    padded.take (padded.length - places) ++ '.' :: padded.drop (padded.length - places)

/-- The text of a floating-point number. -/
def text : Binary64 → Text
  | nan => "NaN".toList
  | infinite negative => if negative then "-inf".toList else "inf".toList
  | finite negative m e =>
    let (digits, power) := if m = 0 then (0, 0) else shortest m e
    (if negative then ['-'] else []) ++ positional (Nat.toDigits 10 digits) power

end BuildTargets.Binary64

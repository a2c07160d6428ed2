import BuildTargets.Toml.Trivia

/-!
# Strings of a TOML document

The four forms of a string: between double quotes, where a backslash escapes, or between single
quotes, where nothing does; and each of them tripled, which may go over several lines. A reader starts
behind the opening quotes and gives the text that the string denotes and what follows the closing
quotes. Every line end in a string denotes a line feed.
-/

namespace BuildTargets.Toml

/-- The number that a hexadecimal digit denotes. -/
def hexValue? (c : Char) : Option Nat :=
  if '0' ≤ c && c ≤ '9' then some (c.toNat - 48)
  else if 'a' ≤ c && c ≤ 'f' then some (c.toNat - 87)
  else if 'A' ≤ c && c ≤ 'F' then some (c.toNat - 55)
  else none

/-- The number that hexadecimal digits denote, the first of them worth the most. -/
def hexNumber? (digits : List Char) : Option Nat :=
  digits.foldlM (fun n c => (hexValue? c).map (n * 16 + ·)) 0

/-- The character with a code point, if there is one. -/
def charOfCode? (n : Nat) : Option Char :=
  if n.isValidChar then some (Char.ofNat n) else none

/-- The character that an escape denotes, read from behind the backslash, and what follows. -/
def escape? : Text → Option (Char × Text)
  | 'b' :: s => some ('\x08', s)
  | 't' :: s => some ('\t', s)
  | 'n' :: s => some ('\n', s)
  | 'f' :: s => some ('\x0c', s)
  | 'r' :: s => some ('\r', s)
  | '"' :: s => some ('"', s)
  | '\\' :: s => some ('\\', s)
  | 'u' :: a :: b :: c :: d :: s =>
    ((hexNumber? [a, b, c, d]).bind charOfCode?).map fun x => (x, s)
  | 'U' :: a :: b :: c :: d :: e :: f :: g :: h :: s =>
    ((hexNumber? [a, b, c, d, e, f, g, h]).bind charOfCode?).map fun x => (x, s)
  | _ => none

theorem escape?_length {s rest : Text} {c : Char} (h : escape? s = some (c, rest)) :
    rest.length < s.length := by
  unfold escape? at h
  split at h
  case h_8 | h_9 =>
    obtain ⟨x, -, he⟩ := Option.map_eq_some_iff.1 h
    cases he
    simp only [List.length_cons]
    omega
  all_goals first
    | (cases h; simp)
    | cases h

/-- A string on one line between double quotes. -/
def basic? : Text → Option (Text × Text)
  | [] => none
  | c :: s =>
    if c = '"' then some ([], s)
    else if c = '\\' then
      match _h : escape? s with
      | none => none
      | some (x, rest) => consTaken x (basic? rest)
    else if isControl c then none
    else consTaken c (basic? s)
termination_by s => s.length
decreasing_by
  · have := escape?_length _h
    simp only [List.length_cons]
    omega
  · simp

/-- A string on one line between single quotes. -/
def literal? : Text → Option (Text × Text)
  | [] => none
  | c :: s =>
    if c = '\'' then some ([], s)
    else if isControl c then none
    else consTaken c (literal? s)

/-- Takes up to two quotes off the beginning of a text: behind three closing quotes they belong to
the string. -/
def closingQuotes (quote : Char) : Text → Text × Text
  | a :: b :: s =>
    if a = quote then if b = quote then ([a, b], s) else ([a], b :: s) else ([], a :: b :: s)
  | [a] => if a = quote then ([a], []) else ([], [a])
  | [] => ([], [])

/-- The text without the blanks and line ends at its beginning. -/
def afterBlankLines : Text → Text
  | [] => []
  | '\r' :: '\n' :: s => afterBlankLines s
  | c :: s => if isSpace c || c = '\n' then afterBlankLines s else c :: s

theorem afterBlankLines_length (s : Text) : (afterBlankLines s).length ≤ s.length := by
  fun_induction afterBlankLines s <;> simp only [List.length_cons, List.length_nil] <;> omega

/-- The text behind a backslash that ends a line, without the blanks at the beginning of what
follows. -/
def afterLineEscape? (s : Text) : Option Text :=
  (afterLineEnd? (s.dropWhile isSpace)).map afterBlankLines

theorem afterLineEscape?_length {s rest : Text} (h : afterLineEscape? s = some rest) :
    rest.length < s.length := by
  obtain ⟨t, ht, rfl⟩ := Option.map_eq_some_iff.1 h
  have h₁ := (List.dropWhile_sublist isSpace (l := s)).length_le
  have h₂ := afterLineEnd?_length ht
  have h₃ := afterBlankLines_length t
  omega

/-- A string over several lines between triple double quotes. -/
def basicLines? : Text → Option (Text × Text)
  | [] => none
  | '"' :: '"' :: '"' :: s => some (closingQuotes '"' s)
  | '\r' :: '\n' :: s => consTaken '\n' (basicLines? s)
  | c :: s =>
    if c = '\\' then
      match _h : escape? s with
      | some (x, rest) => consTaken x (basicLines? rest)
      | none =>
        match _h' : afterLineEscape? s with
        | none => none
        | some rest => basicLines? rest
    else if isControl c && c ≠ '\n' then none
    else consTaken c (basicLines? s)
termination_by s => s.length
decreasing_by
  · simp only [List.length_cons]
    omega
  · have := escape?_length _h
    simp only [List.length_cons]
    omega
  · have := afterLineEscape?_length _h'
    simp only [List.length_cons]
    omega
  · simp

/-- A string over several lines between triple single quotes. -/
def literalLines? : Text → Option (Text × Text)
  | [] => none
  | '\'' :: '\'' :: '\'' :: s => some (closingQuotes '\'' s)
  | '\r' :: '\n' :: s => consTaken '\n' (literalLines? s)
  | c :: s =>
    if isControl c && c ≠ '\n' then none
    else consTaken c (literalLines? s)

/-- The text without a line end at its beginning: one right behind triple quotes does not count. -/
def withoutLineEnd (s : Text) : Text := (afterLineEnd? s).getD s

/-- A string in any of its forms, read from its opening quotes. -/
def string? : Text → Option (Text × Text)
  | '"' :: '"' :: '"' :: s => basicLines? (withoutLineEnd s)
  | '"' :: s => basic? s
  | '\'' :: '\'' :: '\'' :: s => literalLines? (withoutLineEnd s)
  | '\'' :: s => literal? s
  | _ => none

end BuildTargets.Toml

import BuildTargets.Text.Basic

/-!
# What stands between the clauses of a TOML document

Blanks, line feeds and comments, and the rest of a line behind a clause. Every scanner gives the
characters that it took, so that a document can be written back as it was, but for the line ends: each
of them is taken as a line feed. A carriage return that ends no line is refused everywhere.
-/

namespace BuildTargets.Toml

/-- What follows a line end at the beginning of a text: a line feed, with or without a carriage return
in front of it. -/
def afterLineEnd? : Text → Option Text
  | '\n' :: s => some s
  | '\r' :: '\n' :: s => some s
  | _ => none

/-- The text without a byte order mark at its beginning. -/
def withoutMark : Text → Text
  | [] => []
  | c :: s => if c = '\uFEFF' then s else c :: s

/-- Whether a character separates words within a line. -/
def isSpace (c : Char) : Bool := c = ' ' || c = '\t'

/-- Whether a character is a control character other than the tab. -/
def isControl (c : Char) : Bool := (c.toNat < 0x20 && c ≠ '\t') || c.toNat = 0x7F

/-- The spaces at the beginning of a text, and what follows them. -/
def spaces (s : Text) : Text × Text := (s.takeWhile isSpace, s.dropWhile isSpace)

/-- Puts a character in front of what a scanner took. -/
def consTaken (c : Char) (r : Option (Text × Text)) : Option (Text × Text) :=
  r.map fun (taken, rest) => (c :: taken, rest)

/-- Spaces, line feeds and comments, as far as they go, and what follows them. With `comment`, the
beginning of the text belongs to a comment. -/
def trivia (comment : Bool) : Text → Option (Text × Text)
  | [] => some ([], [])
  | '\r' :: '\n' :: s => consTaken '\n' (trivia false s)
  | c :: s =>
    if c = '\n' then consTaken c (trivia false s)
    else if comment then if isControl c then none else consTaken c (trivia true s)
    else if c = '#' then consTaken c (trivia true s)
    else if isSpace c then consTaken c (trivia false s)
    else some ([], c :: s)

/-- The rest of a line, which may hold spaces and a comment, and what follows its line end. -/
def lineRest (comment : Bool) : Text → Option (Text × Text)
  | [] => some ([], [])
  | '\r' :: '\n' :: s => some ([], s)
  | c :: s =>
    if c = '\n' then some ([], s)
    else if comment then if isControl c then none else consTaken c (lineRest true s)
    else if c = '#' then consTaken c (lineRest true s)
    else if isSpace c then consTaken c (lineRest false s)
    else none

/-- The characters of `s` in front of its end `rest`. -/
def spelling (s rest : Text) : Text := s.take (s.length - rest.length)

@[simp] theorem spelling_append (u rest : Text) : spelling (u ++ rest) rest = u := by
  simp [spelling]

theorem afterLineEnd?_length {s rest : Text} (h : afterLineEnd? s = some rest) :
    rest.length < s.length := by
  unfold afterLineEnd? at h
  split at h <;> cases h <;> simp only [List.length_cons] <;> omega

theorem consTaken_eq_some_iff {c : Char} {r : Option (Text × Text)} {taken rest : Text} :
    consTaken c r = some (taken, rest) ↔ ∃ t, r = some (t, rest) ∧ taken = c :: t := by
  constructor
  · intro h
    obtain ⟨⟨t, u⟩, hr, he⟩ := Option.map_eq_some_iff.1 h
    cases he
    exact ⟨t, hr, rfl⟩
  · rintro ⟨t, rfl, rfl⟩
    rfl

theorem ne_return_of_not_isControl {c : Char} (h : ¬isControl c = true) : c ≠ '\r' := by
  rintro rfl
  exact h (by decide)

theorem ne_return_of_isSpace {c : Char} (h : isSpace c = true) : c ≠ '\r' := by
  rintro rfl
  exact absurd h (by decide)

end BuildTargets.Toml

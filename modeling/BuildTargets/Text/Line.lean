import BuildTargets.Text.Basic

/-!
# Lines

A text falls into lines, each with the terminator it carries. Cutting loses nothing: joining the
lines gives the text back (`Line.join_split`).
-/

namespace BuildTargets

/-- How a line ends. Only the last line of a text may lack a terminator. -/
inductive LineEnd where
  /-- A line feed. -/
  | lf
  /-- A carriage return and a line feed. -/
  | crlf
  /-- The end of the text. -/
  | eof
  deriving DecidableEq, Repr

namespace LineEnd

/-- The characters of a terminator. -/
def text : LineEnd → Text
  | lf => ['\n']
  | crlf => ['\r', '\n']
  | eof => []

/-- The terminator that a line gets when text follows it: an open end becomes a line feed. -/
def closed : LineEnd → LineEnd
  | eof => lf
  | e => e

end LineEnd

/-- A line: its content and its terminator. -/
structure Line where
  content : Text
  ending : LineEnd
  deriving DecidableEq, Repr

namespace Line

/-- The characters of a line, terminator included. -/
def text (l : Line) : Text := l.content ++ l.ending.text

/-- The text that a sequence of lines spells. -/
def join (ls : List Line) : Text := ls.flatMap text

/-- Puts a character in front of the first line, which is a new unended line if there is none. -/
def consContent (c : Char) : List Line → List Line
  | [] => [⟨[c], .eof⟩]
  | l :: ls => ⟨c :: l.content, l.ending⟩ :: ls

/-- The lines of a text. A line ends behind its line feed; a carriage return right before that
belongs to the terminator. -/
def split : Text → List Line
  | [] => []
  | '\r' :: '\n' :: s => ⟨[], .crlf⟩ :: split s
  | '\n' :: s => ⟨[], .lf⟩ :: split s
  | c :: s => consContent c (split s)

theorem join_consContent (c : Char) (ls : List Line) : join (consContent c ls) = c :: join ls := by
  cases ls <;> simp [consContent, join, text, LineEnd.text]

/-- Cutting a text into lines loses nothing. -/
theorem join_split (s : Text) : join (split s) = s := by
  fun_induction split s with
  | case1 => rfl
  | case2 s ih => simpa [join, text, LineEnd.text] using ih
  | case3 s ih => simpa [join, text, LineEnd.text] using ih
  | case4 c s _ _ ih => rw [join_consContent, ih]

end Line

end BuildTargets

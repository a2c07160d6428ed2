import BuildTargets.Statement.Basic
import BuildTargets.Text.Blank

/-!
# Reading a statement off a line

A line is a statement if it starts with the keyword at its first column and ends with a closing
parenthesis, trailing blanks apart. Between the parentheses stand the target name and, after at least
one blank, the arguments. The arguments of an executable are any text that does not start or end with a
blank; a properties statement is read only if it sets the output directory and nothing else.
-/

namespace BuildTargets

namespace Statement

/-- Goes on behind any number of blanks, as many as possible first. -/
def afterBlanks {α : Type} (go : Text → Option α) : Text → Option α
  | [] => go []
  | c :: s => if isBlank c then (afterBlanks go s).or (go (c :: s)) else go (c :: s)

/-- What follows one blank or more, none of which may be left. -/
def afterSomeBlanks? : Text → Option Text
  | c :: s => if isBlank c then some (Text.trimStart s) else none
  | [] => none

/-- The text in front of the closing parenthesis that ends `s`, without blanks at its end. -/
def beforeClosing? (s : Text) : Option Text :=
  match cutLast ')' s with
  | some (front, back) => if back.all isBlank then some (Text.trimEnd front) else none
  | none => none

/-- Whether `s` is one argument: a text between double quotes that holds no double quote, or a text
without blanks. -/
def isArgument (s : Text) : Bool :=
  match s with
  | [] => false
  | c :: r =>
    (c = '"' && match cutLast '"' r with
      | some (inner, back) => back = [] && !inner.contains '"'
      | none => false)
    || (c :: r).all (!isBlank ·)

/-- Whether `s` is an argument list for statements of the kind. -/
def acceptsArguments : Kind → Text → Bool
  | .executable, s => s ≠ []
  | .properties, s =>
    match (after? propertiesWord s).bind afterSomeBlanks? with
    | none => false
    | some s =>
      match (after? outputWord s).bind afterSomeBlanks? with
      | none => false
      | some s => isArgument s

/-- The arguments of a statement, read from behind the target name. -/
def arguments? (kind : Kind) (s : Text) : Option Text := do
  let s ← afterSomeBlanks? s
  let s ← beforeClosing? s
  if acceptsArguments kind s then some s else none

/-- The arguments of the statement of the given kind and target that the line is, if it is one. -/
def read? (kind : Kind) (target line : Text) : Option Text := do
  let s ← after? kind.keyword line
  let s ← after? ['('] (Text.trimStart s)
  afterBlanks (fun s => (after? target s).bind (arguments? kind)) s

/-- Whether the line is a statement of the given kind and target. -/
def isStatement (kind : Kind) (target line : Text) : Bool := (read? kind target line).isSome

end Statement

end BuildTargets

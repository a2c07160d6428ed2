import BuildTargets.Text.Utf8

/-!
# What is visible of a text

A terminal takes some characters as instructions: control characters one by one, and sequences that
begin with an escape. Here they are left out of a text.
-/

namespace BuildTargets

/-- Where a reader of control sequences is. -/
inductive ControlPlace where
  /-- In no sequence. -/
  | outside
  /-- Behind an escape. -/
  | escape
  /-- Behind an escape and the first characters of a longer sequence. -/
  | escapeMore
  /-- In the parameters of a command, which a letter ends. -/
  | command
  /-- At the beginning of what is meant for a device. -/
  | deviceStart
  /-- In the parameters for a device. -/
  | deviceParameters
  /-- Behind the parameters for a device. -/
  | deviceMore
  /-- In the text for a device. -/
  | deviceText
  /-- In a request to the system, such as a title. -/
  | request
  /-- In a text that is meant for nobody. -/
  | message
  deriving DecidableEq, Repr

/-- Whether a character is white space among the control characters that move the place of writing. -/
def isBlankControl (c : Char) : Bool := c = '\t' || c = '\n' || c = '\x0c' || c = '\r'

/-- Whether a character is visible outside of sequences. -/
def isVisible (c : Char) : Bool := (0x20 ≤ c.toNat && c.toNat ≠ 0x7F) || isBlankControl c

/-- Whether a character ends a text for a device or for nobody: the octet that does so is among its
octets. -/
def endsString (c : Char) : Bool := 0x9C ∈ Utf8.encodeChar c

namespace ControlPlace

/-- Whether a character has a code point between two others, ends included. -/
def isWithin (low high : Nat) (c : Char) : Bool := low ≤ c.toNat && c.toNat ≤ high

/-- Where a reader is behind one more character. An escape begins a new sequence anywhere, and two
control characters break off any sequence. -/
def after (p : ControlPlace) (c : Char) : ControlPlace :=
  if c = '\x1b' then escape
  else if c = '\x18' || c = '\x1a' then outside
  else
    match p with
    | outside => outside
    | escape =>
      if isWithin 0x20 0x2F c then escapeMore
      else if c = '[' then command
      else if c = ']' then request
      else if c = 'P' then deviceStart
      else if c = 'X' || c = '^' || c = '_' then message
      else if isWithin 0x30 0x7E c then outside
      else escape
    | escapeMore => if isWithin 0x30 0x7E c then outside else escapeMore
    | command => if isWithin 0x40 0x7E c then outside else command
    | deviceStart =>
      if isWithin 0x20 0x2F c then deviceMore
      else if isWithin 0x30 0x3F c then deviceParameters
      else if isWithin 0x40 0x7E c then deviceText
      else deviceStart
    | deviceParameters =>
      if isWithin 0x20 0x2F c then deviceMore
      else if isWithin 0x3C 0x7E c then deviceText
      else deviceParameters
    | deviceMore => if isWithin 0x30 0x7E c then deviceText else deviceMore
    | deviceText => if endsString c then outside else deviceText
    | request => if c = '\x07' then outside else request
    | message => if endsString c then outside else message

/-- Whether a character is shown although a sequence may have begun. -/
def shows (p : ControlPlace) (c : Char) : Bool :=
  match p with
  | outside => isVisible c
  | escape | escapeMore | command => isBlankControl c
  | _ => false

end ControlPlace

namespace Text

/-- What is visible of a text that is read from place `p` on. White space inside a sequence interrupts
it: with `showing`, all is shown up to the next control character, behind which the sequence goes on. A
character beyond ASCII ends an interrupted sequence. -/
def visibleFrom (showing : Bool) (p : ControlPlace) : Text → Text
  | [] => []
  | c :: s =>
    if (showing && isVisible c) || p.shows c then
      c :: visibleFrom true (if c.toNat < 0x80 then p else .outside) s
    else visibleFrom false (p.after c) s

/-- What is visible of a text. -/
def visible (t : Text) : Text := visibleFrom false .outside t

end Text

end BuildTargets

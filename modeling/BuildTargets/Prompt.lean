import BuildTargets.Sync
import BuildTargets.Text.Blank

/-!
# Asking at a terminal

A question is written in full before its answer is read. The answer is one line of the input; only
`y` and `yes` agree, in either case and between any blanks. A question that cannot be written, a line
that is no text and the end of the input all refuse.
-/

namespace BuildTargets

/-- A pair of streams: one to write to, one to read lines from. -/
structure Console (m : Type → Type) where
  /-- Writes octets; false if not all of them could be written. -/
  write : Bytes → m Bool
  /-- Takes the next line with its line feed, or what is left of the input. -/
  readLine : m Bytes

namespace Question

/-- The words of a question. -/
def text (q : Question) : Text :=
  "add_executable for `".toList ++ q.target ++
    "` already exists with a different source.\nOverwrite it with `".toList ++ q.path ++
    "`? [y/N] ".toList

end Question

namespace Prompt

/-- Whether a line of input agrees. -/
def agrees (line : Bytes) : Bool :=
  match Utf8.decode? line with
  | none => false
  | some t =>
    let word := (Text.trim t).map Char.toLower
    word = "y".toList || word = "yes".toList

/-- Asks a question. -/
def confirm {m : Type → Type} [Monad m] (console : Console m) (q : Question) : m Bool := do
  if ← console.write (Utf8.encode q.text) then
    return agrees (← console.readLine)
  else
    return false

/-- The next line of an input with its line feed, and what follows it. -/
def takeLine : Bytes → Bytes × Bytes
  | [] => ([], [])
  | b :: s =>
    if b = 10 then ([b], s)
    else
      let (line, rest) := takeLine s
      (b :: line, rest)

/-- A terminal as a value. -/
structure Terminal where
  /-- The input that has not been read. -/
  input : Bytes
  /-- What has been written. -/
  shown : Bytes := []
  /-- How many octets can still be written, if that is limited. -/
  room : Option Nat := none
  deriving DecidableEq, Repr

namespace Terminal

/-- The console of a terminal. A terminal without enough room takes what fits. -/
def console : Console (StateM Terminal) where
  write octets := fun t =>
    match t.room with
    | none => (true, { t with shown := t.shown ++ octets })
    | some room =>
      (octets.length ≤ room,
        { t with shown := t.shown ++ octets.take room, room := some (room - octets.length) })
  readLine := fun t => ((takeLine t.input).1, { t with input := (takeLine t.input).2 })

end Terminal

end Prompt

end BuildTargets

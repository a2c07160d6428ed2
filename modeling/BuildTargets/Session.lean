import BuildTargets.Prompt

/-!
# Sessions

A build file that is kept as a value, with runs and outside changes one after the other. The store may
be told to refuse, and the record of a session counts what was written and what was asked.
-/

namespace BuildTargets

/-- A build file in the course of a session. -/
structure Session where
  /-- The text of the build file, if there is one. -/
  text : Option Text
  /-- How often the text has been replaced. -/
  writes : Nat := 0
  /-- The questions asked so far. -/
  asked : List Question := []
  deriving DecidableEq, Repr

namespace Session

/-- What a store refuses during a run, and with which fault. -/
inductive Refusal where
  | read (fault : Fault)
  | write (fault : Fault)
  deriving DecidableEq, Repr

/-- Who answers a question. -/
inductive Answerer where
  /-- Someone who always answers the same. -/
  | fixed (answer : Bool)
  /-- Someone at a terminal who has typed this. -/
  | typed (input : Bytes)
  deriving DecidableEq, Repr

/-- The store of a session. -/
def store (location : Path) (refusal : Option Refusal) : Store (StateM Session) where
  location := location
  read := fun s =>
    match refusal with
    | some (.read fault) => (.error fault, s)
    | _ => (.ok s.text, s)
  replace new := fun s =>
    match refusal with
    | some (.write fault) => (.error fault, s)
    | _ => (.ok (), { s with text := some new, writes := s.writes + 1 })

/-- Answers a question and records it. -/
def confirm (answerer : Answerer) (q : Question) : StateM Session Bool := fun s =>
  let answer :=
    match answerer with
    | .fixed answer => answer
    | .typed input => (Prompt.confirm Prompt.Terminal.console q { input := input }).1
  (answer, { s with asked := s.asked ++ [q] })

/-- One run within a session. -/
structure Run where
  request : Request
  skip : Bool
  answerer : Answerer
  refusal : Option Refusal
  deriving DecidableEq, Repr

/-- Performs a run. -/
def perform (location : Path) (r : Run) : StateM Session (Except Fault Sync.Outcome) :=
  (Sync.run (store location r.refusal) (confirm r.answerer) r.request r.skip).run

/-- What happens in a session. -/
inductive Event where
  /-- Someone else changes the build file, or removes it. -/
  | setText (text : Option Text)
  | run (r : Run)
  deriving DecidableEq, Repr

/-- The session after an event. -/
def after (location : Path) (s : Session) : Event → Session
  | .setText text => { s with text := text }
  | .run r => (perform location r s).2

end Session

end BuildTargets

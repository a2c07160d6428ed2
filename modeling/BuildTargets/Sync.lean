import BuildTargets.BuildFile.Edit
import BuildTargets.Request

/-!
# Bringing a build file in line with a request

`Sync.plan` says what a request asks of a text, without touching anything. `Sync.run` reads a build
file, plans, asks before it overwrites a conflicting declaration, and replaces the whole text at most
once. Where the text lives and who answers are parameters.
-/

namespace BuildTargets

/-- A place that holds the text of one build file. -/
structure Store (m : Type → Type) where
  /-- Where the text lives. -/
  location : Path
  /-- The text, or `none` if there is no build file. -/
  read : ExceptT Fault m (Option Text)
  /-- Puts a new text in the place of the old one. -/
  replace : Text → ExceptT Fault m Unit

/-- What is asked before a declaration is overwritten. -/
structure Question where
  /-- The target whose declaration is to go. -/
  target : Text
  /-- The source that the new declaration names. -/
  path : Text
  deriving DecidableEq, Repr

namespace Sync

/-- What a request asks of a text. -/
inductive Plan where
  /-- Nothing: the target is declared as wanted. -/
  | nothing
  /-- To declare the target; `text` is the whole new text. -/
  | insert (text : Text)
  /-- To replace a declaration, which needs a confirmation; `text` is the whole new text. -/
  | overwrite (text : Text)
  deriving DecidableEq, Repr

/-- The change that a request asks of a text. -/
def plan (r : Request) (text : Text) : Plan :=
  let status := (BuildFile.classify text r.targetName r.relativePath).1
  let new := BuildFile.edit text status r.targetName r.relativePath r.outputDirectory
  match status with
  | .absent => .insert new
  | .different => .overwrite new
  | .same => .nothing

/-- How a run ended. -/
inductive Outcome where
  /-- The target was declared as wanted, and nothing was written. -/
  | alreadyPresent
  /-- A conflicting declaration was left alone because the overwrite was refused. -/
  | declined
  /-- The target was declared. -/
  | inserted
  /-- A conflicting declaration was replaced. -/
  | overwritten
  deriving DecidableEq, Repr

/-- The question that a request raises where it meets a conflicting declaration. -/
def question (r : Request) : Question := ⟨r.targetName, r.relativePath⟩

/-- Brings the text of a store in line with a request. With `skip`, no question is asked. -/
def run {m : Type → Type} [Monad m] (store : Store m) (confirm : Question → m Bool) (r : Request)
    (skip : Bool) : ExceptT Fault m Outcome := do
  match ← store.read with
  | none => throw (.noBuildFile [store.location])
  | some text =>
    match plan r text with
    | .nothing => return .alreadyPresent
    | .insert new =>
      store.replace new
      return .inserted
    | .overwrite new =>
      let allowed ← if skip then pure true else ExceptT.lift (confirm (question r))
      if allowed then
        store.replace new
        return .overwritten
      else
        return .declined

end Sync

end BuildTargets

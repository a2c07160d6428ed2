import BuildTargets.Path.Basic

/-!
# Normal paths

Dots and steps up are resolved by their spelling alone, without a look at any directory: a step up
undoes the name before it, stays put at the root, and is kept where nothing is left to undo.
-/

namespace BuildTargets.Path

/-- Goes on from the steps taken so far, the last of them first. -/
def settle : List Component → Component → List Component
  | taken, .here => taken
  | .name _ :: taken, .up => taken
  | .root :: taken, .up => .root :: taken
  | taken, c => c :: taken

/-- The steps of a path after every dot and every step up has been resolved. -/
def normalComponents (p : Path) : List Component := (p.components.foldl settle []).reverse

/-- The normal spelling of a path. -/
def normalize (p : Path) : Path := ofComponents p.normalComponents

/-- The names that lead from `base` down to `p`, if `p` lies strictly below `base`. -/
def below? (base p : Path) : Option (List Bytes) :=
  match after? base.normalComponents p.normalComponents with
  | none | some [] => none
  | some (c :: cs) => (c :: cs).mapM fun
    | .name n => some n
    | _ => none

/-- The names as one text, with slashes between them. -/
def namesText (names : List Bytes) : Text := joinWith ['/'] (names.map Utf8.decodeLossy)

/-- The part of a slash-separated text in front of its last slash, empty if there is none. -/
def directoryText (t : Text) : Text :=
  match cutLast '/' t with
  | some (front, _) => front
  | none => []

end BuildTargets.Path

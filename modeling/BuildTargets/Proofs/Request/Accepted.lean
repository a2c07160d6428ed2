import BuildTargets.Proofs.Path.Below
import BuildTargets.Request

/-!
# Accepted requests

A request is accepted if it can be worked out from a path, a directory and settings.  Its parts come
from one reading of these (`exists_of_ofPaths`), so its target has a name that can stand in a
statement and the path of its source is not empty.
-/

namespace BuildTargets

/-- A result that was computed in two steps came out of both. -/
theorem bind_eq_ok {ε α β : Type} {x : Except ε α} {f : α → Except ε β} {b : β} :
    x.bind f = .ok b ↔ ∃ a, x = .ok a ∧ f a = .ok b := by
  cases x with
  | error e =>
    refine iff_of_false (fun h => ?_) ?_
    · cases h
    · rintro ⟨a, ha, -⟩
      cases ha
  | ok a =>
    constructor
    · intro h
      exact ⟨a, rfl, h⟩
    · rintro ⟨a', ha, h⟩
      cases ha
      exact h

/-- A result that was made from another one came out of that. -/
theorem map_eq_ok {ε α β : Type} {x : Except ε α} {f : α → β} {b : β} :
    x.map f = .ok b ↔ ∃ a, x = .ok a ∧ f a = b := by
  cases x with
  | error e => simp [Except.map]
  | ok a => simp [Except.map]

namespace Request

/-- A request that comes out of some path, directory and settings. -/
def IsAccepted (r : Request) : Prop :=
  ∃ (path base : Path) (settings : Settings), ofPaths path base settings = .ok r

/-- The parts of a request: each step succeeded, and the name passed its check. -/
theorem exists_of_ofPaths {path base : Path} {settings : Settings} {r : Request}
    (h : ofPaths path base settings = .ok r) :
    ∃ directory : Text,
      Source.ofPath path = .ok r.source ∧
      Source.relativePath base r.source.path = .ok r.relativePath ∧
      Source.relativeDirectory base r.source.path = .ok directory ∧
      r.base = base ∧
      r.targetName =
        Template.resolve (.ofSource r.source.stem directory) settings.targetName ∧
      IsTargetName r.targetName ∧
      r.outputDirectory =
        let output := Template.resolve (.ofSource r.source.stem directory) settings.outputDirectory
        if output = [] then none else some output := by
  obtain ⟨source, hsource, h⟩ := bind_eq_ok.1 h
  obtain ⟨relativePath, hpath, h⟩ := bind_eq_ok.1 h
  obtain ⟨directory, hdirectory, h⟩ := bind_eq_ok.1 h
  simp only at h
  split at h
  · cases h
  · next hname =>
    cases h
    exact ⟨directory, hsource, hpath, hdirectory, rfl, rfl, nameProblem?_eq_none_iff.1 hname, rfl⟩

/-- The target of an accepted request has a name that can stand in a statement. -/
theorem IsAccepted.isTargetName {r : Request} (hr : r.IsAccepted) : IsTargetName r.targetName := by
  obtain ⟨path, base, settings, h⟩ := hr
  obtain ⟨directory, -, -, -, -, -, hname, -⟩ := exists_of_ofPaths h
  exact hname

/-- The source of an accepted request has a path that is not empty. -/
theorem IsAccepted.relativePath_ne_nil {r : Request} (hr : r.IsAccepted) : r.relativePath ≠ [] := by
  obtain ⟨path, base, settings, h⟩ := hr
  obtain ⟨directory, -, hpath, -⟩ := exists_of_ofPaths h
  rw [Source.relativePath] at hpath
  split at hpath
  · next names hnames =>
    rw [← Except.ok.inj hpath]
    exact Path.namesText_ne_nil (Path.below?_eq_some_iff.1 hnames).1
      (Path.ne_nil_of_mem_below? hnames)
  · cases hpath

/-- A source with a space in its name, and an output directory. -/
def spaced : Request where
  base := .ofText "/p".toList
  outputDirectory := some "$\x7bPROJECT_SOURCE_DIR\x7d/bin".toList
  relativePath := "src/my app.c".toList
  source :=
    { stem := "my app".toList
      fileName := "my app.c".toList
      directory := .ofText "/p/src".toList
      path := .ofText "/p/src/my app.c".toList }
  targetName := "app".toList

theorem isAccepted_spaced : spaced.IsAccepted :=
  ⟨.ofText "/p/src/my app.c".toList, .ofText "/p".toList,
    ⟨"app".toList, "%PROJECT_DIR%/bin".toList, false⟩, by decide +kernel⟩

/-- A source right below its base, and no output directory. -/
def plain : Request where
  base := .ofText "/p".toList
  outputDirectory := none
  relativePath := "a.c".toList
  source :=
    { stem := "a".toList
      fileName := "a.c".toList
      directory := .ofText "/p".toList
      path := .ofText "/p/a.c".toList }
  targetName := "a".toList

theorem isAccepted_plain : plain.IsAccepted :=
  ⟨.ofText "/p/a.c".toList, .ofText "/p".toList, .default, by decide +kernel⟩

end Request

end BuildTargets

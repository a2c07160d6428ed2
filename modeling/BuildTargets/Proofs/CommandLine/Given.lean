import BuildTargets.CommandLine.Reader
import BuildTargets.Proofs.Request.Accepted

/-!
# What the command line gives

A value counts as given once it has been checked, so all that has been read of a command line suits its
arguments (`isChecked_of_all`).  No path among it is empty, and wherever a source has been named there is a
target (`exists_targetOf`).
-/

namespace BuildTargets.CommandLine

variable {g g' : Given} {a : Argument} {value : Option Text} {v arg : Text} {l : Level} {s s' : Scan}
  {args : List Text}

/-- All that has been given suits the arguments that it was given for. -/
def Given.IsChecked (g : Given) : Prop := ∀ e ∈ g, checkValue e.1 e.2 = .ok ()

/-! ## One argument -/

theorem Given.IsChecked.append (h : g.IsChecked) (hv : checkValue a v = .ok ()) :
    Given.IsChecked (g ++ [(a, v)]) :=
  List.forall_mem_append.2 ⟨h, List.forall_mem_singleton.2 hv⟩

/-- An argument is taken only with a value that suits it. -/
theorem Given.IsChecked.add (h : g.IsChecked) (hadd : g.add a value = .ok g') : g'.IsChecked := by
  unfold Given.add at hadd
  split at hadd
  · cases hadd
  · cases hadd
  · next harity =>
    cases hadd
    split
    · exact h
    · exact h.append (by rw [checkValue, harity])
  · next harity =>
    split at hadd
    · cases hadd
    · cases hadd
      exact h.append (by rw [checkValue, harity])
  · split at hadd
    · cases hadd
    · split at hadd
      · cases hadd
      · obtain ⟨_, hv, rfl⟩ := map_eq_ok.1 hadd
        exact h.append hv

/-! ## Reading on -/

namespace Scan

theorem isChecked_of_settle (h : s.given.IsChecked) (hs : s.settle = .ok s') :
    s'.given.IsChecked := by
  rw [settle] at hs
  split at hs
  · cases hs
    exact h
  · obtain ⟨g, hg, rfl⟩ := map_eq_ok.1 hs
    exact h.add hg

theorem isChecked_of_accept (h : s.given.IsChecked) (hs : s.accept a value = .ok s') :
    s'.given.IsChecked := by
  obtain ⟨s₁, hsettle, hs⟩ := bind_eq_ok.1 hs
  obtain ⟨g, hg, hs⟩ := bind_eq_ok.1 hs
  cases hs
  exact (isChecked_of_settle h hsettle).add hg

theorem isChecked_of_takeLong (h : s.given.IsChecked) (hs : s.takeLong l arg = .ok s') :
    s'.given.IsChecked := by
  simp only [takeLong] at hs
  split at hs
  · cases hs
  · split at hs
    · obtain ⟨s₁, hsettle, rfl⟩ := map_eq_ok.1 hs
      have hgiven : s₁.given.IsChecked := isChecked_of_settle h hsettle
      exact hgiven
    · cases hs
    · exact isChecked_of_accept h hs

theorem isChecked_of_takeShort {letters : Text} (h : s.given.IsChecked)
    (hs : s.takeShort l letters = .ok s') : s'.given.IsChecked := by
  induction letters generalizing s with
  | nil =>
    cases hs
    exact h
  | cons c letters ih =>
    rw [takeShort] at hs
    split at hs
    · cases hs
    · obtain ⟨s₁, haccept, hs⟩ := bind_eq_ok.1 hs
      exact ih (isChecked_of_accept h haccept) hs

theorem isChecked_of_takePositional (h : s.given.IsChecked)
    (hs : s.takePositional l arg = .ok s') : s'.given.IsChecked := by
  rw [takePositional] at hs
  split at hs
  · obtain ⟨s₁, hsettle, rfl⟩ := map_eq_ok.1 hs
    have hgiven : s₁.given.IsChecked := isChecked_of_settle h hsettle
    exact hgiven
  · split at hs <;> cases hs

/-- Reading one more argument keeps to checked values. -/
theorem isChecked_of_take (h : s.given.IsChecked) (hs : s.take l arg = .ok s') :
    s'.given.IsChecked := by
  unfold take at hs
  split at hs
  · exact isChecked_of_takePositional h hs
  · split at hs
    · cases hs
      exact h
    · exact isChecked_of_takeLong h hs
    · exact isChecked_of_takeShort h hs
    · split at hs
      · cases hs
        exact h
      · exact isChecked_of_takePositional h hs

/-- Reading on keeps to checked values. -/
theorem isChecked_of_takeAll {found : Option (Level × List Text)} (h : s.given.IsChecked)
    (hs : takeAll l s args = .ok (s', found)) : s'.given.IsChecked := by
  induction args generalizing s with
  | nil =>
    cases hs
    exact h
  | cons arg args ih =>
    rw [takeAll] at hs
    split at hs
    · cases hs
      exact h
    · obtain ⟨s₁, htake, hs⟩ := bind_eq_ok.1 hs
      exact ih (isChecked_of_take h htake) hs

/-- All that has been read of a command line suits its arguments. -/
theorem isChecked_of_all (h : Scan.all l args = .ok g) : g.IsChecked := by
  obtain ⟨⟨s, found⟩, htake, h⟩ := bind_eq_ok.1 h
  obtain ⟨s', hsettle, h⟩ := bind_eq_ok.1 h
  cases h
  have hnone : ({} : Scan).given.IsChecked := List.forall_mem_nil _
  exact isChecked_of_settle (isChecked_of_takeAll hnone htake) hsettle

end Scan

/-! ## The target -/

/-- A text that is not empty spells a path that is not. -/
theorem exists_pathOf (hv : v ≠ []) : ∃ p, pathOf a v = .ok p ∧ p.path = .ofText v := by
  have hne : (Path.ofText v).bytes ≠ [] := by
    intro hnil
    have htext := Path.text_ofText v
    rw [Path.text, hnil] at htext
    exact hv (htext.symm.trans (Utf8.decodeLossy_encode []))
  exact ⟨⟨.ofText v, hne⟩, by rw [pathOf, dif_pos hne], rfl⟩

/-- A path that has been given is not empty. -/
theorem Given.IsChecked.ne_nil (h : g.IsChecked) (ha : a.arity = .path) (hv : g.value? a = some v) :
    v ≠ [] := by
  rintro rfl
  obtain ⟨front, back, rfl, -⟩ := List.lookup_eq_some_iff.1 hv
  have hcheck := h (a, []) (by simp)
  simp [checkValue, ha] at hcheck

/-- The parts of a target are what has been given. -/
theorem targetOf_eq_ok_iff {t : Target} : targetOf g = .ok t ↔
    ∃ source, g.value? .source = some source ∧ pathOf .source source = .ok t.source ∧
      pathOf .projectRoot ((g.value? .projectRoot).getD ['.']) = .ok t.projectRoot ∧
      t.overrides = ⟨g.value? .name, g.value? .outputDirectory, g.has .yes⟩ := by
  rw [targetOf]
  cases g.value? .source with
  | none => simp
  | some source =>
    constructor
    · intro h
      obtain ⟨p, hp, h⟩ := bind_eq_ok.1 h
      obtain ⟨root, hroot, h⟩ := bind_eq_ok.1 h
      cases h
      exact ⟨source, rfl, hp, hroot, rfl⟩
    · rintro ⟨_, ⟨⟩, hp, hroot, hoverrides⟩
      obtain ⟨p, root, overrides⟩ := t
      cases hoverrides
      exact bind_eq_ok.2 ⟨p, hp, bind_eq_ok.2 ⟨root, hroot, rfl⟩⟩

/-- What has been read of a command line makes a target if it names a source: none of its paths is
empty. -/
theorem exists_targetOf (h : Scan.all l args = .ok g) (hsource : g.value? .source = some v) :
    ∃ t, targetOf g = .ok t ∧ t.source.path = .ofText v ∧
      t.projectRoot.path = .ofText ((g.value? .projectRoot).getD ['.']) := by
  have hchecked := Scan.isChecked_of_all h
  have hroot : (g.value? .projectRoot).getD ['.'] ≠ [] := by
    cases hgiven : g.value? .projectRoot with
    | none => exact List.cons_ne_nil _ _
    | some root => exact hchecked.ne_nil rfl hgiven
  obtain ⟨source, hp, hpath⟩ := exists_pathOf (a := .source) (hchecked.ne_nil rfl hsource)
  obtain ⟨root, hq, hrootPath⟩ := exists_pathOf (a := .projectRoot) hroot
  exact ⟨⟨source, root, _⟩, targetOf_eq_ok_iff.2 ⟨v, hsource, hp, hq, rfl⟩, hpath, hrootPath⟩

end BuildTargets.CommandLine

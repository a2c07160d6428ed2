import BuildTargets.Proofs.BuildFile.Frame
import BuildTargets.Proofs.Request.Accepted
import BuildTargets.Sync

/-!
# Plans that follow one another

A plan that changes a text writes the declaration of one target.  Planning again, for the same
request and the new text, finds nothing to do exactly if the path of the source is found again in
its own declaration (`plan_eq_nothing_iff_of_changes`).  All other targets are where they were
(`argumentLists_of_changes`).
-/

namespace BuildTargets

namespace Sync

open BuildFile Statement

/-- A request has a text replaced by a new one. -/
def Changes (r : Request) (text new : Text) : Prop :=
  plan r text = .insert new ∨ plan r text = .overwrite new

variable {r : Request} {text new : Text}

/-- There is nothing to do where the target is declared with the path of the request. -/
theorem plan_eq_nothing_iff :
    plan r text = .nothing ↔ (classify text r.targetName r.relativePath).1 = .same := by
  rw [plan]
  cases h : (classify text r.targetName r.relativePath).1 <;> simp

/-- A declaration is inserted only where the target is absent. -/
theorem classify_of_plan_eq_insert (h : plan r text = .insert new) :
    (classify text r.targetName r.relativePath).1 = .absent := by
  rw [plan] at h
  cases hstatus : (classify text r.targetName r.relativePath).1 with
  | absent => rfl
  | different =>
    rw [hstatus] at h
    cases h
  | same =>
    rw [hstatus] at h
    cases h

/-- A declaration is overwritten only where it names another source. -/
theorem classify_of_plan_eq_overwrite (h : plan r text = .overwrite new) :
    (classify text r.targetName r.relativePath).1 = .different := by
  rw [plan] at h
  cases hstatus : (classify text r.targetName r.relativePath).1 with
  | absent =>
    rw [hstatus] at h
    cases h
  | different => rfl
  | same =>
    rw [hstatus] at h
    cases h

/-- A text changes by an insertion where the target is absent and by a replacement where it is
declared with another path. -/
theorem changes_cases (h : Changes r text new) :
    ((classify text r.targetName r.relativePath).1 = .absent ∧
      new = append text r.targetName r.relativePath (r.outputDirectory.filter (· ≠ []))) ∨
    ((classify text r.targetName r.relativePath).1 = .different ∧
      new = rewrite text r.targetName r.relativePath (r.outputDirectory.filter (· ≠ []))) := by
  rw [Changes, plan] at h
  cases hstatus : (classify text r.targetName r.relativePath).1 with
  | absent =>
    rw [hstatus] at h
    rcases h with h | h
    · exact Or.inl ⟨rfl, (Plan.insert.inj h).symm⟩
    · cases h
  | different =>
    rw [hstatus] at h
    rcases h with h | h
    · cases h
    · exact Or.inr ⟨rfl, (Plan.overwrite.inj h).symm⟩
  | same =>
    rw [hstatus] at h
    rcases h with h | h <;> cases h

/-! ## The same target -/

/-- After a change the written declaration is the first of its target. -/
theorem exists_argumentLists_of_changes (hn : Request.IsTargetName r.targetName)
    (h : Changes r text new) :
    ∃ lists : List Text, argumentLists .executable r.targetName new =
      argumentLists .executable r.targetName (executableLine r.targetName r.relativePath) ++
        lists := by
  rcases changes_cases h with ⟨hstatus, rfl⟩ | ⟨hstatus, rfl⟩
  · rw [argumentLists_append hn, argumentLists_eq_nil_of_absent hstatus, List.nil_append,
      statements, List.flatMap_cons]
    exact ⟨_, rfl⟩
  · have hdeclared : argumentLists .executable r.targetName text ≠ [] := by
      intro hnil
      rw [classify_fst, hnil] at hstatus
      cases hstatus
    obtain ⟨lists, hlists⟩ : ∃ lists : List Text,
        argumentLists .executable r.targetName (rewrite text r.targetName r.relativePath
          (r.outputDirectory.filter (· ≠ []))) = _ ++ lists :=
      exists_argumentLists_rewrite hn hdeclared
    rw [hlists, statements, List.flatMap_cons, List.append_assoc]
    exact ⟨_, rfl⟩

/-- After a change the same request finds nothing to do exactly if its path is found again in its
own declaration. -/
theorem plan_eq_nothing_iff_of_changes (hn : Request.IsTargetName r.targetName)
    (hread : Text.trim (quote r.relativePath) ≠ []) (h : Changes r text new) :
    plan r new = .nothing ↔ IsRecoverable r.relativePath := by
  obtain ⟨lists, hlists⟩ := exists_argumentLists_of_changes hn h
  rw [plan_eq_nothing_iff, classify_fst, IsRecoverable, ← occursIn_trim_quote_iff]
  by_cases hline : '\n' ∈ r.relativePath
  · -- arguments are in one line, so none of them holds the path
    refine iff_of_false ?_ (fun hand => hand.1 hline)
    cases hhead : (argumentLists .executable r.targetName new).head? with
    | none => exact fun hsame => by cases hsame
    | some arguments =>
      have hmem := newline_not_mem_of_mem_argumentLists hn (List.mem_of_mem_head? hhead)
      have hnot : ¬occursIn r.relativePath arguments = true := by
        rw [occursIn_iff]
        exact fun hpart => hmem (hpart.subset hline)
      simp [hnot]
  · have hfirst : argumentLists .executable r.targetName
        (executableLine r.targetName r.relativePath) = [Text.trim (quote r.relativePath)] := by
      rw [argumentLists_of_newline_not_mem (newline_not_mem_executableLine hn hline),
        read?_executableLine hn, if_neg hread]
      rfl
    rw [hlists, hfirst, List.singleton_append, List.head?_cons]
    by_cases hoccurs : occursIn r.relativePath (Text.trim (quote r.relativePath)) = true <;>
      simp [hoccurs, hline]

/-- Planning an accepted request again, for the text that it has changed, finds nothing to do
exactly if its path is in one line and has a space, a parenthesis or no blank at its ends. -/
theorem plan_changed_eq_nothing_iff (hr : r.IsAccepted) (hblank : ¬r.relativePath.IsBlank)
    (h : plan r text = .insert new ∨ plan r text = .overwrite new) :
    plan r new = .nothing ↔
      '\n' ∉ r.relativePath ∧
        ((' ' ∈ r.relativePath ∨ '(' ∈ r.relativePath ∨ ')' ∈ r.relativePath) ∨
          r.relativePath.IsTrimmed) :=
  plan_eq_nothing_iff_of_changes hr.isTargetName (trim_quote_ne_nil (Or.inl hblank)) h

/-- A declaration with another source is replaced in a text with a second one, with both line ends
and with a carriage return at its end. -/
theorem plan_changed_eq_nothing_spaced :
    Request.spaced.IsAccepted ∧ ¬Request.spaced.relativePath.IsBlank ∧
      ∃ new, plan Request.spaced
          "add_executable(app old.c)\r\nadd_executable(app b.c)\n# end\r".toList = .overwrite new ∧
        plan Request.spaced new = .nothing := by
  have hplan : plan Request.spaced
      "add_executable(app old.c)\r\nadd_executable(app b.c)\n# end\r".toList = .overwrite _ := rfl
  exact ⟨Request.isAccepted_spaced, by decide, _, hplan,
    (plan_changed_eq_nothing_iff Request.isAccepted_spaced (by decide) (Or.inr hplan)).2
      (by decide)⟩

/-! ## Other targets -/

/-- A change does not show to other targets. -/
theorem argumentLists_of_changes {kind : Kind} {target : Text}
    (hn : Request.IsTargetName r.targetName) (hn' : Request.IsTargetName target)
    (hne : r.targetName ≠ target) (hpath : '\n' ∉ r.relativePath)
    (hdirectory : ∀ d ∈ r.outputDirectory, '\n' ∉ d) (h : Changes r text new) :
    argumentLists kind target new = argumentLists kind target text := by
  have hdirectory' : ∀ d ∈ r.outputDirectory.filter (· ≠ []), '\n' ∉ d := by
    intro d hd
    exact hdirectory d (Option.mem_filter_iff.1 hd).1
  rcases changes_cases h with ⟨-, rfl⟩ | ⟨-, rfl⟩
  · exact argumentLists_append_of_ne hn hn' hne hpath hdirectory' text
  · exact argumentLists_rewrite_of_ne hn hn' hne hpath hdirectory' text

/-- Texts that say the same about a target agree on its status. -/
theorem classify_fst_congr {target : Text}
    (h : argumentLists .executable target new = argumentLists .executable target text)
    (path : Text) : (classify new target path).1 = (classify text target path).1 := by
  rw [classify_fst, classify_fst, h]

/-- A change of one target is not seen by any other: of each kind the same argument lists are read
for it in the same order, so it has the same status for every path. -/
theorem other_targets_unchanged {target : Text} (hr : r.IsAccepted) (hpath : '\n' ∉ r.relativePath)
    (hdirectory : ∀ d ∈ r.outputDirectory, '\n' ∉ d)
    (h : plan r text = .insert new ∨ plan r text = .overwrite new)
    (hn : Request.IsTargetName target) (hne : target ≠ r.targetName) :
    (∀ kind, argumentLists kind target new = argumentLists kind target text) ∧
      ∀ path, (classify new target path).1 = (classify text target path).1 := by
  have hlists : ∀ kind, argumentLists kind target new = argumentLists kind target text :=
    fun _ => argumentLists_of_changes hr.isTargetName hn hne.symm hpath hdirectory h
  exact ⟨hlists, fun path => classify_fst_congr (hlists .executable) path⟩

/-- A declaration is put behind one for a longer name, whose line ends in a carriage return. -/
theorem other_targets_unchanged_longer_name :
    Request.spaced.IsAccepted ∧ '\n' ∉ Request.spaced.relativePath ∧
      (∀ d ∈ Request.spaced.outputDirectory, '\n' ∉ d) ∧
      Request.IsTargetName "app.x".toList ∧ "app.x".toList ≠ Request.spaced.targetName ∧
      ∃ new, plan Request.spaced "add_executable(app.x a.c)\r".toList = .insert new ∧
        argumentLists .executable "app.x".toList new =
          argumentLists .executable "app.x".toList "add_executable(app.x a.c)\r".toList := by
  have hplan : plan Request.spaced "add_executable(app.x a.c)\r".toList = .insert _ := rfl
  exact ⟨Request.isAccepted_spaced, by decide, by decide, by decide, by decide, _, hplan,
    (other_targets_unchanged Request.isAccepted_spaced (by decide) (by decide) (Or.inl hplan)
      (by decide) (by decide)).1 .executable⟩

end Sync

end BuildTargets

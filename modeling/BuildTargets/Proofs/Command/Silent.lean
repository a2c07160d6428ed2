import BuildTargets.Proofs.Command.Declare
import BuildTargets.Proofs.CommandLine.Given

/-!
# Declarations that ask no question

A command line can ask for a declaration without questions, and it cannot ask in the same breath for
overwrites without questions (`skipConfirmation_of_read_add`).  Such a declaration takes no input.
Where it meets a conflict, the settings of the project decide: it declines, unless they let overwrites
happen without questions (`silent_declaration_of_conflict`).
-/

namespace BuildTargets

namespace CommandLine

/-- An argument that has been given is among the given ones. -/
theorem mem_of_has {g : Given} {a : Argument} (h : g.has a = true) : a ∈ g.map Prod.fst := by
  obtain ⟨value, hvalue⟩ := Option.isSome_iff_exists.1 h
  obtain ⟨front, back, rfl, -⟩ := List.lookup_eq_some_iff.1 hvalue
  simp

/-- Of the two options that exclude each other, at most one has been given where nothing conflicts. -/
theorem not_has_yes_of_conflict?_eq_none {g : Given} (hconflict : conflict? g = none)
    (hsilent : g.has .noInput = true) : g.has .yes = false := by
  refine Bool.eq_false_iff.2 fun hyes => ?_
  have hmem : ∀ a ∈ [Argument.noInput, Argument.yes],
      a ∈ (g.map Prod.fst).filter (· ∈ [Argument.noInput, Argument.yes]) := by
    intro a ha
    refine List.mem_filter.2 ⟨?_, decide_eq_true ha⟩
    rcases List.mem_pair.1 ha with rfl | rfl
    · exact mem_of_has hsilent
    · exact mem_of_has hyes
  have hno := hmem .noInput List.mem_cons_self
  have hyes := hmem .yes (List.mem_cons_of_mem _ List.mem_cons_self)
  rw [conflict?] at hconflict
  split at hconflict
  · cases hconflict
  · next l hfew =>
    match hl : (g.map Prod.fst).filter (· ∈ [Argument.noInput, Argument.yes]) with
    | [] =>
      rw [hl] at hno
      cases hno
    | [a] =>
      rw [hl, List.mem_singleton] at hno hyes
      exact absurd (hno.trans hyes.symm) (by decide)
    | a :: b :: l => exact hfew a b l hl

variable {args : List Text} {t : Target} {silent : Bool} {format : Format}

/-- The parts of a declaration: the arguments were read, and no two of them exclude each other. -/
theorem exists_of_readAdd (h : readAdd args = .ok (.add t silent format)) :
    ∃ g, conflict? g = none ∧ targetOf g = .ok t ∧ silent = g.has .noInput := by
  obtain ⟨g, -, h⟩ := bind_eq_ok.1 h
  cases hconflict : conflict? g with
  | some pair =>
    simp only [hconflict] at h
    cases h
  | none =>
    simp only [hconflict] at h
    obtain ⟨target, htarget, h⟩ := bind_eq_ok.1 h
    cases h
    exact ⟨g, hconflict, htarget, rfl⟩

/-- Arguments about settings ask for no declaration. -/
theorem readConfig_ne_add : readConfig args ≠ .ok (.add t silent format) := by
  intro h
  obtain ⟨⟨s, below⟩, -, h⟩ := bind_eq_ok.1 h
  simp only at h
  split at h
  · -- setting a setting
    obtain ⟨command, hcommand, h⟩ := bind_eq_ok.1 h
    obtain ⟨s', -, h⟩ := bind_eq_ok.1 h
    obtain ⟨g, -, hset⟩ := bind_eq_ok.1 hcommand
    split at hset
    · cases hset
      cases h
    · cases hset
  · -- showing the settings
    obtain ⟨command, hcommand, h⟩ := bind_eq_ok.1 h
    obtain ⟨s', -, h⟩ := bind_eq_ok.1 h
    rw [readShow] at hcommand
    cases hgiven : Scan.all .showSettings _ with
    | error e =>
      rw [hgiven] at hcommand
      cases hcommand
    | ok g =>
      rw [hgiven] at hcommand
      cases hcommand
      cases h
  · cases h
  · cases h

/-- What a command line asks for is a declaration only if it names that command. -/
theorem exists_readAdd_of_read (h : read args = .ok (.add t silent format)) :
    ∃ rest, readAdd rest = .ok (.add t silent format) := by
  obtain ⟨⟨s, below⟩, -, h⟩ := bind_eq_ok.1 h
  simp only at h
  split at h
  · exact ⟨_, h⟩
  · obtain ⟨g, -, h⟩ := bind_eq_ok.1 h
    obtain ⟨target, -, h⟩ := bind_eq_ok.1 h
    cases h
  · exact absurd h readConfig_ne_add
  · cases h
  · cases h

/-- A command line that asks for a declaration without questions does not ask for overwrites without
questions. -/
theorem skipConfirmation_of_read_add (h : read args = .ok (.add t true format)) :
    t.overrides.skipConfirmation = false := by
  obtain ⟨rest, h⟩ := exists_readAdd_of_read h
  obtain ⟨g, hconflict, htarget, hsilent⟩ := exists_of_readAdd h
  obtain ⟨source, -, -, -, hoverrides⟩ := targetOf_eq_ok_iff.1 htarget
  rw [hoverrides]
  exact not_has_yes_of_conflict?_eq_none hconflict hsilent.symm

end CommandLine

namespace World

open Command Sync

variable {w : World} {t : Target} {r : Resolved} {s : Settings} {args : List Text} {format : Format}

/-- The settings of a request are those of the project with the overrides of the command. -/
theorem settings_of_resolve (hresolve : w.resolve t = .ok r)
    (hload : w.loadSettings (Path.absolute (FileTree.pathOf w.directory) t.projectRoot) = .ok s) :
    r.settings = s.apply t.overrides := by
  obtain ⟨settings, hsettings, h⟩ := bind_eq_ok.1 hresolve
  obtain ⟨source, -, h⟩ := bind_eq_ok.1 h
  obtain ⟨buildFile, -, h⟩ := bind_eq_ok.1 h
  obtain ⟨request, -, h⟩ := bind_eq_ok.1 h
  cases h
  cases hload.symm.trans hsettings
  rfl

/-- A declaration without questions takes no input. -/
theorem input_declared_silent (w : World) (t : Target) (format : Format) :
    (w.declared t true format).2.terminal.input = w.terminal.input := by
  obtain ⟨result, w', hrun, hends⟩ := exists_ends w t true
  rw [(declared_effects hrun format).2]
  cases hends with
  | stopped fault terminal hterminal => rw [hterminal rfl]
  | kept terminal hterminal => rw [hterminal rfl]
  | wrote terminal tree hterminal => rw [hterminal rfl]

/-- A declaration without questions, from the command line, takes no input.  Where the target is
declared with another source it is the settings file that decides: if it does not skip questions, no
file changes and the exit code is 1; if it does, the declaration is overwritten and the exit code is
0. -/
theorem silent_declaration_of_conflict (hargs : CommandLine.read args = .ok (.add t true format))
    (w : World) :
    (CommandLine.run host args w).2.terminal.input = w.terminal.input ∧
    ∀ s r text,
      w.loadSettings (Path.absolute (FileTree.pathOf w.directory) t.projectRoot) = .ok s →
      w.resolve t = .ok r → w.readText r.buildFile = .ok text →
      (BuildFile.classify text r.request.targetName r.request.relativePath).1 = .different →
      (s.skipConfirmation = false →
        (CommandLine.run host args w).2.tree = w.tree ∧
        ∀ l, (Report.ofOutcome .declined r.request r.buildFile).line format = .ok l →
          CommandLine.run host args w = (1, w.withLine l)) ∧
      (s.skipConfirmation = true → ∃ new, plan r.request text = .overwrite new ∧
        ∀ tree, w.tree.replace w.directory r.buildFile (Utf8.encode new) = (.ok (), tree) →
          (CommandLine.run host args w).2.tree = tree ∧
          ∀ l, (Report.ofOutcome .overwritten r.request r.buildFile).line format = .ok l →
            CommandLine.run host args w = (0, { w with tree := tree }.withLine l)) := by
  rw [run_of_read_add hargs w]
  refine ⟨input_declared_silent w t format, ?_⟩
  intro s r text hload hresolve hread hstatus
  have hskip : r.settings.skipConfirmation = s.skipConfirmation := by
    rw [settings_of_resolve hresolve hload, Settings.apply,
      CommandLine.skipConfirmation_of_read_add hargs, Bool.or_false]
  obtain ⟨new, hplan⟩ : ∃ new, plan r.request text = .overwrite new := by
    rw [plan, hstatus]
    exact ⟨_, rfl⟩
  constructor
  · intro hasked
    have hdecides : Decides (ask true) r.request r.settings.skipConfirmation w false w :=
      .asked (hskip.trans hasked)
    have hrun := run_synchronize_of_ok hresolve (run_of_refused hread hplan hdecides)
    rw [declared_of_ok hrun]
    refine ⟨(reported_effects _ _ format).1, fun l hline => ?_⟩
    rw [reported_of_line hline]
    rfl
  · intro hskipped
    refine ⟨new, hplan, fun tree hreplace => ?_⟩
    have hdecides : Decides (ask true) r.request r.settings.skipConfirmation w true w :=
      .skipped (hskip.trans hskipped)
    have hrun := run_of_allowed hread hplan hdecides
    rw [writing_of_replace hreplace] at hrun
    rw [declared_of_ok (run_synchronize_of_ok hresolve hrun)]
    refine ⟨(reported_effects _ _ format).1, fun l hline => ?_⟩
    rw [reported_of_line hline]
    rfl

/-- A project that declares another source under the name of the plain one, and its settings file. -/
def conflictingProject (settings : Text) : World where
  tree := ⟨[([['p'], buildFileName].map Utf8.encode,
      .file 0o644 (Utf8.encode "add_executable(a old.c)\n".toList)),
    ([['p'], settingsFileName].map Utf8.encode, .file 0o644 (Utf8.encode settings)),
    ([['p']].map Utf8.encode, .directory 0o755)]⟩
  directory := [Utf8.encode ['p']]
  terminal := { input := Utf8.encode "yes\n".toList }

/-- The arguments that ask for a declaration of the plain source without questions. -/
def silentArguments : List Text := ["add".toList, "--no-input".toList, "a.c".toList]

theorem read_silentArguments :
    CommandLine.read silentArguments = .ok (.add plainTarget true .text) := by decide +kernel

/-- Where the settings file sets nothing, the conflict is left as it is, whatever waits to be read. -/
theorem silent_declaration_of_conflict_conflictingProject :
    CommandLine.run host silentArguments (conflictingProject []) =
      (1, (conflictingProject []).withLine
        "add_executable for a left unchanged (overwrite declined).".toList) :=
  (((silent_declaration_of_conflict read_silentArguments (conflictingProject [])).2 .default
    ⟨.ofText "/p/CMakeLists.txt".toList, .plain, .default⟩ "add_executable(a old.c)\n".toList
    (by decide +kernel) (by decide +kernel) (by decide +kernel) (by decide +kernel)).1 rfl).2 _
    (by decide +kernel)

/-- Where the settings file skips questions, a declaration without questions overwrites the conflicting
one. -/
theorem silent_declaration_overwrites_conflictingProject :
    let w := conflictingProject "skip_overwrite_confirmation = true\n".toList
    CommandLine.read silentArguments = .ok (.add plainTarget true .text) ∧
      (w.checked plainTarget).1 = 3 ∧
      (CommandLine.run host silentArguments w).1 = 0 ∧
      (CommandLine.run host silentArguments w).2.readText (.ofText buildFileName) =
        .ok "add_executable(a a.c)\n".toList := by
  decide +kernel

end World

end BuildTargets

import BuildTargets.Proofs.Command.Declare
import BuildTargets.Proofs.Command.Show

/-!
# When the standard output refuses

A command prints when it is done with the files and with the input.  So a standard output that takes
nothing makes no difference to either (`refused_effects`): what it changes is the exit code.  A declaration
then fails in either format, and a text that it has written stays written (`tree_of_refused_declaration`).
-/

namespace BuildTargets

namespace World

open Command

variable {w w' : World} {t : Target} {fault : Fault} {silent : Bool} {report : Report}

/-- The exit code of a command where the standard output takes nothing, and the world after it. -/
def refused (w : World) (c : Command) (cause : IoCause) : UInt8 × World :=
  Command.run (hostRefusing cause) c w

/-- The world after an answer that could not be printed. -/
def brokenOff (w : World) (cause : IoCause) : World :=
  (host.tell ("failed printing to stdout: ".toList ++ cause.message ++ ['\n']) w).2

/-! ## One command at a time -/

/-- A report is not printed, and if it could have been, the refusal is the reason. -/
theorem run_printReport_refused (w : World) (report : Report) (format : Format) (cause : IoCause) :
    ∃ fault, (printReport (hostRefusing cause) report format).run w = (.error fault, w) ∧
      ∀ l, report.line format = .ok l → fault = .io cause := by
  unfold printReport
  have hpure : (ExceptT.mk (return report.line format) : ExceptT Fault (StateM World) Text).run w =
      (report.line format, w) := rfl
  cases hline : report.line format with
  | error fault =>
    rw [hline] at hpure
    exact ⟨fault, run_bind_of_error hpure, nofun⟩
  | ok l =>
    rw [hline] at hpure
    refine ⟨.io cause, ?_, fun _ _ => rfl⟩
    rw [run_bind_of_ok hpure]
    rfl

/-- A declaration that has come to an outcome fails because it cannot report it. -/
theorem refused_add_of_ok (h : (synchronize host t silent).run w = (.ok report, w'))
    (format : Format) (cause : IoCause) :
    ∃ fault, w.refused (.add t silent format) cause = (2, w'.told fault) ∧
      ∀ l, report.line format = .ok l → fault = .io cause := by
  obtain ⟨fault, hprint, hcause⟩ := run_printReport_refused w' report format cause
  refine ⟨fault, run_of_error ?_, hcause⟩
  change (runAdd (hostRefusing cause) t silent format).run w = _
  unfold runAdd
  -- what is printed plays no part up to here
  have hrun : (synchronize (hostRefusing cause) t silent).run w = (.ok report, w') := h
  rw [run_bind_of_ok (run_lift _ w), hrun]
  exact run_bind_of_error hprint

/-- A declaration that a fault stops fails as it does otherwise, and for a program once more. -/
theorem refused_add_of_error (h : (synchronize host t silent).run w = (.error fault, w'))
    (format : Format) (cause : IoCause) :
    w.refused (.add t silent format) cause =
      (2, if format = .json then (w'.told fault).told (.io cause) else w'.told fault) := by
  have hrun : (synchronize (hostRefusing cause) t silent).run w = (.error fault, w') := h
  have hadd : (runAdd (hostRefusing cause) t silent format).run w =
      (do
        if format = .json then printReport (hostRefusing cause) (.ofFault fault) format
        return 2 : ExceptT Fault (StateM World) UInt8).run (w'.told fault) := by
    unfold runAdd
    rw [run_bind_of_ok (run_lift _ w), hrun]
    exact run_bind_of_ok (run_lift _ w')
  cases format with
  | text => exact run_of_ok hadd
  | json =>
    obtain ⟨fault', hprint, hcause⟩ :=
      run_printReport_refused (w'.told fault) (.ofFault fault) .json cause
    obtain ⟨l, hline⟩ := Report.exists_line_ofFault fault .json
    rw [hcause l hline] at hprint
    exact run_of_error (hadd.trans (run_bind_of_error hprint))

/-- However a declaration ends before its report, it fails, and leaves what it has left by then. -/
theorem refused_add_effects {result : Except Fault Report}
    (h : (synchronize host t silent).run w = (result, w')) (format : Format) (cause : IoCause) :
    (w.refused (.add t silent format) cause).1 = 2 ∧
      (w.refused (.add t silent format) cause).2.tree = w'.tree ∧
      (w.refused (.add t silent format) cause).2.printed = w'.printed ∧
      (w.refused (.add t silent format) cause).2.terminal.input = w'.terminal.input := by
  cases result with
  | ok report =>
    obtain ⟨fault, hrefused, -⟩ := refused_add_of_ok h format cause
    rw [hrefused]
    exact ⟨rfl, tell_effects fault.shown w'⟩
  | error fault =>
    rw [refused_add_of_error h format cause]
    obtain ⟨htree, hprinted, hinput⟩ := tell_effects fault.shown w'
    cases format with
    | text => exact ⟨rfl, htree, hprinted, hinput⟩
    | json =>
      obtain ⟨htree', hprinted', hinput'⟩ := tell_effects (Fault.io cause).shown (w'.told fault)
      exact ⟨rfl, htree'.trans htree, hprinted'.trans hprinted, hinput'.trans hinput⟩

/-- A check that has its answer breaks off, and any other fails as it does otherwise. -/
theorem refused_check_cases (w : World) (t : Target) (cause : IoCause) :
    (∃ fault, w.checked t = (2, w.told fault) ∧
      w.refused (.check t) cause = (2, w.told fault)) ∨
    ∃ code printed, code ≠ 2 ∧ w.checked t = (code, { w with printed := printed }) ∧
      w.refused (.check t) cause = (101, w.brokenOff cause) := by
  have hresolve : (Command.resolve (hostRefusing cause) t).run w = (w.resolve t, w) :=
    run_resolve w t
  cases hr : w.resolve t with
  | error fault =>
    rw [hr] at hresolve
    exact Or.inl ⟨fault, checked_of_error hr, run_of_error (run_bind_of_error hresolve)⟩
  | ok r =>
  have hread : (liftM ((hostRefusing cause).readText r.buildFile) :
      ExceptT Fault (StateM World) _).run w = (.ok (w.readText r.buildFile), w) :=
    run_lift_readText w r.buildFile
  rw [hr] at hresolve
  have hcheck : (execute (hostRefusing cause) (.check t)).run w = _ := run_bind_of_ok hresolve
  rw [run_bind_of_ok hread] at hcheck
  cases htext : w.readText r.buildFile with
  | error cause' =>
    rw [htext] at hcheck
    exact Or.inl ⟨.io cause', checked_of_unreadable hr htext, run_of_error hcheck⟩
  | ok text =>
    obtain ⟨printed, hchecked⟩ := checked_of_text hr htext
    refine Or.inr ⟨_, printed, ?_, hchecked, run_of_ok ?_⟩
    · cases (BuildFile.classify text r.request.targetName r.request.relativePath).1 <;> decide
    · rw [htext] at hcheck
      rw [hcheck]
      simp only
      cases (BuildFile.classify text r.request.targetName r.request.relativePath).1 <;> rfl

/-- Settings that have been loaded are not shown, and the command breaks off; any other failure stays. -/
theorem refused_showSettings_cases (w : World) (root : Path) (cause : IoCause) :
    (∃ fault, Command.run host (.showSettings root) w = (2, w.told fault) ∧
      w.refused (.showSettings root) cause = (2, w.told fault)) ∨
    ∃ printed, Command.run host (.showSettings root) w = (0, { w with printed := printed }) ∧
      w.refused (.showSettings root) cause = (101, w.brokenOff cause) := by
  have hload : (Command.loadSettings (hostRefusing cause) root).run w = (w.loadSettings root, w) :=
    run_loadSettings w root
  cases hs : w.loadSettings root with
  | error fault =>
    rw [hs] at hload
    have hshow : (Command.loadSettings host root).run w = (.error fault, w) := hload
    exact Or.inl ⟨fault, run_of_error (run_bind_of_error hshow),
      run_of_error (run_bind_of_error hload)⟩
  | ok s =>
    rw [hs] at hload
    have hshow : (execute (hostRefusing cause) (.showSettings root)).run w = _ :=
      run_bind_of_ok hload
    exact Or.inr ⟨_, run_of_ok (run_showSettings hs), run_of_ok hshow⟩

/-- Setting a setting prints nothing. -/
theorem printed_setSetting (w : World) (root : Path) (key raw : Text) :
    (Command.run host (.setSetting root key raw) w).2.printed = w.printed := by
  have hstore := run_storeSetting w root key raw
  split at hstore
  · rw [run_of_error (c := .setSetting root key raw) (run_bind_of_error hstore)]
    exact (tell_effects _ w).2.1
  · split at hstore
    · rw [run_of_ok (c := .setSetting root key raw) (run_bind_of_ok hstore)]
      exact (tell_effects _ _).2.1
    · rw [run_of_error (c := .setSetting root key raw) (run_bind_of_error hstore)]
      exact (tell_effects _ w).2.1

/-! ## All commands -/

/-- The exit code of a command that cannot print, where otherwise it would end with `code`. -/
def refusedCode (code : UInt8) : Command → UInt8
  | .add .. => 2
  | .check _ | .showSettings _ => if code = 2 then 2 else 101
  | .setSetting .. => code

/-- A standard output that takes nothing makes no difference to the files, nor to what is read from the
terminal. -/
theorem refused_effects (w : World) (c : Command) (cause : IoCause) :
    (w.refused c cause).1 = refusedCode (Command.run host c w).1 c ∧
      (w.refused c cause).2.tree = (Command.run host c w).2.tree ∧
      (w.refused c cause).2.printed = w.printed ∧
      (w.refused c cause).2.terminal.input = (Command.run host c w).2.terminal.input := by
  cases c with
  | add t silent format =>
    obtain ⟨result, w', hrun, hends⟩ := exists_ends w t silent
    have hprinted : w'.printed = w.printed := by cases hends <;> rfl
    obtain ⟨hcode, htree, hprinted', hinput⟩ := refused_add_effects hrun format cause
    obtain ⟨htree', hinput'⟩ := declared_effects hrun format
    exact ⟨hcode, htree.trans htree'.symm, hprinted'.trans hprinted, hinput.trans hinput'.symm⟩
  | check t =>
    change _ = refusedCode (w.checked t).1 _ ∧ _ = (w.checked t).2.tree ∧ _ ∧
      _ = (w.checked t).2.terminal.input
    rcases refused_check_cases w t cause with
      ⟨fault, hchecked, hrefused⟩ | ⟨code, printed, hcode, hchecked, hrefused⟩
    · rw [hchecked, hrefused]
      exact ⟨rfl, rfl, (tell_effects fault.shown w).2.1, rfl⟩
    · rw [hchecked, hrefused]
      exact ⟨(if_neg hcode).symm, tell_effects _ w⟩
  | showSettings root =>
    rcases refused_showSettings_cases w root cause with
      ⟨fault, hshown, hrefused⟩ | ⟨printed, hshown, hrefused⟩
    · rw [hshown, hrefused]
      exact ⟨rfl, rfl, (tell_effects fault.shown w).2.1, rfl⟩
    · rw [hshown, hrefused]
      exact ⟨rfl, tell_effects _ w⟩
  | setSetting root key raw => exact ⟨rfl, rfl, printed_setSetting w root key raw, rfl⟩

/-- A declaration has left a tree behind in which a new text is written. -/
def Wrote (w : World) (t : Target) (silent : Bool) (tree : FileTree) : Prop :=
  ∃ p new, w.Writes t silent p new ∧
    w.tree.replace w.directory p (Utf8.encode new) = (.ok (), tree)

/-- A declaration that cannot print its report fails, in either format.  It has left the files as they
were, unless it had something to write and wrote it. -/
theorem tree_of_refused_declaration (w : World) (t : Target) (silent : Bool) (format : Format)
    (cause : IoCause) :
    (w.refused (.add t silent format) cause).1 = 2 ∧
    ((w.refused (.add t silent format) cause).2.tree = w.tree ∨
      w.Wrote t silent (w.refused (.add t silent format) cause).2.tree) ∧
    ∀ tree, w.Wrote t silent tree → (w.refused (.add t silent format) cause).2.tree = tree := by
  obtain ⟨result, w', hrun, hends⟩ := exists_ends w t silent
  obtain ⟨hcode, htree, -⟩ := refused_add_effects hrun format cause
  refine ⟨hcode, ?_, ?_⟩
  · rw [htree]
    cases hends with
    | stopped | kept => exact Or.inl rfl
    | wrote terminal tree _ _ hwrites _ hreplace => exact Or.inr ⟨_, _, hwrites, hreplace⟩
  · rintro tree ⟨p, new, hwrites, hreplace⟩
    obtain ⟨r, outcome, terminal, -, hwrote⟩ := exists_run_synchronize_of_writes hwrites hreplace
    exact (refused_add_effects hwrote format cause).2.1

/-- The text of the build file with the source declared is there, and the exit code tells of a failure. -/
example : (emptyProject.refused (.add plainTarget true .text) .busy).1 = 2 ∧
    (emptyProject.refused (.add plainTarget true .text) .busy).2.readText (.ofText buildFileName) =
      .ok declaredText := by
  decide +kernel

end World

end BuildTargets

import BuildTargets.CommandLine.Run
import BuildTargets.Proofs.Command.Agreement

/-!
# How a declaration ends

A declaration replaces the text of its build file at most once, and only then reports.  Before the
report it has come to one of three ends (`Ends`, `exists_ends`): a fault, nothing to be written,
or a text that has been written, and only the last changes a file.  The report of a fault can always be
printed; that of an outcome cannot if it is for programs and the path of the build file is no text
(`Report.line_ofOutcome_eq_error_iff`).  So a declaration that fails leaves all files alone, unless what
failed was the report of a text that it had written (`tree_of_failed_declaration`).  All this is for a
standard output that takes what is printed; for one that does not see `tree_of_refused_declaration`.
-/

namespace BuildTargets

/-! ## Reports that can be printed -/

namespace Report

/-- A report on an outcome cannot be printed if it is for programs and names a path that is no text. -/
theorem line_ofOutcome_eq_error_iff (outcome : Sync.Outcome) (r : Request) (p : Path)
    (format : Format) : (∃ fault, (ofOutcome outcome r p).line format = .error fault) ↔
      format = .json ∧ p.text? = none := by
  cases format with
  | text => simp [line]
  | json =>
    simp only [line, json, ofOutcome, true_and]
    cases p.text? <;> simp

/-- A report on a fault names no path, so it can be printed. -/
theorem exists_line_ofFault (fault : Fault) (format : Format) :
    ∃ l, (ofFault fault).line format = .ok l := by
  cases format with
  | text => exact ⟨_, rfl⟩
  | json => exact ⟨_, rfl⟩

end Report

namespace World

open Command Sync

variable {w w' : World} {t : Target} {r : Resolved} {fault : Fault} {text new : Text} {tree : FileTree}
  {silent : Bool} {format : Format} {p : Path} {report : Report}

/-- The exit code of a declaration, and the world after it. -/
def declared (w : World) (t : Target) (silent : Bool) (format : Format) : UInt8 × World :=
  Command.run host (.add t silent format) w

/-- The world in which a line has been printed. -/
def withLine (w : World) (l : Text) : World :=
  { w with printed := w.printed ++ Utf8.encode (l ++ ['\n']) }

/-- The exit code after a report, and the world in which it has been printed or has been found to be
unprintable. -/
def reported (w : World) (report : Report) (format : Format) : UInt8 × World :=
  match report.line format with
  | .ok l => (exitCode report, w.withLine l)
  | .error fault => (2, w.told fault)

theorem reported_of_line {l : Text} (h : report.line format = .ok l) :
    w.reported report format = (exitCode report, w.withLine l) := by
  rw [reported, h]

theorem reported_of_unprintable (h : report.line format = .error fault) :
    w.reported report format = (2, w.told fault) := by
  rw [reported, h]

/-- A text at the terminal leaves everything else as it was. -/
theorem tell_effects (text : Text) (w : World) :
    (host.tell text w).2.tree = w.tree ∧ (host.tell text w).2.printed = w.printed ∧
      (host.tell text w).2.terminal.input = w.terminal.input := by
  obtain ⟨tree, directory, ⟨input, shown, room⟩, printed⟩ := w
  cases room <;> exact ⟨rfl, rfl, rfl⟩

/-- A report changes no file and takes no input. -/
theorem reported_effects (w : World) (report : Report) (format : Format) :
    (w.reported report format).2.tree = w.tree ∧
      (w.reported report format).2.terminal.input = w.terminal.input := by
  cases hline : report.line format with
  | ok l =>
    rw [reported_of_line hline]
    exact ⟨rfl, rfl⟩
  | error fault =>
    rw [reported_of_unprintable hline]
    exact ⟨tree_told w fault, (tell_effects fault.shown w).2.2⟩

/-- A report is printed if it has a line, and otherwise nothing is. -/
theorem run_printReport (w : World) (report : Report) (format : Format) :
    (printReport host report format).run w =
      match report.line format with
      | .ok l => (.ok (), w.withLine l)
      | .error fault => (.error fault, w) := by
  cases format with
  | text => rfl
  | json =>
    simp only [printReport, Report.line]
    have hpure : (ExceptT.mk (return report.json) : ExceptT Fault (StateM World) Text).run w =
        (report.json, w) := rfl
    cases hjson : report.json with
    | ok l =>
      rw [hjson] at hpure
      rw [run_bind_of_ok hpure]
      rfl
    | error fault =>
      rw [hjson] at hpure
      exact run_bind_of_error hpure

/-- A declaration that has come to an outcome reports it. -/
theorem declared_of_ok (h : (synchronize host t silent).run w = (.ok report, w')) :
    w.declared t silent format = w'.reported report format := by
  have hprint := run_printReport w' report format
  have hrun : (execute host (.add t silent format)).run w =
      (do printReport host report format; return exitCode report :
        ExceptT Fault (StateM World) UInt8).run w' := by
    change (runAdd host t silent format).run w = _
    unfold runAdd
    rw [run_bind_of_ok (run_lift _ w), h]
  cases hline : report.line format with
  | ok l =>
    rw [hline] at hprint
    rw [run_bind_of_ok hprint] at hrun
    rw [reported_of_line hline]
    exact run_of_ok hrun
  | error fault =>
    rw [hline] at hprint
    rw [run_bind_of_error hprint] at hrun
    rw [reported_of_unprintable hline]
    exact run_of_error hrun

/-- A declaration that a fault stops tells why, and prints a report of it for a program. -/
theorem declared_of_error (h : (synchronize host t silent).run w = (.error fault, w')) :
    ∃ l, (Report.ofFault fault).line format = .ok l ∧
      w.declared t silent format =
        (2, if format = .json then (w'.told fault).withLine l else w'.told fault) := by
  obtain ⟨l, hline⟩ := Report.exists_line_ofFault fault format
  refine ⟨l, hline, ?_⟩
  cases format with
  | text => exact added_of_error h
  | json =>
    have hprint := run_printReport (w'.told fault) (.ofFault fault) .json
    rw [hline] at hprint
    refine run_of_ok ?_
    change (runAdd host t silent .json).run w = _
    unfold runAdd
    rw [run_bind_of_ok (run_lift _ w), h]
    simp only [if_true]
    rw [run_bind_of_ok (run_lift _ w')]
    exact run_bind_of_ok hprint

/-- A declaration that a fault stops fails. -/
theorem failed_of_error (h : (synchronize host t silent).run w = (.error fault, w')) :
    (w.declared t silent format).1 = 2 ∧ (w.declared t silent format).2.tree = w'.tree ∧
      (w.declared t silent format).2.terminal.input = w'.terminal.input := by
  obtain ⟨l, -, hdeclared⟩ : ∃ l, _ ∧ w.declared t silent format = _ := declared_of_error h
  rw [hdeclared]
  cases format with
  | text => exact ⟨rfl, tree_told w' fault, (tell_effects fault.shown w').2.2⟩
  | json => exact ⟨rfl, tree_told w' fault, (tell_effects fault.shown w').2.2⟩

/-- A declaration leaves the files and the input as they are before its report. -/
theorem declared_effects {result : Except Fault Report}
    (h : (synchronize host t silent).run w = (result, w')) (format : Format) :
    (w.declared t silent format).2.tree = w'.tree ∧
      (w.declared t silent format).2.terminal.input = w'.terminal.input := by
  cases result with
  | ok report =>
    rw [declared_of_ok h]
    exact reported_effects w' report format
  | error fault => exact (failed_of_error h).2

/-! ## Before the report -/

/-- The end that a declaration comes to before it reports.  Without questions it leaves the terminal
alone. -/
inductive Ends (w : World) (t : Target) (silent : Bool) : Except Fault Report → World → Prop where
  /-- A fault has stopped it. -/
  | stopped (fault : Fault) (terminal : Prompt.Terminal)
      (hterminal : silent = true → terminal = w.terminal) :
      Ends w t silent (.error fault) { w with terminal := terminal }
  /-- There was nothing to write, or writing was refused. -/
  | kept {r : Resolved} {outcome : Outcome} (terminal : Prompt.Terminal)
      (hterminal : silent = true → terminal = w.terminal) (hresolve : w.resolve t = .ok r)
      (houtcome : outcome = .alreadyPresent ∨ outcome = .declined) :
      Ends w t silent (.ok (.ofOutcome outcome r.request r.buildFile))
        { w with terminal := terminal }
  /-- A new text has been written. -/
  | wrote {r : Resolved} {new : Text} {outcome : Outcome} (terminal : Prompt.Terminal)
      (tree : FileTree) (hterminal : silent = true → terminal = w.terminal)
      (hresolve : w.resolve t = .ok r) (hwrites : w.Writes t silent r.buildFile new)
      (houtcome : outcome = .inserted ∨ outcome = .overwritten)
      (hreplace : w.tree.replace w.directory r.buildFile (Utf8.encode new) = (.ok (), tree)) :
      Ends w t silent (.ok (.ofOutcome outcome r.request r.buildFile))
        { w with terminal := terminal, tree := tree }

/-- A decision leaves all but the terminal as it was, and that as well if no question is asked. -/
theorem exists_terminal_of_decides_ask {request : Request} {skip allowed : Bool}
    (h : Decides (ask silent) request skip w allowed w') :
    ∃ terminal, w' = { w with terminal := terminal } ∧ (silent = true → terminal = w.terminal) := by
  obtain ⟨terminal, rfl⟩ := exists_terminal_of_decides h
  refine ⟨terminal, rfl, ?_⟩
  rintro rfl
  generalize hafter : ({ w with terminal := terminal } : World) = w₁ at h
  cases h with
  | skipped => exact congrArg World.terminal hafter
  | asked => exact congrArg World.terminal hafter

/-- Writing a text ends with the text written, or with a fault. -/
theorem ends_of_writing {terminal : Prompt.Terminal} {outcome : Outcome}
    (hterminal : silent = true → terminal = w.terminal) (hresolve : w.resolve t = .ok r)
    (hwrites : w.Writes t silent r.buildFile new)
    (houtcome : outcome = .inserted ∨ outcome = .overwritten) :
    let done := { w with terminal := terminal }.writing r.buildFile new outcome
    w.Ends t silent (done.1.map (Report.ofOutcome · r.request r.buildFile)) done.2 := by
  cases hreplace : w.tree.replace w.directory r.buildFile (Utf8.encode new) with
  | mk result tree =>
  simp only [writing, hreplace]
  cases result with
  | ok done => exact .wrote terminal tree hterminal hresolve hwrites houtcome hreplace
  | error cause => exact .stopped (.io cause) terminal hterminal

/-- Every declaration comes to one of the three ends. -/
theorem exists_ends (w : World) (t : Target) (silent : Bool) :
    ∃ result w', (synchronize host t silent).run w = (result, w') ∧ w.Ends t silent result w' := by
  refine ⟨((synchronize host t silent).run w).1, ((synchronize host t silent).run w).2, rfl, ?_⟩
  cases hresolve : w.resolve t with
  | error fault =>
    have hrun : (synchronize host t silent).run w = (.error fault, w) :=
      run_bind_of_error ((run_resolve w t).trans (by rw [hresolve]))
    rw [hrun]
    exact .stopped fault w.terminal fun _ => rfl
  | ok r =>
  rw [run_synchronize hresolve]
  cases hread : w.readText r.buildFile with
  | error cause =>
    have hcause : cause ≠ .notFound := by
      rintro rfl
      exact readText_ne_notFound (isFile_of_resolve hresolve) hread
    have hrun : (runOf r silent).run w = (.error (.io cause), w) :=
      run_bind_of_error (run_store_read_of_error hread hcause)
    rw [hrun]
    exact .stopped (.io cause) w.terminal fun _ => rfl
  | ok text =>
  cases hplan : plan r.request text with
  | nothing =>
    rw [run_of_nothing hread hplan]
    exact .kept w.terminal (fun _ => rfl) hresolve (Or.inl rfl)
  | insert new =>
    rw [run_of_insert hread hplan]
    have hwrites : w.Writes t silent r.buildFile new :=
      ⟨r, text, hresolve, rfl, hread, Or.inl hplan⟩
    exact ends_of_writing (fun _ => rfl) hresolve hwrites (Or.inl rfl)
  | overwrite new =>
    obtain ⟨allowed, w', hdecides⟩ :=
      exists_decides (ask silent) r.request r.settings.skipConfirmation w
    obtain ⟨terminal, rfl, hterminal⟩ := exists_terminal_of_decides_ask hdecides
    cases allowed with
    | false =>
      rw [run_of_refused hread hplan hdecides]
      exact .kept terminal hterminal hresolve (Or.inr rfl)
    | true =>
      rw [run_of_allowed hread hplan hdecides]
      have hwrites : w.Writes t silent r.buildFile new :=
        ⟨r, text, hresolve, rfl, hread, Or.inr ⟨hplan, _, hdecides⟩⟩
      exact ends_of_writing hterminal hresolve hwrites (Or.inr rfl)

/-- A text that a declaration comes to write, and that can be written, is written. -/
theorem exists_run_synchronize_of_writes (hwrites : w.Writes t silent p new)
    (hreplace : w.tree.replace w.directory p (Utf8.encode new) = (.ok (), tree)) :
    ∃ (r : Resolved) (outcome : Outcome) (terminal : Prompt.Terminal), r.buildFile = p ∧
      (synchronize host t silent).run w = (.ok (.ofOutcome outcome r.request r.buildFile),
        { w with terminal := terminal, tree := tree }) := by
  obtain ⟨r, text, hresolve, rfl, hread, hplan | ⟨hplan, w₁, hdecides⟩⟩ := hwrites
  · have hrun : (runOf r silent).run w = _ := run_of_insert hread hplan
    rw [writing_of_replace hreplace] at hrun
    exact ⟨r, _, w.terminal, rfl, run_synchronize_of_ok hresolve hrun⟩
  · obtain ⟨terminal, rfl⟩ := exists_terminal_of_decides hdecides
    have hrun := run_of_allowed hread hplan hdecides
    -- what is written does not depend on the terminal
    have hreplace' : ({ w with terminal := terminal } : World).tree.replace w.directory r.buildFile
        (Utf8.encode new) = (.ok (), tree) := hreplace
    rw [writing_of_replace hreplace'] at hrun
    exact ⟨r, _, terminal, rfl, run_synchronize_of_ok hresolve hrun⟩

/-! ## From the command line -/

/-- Arguments that ask for a declaration are a declaration. -/
theorem run_of_read_add {args : List Text} (h : CommandLine.read args = .ok (.add t silent format))
    (w : World) : CommandLine.run host args w = w.declared t silent format := by
  rw [CommandLine.run, h]
  rfl

/-- Arguments that ask for no command change no file. -/
theorem tree_of_read_error {args : List Text} {ending : CommandLine.Ending}
    (h : CommandLine.read args = .error ending) (w : World) :
    (CommandLine.run host args w).2.tree = w.tree := by
  rw [CommandLine.run, h]
  cases ending with
  | refused message => rfl
  | help wanted => cases wanted <;> rfl
  | version => rfl

/-! ## Failing -/

/-- A declaration that has left a tree behind in which a new text is written, but that cannot report
this: the report is for programs and the path of the build file is no text. -/
def Unreported (w : World) (t : Target) (silent : Bool) (format : Format) (tree : FileTree) : Prop :=
  format = .json ∧ ∃ p new, p.text? = none ∧ w.Writes t silent p new ∧
    w.tree.replace w.directory p (Utf8.encode new) = (.ok (), tree)

/-- A declaration that fails has left all files as they were, unless it could not report what it had
written; that always counts as a failure. -/
theorem tree_of_failed_declaration (w : World) (t : Target) (silent : Bool) (format : Format) :
    ((w.declared t silent format).1 ≠ 0 →
      (w.declared t silent format).2.tree = w.tree ∨
        w.Unreported t silent format (w.declared t silent format).2.tree) ∧
    (∀ tree, w.Unreported t silent format tree →
      (w.declared t silent format).1 = 2 ∧ (w.declared t silent format).2.tree = tree) ∧
    ∀ args ending, CommandLine.read args = .error ending →
      (CommandLine.run host args w).2.tree = w.tree := by
  refine ⟨?_, ?_, fun _ _ hread => tree_of_read_error hread w⟩
  · obtain ⟨result, w', hrun, hends⟩ := exists_ends w t silent
    intro hcode
    cases hends with
    | stopped fault terminal => exact Or.inl (failed_of_error hrun).2.1
    | kept terminal =>
      rw [declared_of_ok hrun]
      exact Or.inl (reported_effects _ _ format).1
    | @wrote r new outcome terminal tree _ hresolve hwrites houtcome hreplace =>
      rw [declared_of_ok hrun] at hcode ⊢
      -- an outcome that is printed after writing is a success, so this one was not printed
      have hunprinted : ∃ fault,
          (Report.ofOutcome outcome r.request r.buildFile).line format = .error fault := by
        cases hline : (Report.ofOutcome outcome r.request r.buildFile).line format with
        | error fault => exact ⟨fault, rfl⟩
        | ok l =>
          rw [reported_of_line hline] at hcode
          rcases houtcome with rfl | rfl <;> exact absurd rfl hcode
      obtain ⟨rfl, hpath⟩ := (Report.line_ofOutcome_eq_error_iff _ _ _ _).1 hunprinted
      rw [(reported_effects _ _ _).1]
      exact Or.inr ⟨rfl, r.buildFile, new, hpath, hwrites, hreplace⟩
  · rintro tree ⟨rfl, p, new, hpath, hwrites, hreplace⟩
    obtain ⟨r, outcome, terminal, rfl, hrun⟩ := exists_run_synchronize_of_writes hwrites hreplace
    obtain ⟨fault, hline⟩ := (Report.line_ofOutcome_eq_error_iff outcome r.request r.buildFile
      .json).2 ⟨rfl, hpath⟩
    rw [declared_of_ok hrun, reported_of_unprintable hline]
    exact ⟨rfl, tree_told _ fault⟩

/-- A directory whose name ends with an octet that is no character. -/
def unnamedDirectory : Path := ⟨[Path.slash, 0x70, 0xff]⟩

/-- A project in this directory, with an empty build file. -/
def unnamedProject : World where
  tree := ⟨[([[0x70, 0xff], Utf8.encode buildFileName], .file 0o644 []),
    ([[0x70, 0xff]], .directory 0o755)]⟩
  directory := [[0x70, 0xff]]
  terminal := { input := [] }

/-- The request for a source of this project. -/
def unnamedResolved : Resolved where
  buildFile := unnamedDirectory.join (.ofText buildFileName)
  request := { Request.plain with
    base := unnamedDirectory
    source := { Request.plain.source with
      directory := unnamedDirectory
      path := unnamedDirectory.join (.ofText "a.c".toList) } }
  settings := .default

theorem resolve_unnamedProject : unnamedProject.resolve plainTarget = .ok unnamedResolved := by
  decide +kernel

/-- The text of the build file with the source declared. -/
def declaredText : Text := "\nadd_executable(a a.c)".toList

/-- A declaration for programs cannot report what it has written there, and fails. -/
theorem tree_of_failed_declaration_unnamedProject :
    ∃ tree, unnamedProject.Unreported plainTarget true .json tree ∧
      (unnamedProject.declared plainTarget true .json).1 = 2 := by
  have hwrites : unnamedProject.Writes plainTarget true unnamedResolved.buildFile declaredText :=
    ⟨unnamedResolved, [], resolve_unnamedProject, rfl, by decide +kernel,
      Or.inl (by decide +kernel)⟩
  have hreplace : (unnamedProject.tree.replace unnamedProject.directory unnamedResolved.buildFile
      (Utf8.encode declaredText)).1 = .ok () := by decide +kernel
  have hunreported : unnamedProject.Unreported plainTarget true .json
      (unnamedProject.tree.replace unnamedProject.directory unnamedResolved.buildFile
        (Utf8.encode declaredText)).2 :=
    ⟨rfl, unnamedResolved.buildFile, declaredText, by decide +kernel, hwrites,
      Prod.ext hreplace rfl⟩
  exact ⟨_, hunreported,
    ((tree_of_failed_declaration unnamedProject plainTarget true .json).2.1 _ hunreported).1⟩

/-- Its build file, which was empty, then holds the declaration, though the exit code tells of a
failure. -/
theorem failed_declaration_writes_unnamedProject :
    unnamedProject.readText (.ofText buildFileName) = .ok [] ∧
      (unnamedProject.declared plainTarget true .json).1 = 2 ∧
      (unnamedProject.declared plainTarget true .json).2.readText (.ofText buildFileName) =
        .ok declaredText := by
  decide +kernel

end World

end BuildTargets

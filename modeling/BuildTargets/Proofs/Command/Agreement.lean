import BuildTargets.Proofs.Command.Resolve
import BuildTargets.Proofs.FileTree.Replaced
import BuildTargets.Proofs.Sync.Plan
import BuildTargets.Proofs.Sync.Run

/-!
# Checking and declaring agree

A source can be checked, which only looks, or declared, which reads the build file as a store, plans,
asks and writes.  The two work out the same request (`World.resolve_withSkip_of_ok`) and classify the
same text, so the code with which a check ends tells how a declaration from the same world ends
(`World.check_agrees_with_add`).  A write that fails is the one thing that a check cannot foretell.
-/

namespace BuildTargets

namespace World

open Command Sync

variable {w w₁ w' : World} {t : Target} {r : Resolved} {fault : Fault} {text new : Text}
  {skip silent : Bool}

/-! ## How a command ends -/

/-- The world after a fault has been shown. -/
def told (w : World) (fault : Fault) : World := (complain host fault w).2

/-- The exit code of a check, and the world after it. -/
def checked (w : World) (t : Target) : UInt8 × World := Command.run host (.check t) w

/-- The exit code of a declaration that reports to a reader, and the world after it. -/
def added (w : World) (t : Target) (silent : Bool) : UInt8 × World :=
  Command.run host (.add t silent .text) w

/-- What is shown of a fault leaves the files as they are. -/
theorem tree_told (w : World) (fault : Fault) : (w.told fault).tree = w.tree := rfl

/-- A command that comes to its end gives its code. -/
theorem run_of_ok {machine : Host (StateM World)} {c : Command} {code : UInt8}
    (h : (execute machine c).run w = (.ok code, w')) : Command.run machine c w = (code, w') := by
  rw [Command.run, bind_apply, h]
  rfl

/-- A command that a fault stops shows the fault. -/
theorem run_of_error {machine : Host (StateM World)} {c : Command}
    (h : (execute machine c).run w = (.error fault, w')) :
    Command.run machine c w = (2, (complain machine fault w').2) := by
  rw [Command.run, bind_apply, h]
  rfl

/-! ## Checking -/

/-- The exit code of a check for the status of a target. -/
def codeOfStatus : BuildFile.Status → UInt8
  | .absent => 1
  | .different => 3
  | .same => 0

/-- A check that cannot work out its request tells why. -/
theorem checked_of_error (h : w.resolve t = .error fault) : w.checked t = (2, w.told fault) := by
  refine run_of_error ?_
  exact run_bind_of_error ((run_resolve w t).trans (by rw [h]))

/-- A check that cannot read the build file tells why. -/
theorem checked_of_unreadable {cause : IoCause} (h : w.resolve t = .ok r)
    (hread : w.readText r.buildFile = .error cause) : w.checked t = (2, w.told (.io cause)) := by
  refine run_of_error ?_
  change (runCheck host t).run w = _
  unfold runCheck
  rw [run_bind_of_ok ((run_resolve w t).trans (by rw [h])),
    run_bind_of_ok (run_lift_readText w r.buildFile), hread]
  rfl

/-- A check of a text ends with the code for the status of the target, and only prints. -/
theorem checked_of_text (h : w.resolve t = .ok r) (hread : w.readText r.buildFile = .ok text) :
    ∃ printed, w.checked t =
      (codeOfStatus (BuildFile.classify text r.request.targetName r.request.relativePath).1,
        { w with printed := printed }) := by
  suffices hrun : ∃ printed, (runCheck host t).run w = (.ok (codeOfStatus
      (BuildFile.classify text r.request.targetName r.request.relativePath).1),
        { w with printed := printed }) by
    obtain ⟨printed, hrun⟩ := hrun
    exact ⟨printed, run_of_ok hrun⟩
  unfold runCheck
  rw [run_bind_of_ok ((run_resolve w t).trans (by rw [h])),
    run_bind_of_ok (run_lift_readText w r.buildFile), hread]
  simp only
  cases (BuildFile.classify text r.request.targetName r.request.relativePath).1 with
  | absent => exact ⟨_, rfl⟩
  | different => exact ⟨_, rfl⟩
  | same => exact ⟨_, rfl⟩

/-! ## Declaring -/

/-- How a declaration has its question answered. -/
def ask (silent : Bool) (q : Question) : StateM World Bool :=
  if silent then return false else Prompt.confirm host.terminal q

/-- The run of a declaration that has worked out its request. -/
def runOf (r : Resolved) (silent : Bool) : ExceptT Fault (StateM World) Outcome :=
  Sync.run (host.store r.buildFile) (ask silent) r.request r.settings.skipConfirmation

/-- A declaration that has worked out its request makes a report of the outcome of its run. -/
theorem run_synchronize (h : w.resolve t = .ok r) (silent : Bool) :
    (synchronize host t silent).run w =
      (((runOf r silent).run w).1.map (Report.ofOutcome · r.request r.buildFile),
        ((runOf r silent).run w).2) := by
  unfold synchronize
  rw [run_bind_of_ok ((run_resolve w t).trans (by rw [h]))]
  cases hrun : (runOf r silent).run w with
  | mk result w' =>
  cases result with
  | error fault => exact run_bind_of_error hrun
  | ok outcome => exact run_bind_of_ok hrun

/-- A declaration whose run comes to its end has a report of the outcome. -/
theorem run_synchronize_of_ok {outcome : Outcome} (h : w.resolve t = .ok r)
    (hrun : (runOf r silent).run w = (.ok outcome, w')) :
    (synchronize host t silent).run w = (.ok (.ofOutcome outcome r.request r.buildFile), w') := by
  rw [run_synchronize h, hrun]
  rfl

/-- A declaration that has a report prints it. -/
theorem added_of_ok {report : Report} (h : (synchronize host t silent).run w = (.ok report, w')) :
    w.added t silent = (exitCode report,
      { w' with printed := w'.printed ++ Utf8.encode (report.message ++ ['\n']) }) := by
  refine run_of_ok ?_
  change (runAdd host t silent .text).run w = _
  unfold runAdd
  rw [run_bind_of_ok (run_lift _ w), h]
  rfl

/-- A declaration that a fault stops tells why. -/
theorem added_of_error (h : (synchronize host t silent).run w = (.error fault, w')) :
    w.added t silent = (2, w'.told fault) := by
  refine run_of_ok ?_
  change (runAdd host t silent .text).run w = _
  unfold runAdd
  rw [run_bind_of_ok (run_lift _ w), h]
  rfl

/-- A declaration that cannot work out its request tells why. -/
theorem added_of_resolve_error (h : w.resolve t = .error fault) :
    w.added t silent = (2, w.told fault) := by
  refine added_of_error ?_
  exact run_bind_of_error ((run_resolve w t).trans (by rw [h]))

/-- A declaration whose run fails tells why. -/
theorem added_of_run_error (h : w.resolve t = .ok r)
    (hrun : (runOf r silent).run w = (.error fault, w')) :
    w.added t silent = (2, w'.told fault) := by
  refine added_of_error ?_
  rw [run_synchronize h, hrun]
  rfl

/-! ## The build file as a store -/

/-- The text of a build file is read from its store. -/
theorem run_store_read_of_ok {p : Path} (h : w.readText p = .ok text) :
    (host.store p).read.run w = (.ok (some text), w) := by
  unfold Host.store
  rw [run_bind_of_ok (run_lift_readText w p), h]
  rfl

/-- A build file that is there and cannot be read stops a run. -/
theorem run_store_read_of_error {p : Path} {cause : IoCause} (h : w.readText p = .error cause)
    (hcause : cause ≠ .notFound) : (host.store p).read.run w = (.error (.io cause), w) := by
  unfold Host.store
  rw [run_bind_of_ok (run_lift_readText w p), h]
  cases cause with
  | notFound => exact absurd rfl hcause
  | _ => rfl

/-- What comes of writing a new text: an outcome and the file replaced, or a fault and the world as it
was. -/
def writing (w : World) (p : Path) (new : Text) (outcome : Outcome) :
    Except Fault Outcome × World :=
  match w.tree.replace w.directory p (Utf8.encode new) with
  | (.ok (), tree) => (.ok outcome, { w with tree := tree })
  | (.error cause, _) => (.error (.io cause), w)

theorem writing_of_replace {p : Path} {tree : FileTree}
    (h : w.tree.replace w.directory p (Utf8.encode new) = (.ok (), tree)) (outcome : Outcome) :
    w.writing p new outcome = (.ok outcome, { w with tree := tree }) := by
  rw [writing, h]

/-- A text that is put into a store replaces the content of the file. -/
theorem run_store_replace (w : World) (p : Path) (new : Text) :
    ((host.store p).replace new).run w =
      ((w.tree.replace w.directory p (Utf8.encode new)).1.mapError .io,
        { w with tree := (w.tree.replace w.directory p (Utf8.encode new)).2 }) := by
  have hlift : (liftM (host.replace p (Utf8.encode new)) : ExceptT Fault (StateM World) _).run w =
      (.ok (w.tree.replace w.directory p (Utf8.encode new)).1,
        { w with tree := (w.tree.replace w.directory p (Utf8.encode new)).2 }) := rfl
  unfold Host.store
  rw [run_bind_of_ok hlift]
  cases (w.tree.replace w.directory p (Utf8.encode new)).1 <;> rfl

/-- A text that is put into a store is written to the file. -/
theorem run_store_replace_bind (w : World) (p : Path) (new : Text) (outcome : Outcome) :
    (do (host.store p).replace new; return outcome : ExceptT Fault (StateM World) Outcome).run w =
      w.writing p new outcome := by
  have hstore := run_store_replace w p new
  cases hreplace : w.tree.replace w.directory p (Utf8.encode new) with
  | mk result tree =>
  rw [hreplace] at hstore
  cases result with
  | ok done =>
    rw [run_bind_of_ok hstore, writing_of_replace hreplace]
    rfl
  | error cause =>
    rw [run_bind_of_error hstore, writing, hreplace, FileTree.eq_of_replace_error hreplace]

/-- A question touches nothing but the terminal. -/
theorem confirm_console (q : Question) (w : World) :
    ∃ terminal, (Prompt.confirm console q w).2 = { w with terminal := terminal } := by
  unfold Prompt.confirm
  rw [bind_apply]
  cases (console.write (Utf8.encode q.text) w).1 with
  | true => exact ⟨_, rfl⟩
  | false => exact ⟨_, rfl⟩

/-- The decision on an overwrite touches nothing but the terminal. -/
theorem exists_terminal_of_decides {request : Request} {allowed : Bool}
    (h : Decides (ask silent) request skip w allowed w') :
    ∃ terminal, w' = { w with terminal := terminal } := by
  cases h with
  | skipped => exact ⟨w.terminal, rfl⟩
  | asked =>
    cases silent with
    | true => exact ⟨w.terminal, rfl⟩
    | false => exact confirm_console _ w

/-- A declaration that has nothing to do leaves it at that. -/
theorem run_of_nothing (hread : w.readText r.buildFile = .ok text)
    (hplan : plan r.request text = .nothing) :
    (runOf r silent).run w = (.ok .alreadyPresent, w) := by
  rw [runOf, run_eq_look_bind_carryOut,
    run_bind_of_ok (run_look_of_ok _ _ (run_store_read_of_ok hread)), hplan]
  rfl

/-- A declaration that has to insert writes the new text. -/
theorem run_of_insert (hread : w.readText r.buildFile = .ok text)
    (hplan : plan r.request text = .insert new) :
    (runOf r silent).run w = w.writing r.buildFile new .inserted := by
  rw [runOf, run_eq_look_bind_carryOut,
    run_bind_of_ok (run_look_of_ok _ _ (run_store_read_of_ok hread)), hplan]
  exact run_store_replace_bind w r.buildFile new .inserted

/-- A declaration that has to overwrite and is refused leaves it at that. -/
theorem run_of_refused (hread : w.readText r.buildFile = .ok text)
    (hplan : plan r.request text = .overwrite new)
    (hdecides : Decides (ask silent) r.request r.settings.skipConfirmation w false w') :
    (runOf r silent).run w = (.ok .declined, w') := by
  rw [runOf, run_of_decides _ _ _ _ (run_store_read_of_ok hread) hplan hdecides]
  rfl

/-- A declaration that has to overwrite and is allowed to writes the new text. -/
theorem run_of_allowed (hread : w.readText r.buildFile = .ok text)
    (hplan : plan r.request text = .overwrite new)
    (hdecides : Decides (ask silent) r.request r.settings.skipConfirmation w true w') :
    (runOf r silent).run w = w'.writing r.buildFile new .overwritten := by
  rw [runOf, run_of_decides _ _ _ _ (run_store_read_of_ok hread) hplan hdecides]
  exact run_store_replace_bind w' r.buildFile new .overwritten

/-! ## Both commands from one world -/

/-- A declaration ends with an outcome and a code, and tells the outcome to a reader. -/
def Reports (w : World) (t : Target) (silent : Bool) (outcome : Outcome) (code : UInt8) : Prop :=
  ∃ r w', w.resolve t = .ok r ∧
    (synchronize host t silent).run w = (.ok (.ofOutcome outcome r.request r.buildFile), w') ∧
    w.added t silent = (code, { w' with
      printed := w.printed ++
        Utf8.encode ((Report.ofOutcome outcome r.request r.buildFile).message ++ ['\n']) })

/-- A declaration comes to the point where it writes a new text to a path: it has to insert, or to
overwrite with the consent that this takes. -/
def Writes (w : World) (t : Target) (silent : Bool) (p : Path) (new : Text) : Prop :=
  ∃ r text, w.resolve t = .ok r ∧ r.buildFile = p ∧ w.readText p = .ok text ∧
    (plan r.request text = .insert new ∨ plan r.request text = .overwrite new ∧
      ∃ w', Decides (ask silent) r.request r.settings.skipConfirmation w true w')

/-- A declaration has one outcome. -/
theorem Reports.outcome_eq {o o' : Outcome} {code code' : UInt8} (h : w.Reports t silent o code)
    (h' : w.Reports t silent o' code') : o = o' := by
  obtain ⟨r, w₁, hresolve, hrun, -⟩ := h
  obtain ⟨r', w₂, hresolve', hrun', -⟩ := h'
  rw [hrun] at hrun'
  have hreport := Except.ok.inj (Prod.mk.inj hrun').1
  exact Option.some.inj (congrArg Report.outcome hreport)

/-- A declaration that reports ends with the code of its report. -/
theorem Reports.code_eq {outcome : Outcome} {code : UInt8} (h : w.Reports t silent outcome code) :
    (w.added t silent).1 = code := by
  obtain ⟨r, w₁, -, -, hadded⟩ := h
  rw [hadded]

/-- The exit code of a declaration that ends with an outcome. -/
def codeOfOutcome : Outcome → UInt8
  | .declined => 1
  | .alreadyPresent | .inserted | .overwritten => 0

/-- The exit code of the check that foretells an outcome. -/
def foretelling : Outcome → UInt8
  | .alreadyPresent => 0
  | .inserted => 1
  | .overwritten | .declined => 3

/-- How a check and a declaration end from the same world: with codes for one outcome, or with the same
fault. -/
inductive Agree (w : World) (t t' : Target) (silent : Bool) : Prop where
  | ended (outcome : Outcome) (hcheck : (w.checked t).1 = foretelling outcome)
      (hadd : w.Reports t' silent outcome (codeOfOutcome outcome))
      (htree : outcome = .alreadyPresent ∨ outcome = .declined →
        (w.added t' silent).2.tree = w.tree)
  | failed (fault : Fault) (hcheck : w.checked t = (2, w.told fault))
      (hadd : w.added t' silent = (2, w.told fault))

/-- The outcome of a run is reported. -/
theorem reports_of_run {outcome : Outcome} (h : w.resolve t = .ok r)
    (hrun : (runOf r silent).run w = (.ok outcome, w')) (hprinted : w'.printed = w.printed) :
    w.Reports t silent outcome (codeOfOutcome outcome) ∧ (w.added t silent).2.tree = w'.tree := by
  have hcode : exitCode (.ofOutcome outcome r.request r.buildFile) = codeOfOutcome outcome := by
    cases outcome <;> rfl
  have hsynchronize := run_synchronize_of_ok h hrun
  have hadded := added_of_ok hsynchronize
  rw [hcode] at hadded
  refine ⟨⟨r, w', h, hsynchronize, ?_⟩, congrArg (·.2.tree) hadded⟩
  rw [hadded, hprinted]

/-- A check and a declaration that read the same text end alike. -/
theorem agree_of_readText {r' : Resolved} {t' : Target} (h : w.resolve t = .ok r)
    (h' : w.resolve t' = .ok r') (hfile : r'.buildFile = r.buildFile)
    (hrequest : r'.request = r.request) (hread : w.readText r.buildFile = .ok text)
    (hwrite : ∀ p new, w.Writes t' silent p new →
      (w.tree.replace w.directory p (Utf8.encode new)).1 = .ok ()) : w.Agree t t' silent := by
  obtain ⟨printed, hchecked⟩ := checked_of_text h hread
  have hcode := congrArg Prod.fst hchecked
  rw [← hfile] at hread
  rw [← hrequest] at hcode
  have hwritten : ∀ {w₁ : World} {new : Text}, (∃ terminal, w₁ = { w with terminal := terminal }) →
      w.Writes t' silent r'.buildFile new →
      ∃ tree, w₁.tree.replace w₁.directory r'.buildFile (Utf8.encode new) = (.ok (), tree) := by
    rintro _ new ⟨terminal, rfl⟩ hwrites
    exact ⟨_, Prod.ext (hwrite _ new hwrites) rfl⟩
  cases hplan : plan r'.request text with
  | nothing =>
    rw [plan_eq_nothing_iff.1 hplan] at hcode
    obtain ⟨hreports, htree⟩ := reports_of_run h' (run_of_nothing hread hplan) rfl
    exact .ended .alreadyPresent hcode hreports fun _ => htree
  | insert new =>
    rw [classify_of_plan_eq_insert hplan] at hcode
    have hrun : (runOf r' silent).run w = _ := run_of_insert hread hplan
    obtain ⟨tree, hreplace⟩ := hwritten ⟨w.terminal, rfl⟩ ⟨r', text, h', rfl, hread, Or.inl hplan⟩
    rw [writing_of_replace hreplace] at hrun
    obtain ⟨hreports, -⟩ := reports_of_run h' hrun rfl
    exact .ended .inserted hcode hreports nofun
  | overwrite new =>
    rw [classify_of_plan_eq_overwrite hplan] at hcode
    obtain ⟨allowed, w₁, hdecides⟩ :=
      exists_decides (ask silent) r'.request r'.settings.skipConfirmation w
    obtain ⟨terminal, rfl⟩ := exists_terminal_of_decides hdecides
    cases allowed with
    | false =>
      obtain ⟨hreports, htree⟩ := reports_of_run h' (run_of_refused hread hplan hdecides) rfl
      exact .ended .declined hcode hreports fun _ => htree
    | true =>
      have hrun := run_of_allowed hread hplan hdecides
      obtain ⟨tree, hreplace⟩ :=
        hwritten ⟨terminal, rfl⟩ ⟨r', text, h', rfl, hread, Or.inr ⟨hplan, _, hdecides⟩⟩
      rw [writing_of_replace hreplace] at hrun
      obtain ⟨hreports, -⟩ := reports_of_run h' hrun rfl
      exact .ended .overwritten hcode hreports nofun

/-- A check and a declaration from the same world end alike, if the declaration can write what it has
to write. -/
theorem agree (w : World) (t : Target) (skip silent : Bool)
    (hwrite : ∀ p new, w.Writes (t.withSkip skip) silent p new →
      (w.tree.replace w.directory p (Utf8.encode new)).1 = .ok ()) :
    w.Agree t (t.withSkip skip) silent := by
  cases hresolve : w.resolve t with
  | error fault =>
    exact .failed fault (checked_of_error hresolve)
      (added_of_resolve_error (resolve_withSkip_of_error hresolve skip))
  | ok r =>
  obtain ⟨settings, hresolve'⟩ := resolve_withSkip_of_ok hresolve skip
  cases hread : w.readText r.buildFile with
  | ok text => exact agree_of_readText hresolve hresolve' rfl rfl hread hwrite
  | error cause =>
    have hcause : cause ≠ .notFound := by
      rintro rfl
      exact readText_ne_notFound (isFile_of_resolve hresolve) hread
    refine .failed (.io cause) (checked_of_unreadable hresolve hread)
      (added_of_run_error hresolve' ?_)
    exact run_bind_of_error (run_store_read_of_error hread hcause)

/-- A check never changes a file. -/
theorem tree_checked (w : World) (t : Target) : (w.checked t).2.tree = w.tree := by
  cases hresolve : w.resolve t with
  | error fault =>
    rw [checked_of_error hresolve]
    exact tree_told w fault
  | ok r =>
  cases hread : w.readText r.buildFile with
  | error cause =>
    rw [checked_of_unreadable hresolve hread]
    exact tree_told w _
  | ok text =>
    obtain ⟨printed, hchecked⟩ := checked_of_text hresolve hread
    rw [hchecked]

/-- A check tells how a declaration of the same source would end, with or without questions, if it can
write what it has to write: 0 for a source that is declared, 1 for one that would be inserted, 3 for
one that would be overwritten or declined, and 2 for a fault, which both show alike. -/
theorem check_agrees_with_add (w : World) (t : Target) (skip silent : Bool)
    (hwrite : ∀ p new, w.Writes (t.withSkip skip) silent p new →
      (w.tree.replace w.directory p (Utf8.encode new)).1 = .ok ()) :
    (w.checked t).2.tree = w.tree ∧
    ((w.checked t).1 = 0 ↔ w.Reports (t.withSkip skip) silent .alreadyPresent 0) ∧
    ((w.checked t).1 = 1 ↔ w.Reports (t.withSkip skip) silent .inserted 0) ∧
    ((w.checked t).1 = 3 ↔ w.Reports (t.withSkip skip) silent .overwritten 0 ∨
      w.Reports (t.withSkip skip) silent .declined 1) ∧
    ((w.checked t).1 = 2 ↔ (w.added (t.withSkip skip) silent).1 = 2) ∧
    ((w.checked t).1 = 2 → ∃ fault, w.checked t = (2, w.told fault) ∧
      w.added (t.withSkip skip) silent = (2, w.told fault)) ∧
    ((w.checked t).1 = 0 ∨ (w.checked t).1 = 2 ∨
        w.Reports (t.withSkip skip) silent .declined 1 →
      (w.added (t.withSkip skip) silent).2.tree = w.tree) := by
  refine ⟨tree_checked w t, ?_⟩
  cases agree w t skip silent hwrite with
  | failed fault hcheck hadd =>
    have hnot : ∀ outcome, ∀ code ≠ 2, ¬w.Reports (t.withSkip skip) silent outcome code := by
      intro outcome code hcode hreports
      rw [← hreports.code_eq, hadd] at hcode
      exact hcode rfl
    rw [hcheck, hadd]
    simp only [hnot _ 0 (by decide), hnot _ 1 (by decide)]
    exact ⟨by decide, by decide, by decide, by decide, fun _ => ⟨fault, rfl, rfl⟩,
      fun _ => tree_told w fault⟩
  | ended outcome hcheck hadd htree =>
    have hiff : ∀ outcome' code, w.Reports (t.withSkip skip) silent outcome' code ↔
        outcome' = outcome ∧ code = codeOfOutcome outcome := by
      intro outcome' code
      constructor
      · intro h
        exact ⟨h.outcome_eq hadd, h.code_eq.symm.trans hadd.code_eq⟩
      · rintro ⟨rfl, rfl⟩
        exact hadd
    simp only [hiff, hcheck, hadd.code_eq]
    have hchecked : foretelling outcome ≠ 2 ∧ codeOfOutcome outcome ≠ 2 := by
      cases outcome <;> decide
    refine ⟨?_, ?_, ?_, iff_of_false hchecked.1 hchecked.2, fun h => absurd h hchecked.1, ?_⟩
    · cases outcome <;> decide
    · cases outcome <;> decide
    · cases outcome <;> decide
    · intro h
      refine htree ?_
      revert h
      cases outcome <;> decide

/-- A project whose build file is empty. -/
def emptyProject : World where
  tree := ⟨[([['p'], "CMakeLists.txt".toList].map Utf8.encode, .file 0o644 []),
    ([['p']].map Utf8.encode, .directory 0o755)]⟩
  directory := [Utf8.encode ['p']]
  terminal := { input := [] }

/-- A source of the project. -/
def plainTarget : Target where
  source := ⟨.ofText "a.c".toList, by decide⟩
  projectRoot := ⟨.ofText ".".toList, by decide⟩
  overrides := {}

theorem resolve_plainTarget : emptyProject.resolve plainTarget =
    .ok ⟨.ofText "/p/CMakeLists.txt".toList, .plain, .default⟩ := by decide +kernel

/-- In an empty build file a check finds nothing, and a declaration inserts. -/
theorem check_agrees_with_add_emptyProject :
    (emptyProject.checked plainTarget).1 = 1 ∧
      emptyProject.Reports (plainTarget.withSkip false) true .inserted 0 := by
  have hcheck : (emptyProject.checked plainTarget).1 = 1 := by decide +kernel
  have hagree := check_agrees_with_add emptyProject plainTarget false true (by
    rintro p new ⟨r, text, hresolve, rfl, hread, hplan⟩
    cases resolve_plainTarget.symm.trans hresolve
    have hempty : emptyProject.readText (.ofText "/p/CMakeLists.txt".toList) = .ok [] := by
      decide +kernel
    cases hempty.symm.trans hread
    rcases changes_cases (hplan.imp_right And.left) with ⟨-, rfl⟩ | ⟨hstatus, -⟩
    · decide +kernel
    · exact absurd hstatus (by decide +kernel))
  exact ⟨hcheck, hagree.2.2.1.1 hcheck⟩

end World

end BuildTargets

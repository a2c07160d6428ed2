import BuildTargets.Command
import BuildTargets.Proofs.Fault.Bind
import BuildTargets.Proofs.Request.Accepted
import BuildTargets.World

/-!
# What a command finds

Before it does anything a command looks for the settings, the source and the build file.  On a machine
that is a value this is a calculation, which leaves the machine as it is: `World.resolve` is what
`Command.resolve` works out (`run_resolve`).  What it finds does not depend on whether questions are to
be skipped (`resolve_withSkip_of_ok`, `resolve_withSkip_of_error`), and the build file that it finds
is a regular file (`isFile_of_resolve`).
-/

namespace BuildTargets

/-- A target whose questions are skipped or not, all else being equal. -/
def Target.withSkip (t : Target) (skip : Bool) : Target :=
  { t with overrides := { t.overrides with skipConfirmation := skip } }

/-- What a command has found, with its questions skipped if `skip` says so. -/
def Command.Resolved.orSkip (r : Command.Resolved) (skip : Bool) : Command.Resolved :=
  { r with settings :=
      { r.settings with skipConfirmation := r.settings.skipConfirmation || skip } }

namespace World

open Command

variable {w : World} {t : Target} {r : Resolved}

/-! ## Reading -/

/-- The text of a file of a world. -/
def readText (w : World) (p : Path) : Except IoCause Text :=
  match w.tree.read w.directory p with
  | .error cause => .error cause
  | .ok octets =>
    match Utf8.decode? octets with
    | some text => .ok text
    | none => .error .notText

/-- A text is read without any change to the world. -/
theorem run_readText (w : World) (p : Path) : host.readText p w = (w.readText p, w) := by
  unfold readText
  change (match w.tree.read w.directory p with
    | .error cause => fun w => (Except.error cause, w)
    | .ok octets =>
      match Utf8.decode? octets with
      | some text => fun w => (Except.ok text, w)
      | none => fun w => (Except.error IoCause.notText, w) : World → Except IoCause Text × World) w = _
  cases w.tree.read w.directory p with
  | error cause => rfl
  | ok octets =>
    simp only
    cases Utf8.decode? octets <;> rfl

/-- Reading a text is a step that cannot fail. -/
theorem run_lift_readText (w : World) (p : Path) :
    (liftM (host.readText p) : ExceptT Fault (StateM World) _).run w = (.ok (w.readText p), w) := by
  change (Except.ok (host.readText p w).1, (host.readText p w).2) = _
  rw [run_readText]

/-- The settings of a project in a world. -/
def loadSettings (w : World) (root : Path) : Except Fault Settings :=
  Settings.load (w.readText (settingsFile root))

/-- Settings are loaded without any change to the world. -/
theorem run_loadSettings (w : World) (root : Path) :
    (Command.loadSettings host root).run w = (w.loadSettings root, w) := by
  unfold Command.loadSettings
  rw [run_bind_of_ok (run_lift_readText w (settingsFile root))]
  rfl

/-! ## Looking for the build file -/

/-- The first of some paths that leads to a regular file. -/
theorem run_firstFile (w : World) (paths : List Path) :
    BuildFile.firstFile host.isFile paths w = (paths.find? (w.tree.isFile w.directory), w) := by
  induction paths with
  | nil => rfl
  | cons p paths ih =>
    change (if w.tree.isFile w.directory p = true then pure (some p)
      else BuildFile.firstFile host.isFile paths : StateM World _) w = _
    rw [List.find?_cons]
    cases w.tree.isFile w.directory p with
    | true => rfl
    | false =>
      simp only [Bool.false_eq_true, if_false]
      exact ih

/-- The build file of a source in a world. -/
def locate (w : World) (source : Source) (root : Path) : Except Fault Path :=
  match (BuildFile.candidates source root).find? (w.tree.isFile w.directory) with
  | some p => .ok p
  | none => .error (.noBuildFile (BuildFile.candidates source root))

/-- The build file is looked for without any change to the world. -/
theorem run_locate (w : World) (source : Source) (root : Path) :
    (BuildFile.locate host.isFile source root).run w = (w.locate source root, w) := by
  unfold BuildFile.locate locate
  rw [run_bind_of_ok (run_lift _ w), run_firstFile]
  cases (BuildFile.candidates source root).find? (w.tree.isFile w.directory) <;> rfl

/-- A build file that has been located is a regular file. -/
theorem isFile_of_locate {source : Source} {root p : Path} (h : w.locate source root = .ok p) :
    w.tree.isFile w.directory p = true := by
  unfold locate at h
  cases hfind : (BuildFile.candidates source root).find? (w.tree.isFile w.directory) with
  | none =>
    rw [hfind] at h
    cases h
  | some p' =>
    rw [hfind] at h
    cases h
    exact List.find?_some hfind

/-- A regular file is not missing. -/
theorem readText_ne_notFound {p : Path} (h : w.tree.isFile w.directory p = true) :
    w.readText p ≠ .error .notFound := by
  obtain ⟨l, mode, content, hresolve⟩ : ∃ l mode content,
      w.tree.resolve w.directory .look p = .ok (.existing l (.file mode content)) := by
    unfold FileTree.isFile at h
    split at h
    · next l mode content hresolve => exact ⟨l, mode, content, hresolve⟩
    · cases h
  have hread : w.tree.read w.directory p =
      if !(Node.file mode content).permits .read then .error .forbidden else .ok content := by
    rw [FileTree.read, hresolve]
  intro hmissing
  rw [readText, hread] at hmissing
  cases hpermits : (Node.file mode content).permits .read with
  | false =>
    rw [hpermits] at hmissing
    cases hmissing
  | true =>
    rw [hpermits] at hmissing
    cases hdecode : Utf8.decode? content with
    | none => simp [hdecode] at hmissing
    | some text => simp [hdecode] at hmissing

/-! ## Working out the request -/

/-- The request for a source, with its build file and the settings. -/
def resolve (w : World) (t : Target) : Except Fault Resolved := do
  let here := FileTree.pathOf w.directory
  let root := Path.absolute here t.projectRoot
  let settings ← w.loadSettings root
  let source ← Source.ofPath (Path.absolute here t.source)
  let buildFile ← w.locate source root
  let request ← Request.ofPaths source.path (buildFile.parent?.getD root) (settings.apply t.overrides)
  return ⟨buildFile, request, settings.apply t.overrides⟩

/-- A command works out its request without any change to the world. -/
theorem run_resolve (w : World) (t : Target) :
    (Command.resolve host t).run w = (w.resolve t, w) := by
  have hhere : (liftM host.directory : ExceptT Fault (StateM World) Path).run w =
      (.ok (FileTree.pathOf w.directory), w) := rfl
  unfold Command.resolve resolve
  rw [run_bind_of_ok hhere]
  refine run_bind_of_unchanged (run_loadSettings w _) fun settings => ?_
  refine run_bind_of_unchanged rfl fun source => ?_
  refine run_bind_of_unchanged (run_locate w source _) fun buildFile => ?_
  refine run_bind_of_unchanged rfl fun request => ?_
  rfl

/-- Skipping questions is settled apart from all else that a command finds. -/
theorem resolve_eq_map (w : World) (t : Target) :
    w.resolve t = (·.orSkip t.overrides.skipConfirmation) <$> w.resolve (t.withSkip false) := by
  unfold resolve
  simp only [map_bind]
  refine bind_congr fun settings => ?_
  refine bind_congr fun source => ?_
  refine bind_congr fun buildFile => ?_
  -- A request takes no notice of what is skipped.
  refine bind_congr fun request => ?_
  simp [Resolved.orSkip, Settings.apply, Target.withSkip]

/-- A command finds the same, whether questions are skipped or not. -/
theorem resolve_withSkip_of_ok (h : w.resolve t = .ok r) (skip : Bool) :
    ∃ settings, w.resolve (t.withSkip skip) = .ok { r with settings := settings } := by
  rw [resolve_eq_map] at h
  rw [resolve_eq_map]
  change ∃ settings, _ <$> w.resolve (t.withSkip false) = .ok _
  cases hfalse : w.resolve (t.withSkip false) with
  | error fault =>
    rw [hfalse] at h
    cases h
  | ok r₀ =>
    rw [hfalse] at h
    cases h
    exact ⟨(r₀.orSkip skip).settings, rfl⟩

/-- A command that cannot find what it needs fails alike, whether questions are skipped or not. -/
theorem resolve_withSkip_of_error {fault : Fault} (h : w.resolve t = .error fault) (skip : Bool) :
    w.resolve (t.withSkip skip) = .error fault := by
  rw [resolve_eq_map] at h
  rw [resolve_eq_map]
  change _ <$> w.resolve (t.withSkip false) = _
  cases hfalse : w.resolve (t.withSkip false) with
  | error fault' =>
    rw [hfalse] at h
    cases h
    rfl
  | ok r₀ =>
    rw [hfalse] at h
    cases h

/-- The build file that a command has found is a regular file. -/
theorem isFile_of_resolve (h : w.resolve t = .ok r) :
    w.tree.isFile w.directory r.buildFile = true := by
  obtain ⟨settings, -, h⟩ := bind_eq_ok.1 h
  obtain ⟨source, -, h⟩ := bind_eq_ok.1 h
  obtain ⟨buildFile, hlocate, h⟩ := bind_eq_ok.1 h
  obtain ⟨request, -, h⟩ := bind_eq_ok.1 h
  cases h
  exact isFile_of_locate hlocate

end World

end BuildTargets

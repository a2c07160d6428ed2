import BuildTargets.Proofs.Command.Resolve
import BuildTargets.Proofs.FileTree.Written
import BuildTargets.Proofs.Settings.Update

/-!
# Setting a setting of a project

A command that sets a setting reads the settings file, puts the value into it and writes it back.  When
the settings are loaded afterwards they are what they were but for that one
(`storeSetting_effects`), whatever else the file held.  A setting that is refused leaves the world as it
was.
-/

namespace BuildTargets

namespace World

open Command

variable {w w' : World} {root : Path} {key raw : Text} {s : Settings}

/-- Writing a file is a step that cannot fail. -/
theorem run_lift_write (w : World) (p : Path) (octets : Bytes) :
    (liftM (host.write p octets) : ExceptT Fault (StateM World) _).run w =
      match w.tree.write w.directory p octets with
      | .ok tree => (.ok (.ok ()), { w with tree := tree })
      | .error cause => (.ok (.error cause), w) := by
  change (Except.ok (host.write p octets w).1, (host.write p octets w).2) = _
  simp only [host]
  cases w.tree.write w.directory p octets <;> rfl

/-- A setting is stored in one read and one write of the settings file. -/
theorem run_storeSetting (w : World) (root : Path) (key raw : Text) :
    (storeSetting host root key raw).run w =
      match Settings.set (settingsFile root) key raw (w.readText (settingsFile root)) with
      | .error fault => (.error fault, w)
      | .ok new =>
        match w.tree.write w.directory (settingsFile root) (Utf8.encode new) with
        | .ok tree => (.ok (), { w with tree := tree })
        | .error cause => (.error (.io cause), w) := by
  have hpure : ∀ result : Except Fault Text,
      (ExceptT.mk (return result) : ExceptT Fault (StateM World) Text).run w = (result, w) :=
    fun _ => rfl
  unfold storeSetting
  rw [run_bind_of_ok (run_lift_readText w (settingsFile root))]
  cases hset : Settings.set (settingsFile root) key raw (w.readText (settingsFile root)) with
  | error fault => exact run_bind_of_error (hpure _)
  | ok new =>
    rw [run_bind_of_ok (hpure _)]
    have hlift := run_lift_write w (settingsFile root) (Utf8.encode new)
    cases hwrite : w.tree.write w.directory (settingsFile root) (Utf8.encode new) with
    | ok tree =>
      simp only [hwrite] at hlift ⊢
      rw [run_bind_of_ok hlift]
      rfl
    | error cause =>
      simp only [hwrite] at hlift ⊢
      rw [run_bind_of_ok hlift]
      rfl

/-- Settings that can be loaded are those of a file that can be read, or that is missing. -/
theorem read_of_loadSettings (h : w.loadSettings root = .ok s) :
    (∃ old, w.tree.read w.directory (settingsFile root) = .ok old) ∨
      w.tree.read w.directory (settingsFile root) = .error .notFound := by
  unfold loadSettings readText at h
  cases hread : w.tree.read w.directory (settingsFile root) with
  | ok old => exact Or.inl ⟨old, rfl⟩
  | error cause =>
    rw [hread] at h
    cases cause with
    | notFound => exact Or.inr rfl
    | _ => cases h

/-- A text that has been written to a file is the text of that file. -/
theorem readText_of_read {p : Path} {new : Text}
    (h : w.tree.read w.directory p = .ok (Utf8.encode new)) : w.readText p = .ok new := by
  unfold readText
  rw [h]
  simp only [Utf8.decode?_encode]

/-- Where the settings of a project can be loaded, a setting that has been stored is loaded with its new
value and the others as they were.  One that could not be stored leaves everything as it was; there is
no such setting, or the value is not one for it, or the file cannot be written. -/
theorem storeSetting_effects (w : World) (root : Path) (key raw : Text) (s : Settings)
    (hload : (Command.loadSettings host root).run w = (.ok s, w)) :
    (∀ w', (storeSetting host root key raw).run w = (.ok (), w') →
      ∃ k, key = Settings.Key.text k ∧ Settings.Accepts raw k ∧
        (Command.loadSettings host root).run w' = (.ok (s.updated raw k), w')) ∧
    ∀ fault w', (storeSetting host root key raw).run w = (.error fault, w') → w' = w ∧
      ((∀ k, key ≠ Settings.Key.text k) ∨
        (∃ k, key = Settings.Key.text k ∧ ¬Settings.Accepts raw k) ∨
        ∃ content cause, w.tree.write w.directory (settingsFile root) content = .error cause ∧
          fault = .io cause) := by
  have hs : w.loadSettings root = .ok s := by
    rw [run_loadSettings] at hload
    exact congrArg Prod.fst hload
  rw [run_storeSetting]
  rcases Settings.value_cases key raw with ⟨k, rfl, hraw, -⟩ | hrefused
  · obtain ⟨new, hset, hnew⟩ := Settings.load_set hs hraw (settingsFile root)
    rw [hset]
    cases hwrite : w.tree.write w.directory (settingsFile root) (Utf8.encode new) with
    | error cause =>
      simp only [hwrite]
      refine ⟨nofun, ?_⟩
      rintro _ _ ⟨⟩
      exact ⟨rfl, Or.inr (Or.inr ⟨_, cause, hwrite, rfl⟩)⟩
    | ok tree =>
      simp only [hwrite]
      refine ⟨?_, nofun⟩
      rintro _ ⟨⟩
      refine ⟨k, rfl, hraw, ?_⟩
      have hread := FileTree.read_of_write hwrite (read_of_loadSettings hs)
      rw [run_loadSettings, loadSettings, readText_of_read hread, hnew]
  · obtain ⟨text, l, trailing, -, -, -, hset⟩ := Settings.exists_of_load hs
    obtain ⟨fault, hvalue⟩ : ∃ fault, Settings.value key raw = .error fault := by
      rcases hrefused with ⟨-, hvalue⟩ | ⟨_, _, -, -, hvalue⟩
      · exact ⟨_, hvalue⟩
      · exact ⟨_, hvalue⟩
    rw [hset, hvalue]
    refine ⟨nofun, ?_⟩
    rintro _ _ ⟨⟩
    refine ⟨rfl, ?_⟩
    rcases hrefused with ⟨hkey, -⟩ | ⟨k, _, hkey, hraw, -⟩
    · exact Or.inl hkey
    · exact Or.inr (Or.inl ⟨k, hkey, hraw⟩)

/-- A project whose settings file names its targets, with a comment in front and one behind. -/
def commentedProject : World where
  tree := ⟨[([['p'], settingsFileName].map Utf8.encode,
      .file 0o644 (Utf8.encode "# names\r\n'executable_name' = \"a\" # all\r\n".toList)),
    ([['p']].map Utf8.encode, .directory 0o755)]⟩
  directory := [Utf8.encode ['p']]
  terminal := { input := [] }

/-- A value with quotes, a line feed and a backslash is set between the comments. -/
theorem storeSetting_effects_commentedProject :
    ∃ w', (storeSetting host (.ofText ".".toList) "runtime_output_directory".toList
        "'\"\n\\".toList).run commentedProject = (.ok (), w') ∧
      (Command.loadSettings host (.ofText ".".toList)).run w' =
        (.ok ⟨['a'], "'\"\n\\".toList, false⟩, w') := by
  have hload : (Command.loadSettings host (.ofText ".".toList)).run commentedProject =
      (.ok ⟨['a'], [], false⟩, commentedProject) := by
    rw [run_loadSettings]
    exact congrArg (·, commentedProject) (by decide +kernel)
  have hstore : ((storeSetting host (.ofText ".".toList) "runtime_output_directory".toList
      "'\"\n\\".toList).run commentedProject).1 = .ok () := by decide +kernel
  obtain ⟨w', hrun⟩ : ∃ w', (storeSetting host (.ofText ".".toList)
      "runtime_output_directory".toList "'\"\n\\".toList).run commentedProject = (.ok (), w') :=
    ⟨_, Prod.ext hstore rfl⟩
  obtain ⟨k, hk, -, hafter⟩ := (storeSetting_effects commentedProject _ _ _ _ hload).1 w' hrun
  cases k with
  | targetName => exact absurd hk (by decide)
  | skipConfirmation => exact absurd hk (by decide)
  | outputDirectory => exact ⟨w', hrun, hafter⟩

end World

end BuildTargets

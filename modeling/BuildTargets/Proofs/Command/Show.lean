import BuildTargets.Proofs.Command.Setting

/-!
# Showing the settings of a project

Settings are shown as a document, a line for each of them.  The document is flat, and all its keys and
values read back, so a settings file that holds what was shown gives the settings that were shown
(`Settings.load_text`): nothing is lost in the choice between the forms of a string, whatever the
templates hold.
-/

namespace BuildTargets

namespace Settings

open Toml Toml.Table

/-! ## Settings as a document -/

/-- What a setting denotes in a document. -/
def held (s : Settings) : Key → Datum
  | .targetName => .string s.targetName
  | .outputDirectory => .string s.outputDirectory
  | .skipConfirmation => .boolean s.skipConfirmation

/-- A setting as an entry of a document. -/
def entry (s : Settings) (k : Key) : Toml.Key × Value := (.bare k.text, fresh (s.held k))

theorem readsBack_fresh_held (s : Settings) (k : Key) : (fresh (s.held k)).ReadsBack := by
  cases k with
  | targetName => exact readsBack_fresh_string s.targetName
  | outputDirectory => exact readsBack_fresh_string s.outputDirectory
  | skipConfirmation => exact readsBack_fresh_boolean s.skipConfirmation

/-- The line of a setting is its name, an equals sign and its value as written. -/
theorem lineText_entry (s : Settings) (k : Key) :
    lineText (s.entry k) = k.text ++ " = ".toList ++ s.written k ++ ['\n'] := by
  have hkey : Toml.Key.text ([], [' ']) [.bare k.text] = k.text ++ [' '] := rfl
  have hspelling : (fresh (s.held k)).spelling = s.written k := by cases k <;> rfl
  have hblanks : (fresh (s.held k)).before = [' '] ∧ (fresh (s.held k)).after = [] := ⟨rfl, rfl⟩
  simp [lineText, entryText, entry, hkey, hspelling, hblanks]

/-- Shown settings are the lines of their entries. -/
theorem text_eq_flatMap_lineText (s : Settings) : s.text = (Key.all.map s.entry).flatMap lineText := by
  rw [List.flatMap_map]
  exact congrArg (Key.all.flatMap ·) (funext fun k => (s.lineText_entry k).symm)

/-- Shown settings are read as a flat document that denotes what is held. -/
theorem exists_read?_text (s : Settings) :
    ∃ l, denoted l = denoted (Key.all.map s.entry) ∧ Document.read? s.text = some ⟨flat l, []⟩ := by
  have hback : ∀ e ∈ Key.all.map s.entry, e.1.ReadsBack ∧ e.2.ReadsBack := by
    intro e he
    obtain ⟨k, -, rfl⟩ := List.mem_map.1 he
    exact ⟨readsBack_bare_text k, s.readsBack_fresh_held k⟩
  have hempty : trivia false [] = some ([], []) := rfl
  obtain ⟨l, hl, houtline⟩ := read?_lines hback hempty
  rw [List.append_nil, ← text_eq_flatMap_lineText] at houtline
  have hnames : l.map (·.1.name) = Key.all.map Key.text := by
    simpa [Function.comp_def, entry, Toml.Key.bare] using congrArg (List.map Prod.fst) hl
  have hnodup : (l.map (·.1.name)).Nodup := by
    rw [hnames]
    decide
  refine ⟨l, ?_, ?_⟩
  · simpa [denoted, Function.comp_def] using
      congrArg (List.map fun p : Text × Value => (p.1, p.2.datum)) hl
  · rw [Document.read?_of_outline houtline, ofOutline?_flat hnodup]
    rfl

/-- Assigning all that is held gives the settings that hold it, whatever was set before. -/
theorem assignEach_held (s s' : Settings) :
    s'.assignEach (denoted (Key.all.map s.entry)) = .ok s := by
  have hassign : ∀ (s' : Settings) (k : Key),
      s'.assignNamed k.text (s.held k) = .ok (s'.replaced k (s.held k)) := by
    intro s' k
    rw [assignNamed_text]
    exact assign_eq_ok_iff.2 ⟨by cases k <;> trivial, rfl⟩
  change [Key.targetName, .outputDirectory, .skipConfirmation].foldlM
    (fun s' k => (s'.assignNamed k.text (s.held k))) s' = _
  simp only [hassign]
  rfl

/-- A settings file that holds what was shown holds the settings that were shown. -/
theorem load_text (s : Settings) : load (.ok s.text) = .ok s := by
  obtain ⟨l, hl, hread⟩ := s.exists_read?_text
  rw [load_of_read? hread, assignAll_flat, hl, assignEach_held]
  rfl

/-- Different settings are shown differently. -/
theorem text_injective : Function.Injective text := by
  intro s s' h
  have hload := s.load_text
  rw [h, load_text] at hload
  exact (Except.ok.inj hload).symm

end Settings

namespace World

open Command

variable {w : World} {root : Path} {s : Settings}

/-- Showing the settings of a project prints them, and does nothing else. -/
theorem run_showSettings (h : w.loadSettings root = .ok s) :
    (execute host (.showSettings root)).run w =
      (.ok 0, { w with printed := w.printed ++ Utf8.encode s.text }) := by
  change (Command.loadSettings host root >>= _ : ExceptT Fault (StateM World) UInt8).run w = _
  rw [run_bind_of_ok ((run_loadSettings w root).trans (by rw [h]))]
  rfl

/-- What is printed of some settings, kept as the settings file of any project, is loaded as the same
settings, so it is printed for no others. -/
theorem shown_settings_load (s : Settings) :
    (∀ w root, (Command.loadSettings host root).run w = (.ok s, w) →
      (execute host (.showSettings root)).run w =
        (.ok 0, { w with printed := w.printed ++ Utf8.encode s.text })) ∧
    (∀ w root, w.tree.read w.directory (settingsFile root) = .ok (Utf8.encode s.text) →
      (Command.loadSettings host root).run w = (.ok s, w)) ∧
    ∀ s' : Settings, s'.text = s.text → s' = s := by
  refine ⟨?_, ?_, fun s' h => Settings.text_injective h⟩
  · intro w root h
    rw [run_loadSettings] at h
    exact run_showSettings (congrArg Prod.fst h)
  · intro w root h
    rw [run_loadSettings, loadSettings, readText_of_read h, Settings.load_text]

/-- Settings whose templates hold quotes of both kinds, a backslash and line ends. -/
def quotedSettings : Settings := ⟨"\n'''\"\"\"\"\\\r".toList, "\"\n''".toList, true⟩

/-- A project whose settings file holds these settings as they are shown. -/
def quotedProject : World where
  tree := ⟨[([['p'], settingsFileName].map Utf8.encode,
      .file 0o644 (Utf8.encode quotedSettings.text)),
    ([['p']].map Utf8.encode, .directory 0o755)]⟩
  directory := [Utf8.encode ['p']]
  terminal := { input := [] }

/-- Templates with runs of quotes, a line feed in front and a carriage return behind are loaded as they
were shown. -/
theorem shown_settings_load_quotedProject :
    (Command.loadSettings host (.ofText ".".toList)).run quotedProject =
      (.ok quotedSettings, quotedProject) :=
  (shown_settings_load quotedSettings).2.1 quotedProject (.ofText ".".toList) (by decide +kernel)

end World

end BuildTargets

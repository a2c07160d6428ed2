import BuildTargets.Proofs.Path.Parent
import BuildTargets.Proofs.Request.Accepted
import BuildTargets.Proofs.Source.RelativePath
import BuildTargets.Proofs.Template.Split

/-!
# The parts of a request fit together

The file name of a source, its directory, and both as seen from the base directory are worked out in four
ways.  All of them come from the same steps: those of the base, then names.  So the parts of a request
agree with each other, and there are three faults for which there is no request, looked for one after the
other (`ofPaths_consistent`).
-/

namespace BuildTargets

/-! ## Names with slashes between them -/

/-- Joined parts with a separator in front have one in front of each. -/
theorem cons_joinWith {α : Type} (sep : α) {xs : List (List α)} (hxs : xs ≠ []) :
    sep :: joinWith [sep] xs = xs.flatMap (sep :: ·) := by
  induction xs with
  | nil => exact absurd rfl hxs
  | cons x xs ih =>
    cases xs with
    | nil => simp [joinWith]
    | cons y xs => simp [joinWith, ← ih (List.cons_ne_nil y xs)]

namespace Path

theorem cons_namesText {names : List Bytes} (hne : names ≠ []) :
    '/' :: namesText names = names.flatMap fun n => '/' :: Utf8.decodeLossy n := by
  rw [namesText, cons_joinWith '/' (fun h => hne (List.map_eq_nil_iff.1 h)), List.flatMap_map]

theorem namesText_eq_nil_iff {names : List Bytes} (hnames : ∀ n ∈ names, IsName n) :
    namesText names = [] ↔ names = [] := by
  constructor
  · intro h
    refine Decidable.byContradiction fun hne => ?_
    exact namesText_ne_nil hne (fun n hn => (hnames n hn).ne_nil) h
  · rintro rfl
    rfl

/-- The last of some names stands behind the others. -/
theorem namesText_concat (names : List Bytes) (n : Bytes) :
    namesText (names ++ [n]) =
      if names = [] then Utf8.decodeLossy n else namesText names ++ '/' :: Utf8.decodeLossy n := by
  split
  · next h =>
    rw [h]
    rfl
  · next hne =>
    refine List.cons_injective (a := '/') ?_
    rw [cons_namesText (List.append_ne_nil_of_right_ne_nil names (List.cons_ne_nil n [])),
      ← List.cons_append, cons_namesText hne, List.flatMap_append, List.flatMap_singleton]

theorem normalize_normalize (p : Path) : p.normalize.normalize = p.normalize := by
  rw [normalize, normalComponents_normalize, normalize]

/-- Normal steps are spelled as a path that is normal. -/
theorem normalize_ofComponents {absolute : Bool} {cs : List Component} (h : IsNormal absolute cs) :
    (ofComponents cs).normalize = ofComponents cs := by
  have hcs := (components_ofComponents_of_isNormal h).2
  rw [normalize, normalComponents_of_isNormal (hcs.symm ▸ h), hcs]

variable {base p : Path} {names : List Bytes} {n : Bytes}

/-- The directory in the text of names that lead down is the text of all names but the last. -/
theorem LeadsDown.directoryText (h : base.LeadsDown p (names ++ [n])) :
    directoryText (namesText (names ++ [n])) = namesText names := by
  have hslash : '/' ∉ Utf8.decodeLossy n :=
    (decodeLossy_of_isName (h.isName n (List.mem_append_right _ List.mem_cons_self))).2.2.2
  rw [namesText_concat]
  split
  · next hnil =>
    rw [Path.directoryText, cutLast_eq_none_iff.2 hslash, hnil]
    rfl
  · rw [Path.directoryText, cutLast_eq_some_iff.2 ⟨rfl, hslash⟩]

/-- A path below a directory ends in the last of the names that lead down to it, and its normal spelling
without that name is that of the steps in front. -/
theorem LeadsDown.concat (h : base.LeadsDown p (names ++ [n])) :
    p.normalize.fileName? = some n ∧
      p.normalize.parent? = some (ofComponents (base.normalComponents ++ names.map .name)) ∧
      IsNormal p.isAbsolute (base.normalComponents ++ names.map .name) := by
  have hcs : p.normalComponents = (base.normalComponents ++ names.map .name) ++ [.name n] := by
    rw [← components_normalize, h.2, components_normalize, List.map_append, ← List.append_assoc]
    rfl
  have hnormal := isNormal_normalComponents p
  rw [hcs] at hnormal
  refine ⟨?_, ?_, (isNormal_of_concat hnormal).1⟩
  · rw [fileName?, components_normalize, hcs, List.getLast?_concat]
  · rw [normalize, hcs, parent?_ofComponents hnormal]

/-- Names that are texts, or none at all, lead from a directory to the path that their steps spell. -/
theorem normalize_join_namesText_of_isNormal {absolute : Bool}
    (h : IsNormal absolute (base.normalComponents ++ names.map .name))
    (htext : ∀ n ∈ names, (Utf8.decode? n).isSome = true) :
    (base.join (ofText (namesText names))).normalize =
      ofComponents (base.normalComponents ++ names.map .name) := by
  by_cases hne : names = []
  · subst hne
    have hjoin := normalComponents_join base (q := ⟨[]⟩) rfl
    rw [List.map_nil, List.append_nil]
    exact congrArg ofComponents (hjoin.trans (List.reverse_reverse _))
  · have hdown : base.LeadsDown (ofComponents (base.normalComponents ++ names.map .name)) names := by
      refine ⟨hne, ?_⟩
      rw [normalize_ofComponents h, components_normalize, (components_ofComponents_of_isNormal h).2]
    rw [normalize_join_namesText hdown htext, normalize_ofComponents h]

end Path

namespace Source

variable {base p : Path} {s : Source} {names : List Bytes} {n : Bytes}

/-- A source is worked out from the last name of its normal path. -/
theorem ofPath_eq_ok_iff : ofPath p = .ok s ↔ ∃ n, p.normalize.fileName? = some n ∧
    s = { stem := stemOf (Utf8.decodeLossy n)
          fileName := Utf8.decodeLossy n
          directory := p.normalize.parent?.getD ⟨[]⟩
          path := p.normalize } := by
  rw [ofPath]
  cases p.normalize.fileName? with
  | none => exact iff_of_false nofun fun ⟨_, h, _⟩ => nomatch h
  | some m =>
    constructor
    · rintro ⟨⟩
      exact ⟨m, rfl, rfl⟩
    · rintro ⟨n, ⟨⟩, rfl⟩
      rfl

/-- The path of a source is the normal path that it was worked out from. -/
theorem path_of_ofPath (h : ofPath p = .ok s) : s.path = p.normalize := by
  obtain ⟨n, -, rfl⟩ := ofPath_eq_ok_iff.1 h
  rfl

/-- A path is refused if its normal path ends in no name. -/
theorem ofPath_eq_error_iff {fault : Fault} : ofPath p = .error fault ↔
    p.normalize.fileName? = none ∧ fault = .notASource p.normalize := by
  rw [ofPath]
  cases p.normalize.fileName? with
  | none =>
    constructor
    · rintro ⟨⟩
      exact ⟨rfl, rfl⟩
    · rintro ⟨-, rfl⟩
      rfl
  | some m => exact iff_of_false nofun fun h => nomatch h.1

/-- The source at the path of a source is that source. -/
theorem ofPath_path (h : ofPath p = .ok s) : ofPath s.path = .ok s := by
  obtain ⟨n, hn, rfl⟩ := ofPath_eq_ok_iff.1 h
  rw [ofPath, Path.normalize_normalize]
  exact ofPath_eq_ok_iff.2 ⟨n, hn, rfl⟩

theorem relativePath_of_leadsDown (h : base.LeadsDown p names) :
    relativePath base p = .ok (Path.namesText names) := by
  rw [relativePath, Path.below?_eq_some_iff_leadsDown.2 h]

/-- A relative path comes from names that lead down to the source. -/
theorem exists_of_relativePath {t : Text} (h : relativePath base p = .ok t) :
    ∃ names n, base.LeadsDown p (names ++ [n]) ∧ t = Path.namesText (names ++ [n]) := by
  rw [relativePath] at h
  split at h
  · next names hnames =>
    have hdown := Path.below?_eq_some_iff_leadsDown.1 hnames
    rcases List.eq_nil_or_concat names with rfl | ⟨front, n, rfl⟩
    · exact absurd rfl hdown.1
    · rw [List.concat_eq_append] at hdown h
      exact ⟨front, n, hdown, (Except.ok.inj h).symm⟩
  · cases h

/-- A source to which no names lead down is refused. -/
theorem relativePath_of_outside (h : ∀ names, ¬base.LeadsDown p names) :
    relativePath base p = .error (.outsideBase base p) := by
  rw [relativePath]
  split
  · next names hnames => exact absurd (Path.below?_eq_some_iff_leadsDown.1 hnames) (h names)
  · rfl

end Source

namespace Request

variable {path base : Path} {settings : Settings} {s : Source} {names : List Bytes} {n : Bytes}

/-- The name of the target for a source in a directory below the base. -/
def targetNameFor (settings : Settings) (s : Source) (directory : Text) : Text :=
  Template.resolve (.ofSource s.stem directory) settings.targetName

/-! ## Requests step by step -/

theorem ofPaths_of_notASource {fault : Fault} (h : Source.ofPath path = .error fault) :
    ofPaths path base settings = .error fault := by
  rw [ofPaths, h]
  rfl

theorem ofPaths_of_outside {fault : Fault} (hs : Source.ofPath path = .ok s)
    (h : Source.relativePath base s.path = .error fault) :
    ofPaths path base settings = .error fault := by
  rw [ofPaths, hs]
  change (Source.relativePath base s.path).bind _ = _
  rw [h]
  rfl

/-- The relative directory of a source below the base is spelled by all names but the last. -/
theorem relativeDirectory_of_leadsDown {p : Path} (h : base.LeadsDown p (names ++ [n])) :
    Source.relativeDirectory base p = .ok (Path.namesText names) := by
  rw [Source.relativeDirectory, Source.relativePath_of_leadsDown h]
  exact congrArg Except.ok h.directoryText

/-- A relative directory comes from names that lead down to the source. -/
theorem exists_of_relativeDirectory {p : Path} {directory : Text}
    (h : Source.relativeDirectory base p = .ok directory) :
    ∃ names n, base.LeadsDown p (names ++ [n]) ∧ directory = Path.namesText names := by
  cases ht : Source.relativePath base p with
  | error fault =>
    rw [Source.relativeDirectory, ht] at h
    cases h
  | ok t =>
    obtain ⟨names, n, hdown, -⟩ := Source.exists_of_relativePath ht
    exact ⟨names, n, hdown, Except.ok.inj (h.symm.trans (relativeDirectory_of_leadsDown hdown))⟩

/-- For a source below the base there is a request if the name of the target is one. -/
theorem ofPaths_of_leadsDown (settings : Settings) (hs : Source.ofPath path = .ok s)
    (h : base.LeadsDown s.path (names ++ [n])) :
    match nameProblem? (targetNameFor settings s (Path.namesText names)) with
    | some problem => ofPaths path base settings =
        .error (.badSetting "executable_name".toList settings.targetName problem)
    | none => ∃ r, ofPaths path base settings = .ok r := by
  have hpath := Source.relativePath_of_leadsDown h
  have hdirectory := relativeDirectory_of_leadsDown h
  have hsteps : ofPaths path base settings =
      match nameProblem? (targetNameFor settings s (Path.namesText names)) with
      | some problem =>
        .error (.badSetting "executable_name".toList settings.targetName problem)
      | none =>
        let output := Template.resolve (.ofSource s.stem (Path.namesText names))
          settings.outputDirectory
        .ok {
          base := base
          outputDirectory := if output = [] then none else some output
          relativePath := Path.namesText (names ++ [n])
          source := s
          targetName := targetNameFor settings s (Path.namesText names) } := by
    rw [ofPaths, hs]
    change (Source.relativePath base s.path).bind _ = _
    rw [hpath]
    change (Source.relativeDirectory base s.path).bind _ = _
    rw [hdirectory]
    rfl
  rw [hsteps]
  cases nameProblem? (targetNameFor settings s (Path.namesText names)) with
  | none => exact ⟨_, rfl⟩
  | some problem => rfl

/-- The faults for which there is no request, each behind the ones that are looked for before it. -/
inductive IsRefused (path base : Path) (settings : Settings) : Fault → Prop where
  | notASource (h : path.normalize.fileName? = none) :
      IsRefused path base settings (.notASource path.normalize)
  | outsideBase {s : Source} (hs : Source.ofPath path = .ok s)
      (h : ∀ names, ¬base.LeadsDown s.path names) :
      IsRefused path base settings (.outsideBase base s.path)
  | badName {s : Source} {directory problem : Text} (hs : Source.ofPath path = .ok s)
      (hdirectory : Source.relativeDirectory base s.path = .ok directory)
      (hproblem : nameProblem? (targetNameFor settings s directory) = some problem) :
      IsRefused path base settings
        (.badSetting "executable_name".toList settings.targetName problem)

/-- There is no request exactly for these faults. -/
theorem ofPaths_eq_error_iff {fault : Fault} :
    ofPaths path base settings = .error fault ↔ IsRefused path base settings fault := by
  constructor
  · intro h
    cases hs : Source.ofPath path with
    | error cause =>
      rw [ofPaths_of_notASource hs] at h
      cases h
      obtain ⟨hname, rfl⟩ := Source.ofPath_eq_error_iff.1 hs
      exact .notASource hname
    | ok s =>
      by_cases hdown : ∀ names, ¬base.LeadsDown s.path names
      · rw [ofPaths_of_outside hs (Source.relativePath_of_outside hdown)] at h
        cases h
        exact .outsideBase hs hdown
      · obtain ⟨names, hnames⟩ := not_forall_not.1 hdown
        obtain ⟨front, n, h', -⟩ :=
          Source.exists_of_relativePath (Source.relativePath_of_leadsDown hnames)
        have hrequest := ofPaths_of_leadsDown settings hs h'
        split at hrequest
        · next problem hproblem =>
          rw [hrequest] at h
          cases h
          exact .badName hs (relativeDirectory_of_leadsDown h') hproblem
        · obtain ⟨r, hr⟩ := hrequest
          rw [hr] at h
          cases h
  · intro h
    cases h with
    | notASource hname => exact ofPaths_of_notASource (Source.ofPath_eq_error_iff.2 ⟨hname, rfl⟩)
    | outsideBase hs hdown => exact ofPaths_of_outside hs (Source.relativePath_of_outside hdown)
    | badName hs hdirectory hproblem =>
      obtain ⟨names, n, h', rfl⟩ := exists_of_relativeDirectory hdirectory
      have hrequest := ofPaths_of_leadsDown settings hs h'
      rw [hproblem] at hrequest
      exact hrequest

/-! ## Parts of a request -/

/-- The parts of a request agree with each other, where `names` lead from the base to the directory of
the source, `n` is the name of its file, and `directory` is that directory as seen from the base. -/
structure IsConsistent (r : Request) (base : Path) (settings : Settings) (names : List Bytes) (n : Bytes)
    (directory : Text) : Prop where
  leadsDown : base.LeadsDown r.source.path (names ++ [n])
  components : r.source.directory.components = base.normalize.components ++ names.map .name
  relativeDirectory : Source.relativeDirectory base r.source.path = .ok directory
  relativePath : r.relativePath =
    if directory = [] then r.source.fileName else directory ++ '/' :: r.source.fileName
  /-- The source is the one at its own path. -/
  source : Source.ofPath r.source.path = .ok r.source
  /-- Names that are texts lead back to the directory of the source. -/
  leadsBack : (∀ m ∈ names, (Utf8.decode? m).isSome = true) →
    (base.join (Path.ofText directory)).normalize = r.source.directory
  /-- The placeholder for the directory of the source stands for the names behind the variable for the
  base, and does not end in a slash. -/
  output : settings.outputDirectory = Template.Token.fileDirectory.text →
    ∃ output, r.outputDirectory = some output ∧
      output = "$\x7bCMAKE_CURRENT_SOURCE_DIR\x7d".toList ++
        names.flatMap (fun m => '/' :: Utf8.decodeLossy m) ∧
      output.getLast? ≠ some '/'
  targetName_ne_nil : r.targetName ≠ []
  targetName : ∀ c ∈ r.targetName, isBlank c = false ∧ c ≠ '(' ∧ c ≠ ')' ∧ c ≠ '"'
  output_ne_nil : r.outputDirectory ≠ some []

/-- The placeholder for the directory of the source stands for the names that lead there. -/
theorem resolve_fileDirectory (stem : Text) {names : List Bytes}
    (hnames : ∀ m ∈ names, Path.IsName m) :
    Template.resolve (.ofSource stem (Path.namesText names)) Template.Token.fileDirectory.text =
      "$\x7bCMAKE_CURRENT_SOURCE_DIR\x7d".toList ++
        names.flatMap (fun m => '/' :: Utf8.decodeLossy m) := by
  have hvalue := Template.resolve_token_append (.ofSource stem (Path.namesText names))
    .fileDirectory []
  rw [Template.resolve, List.append_nil, List.append_nil] at hvalue
  rw [hvalue]
  by_cases hne : names = []
  · subst hne
    rfl
  · rw [← Path.cons_namesText hne]
    exact if_neg fun h => hne ((Path.namesText_eq_nil_iff hnames).1 h)

/-- Names behind a text that does not end in a slash do not end in one either. -/
theorem getLast?_append_names {t : Text} (ht : t.getLast? ≠ some '/') {names : List Bytes}
    (hnames : ∀ m ∈ names, Path.IsName m) :
    (t ++ names.flatMap fun m => '/' :: Utf8.decodeLossy m).getLast? ≠ some '/' := by
  rcases List.eq_nil_or_concat names with rfl | ⟨front, m, rfl⟩
  · rwa [List.flatMap_nil, List.append_nil]
  · rw [List.concat_eq_append] at hnames ⊢
    obtain ⟨hne, -, -, hslash⟩ :=
      Path.decodeLossy_of_isName (hnames m (List.mem_append_right _ List.mem_cons_self))
    intro hlast
    refine hslash (List.mem_of_getLast? ?_)
    rwa [List.flatMap_append, List.flatMap_singleton, ← List.append_assoc,
      List.getLast?_append_of_ne_nil _ (List.cons_ne_nil _ _), List.getLast?_cons_of_ne_nil hne]
      at hlast

theorem isConsistent_of_ofPaths {r : Request} (h : ofPaths path base settings = .ok r) :
    ∃ names n directory, r.IsConsistent base settings names n directory := by
  obtain ⟨directory, hsource, hpath, hdirectory, -, -, hname, houtput⟩ := exists_of_ofPaths h
  obtain ⟨names, n, hdown, hrelative⟩ := Source.exists_of_relativePath hpath
  obtain rfl := Except.ok.inj ((relativeDirectory_of_leadsDown hdown).symm.trans hdirectory)
  have hnames : ∀ m ∈ names, Path.IsName m := fun m hm => hdown.isName m (List.mem_append_left _ hm)
  obtain ⟨hfile, hparent, hnormal⟩ := hdown.concat
  obtain ⟨m, hm, hparts⟩ := Source.ofPath_eq_ok_iff.1 (Source.ofPath_path hsource)
  obtain rfl := Option.some.inj (hm.symm.trans hfile)
  have hfileName : r.source.fileName = Utf8.decodeLossy m := congrArg Source.fileName hparts
  have hsourceDirectory : r.source.directory =
      Path.ofComponents (base.normalComponents ++ names.map .name) := by
    rw [hparts]
    exact congrArg (Option.getD · _) hparent
  refine ⟨names, m, Path.namesText names, {
    leadsDown := hdown
    components := ?_
    relativeDirectory := hdirectory
    relativePath := ?_
    source := Source.ofPath_path hsource
    leadsBack := fun htext => ?_
    output := fun htemplate => ?_
    targetName_ne_nil := hname.1
    targetName := fun c hc => by simpa [isForbidden, and_assoc] using hname.2 c hc
    output_ne_nil := ?_ }⟩
  · rw [hsourceDirectory, (Path.components_ofComponents_of_isNormal hnormal).2,
      Path.components_normalize]
  · rw [hrelative, hfileName, Path.namesText_concat]
    exact if_congr (Path.namesText_eq_nil_iff hnames).symm rfl rfl
  · rw [hsourceDirectory]
    exact Path.normalize_join_namesText_of_isNormal hnormal htext
  · rw [htemplate, resolve_fileDirectory _ hnames] at houtput
    refine ⟨_, houtput.trans (if_neg ?_), rfl, getLast?_append_names (by decide) hnames⟩
    exact List.append_ne_nil_of_left_ne_nil (by decide) _
  · rw [houtput]
    intro h
    simp only at h
    split at h
    · cases h
    · next hne => exact hne (Option.some.inj h)

/-- The parts of a request agree with each other, whatever path, base and settings it was worked out
from.  Where there is none, the path ends in no name; or it does, and the source is not below the base;
or it is, and the target would have a name that cannot stand in a statement. -/
theorem ofPaths_consistent (path base : Path) (settings : Settings) :
    (∀ r, ofPaths path base settings = .ok r →
      ∃ names n directory, r.IsConsistent base settings names n directory) ∧
    ∀ fault, ofPaths path base settings = .error fault ↔ IsRefused path base settings fault :=
  ⟨fun _ => isConsistent_of_ofPaths, fun _ => ofPaths_eq_error_iff⟩

/-- A source with two dots in its name, two directories below a base that is spelled with a step up. -/
def nested : Request where
  base := .ofText "p/build/..".toList
  outputDirectory := some "$\x7bCMAKE_CURRENT_SOURCE_DIR\x7d/lib/é".toList
  relativePath := "lib/é/a.test.c".toList
  source :=
    { stem := "a.test".toList
      fileName := "a.test.c".toList
      directory := .ofText "p/lib/é".toList
      path := .ofText "p/lib/é/a.test.c".toList }
  targetName := "a.test_x".toList

theorem ofPaths_consistent_nested :
    let path := Path.ofText "p/./src/../lib/é/a.test.c".toList
    let settings : Settings := ⟨"%FILENAME%_x".toList, "%FILE_DIR%".toList, false⟩
    ofPaths path nested.base settings = .ok nested ∧
      ∃ names n directory, nested.IsConsistent nested.base settings names n directory := by
  intro path settings
  have hnested : ofPaths path nested.base settings = .ok nested := by decide +kernel
  exact ⟨hnested, (ofPaths_consistent path nested.base settings).1 nested hnested⟩

end Request

end BuildTargets

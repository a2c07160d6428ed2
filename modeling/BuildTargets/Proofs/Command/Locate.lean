import BuildTargets.Proofs.Command.Resolve
import BuildTargets.Proofs.FileTree.Spelling
import BuildTargets.Proofs.Request.Consistent

/-!
# Which build file a source belongs to

A source belongs to the build file in its own directory, where it is declared under its bare name, or else
to the one at the root of its project, if names lead from there down to it.  The directory of a source is
normal and the root is only made absolute, so the two places may be one under two spellings; then the
spelling that is looked at is the one that leads to a file if either does (`isFile_beside_of_same`).  What
is declared leads from the directory of the build file to the source (`resolve_agrees`).
-/

namespace BuildTargets

/-! ## Absolute paths -/

namespace Path

/-- Steps do not change where a path starts. -/
theorem isAbsolute_foldl_push {cs : List Component}
    (hcs : ∀ c ∈ cs, c = .up ∨ ∃ n, c = .name n ∧ IsName n) (start : Path) :
    (cs.foldl push start).isAbsolute = start.isAbsolute := by
  induction cs generalizing start with
  | nil => rfl
  | cons c cs ih =>
    obtain ⟨hc, hcs⟩ := List.forall_mem_cons.1 hcs
    have hrelative : (Path.mk (stepBytes c)).isAbsolute = false := by
      rcases hc with rfl | ⟨n, rfl, hn⟩
      · rfl
      · exact isAbsolute_of_isName hn
    rw [List.foldl_cons, ih hcs, push, isAbsolute_join start hrelative]

/-- A path that is seen from the root starts there. -/
theorem isAbsolute_absolute {cwd : Path} (hcwd : cwd.isAbsolute = true) (given : NonemptyPath) :
    (absolute cwd given).isAbsolute = true := by
  obtain ⟨p, -⟩ := given
  have hsteps : ∀ c ∈ p.components.filter fun c => c ≠ .root && c ≠ .here,
      c = .up ∨ ∃ n, c = .name n ∧ IsName n := by
    intro c hc
    obtain ⟨hmem, hkept⟩ := List.mem_filter.1 hc
    refine mem_steps (p := p) ?_
    rcases components_eq p with ⟨-, hp⟩ | ⟨-, hp | hp⟩ <;> rw [hp] at hmem <;> simp_all
  have hwhole : ∀ start : Path, start.isAbsolute = true →
      ((p.components.filter fun c => c ≠ .root && c ≠ .here).foldl push start).isAbsolute = true :=
    fun start hstart => (isAbsolute_foldl_push hsteps start).trans hstart
  have hstart : ∀ double : Bool, (if p.isAbsolute then
      if double then ⟨[slash, slash]⟩ else ⟨[slash]⟩ else cwd : Path).isAbsolute = true := by
    intro double
    split_ifs
    · rfl
    · rfl
    · exact hcwd
  simp only [absolute]
  split
  · exact (isAbsolute_join _ rfl).trans (hwhole _ (hstart _))
  · exact hwhole _ (hstart _)

variable {base base' p : Path} {names : List Bytes}

/-- The names that lead down from a directory depend on its normal steps only. -/
theorem leadsDown_congr (h : base.normalComponents = base'.normalComponents) :
    base.LeadsDown p names ↔ base'.LeadsDown p names := by
  rw [LeadsDown, LeadsDown, components_normalize, components_normalize, components_normalize, h]

/-- The path of a location has its names as steps, and they are normal. -/
theorem components_pathOf {l : Location} (hl : ∀ m ∈ l, IsName m) :
    (FileTree.pathOf l).components = .root :: l.map .name ∧
      (FileTree.pathOf l).normalComponents = .root :: l.map .name := by
  have hnormal : IsNormal true (.root :: l.map .name) := .absolute hl
  have hcomponents := (components_ofComponents_of_isNormal hnormal).2
  rw [FileTree.ofComponents_eq_pathOf] at hcomponents
  rw [← hcomponents] at hnormal ⊢
  exact ⟨rfl, normalComponents_of_isNormal hnormal⟩

end Path

namespace Source

variable {p : Path} {s : Source}

/-- The directory of a source is spelled by names behind the root, and its path by one name more. -/
theorem exists_of_ofPath (h : ofPath p = .ok s) (habs : p.isAbsolute = true) :
    ∃ (l : Location) (n : Bytes), (∀ m ∈ l, Path.IsName m) ∧ Path.IsName n ∧
      s.directory = FileTree.pathOf l ∧ s.path = FileTree.pathOf (l ++ [n]) ∧
      s.fileName = Utf8.decodeLossy n := by
  obtain ⟨n, hn, rfl⟩ := ofPath_eq_ok_iff.1 h
  have hlast : p.normalComponents.getLast? = some (.name n) := by
    rw [Path.fileName?, Path.components_normalize] at hn
    split at hn
    · next hlast => rw [hlast, Option.some.inj hn]
    · cases hn
  obtain ⟨front, hfront⟩ := List.getLast?_eq_some_iff.1 hlast
  have hnormal := Path.isNormal_normalComponents p
  rw [hfront, habs] at hnormal
  have hparent := Path.parent?_ofComponents hnormal
  obtain ⟨hdirectory, hname⟩ := Path.isNormal_of_concat hnormal
  cases hdirectory with
  | @absolute l hl =>
    have hpath : p.normalize = FileTree.pathOf (l ++ [n]) := by
      rw [Path.normalize, hfront, ← FileTree.ofComponents_eq_pathOf, List.map_append]
      rfl
    refine ⟨l, n, hl, hname, ?_, hpath, rfl⟩
    rw [hpath, ← FileTree.ofComponents_eq_pathOf, List.map_append]
    exact (congrArg (Option.getD · _) hparent).trans (FileTree.ofComponents_eq_pathOf l)

/-- The name of its file leads from the directory of a source to the source. -/
theorem exists_leadsDown_directory (h : ofPath p = .ok s) (habs : p.isAbsolute = true) :
    ∃ n, s.directory.LeadsDown s.path [n] ∧ s.fileName = Utf8.decodeLossy n := by
  obtain ⟨l, n, hl, hn, hdirectory, hpath, hfile⟩ := exists_of_ofPath h habs
  refine ⟨n, Path.below?_eq_some_iff_leadsDown.1 (Path.below?_eq_some_iff.2 ⟨List.cons_ne_nil n [], ?_⟩),
    hfile⟩
  have hall : ∀ m ∈ l ++ [n], Path.IsName m :=
    List.forall_mem_append.2 ⟨hl, List.forall_mem_singleton.2 hn⟩
  rw [hpath, hdirectory, (Path.components_pathOf hall).2, (Path.components_pathOf hl).2,
    List.map_append]
  rfl

end Source

/-! ## Build files in directories -/

namespace BuildFile

/-- The path of the build file in a directory. -/
def inDirectory (d : Path) : Path := d.join (Path.ofText buildFileName)

theorem candidates_eq (s : Source) (root : Path) : candidates s root =
    if (inDirectory s.directory).same (inDirectory root) then [inDirectory s.directory]
    else [inDirectory s.directory, inDirectory root] := rfl

theorem isName_buildFileName : Path.IsName (Utf8.encode buildFileName) :=
  ⟨by decide, by decide, by decide, by decide⟩

/-- The directory of a build file has the normal steps of the directory that it was looked for in. -/
theorem exists_parent?_inDirectory (d : Path) :
    ∃ base : Path, (inDirectory d).parent? = some base ∧
      base.normalComponents = d.normalComponents :=
  Path.exists_parent?_join d isName_buildFileName

end BuildFile

namespace World

open BuildFile Command

variable {w : World} {t : Target} {s : Source} {settings : Settings}

/-- The root of the project of a target, as seen from the root. -/
def rootOf (w : World) (t : Target) : Path := Path.absolute (FileTree.pathOf w.directory) t.projectRoot

/-- The path of the source of a target, as seen from the root. -/
def sourceOf (w : World) (t : Target) : Path := Path.absolute (FileTree.pathOf w.directory) t.source

/-- The settings can be loaded, the source is one, and wherever the build file is found the target has a
name that can stand in a statement. -/
structure IsReady (w : World) (t : Target) (settings : Settings) (s : Source) : Prop where
  loadSettings : w.loadSettings (w.rootOf t) = .ok settings
  ofPath : Source.ofPath (w.sourceOf t) = .ok s
  isTargetName : ∀ (p : Path) (directory : Text), w.locate s (w.rootOf t) = .ok p →
    Source.relativeDirectory (p.parent?.getD (w.rootOf t)) s.path = .ok directory →
    Request.IsTargetName (Request.targetNameFor (settings.apply t.overrides) s directory)

theorem isAbsolute_rootOf (w : World) (t : Target) : (w.rootOf t).isAbsolute = true :=
  Path.isAbsolute_absolute rfl t.projectRoot

theorem isAbsolute_sourceOf (w : World) (t : Target) : (w.sourceOf t).isAbsolute = true :=
  Path.isAbsolute_absolute rfl t.source

/-! ## Looking in two places -/

/-- Where the directory of a source and the root of its project are one, a build file that is found at the
root is found beside the source. -/
theorem isFile_beside_of_same (h : w.IsReady t settings s)
    (hsame : (inDirectory s.directory).same (inDirectory (w.rootOf t)) = true)
    (hfile : w.tree.isFile w.directory (inDirectory (w.rootOf t)) = true) :
    w.tree.isFile w.directory (inDirectory s.directory) = true := by
  obtain ⟨l, n, hl, -, hdirectory, -, -⟩ := Source.exists_of_ofPath h.ofPath (w.isAbsolute_sourceOf t)
  have hbeside : inDirectory s.directory = FileTree.pathOf (l ++ [Utf8.encode buildFileName]) := by
    rw [hdirectory]
    exact FileTree.join_pathOf hl isName_buildFileName
  have hall : ∀ m ∈ l ++ [Utf8.encode buildFileName], Path.IsName m :=
    List.forall_mem_append.2 ⟨hl, List.forall_mem_singleton.2 isName_buildFileName⟩
  obtain ⟨front, hparts⟩ := Path.exists_parts_join (w.rootOf t) isName_buildFileName
  have habs : (inDirectory (w.rootOf t)).isAbsolute = true :=
    (Path.isAbsolute_join _ rfl).trans (w.isAbsolute_rootOf t)
  have hspelled := FileTree.isFile_ofComponents habs hparts (by decide) hfile
  rw [← of_decide_eq_true hsame, hbeside, (Path.components_pathOf hall).1,
    FileTree.ofComponents_eq_pathOf] at hspelled
  rwa [hbeside]

theorem locate_of_beside (root : Path)
    (h : w.tree.isFile w.directory (inDirectory s.directory) = true) :
    w.locate s root = .ok (inDirectory s.directory) := by
  have hfind : (candidates s root).find? (w.tree.isFile w.directory) =
      some (inDirectory s.directory) := by
    rw [candidates_eq]
    split <;> exact List.find?_cons_of_pos h
  rw [locate, hfind]

theorem locate_of_atRoot (h : w.IsReady t settings s)
    (hbeside : w.tree.isFile w.directory (inDirectory s.directory) = false)
    (hroot : w.tree.isFile w.directory (inDirectory (w.rootOf t)) = true) :
    w.locate s (w.rootOf t) = .ok (inDirectory (w.rootOf t)) := by
  have hother : ¬(inDirectory s.directory).same (inDirectory (w.rootOf t)) = true := by
    intro hsame
    rw [isFile_beside_of_same h hsame hroot] at hbeside
    cases hbeside
  have hfind : (candidates s (w.rootOf t)).find? (w.tree.isFile w.directory) =
      some (inDirectory (w.rootOf t)) := by
    rw [candidates_eq, if_neg hother, List.find?_cons_of_neg (Bool.eq_false_iff.1 hbeside)]
    exact List.find?_cons_of_pos hroot
  rw [locate, hfind]

theorem locate_of_neither {root : Path}
    (hbeside : w.tree.isFile w.directory (inDirectory s.directory) = false)
    (hroot : w.tree.isFile w.directory (inDirectory root) = false) :
    w.locate s root = .error (.noBuildFile (candidates s root)) := by
  have hfind : (candidates s root).find? (w.tree.isFile w.directory) = none := by
    rw [List.find?_eq_none, candidates_eq]
    intro p hp
    split at hp
    · rw [List.mem_singleton.1 hp]
      exact Bool.eq_false_iff.1 hbeside
    · rcases List.mem_pair.1 hp with rfl | rfl
      · exact Bool.eq_false_iff.1 hbeside
      · exact Bool.eq_false_iff.1 hroot
  rw [locate, hfind]

theorem exists_inDirectory_of_locate {root p : Path} (h : w.locate s root = .ok p) :
    ∃ d, p = inDirectory d := by
  rw [locate] at h
  split at h
  · next found hfind =>
    obtain rfl := Except.ok.inj h
    have hmem := List.mem_of_find?_eq_some hfind
    rw [candidates_eq] at hmem
    split at hmem
    · exact ⟨_, List.mem_singleton.1 hmem⟩
    · rcases List.mem_pair.1 hmem with h | h <;> exact ⟨_, h⟩
  · cases h

/-! ## What a command resolves -/

/-- Behind the settings and the source, the build file is looked for and the request is worked out. -/
theorem resolve_eq (h : w.IsReady t settings s) :
    w.resolve t = (w.locate s (w.rootOf t)).bind fun p =>
      (Request.ofPaths s.path (p.parent?.getD (w.rootOf t)) (settings.apply t.overrides)).bind
        fun r => .ok ⟨p, r, settings.apply t.overrides⟩ := by
  have hload := h.loadSettings
  have hsource := h.ofPath
  rw [rootOf] at hload
  rw [sourceOf] at hsource
  rw [resolve]
  simp only [hload, hsource]
  rfl

/-- A request that goes to a build file.  Its source is declared under the names that lead down from the
directory of that file, and if these are texts, what is declared leads from there to the source. -/
structure LeadsBack (s : Source) (r : Resolved) (names : List Bytes) : Prop where
  relativePath : r.request.relativePath = Path.namesText names
  parent : ∃ base, r.buildFile.parent? = some base ∧ base.LeadsDown s.path names ∧
    ((∀ n ∈ names, (Utf8.decode? n).isSome = true) →
      (base.join (Path.ofText r.request.relativePath)).normalize = s.path)

/-- Where names lead down from the directory of the build file, the source is declared under them. -/
theorem resolve_of_leadsDown (h : w.IsReady t settings s) {d : Path} {names : List Bytes}
    (hlocate : w.locate s (w.rootOf t) = .ok (inDirectory d)) (hdown : d.LeadsDown s.path names) :
    ∃ r, w.resolve t = .ok r ∧ r.buildFile = inDirectory d ∧ LeadsBack s r names := by
  obtain ⟨base, hparent, hbase⟩ := exists_parent?_inDirectory d
  have hbelow : base.LeadsDown s.path names := (Path.leadsDown_congr hbase).2 hdown
  have hrelative := Source.relativePath_of_leadsDown hbelow
  obtain ⟨front, n, hconcat, -⟩ := Source.exists_of_relativePath hrelative
  have hs := Source.ofPath_path h.ofPath
  have hname := h.isTargetName _ _ hlocate (by
    rw [hparent]
    exact Request.relativeDirectory_of_leadsDown hconcat)
  have hrequest := Request.ofPaths_of_leadsDown (settings.apply t.overrides) hs hconcat
  rw [Request.nameProblem?_eq_none_iff.2 hname] at hrequest
  obtain ⟨request, hrequest⟩ := hrequest
  obtain ⟨-, hsource, hpath, -⟩ := Request.exists_of_ofPaths hrequest
  obtain rfl := Except.ok.inj (hs.symm.trans hsource)
  have htext := Except.ok.inj (hpath.symm.trans hrelative)
  refine ⟨⟨inDirectory d, request, settings.apply t.overrides⟩, ?_, rfl, htext, base, hparent, hbelow,
    fun htexts => ?_⟩
  · rw [resolve_eq h, hlocate]
    change (Request.ofPaths _ ((inDirectory d).parent?.getD _) _).bind _ = _
    rw [hparent]
    exact bind_eq_ok.2 ⟨request, hrequest, rfl⟩
  · change (base.join (Path.ofText request.relativePath)).normalize = _
    rw [htext, Path.normalize_join_namesText hbelow htexts]
    exact (Source.path_of_ofPath hs).symm

/-- Where none do, the source is refused. -/
theorem resolve_of_outside (h : w.IsReady t settings s) {d : Path}
    (hlocate : w.locate s (w.rootOf t) = .ok (inDirectory d))
    (hdown : ∀ names, ¬d.LeadsDown s.path names) :
    ∃ base, (inDirectory d).parent? = some base ∧
      w.resolve t = .error (.outsideBase base s.path) := by
  obtain ⟨base, hparent, hbase⟩ := exists_parent?_inDirectory d
  have hout : ∀ names, ¬base.LeadsDown s.path names := fun names hnames =>
    hdown names ((Path.leadsDown_congr hbase).1 hnames)
  refine ⟨base, hparent, ?_⟩
  rw [resolve_eq h, hlocate]
  change (Request.ofPaths _ ((inDirectory d).parent?.getD _) _).bind _ = _
  rw [hparent]
  change (Request.ofPaths s.path base _).bind _ = _
  rw [Request.ofPaths_of_outside (Source.ofPath_path h.ofPath) (Source.relativePath_of_outside hout)]
  rfl

/-- What comes of a source `s` in a project with the root `root`, where `isFile` tells which paths lead to
regular files. -/
structure Resolves (isFile : Path → Bool) (s : Source) (root : Path) (result : Except Fault Resolved) :
    Prop where
  /-- The build file beside the source is taken first, and the source has its bare name there. -/
  beside : isFile (inDirectory s.directory) = true →
    ∃ r, result = .ok r ∧ r.buildFile = inDirectory s.directory ∧ r.request.relativePath = s.fileName
  /-- Then the one at the root of the project, which is of use to the sources below the root. -/
  atRoot : isFile (inDirectory s.directory) = false → isFile (inDirectory root) = true →
    ((∃ r, result = .ok r) ↔ ∃ names, root.LeadsDown s.path names) ∧
    (∀ names, root.LeadsDown s.path names → ∃ r, result = .ok r ∧ r.buildFile = inDirectory root ∧
      r.request.relativePath = joinWith ['/'] (names.map Utf8.decodeLossy)) ∧
    ((∀ names, ¬root.LeadsDown s.path names) → ∃ base, (inDirectory root).parent? = some base ∧
      result = .error (.outsideBase base s.path))
  /-- If there is neither, both places are named, or one if they are the same. -/
  neither : isFile (inDirectory s.directory) = false → isFile (inDirectory root) = false →
    result = .error (.noBuildFile
      (if (inDirectory s.directory).components = (inDirectory root).components then
        [inDirectory s.directory]
      else [inDirectory s.directory, inDirectory root]))
  /-- Whichever it is, what is declared leads from there to the source. -/
  leadsBack : ∀ r, result = .ok r → ∃ names, LeadsBack s r names

/-- With a build file there is a request exactly for the sources below the directory that it was looked
for in. -/
theorem exists_resolve_iff (h : w.IsReady t settings s) {d : Path}
    (hlocate : w.locate s (w.rootOf t) = .ok (inDirectory d)) :
    (∃ r, w.resolve t = .ok r) ↔ ∃ names, d.LeadsDown s.path names := by
  constructor
  · rintro ⟨r, hr⟩
    refine Classical.byContradiction fun hdown => ?_
    obtain ⟨base, -, hrefused⟩ := resolve_of_outside h hlocate (not_exists.1 hdown)
    rw [hr] at hrefused
    cases hrefused
  · rintro ⟨names, hnames⟩
    obtain ⟨r, hr, -⟩ := resolve_of_leadsDown h hlocate hnames
    exact ⟨r, hr⟩

/-- A request that was worked out leads back to its source. -/
theorem exists_leadsBack_of_resolve (h : w.IsReady t settings s) {r : Resolved}
    (hr : w.resolve t = .ok r) : ∃ names, LeadsBack s r names := by
  have hsteps := hr
  rw [resolve_eq h] at hsteps
  obtain ⟨p, hlocate, -⟩ := bind_eq_ok.1 hsteps
  obtain ⟨d, rfl⟩ := exists_inDirectory_of_locate hlocate
  obtain ⟨names, hnames⟩ := (exists_resolve_iff h hlocate).1 ⟨r, hr⟩
  obtain ⟨r', hr', -, hback⟩ := resolve_of_leadsDown h hlocate hnames
  obtain rfl := Except.ok.inj (hr.symm.trans hr')
  exact ⟨names, hback⟩

/-- A command that has its settings and its source finds the build file beside the source, or else the one
at the root of the project, or else none; and what it declares follows from which of the two it is.  It
leaves the world as it is. -/
theorem resolve_agrees (h : w.IsReady t settings s) :
    ∃ result, (Command.resolve host t).run w = (result, w) ∧
      Resolves (w.tree.isFile w.directory) s (w.rootOf t) result := by
  refine ⟨w.resolve t, run_resolve w t, ?_, ?_, ?_, ?_⟩
  · intro hbeside
    obtain ⟨n, hdown, hfile⟩ := Source.exists_leadsDown_directory h.ofPath (w.isAbsolute_sourceOf t)
    obtain ⟨r, hr, hchosen, hback⟩ := resolve_of_leadsDown h (locate_of_beside _ hbeside) hdown
    exact ⟨r, hr, hchosen, hback.relativePath.trans hfile.symm⟩
  · intro hbeside hroot
    have hlocate := locate_of_atRoot h hbeside hroot
    refine ⟨exists_resolve_iff h hlocate, fun names hdown => ?_, resolve_of_outside h hlocate⟩
    obtain ⟨r, hr, hchosen, hback⟩ := resolve_of_leadsDown h hlocate hdown
    exact ⟨r, hr, hchosen, hback.relativePath⟩
  · intro hbeside hroot
    rw [resolve_eq h, locate_of_neither hbeside hroot, candidates_eq, Path.same]
    simp only [decide_eq_true_eq]
    rfl
  · exact fun r hr => exists_leadsBack_of_resolve h hr

/-- A project whose build file is a link, with a directory that has none. -/
def nestedProject : World where
  tree := ⟨[([['p']].map Utf8.encode, .directory 0o755),
    ([['p'], ['d']].map Utf8.encode, .directory 0o755),
    ([['p'], "CMakeLists.txt".toList].map Utf8.encode, .link (Utf8.encode ['b'])),
    ([['p'], ['b']].map Utf8.encode, .file 0o644 [])]⟩
  directory := [['p'], ['d']].map Utf8.encode
  terminal := { input := [] }

/-- A source in that directory; the root is spelled with a step up. -/
def nestedTarget : Target where
  source := ⟨.ofText ".././d/a.c".toList, by decide⟩
  projectRoot := ⟨.ofText "..//.".toList, by decide⟩
  overrides := {}

/-- The source of `nestedTarget`. -/
def nestedSource : Source where
  stem := ['a']
  fileName := "a.c".toList
  directory := .ofText "/p/d".toList
  path := .ofText "/p/d/a.c".toList

theorem resolve_agrees_nestedProject :
    nestedProject.IsReady nestedTarget .default nestedSource ∧
      ∃ r, (Command.resolve host nestedTarget).run nestedProject = (.ok r, nestedProject) ∧
        r.buildFile = .ofText "/p/d/../CMakeLists.txt".toList ∧
        r.request.relativePath = "d/a.c".toList := by
  have hready : nestedProject.IsReady nestedTarget .default nestedSource := by
    refine ⟨by decide +kernel, by decide +kernel, fun p directory hp hdirectory => ?_⟩
    have hlocate : nestedProject.locate nestedSource (nestedProject.rootOf nestedTarget) =
        .ok (.ofText "/p/d/../CMakeLists.txt".toList) := by decide +kernel
    obtain rfl := Except.ok.inj (hlocate.symm.trans hp)
    have hrelative : Source.relativeDirectory
        ((Path.ofText "/p/d/../CMakeLists.txt".toList).parent?.getD
          (nestedProject.rootOf nestedTarget)) nestedSource.path = .ok "d".toList := by
      decide +kernel
    obtain rfl := Except.ok.inj (hrelative.symm.trans hdirectory)
    decide +kernel
  have hdown : (nestedProject.rootOf nestedTarget).LeadsDown nestedSource.path
      (["d".toList, "a.c".toList].map Utf8.encode) :=
    ⟨List.cons_ne_nil _ _, by decide +kernel⟩
  obtain ⟨result, hrun, hresolves⟩ := resolve_agrees hready
  obtain ⟨-, hbelow, -⟩ := hresolves.atRoot (by decide +kernel) (by decide +kernel)
  obtain ⟨r, rfl, hfile, hpath⟩ := hbelow _ hdown
  exact ⟨hready, r, hrun, hfile.trans (by decide +kernel), hpath.trans (by decide +kernel)⟩

end World

end BuildTargets

import BuildTargets.Proofs.Command.Agreement
import BuildTargets.Proofs.Command.Setting
import BuildTargets.Proofs.FileTree.Replacement

/-!
# Replacing the text of a store

The store of a build file replaces the whole file or leaves the world as it was
(`replaced_or_unchanged`).  A file keeps its permissions, so a text that has been put into a file which
may not be read is not read back.  Links on the way of the path are followed and stay what they are, but
a link that leads nowhere is itself what the new file takes the place of (`link_stays_iff`).
-/

namespace BuildTargets

namespace World

open FileTree

variable {w w' : World} {p : Path} {text : Text} {l : Location}

/-- A replacement that succeeds is one of the tree. -/
theorem replace_of_run_ok (h : ((host.store p).replace text).run w = (.ok (), w')) :
    w.tree.replace w.directory p (Utf8.encode text) = (.ok (), w'.tree) ∧
      w' = { w with tree := w'.tree } := by
  rw [run_store_replace] at h
  cases hreplace : w.tree.replace w.directory p (Utf8.encode text) with
  | mk result tree =>
  rw [hreplace] at h
  cases result with
  | ok done =>
    cases h
    exact ⟨rfl, rfl⟩
  | error cause => cases h

/-- A replacement that fails leaves the world as it was. -/
theorem eq_of_run_error {fault : Fault}
    (h : ((host.store p).replace text).run w = (.error fault, w')) : w' = w := by
  rw [run_store_replace] at h
  cases hreplace : w.tree.replace w.directory p (Utf8.encode text) with
  | mk result tree =>
  rw [hreplace] at h
  cases result with
  | ok done => cases h
  | error cause =>
    cases h
    rw [eq_of_replace_error hreplace]

/-- What is read of a text that has been put into a file, by the permissions that are seen through the
path of the file. -/
def readBack (text : Text) : Except IoCause Nat → Except Fault (Option Text)
  | .ok mode =>
    if (Node.file mode (Utf8.encode text)).permits .read then .ok (some text)
    else .error (.io .forbidden)
  | .error cause => .error (.io cause)

/-- What a replacement through a path has made of a world: one file is another, at `l`. -/
structure Replaced (w w' : World) (p : Path) (text : Text) (l : Location) : Prop where
  /-- The file is where the path leads, or if it leads nowhere what the path itself names. -/
  place : w.tree.destination? w.directory p = some l
  /-- The file holds the text, with the permissions of the file before or as a private file. -/
  file : ∃ mode, w'.tree.get? l = some (.file mode (Utf8.encode text)) ∧
    ((∃ old, w.tree.get? l = some (.file mode old)) ∨
      w.tree.mode w.directory p = .error .notFound ∧ mode = privateMode)
  other : ∀ k, k ≠ l → w'.tree.get? k = w.tree.get? k
  world : w' = { w with tree := w'.tree }
  /-- The permissions that are seen through the path are those from before, if a file was there. -/
  mode : w'.tree.mode w.directory p =
    if w.tree.mode w.directory p = .error .notFound then .ok privateMode
    else w.tree.mode w.directory p
  /-- The text is what is read through the path, if these permissions grant it. -/
  read : (host.store p).read.run w' = (readBack text (w'.tree.mode w.directory p), w')

/-- A store reads what has been put into it, if the permissions that are seen through its path grant
reading. -/
theorem run_store_read_of_isReplaced (hcwd : w.tree.HasDirectory w.directory)
    (h : w.tree.IsReplaced w'.tree w.directory p (Utf8.encode text) l)
    (hdirectory : w'.directory = w.directory) :
    (host.store p).read.run w' = (readBack text (w'.tree.mode w.directory p), w') := by
  have hread := h.read_eq hcwd
  rw [← hdirectory] at hread ⊢
  cases hmode : w'.tree.mode w'.directory p with
  | ok mode =>
    rw [hmode] at hread
    simp only [readBack] at hread ⊢
    split_ifs at hread ⊢ with hpermits
    · exact run_store_read_of_ok (readText_of_read hread)
    · exact run_store_read_of_error (by rw [readText, hread]) nofun
  | error cause =>
    rw [hmode] at hread
    refine run_store_read_of_error (by rw [readText, hread]) ?_
    rintro rfl
    exact h.mode_ne_notFound hcwd (hdirectory ▸ hmode)

theorem exists_isReplaced (hcwd : w.tree.HasDirectory w.directory)
    (h : ((host.store p).replace text).run w = (.ok (), w')) :
    ∃ l, w.tree.IsReplaced w'.tree w.directory p (Utf8.encode text) l :=
  isReplaced_of_replace hcwd (replace_of_run_ok h).1

/-- Through a store a text replaces one file, and is read back if that file may be read, or else nothing
changes. -/
theorem replaced_or_unchanged (w : World) (p : Path) (text : Text)
    (hcwd : w.tree.HasDirectory w.directory) :
    (∀ w', ((host.store p).replace text).run w = (.ok (), w') → ∃ l, w.Replaced w' p text l) ∧
    ∀ fault w', ((host.store p).replace text).run w = (.error fault, w') → w' = w := by
  refine ⟨fun w' h => ?_, fun fault w' => eq_of_run_error⟩
  obtain ⟨l, hl⟩ := exists_isReplaced hcwd h
  have hworld := (replace_of_run_ok h).2
  have hdirectory : w'.directory = w.directory := by rw [hworld]
  exact ⟨l, {
    place := hl.destination?_eq
    file := hl.self
    other := fun _ => hl.other
    world := hworld
    mode := hl.mode_eq hcwd
    read := run_store_read_of_isReplaced hcwd hl hdirectory }⟩

/-- A location in the directory `p`. -/
def inside (names : List Text) : Location := (['p'] :: names).map Utf8.encode

/-- A directory `p` with a link `a` to a link `b` to the file `d/f`, a link `c` that leads nowhere, and a
file `g` whose owner may not read it. -/
def linkedProject : World where
  tree := ⟨[(inside [['a']], .link (Utf8.encode ['b'])),
    (inside [['b']], .link (Utf8.encode ['d', '/', 'f'])),
    (inside [['c']], .link (Utf8.encode ['e'])),
    (inside [['d']], .directory 0o755),
    (inside [['d'], ['f']], .file 0o640 (Utf8.encode ['x'])),
    (inside [['g']], .file 0o077 (Utf8.encode ['x'])),
    (inside [], .directory 0o755)]⟩
  directory := inside []
  terminal := { input := [] }

theorem hasDirectory_linkedProject : linkedProject.tree.HasDirectory linkedProject.directory where
  reaches := (hasDirectory_root _).reaches_concat ⟨by decide, by decide, by decide, by decide⟩
  isDirectory := ⟨0o755, by decide +kernel⟩

/-- A text that is put through the links is read back through them, and the directory takes none. -/
theorem replaced_or_unchanged_linkedProject :
    (∃ w', ((host.store (.ofText ['a'])).replace ['y']).run linkedProject = (.ok (), w') ∧
      w'.tree.mode w'.directory (.ofText ['a']) = .ok 0o640 ∧
      (host.store (.ofText ['a'])).read.run w' = (.ok (some ['y']), w')) ∧
    ∃ fault, ((host.store (.ofText ['d'])).replace ['y']).run linkedProject =
      (.error fault, linkedProject) := by
  constructor
  · have hstore : (((host.store (.ofText ['a'])).replace ['y']).run linkedProject).1 =
        .ok () := by decide +kernel
    obtain ⟨w', hrun⟩ : ∃ w', ((host.store (.ofText ['a'])).replace ['y']).run
        linkedProject = (.ok (), w') := ⟨_, Prod.ext hstore rfl⟩
    obtain ⟨l, hl⟩ := (replaced_or_unchanged linkedProject (.ofText ['a']) ['y']
      hasDirectory_linkedProject).1 w' hrun
    have hbefore : linkedProject.tree.mode linkedProject.directory (.ofText ['a']) =
        .ok 0o640 := by decide +kernel
    have hmode : w'.tree.mode linkedProject.directory (.ofText ['a']) = .ok 0o640 := by
      rw [hl.mode, hbefore]
      rfl
    refine ⟨w', hrun, by rwa [hl.world], ?_⟩
    rw [hl.read, hmode]
    rfl
  · have hstore : (((host.store (.ofText ['d'])).replace ['y']).run linkedProject).1 =
        .error (.io .isADirectory) := by decide +kernel
    have hrun : ((host.store (.ofText ['d'])).replace ['y']).run linkedProject =
        (.error (.io .isADirectory), _) := Prod.ext hstore rfl
    have hsame := (replaced_or_unchanged linkedProject (.ofText ['d']) ['y']
      hasDirectory_linkedProject).2 _ _ hrun
    exact ⟨_, hrun.trans (congrArg (Prod.mk _) hsame)⟩

/-- A text that is put into the file that may not be read is not read back. -/
theorem replaced_text_forbidden_linkedProject :
    (((host.store (.ofText ['g'])).replace ['y']).run linkedProject).1 = .ok () ∧
      (((host.store (.ofText ['g'])).read).run
        (((host.store (.ofText ['g'])).replace ['y']).run linkedProject).2).1 =
          .error (.io .forbidden) := by
  decide +kernel

/-- After a text has been put into a store, it is in the file at the end of the links, if there is one,
and otherwise in a new file where the path itself says.  A link stays the same unless it is the one that
the path names and leads nowhere. -/
theorem link_stays_iff (w w' : World) (p : Path) (text : Text)
    (hcwd : w.tree.HasDirectory w.directory)
    (h : ((host.store p).replace text).run w = (.ok (), w')) :
    (∀ l n, w.tree.trace w.directory .locate p = .ok (.existing l n) →
      ∃ mode, w'.tree.get? l = some (.file mode (Utf8.encode text))) ∧
    (∀ target, w.tree.LeadsNowhere w.directory p →
      w.tree.resolve w.directory .rename p = .ok target →
      w'.tree.get? target.location = some (.file privateMode (Utf8.encode text))) ∧
    ∀ k address, w.tree.get? k = some (.link address) →
      (w'.tree.get? k = some (.link address) ↔
        ¬(w.tree.LeadsNowhere w.directory p ∧
          w.tree.resolve w.directory .rename p = .ok (.existing k (.link address)))) := by
  obtain ⟨l, hl⟩ := exists_isReplaced hcwd h
  cases hl with
  | @onto mode old hfound hput =>
    refine ⟨fun k n hk => ?_, fun target hmissing => absurd hfound (hmissing _ _),
      fun k address hk => ?_⟩
    · rw [hfound] at hk
      cases hk
      exact ⟨mode, hput.self⟩
    · have hne : k ≠ l := by
        rintro rfl
        cases (holds_of_trace hfound : w.tree.get? k = _).symm.trans hk
      exact iff_of_true ((hput.other hne).trans hk) fun hlost => hlost.1 _ _ hfound
  | into hmissing hmode hfound hlocation hdirectory hself hother =>
    have hnowhere := leadsNowhere_of_isMissing hmissing
    refine ⟨fun k n hk => absurd hk (hnowhere _ _), fun target _ htarget => ?_,
      fun k address hk => ?_⟩
    · rw [hfound] at htarget
      cases htarget
      rwa [hlocation]
    · by_cases hkl : k = l
      · subst hkl
        refine iff_of_false (fun hstays => ?_) (not_not_intro ⟨hnowhere, ?_⟩)
        · cases hself.symm.trans hstays
        · rw [hfound, (holds_of_resolve hfound).eq_existing hk hlocation]
      · refine iff_of_true ((hother hkl).trans hk) fun hlost => hkl ?_
        rw [hfound] at hlost
        cases hlost.2
        exact hlocation

/-- Behind two links the text arrives in the file, and both links stay. -/
theorem link_stays_iff_linkedProject :
    ∃ w', ((host.store (.ofText ['a'])).replace ['y']).run linkedProject = (.ok (), w') ∧
      (∃ mode, w'.tree.get? (inside [['d'], ['f']]) =
        some (.file mode (Utf8.encode ['y']))) ∧
      w'.tree.get? (inside [['a']]) = some (.link (Utf8.encode ['b'])) ∧
      w'.tree.get? (inside [['b']]) = some (.link (Utf8.encode ['d', '/', 'f'])) := by
  have hstore : (((host.store (.ofText ['a'])).replace ['y']).run linkedProject).1 =
      .ok () := by decide +kernel
  obtain ⟨w', hrun⟩ : ∃ w', ((host.store (.ofText ['a'])).replace ['y']).run
      linkedProject = (.ok (), w') := ⟨_, Prod.ext hstore rfl⟩
  have hfound : linkedProject.tree.trace linkedProject.directory .locate (.ofText ['a']) =
      .ok (.existing (inside [['d'], ['f']])
        (.file 0o640 (Utf8.encode ['x']))) := by decide +kernel
  obtain ⟨hfile, -, hlinks⟩ := link_stays_iff linkedProject w' (.ofText ['a']) ['y']
    hasDirectory_linkedProject hrun
  have hstays : ∀ k address, linkedProject.tree.get? k = some (.link address) →
      w'.tree.get? k = some (.link address) :=
    fun k address hk => (hlinks k address hk).2 fun hlost => hlost.1 _ _ hfound
  exact ⟨w', hrun, hfile _ _ hfound, hstays _ _ (by decide +kernel), hstays _ _ (by decide +kernel)⟩

/-- The link that leads nowhere gives way to the new file, and where it led there is still nothing. -/
theorem link_lost_linkedProject :
    linkedProject.tree.get? (inside [['c']]) =
        some (.link (Utf8.encode ['e'])) ∧
      (((host.store (.ofText ['c'])).replace ['y']).run linkedProject).1 = .ok () ∧
      (((host.store (.ofText ['c'])).replace ['y']).run linkedProject).2.tree.get?
          (inside [['c']]) =
        some (.file privateMode (Utf8.encode ['y'])) ∧
      (((host.store (.ofText ['c'])).replace ['y']).run linkedProject).2.tree.get?
          (inside [['e']]) = none := by
  decide +kernel

end World

end BuildTargets

import BuildTargets.FileTree.Access

/-!
# Reading what was written

A write changes the tree at one location, where a file was or where a name was free.  The way of a path
that leads there is the same before and after: it passes through directories and links only
(`pass_of_create`).  So a file that could be read, or was missing, is read with the content that was
written to it (`read_of_write`).
-/

namespace BuildTargets.FileTree

variable {t t' : FileTree} {cwd here l : Location} {mode : Nat} {content : Bytes} {p : Path}
  {parts : List Bytes}

/-! ## Where a path has led -/

/-- The location of a target. -/
def Target.location : Target → Location
  | .existing l _ => l
  | .vacant l => l

/-- A target as the tree has it: the entry at a location, or nothing there. -/
def Holds (t : FileTree) : Target → Prop
  | .existing l n => t.get? l = some n
  | .vacant l => t.get? l = none

/-- A path that arrives finds what the tree has. -/
theorem holds_of_pass {purpose : Purpose} {target : Target}
    (h : t.pass purpose here parts = .arrived target) : t.Holds target := by
  fun_induction pass t purpose here parts with
  | case1 here n hn =>
    cases h
    exact hn
  | case4 _ _ _ ih => exact ih h
  | case6 _ _ _ _ _ ih => exact ih h
  | case7 _ _ _ _ _ _ ih => exact ih h
  | case9 _ _ _ _ _ _ _ _ _ _ hnext =>
    cases h
    exact hnext
  | case11 _ _ _ _ _ _ _ _ _ _ _ hnext =>
    cases h
    exact hnext
  | case13 _ _ _ _ _ _ _ _ _ _ _ _ _ ih => exact ih h
  | case2 | case3 | case5 | case8 | case10 | case12 => cases h

/-- A walk that arrives finds what the tree has. -/
theorem holds_of_walk {purpose : Purpose} {links : Nat} {target : Target}
    (h : t.walk purpose links here parts = .ok target) : t.Holds target := by
  induction links generalizing here parts with
  | zero =>
    unfold walk at h
    split at h
    · next hpass =>
      cases h
      exact holds_of_pass hpass
    · cases h
    · cases h
  | succ links ih =>
    unfold walk at h
    split at h
    · next hpass =>
      cases h
      exact holds_of_pass hpass
    · cases h
    · exact ih h

/-- A path that has been resolved leads to what the tree has. -/
theorem holds_of_resolve {purpose : Purpose} {target : Target}
    (h : t.resolve cwd purpose p = .ok target) : t.Holds target := by
  unfold resolve trace at h
  split at h
  · cases h
  · split at h
    · cases h
    · split at h
      · cases h
      · exact holds_of_walk h

/-! ## The same path after a write -/

/-- A tree is another one but for a file at one location, where there was a file or nothing. -/
structure PutsFile (t t' : FileTree) (l : Location) (mode : Nat) (content : Bytes) : Prop where
  self : t'.get? l = some (.file mode content)
  other : ∀ {k}, k ≠ l → t'.get? k = t.get? k
  old : ∀ {n}, t.get? l = some n → ∃ mode content, n = .file mode content

/-- Where a path can go on in one of the trees it can go on in the other, which is not where the file is
put. -/
theorem PutsFile.goesOn (h : t.PutsFile t' l mode content)
    (hdir : ¬(!(t.get? here).any Node.isDirectory) = true) :
    ¬(!(t'.get? here).any Node.isDirectory) = true ∧
      ∀ part, ¬(needsSearch .create part && !t.permits .search here) = true →
        ¬(needsSearch .look part && !t'.permits .search here) = true := by
  have hne : here ≠ l := by
    rintro rfl
    cases hn : t.get? here with
    | none =>
      rw [hn] at hdir
      exact hdir rfl
    | some n =>
      obtain ⟨mode, content, rfl⟩ := h.old hn
      rw [hn] at hdir
      exact hdir rfl
  have hsame := h.other hne
  have hpermits : t'.permits .search here = t.permits .search here := by
    rw [permits, permits, hsame]
  refine ⟨by rwa [hsame], fun part hsearch => ?_⟩
  rw [hpermits]
  exact hsearch

/-- Where a path is refused for its name, it is so for any purpose that asks for less. -/
theorem nameRefusal?_look {name : Bytes} {rest : List Bytes}
    (h : nameRefusal? .create name rest = none) : nameRefusal? .look name rest = none := by
  unfold nameRefusal? at h ⊢
  by_cases hrest : (rest ≠ [] && rest.all (· = [])) = true
  · rw [if_pos hrest] at h
    cases h
  · rw [if_neg hrest] at h ⊢
    exact h

/-- A path to a name that is free ends there. -/
theorem eq_nil_of_nameRefusal? {name : Bytes} {rest : List Bytes}
    (h : nameRefusal? .create name rest = none) (hrest : (rest.all (· = [])) = true) : rest = [] := by
  refine Decidable.byContradiction fun hne => ?_
  unfold nameRefusal? at h
  rw [if_pos (by simpa [hne] using hrest)] at h
  cases h

/-- A name that a path goes to in one of the trees is one that it goes to in the other, where it leads
through a link or on from what else bears the name. -/
theorem PutsFile.pass_name (h : t.PutsFile t' l mode content) {part : Bytes} {rest : List Bytes}
    (hdir : ¬(!(t.get? here).any Node.isDirectory) = true) (hempty : ¬part = [])
    (hsearch : ¬(needsSearch .create part && !t.permits .search here) = true)
    (hdot : ¬part = [Path.dot]) (hdots : ¬part = [Path.dot, Path.dot])
    (hrefusal : nameRefusal? .create part rest = none) :
    (∀ target, t'.get? (here ++ [part]) = some (.link target) →
      t'.pass .look here (part :: rest) =
        .diverted (startOf here target) (Path.parts target ++ rest)) ∧
    ∀ n, t'.get? (here ++ [part]) = some n → (∀ target, n ≠ .link target) →
      t'.pass .look here (part :: rest) = t'.pass .look (here ++ [part]) rest := by
  obtain ⟨hdir, hgoes⟩ := h.goesOn hdir
  rw [pass, if_neg hdir, if_neg hempty, if_neg (hgoes _ hsearch), if_neg hdot, if_neg hdots,
    nameRefusal?_look hrefusal]
  constructor
  · intro target htarget
    simp only [htarget]
    exact if_neg (by simp)
  · intro n hn hlink
    cases n with
    | link target => exact absurd rfl (hlink target)
    | file mode content => simp only [hn]
    | directory mode => simp only [hn]

/-- The way to a file that is put somewhere is the same afterwards. -/
theorem pass_of_create (h : t.PutsFile t' l mode content) :
    (∀ target, t.pass .create here parts = .arrived target → target.location = l →
      t'.pass .look here parts = .arrived (.existing l (.file mode content))) ∧
    ∀ start rest, t.pass .create here parts = .diverted start rest →
      t'.pass .look here parts = .diverted start rest := by
  fun_induction pass t .create here parts with
  | case1 here n hn =>
    refine ⟨fun target ht hl => ?_, fun _ _ hd => by cases hd⟩
    cases ht
    have hl : here = l := hl
    rw [pass, hl, h.self]
  | case2 | case3 | case5 | case8 | case10 =>
    constructor
    · intro _ h
      cases h
    · intro _ _ h
      cases h
  | case4 here rest hdir ih =>
    obtain ⟨hdir, -⟩ := h.goesOn hdir
    rw [pass, if_neg hdir, if_pos rfl]
    exact ih
  | case6 here rest hdir hempty hsearch ih =>
    obtain ⟨hdir, hgoes⟩ := h.goesOn hdir
    rw [pass, if_neg hdir, if_neg hempty, if_neg (hgoes _ hsearch), if_pos rfl]
    exact ih
  | case7 here rest hdir hempty hsearch hdot ih =>
    obtain ⟨hdir, hgoes⟩ := h.goesOn hdir
    rw [pass, if_neg hdir, if_neg hempty, if_neg (hgoes _ hsearch), if_neg hdot, if_pos rfl]
    exact ih
  | case9 here part rest hdir hempty hsearch hdot hdots hrefusal next hnext hrest =>
    refine ⟨fun target ht hl => ?_, fun _ _ hd => by cases hd⟩
    cases ht
    have hl : here ++ [part] = l := hl
    cases eq_nil_of_nameRefusal? hrefusal hrest
    have hself : t'.get? (here ++ [part]) = some (.file mode content) := hl ▸ h.self
    rw [(h.pass_name hdir hempty hsearch hdot hdots hrefusal).2 _ hself fun _ => Node.noConfusion,
      pass, hself, hl]
  | case11 here part rest hdir hempty hsearch hdot hdots hrefusal next link hnext hrename =>
    exact absurd hrename (by simp)
  | case12 here part rest hdir hempty hsearch hdot hdots hrefusal next link hnext hrename =>
    constructor
    · intro _ ht
      cases ht
    intro start rest' hstart
    cases hstart
    have hne : here ++ [part] ≠ l := by
      rintro rfl
      obtain ⟨mode, content, hfile⟩ := h.old hnext
      cases hfile
    exact (h.pass_name hdir hempty hsearch hdot hdots hrefusal).1 link ((h.other hne).trans hnext)
  | case13 here part rest hdir hempty hsearch hdot hdots hrefusal next n hlink hnext ih =>
    obtain ⟨n', hnext', hlink'⟩ : ∃ n', t'.get? (here ++ [part]) = some n' ∧
        ∀ target, n' ≠ .link target := by
      by_cases hl : here ++ [part] = l
      · exact ⟨.file mode content, hl ▸ h.self, fun _ => Node.noConfusion⟩
      · exact ⟨n, (h.other hl).trans hnext, hlink⟩
    rw [(h.pass_name hdir hempty hsearch hdot hdots hrefusal).2 n' hnext' hlink']
    exact ih

/-- A walk to a file that is put somewhere arrives at it afterwards. -/
theorem walk_of_create (h : t.PutsFile t' l mode content) {links : Nat} {target : Target}
    (hwalk : t.walk .create links here parts = .ok target) (hl : target.location = l) :
    t'.walk .look links here parts = .ok (.existing l (.file mode content)) := by
  induction links generalizing here parts with
  | zero =>
    unfold walk at hwalk ⊢
    split at hwalk
    · next hpass =>
      cases hwalk
      rw [(pass_of_create h).1 _ hpass hl]
    · cases hwalk
    · cases hwalk
  | succ links ih =>
    unfold walk at hwalk ⊢
    split at hwalk
    · next hpass =>
      cases hwalk
      rw [(pass_of_create h).1 _ hpass hl]
    · cases hwalk
    · next hpass =>
      rw [(pass_of_create h).2 _ _ hpass]
      exact ih hwalk

/-- A path to a file that is put somewhere is resolved to it afterwards. -/
theorem resolve_of_create (h : t.PutsFile t' l mode content) {target : Target}
    (hresolve : t.resolve cwd .create p = .ok target) (hl : target.location = l) :
    t'.resolve cwd .look p = .ok (.existing l (.file mode content)) := by
  unfold resolve trace at hresolve ⊢
  split at hresolve
  · cases hresolve
  · next hlong =>
    rw [if_neg hlong]
    split at hresolve
    · cases hresolve
    · next hzero =>
      rw [if_neg hzero]
      split at hresolve
      · cases hresolve
      · next hempty =>
        rw [if_neg hempty]
        exact walk_of_create h hresolve hl

/-! ## Reading after writing -/

/-- A file that replaces a file, or is put where there was nothing, is in nobody's way. -/
theorem putsFile_set (hold : ∀ {n}, t.get? l = some n → ∃ mode content, n = .file mode content)
    (mode : Nat) (content : Bytes) :
    t.PutsFile (t.set l (.file mode content)) l mode content := by
  have hne : l ≠ [] := by
    rintro rfl
    have hroot : t.get? [] = some (.directory 0o755) := rfl
    obtain ⟨mode, content, hfile⟩ := hold hroot
    cases hfile
  exact {
    self := by rw [get?_set _ _ _ hne, if_pos rfl]
    other := fun hk => by rw [get?_set _ _ _ hne, if_neg hk]
    old := hold }

/-- A file that is read grants it, and a missing one is not there. -/
theorem read_of_resolve (h : t.resolve cwd .look p = .ok (.existing l (.file mode content))) :
    t.read cwd p =
      if (Node.file mode content).permits .read = true then .ok content else .error .forbidden := by
  rw [read, h]
  cases hpermits : (Node.file mode content).permits .read <;> simp [hpermits]

/-- What has been written to a file is read from it, if the file could be read before or was missing. -/
theorem read_of_write (h : t.write cwd p content = .ok t')
    (hread : (∃ old, t.read cwd p = .ok old) ∨ t.read cwd p = .error .notFound) :
    t'.read cwd p = .ok content := by
  unfold write at h
  split at h
  · cases h
  · next l mode old hresolve =>
    split at h
    · cases h
      have hholds : t.get? l = some (.file mode old) := holds_of_resolve hresolve
      have hfile : ∀ {n}, t.get? l = some n → ∃ mode content, n = .file mode content := by
        intro n hn
        rw [hholds] at hn
        exact ⟨mode, old, (Option.some.inj hn).symm⟩
      -- The path leads to the same file before and after, so the right to read is the same.
      have hbefore := resolve_of_create ⟨hholds, fun _ => rfl, hfile⟩ hresolve rfl
      have hafter := resolve_of_create (putsFile_set hfile mode content) hresolve rfl
      have hpermits : (Node.file mode old).permits .read = true := by
        rw [read_of_resolve hbefore] at hread
        refine Decidable.byContradiction fun hnot => ?_
        rw [if_neg hnot] at hread
        rcases hread with ⟨_, hread⟩ | hread <;> cases hread
      rw [read_of_resolve hafter]
      exact if_pos hpermits
    · cases h
  · cases h
  · next l hresolve =>
    split at h
    · cases h
      have hholds : t.get? l = none := holds_of_resolve hresolve
      have hfile : ∀ {n}, t.get? l = some n → ∃ mode content, n = .file mode content := by
        intro n hn
        rw [hholds] at hn
        cases hn
      have hafter := resolve_of_create (putsFile_set hfile usualMode content) hresolve rfl
      rw [read_of_resolve hafter]
      exact if_pos rfl
    · cases h

end BuildTargets.FileTree

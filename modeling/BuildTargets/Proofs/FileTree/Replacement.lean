import BuildTargets.Proofs.FileTree.Meets
import BuildTargets.Proofs.FileTree.Replaced

/-!
# Replacements that succeed

A replacement stages a file, gives it the permissions of the old one, and moves it into place.  When all
of this has succeeded one entry differs from before, and it is the one that the path led to, links
followed, or if there was none the one that the path itself names (`isReplaced_of_replace`).  If the
path could be looked at before, it leads to the new file (`IsReplaced.look`), which is seen with the
permissions of the old one (`IsReplaced.mode_eq`) and read if they grant it (`IsReplaced.read_eq`).
-/

namespace BuildTargets.FileTree

variable {t t' t₁ t₂ : FileTree} {purpose : Purpose} {cwd l staged : Location} {path target : Path}
  {mode : Nat} {content : Bytes}

/-! ## Locating and looking -/

/-- What a path leads to can be reached. -/
theorem reaches_of_trace {found : Target} (hcwd : t.HasDirectory cwd)
    (h : t.trace cwd purpose path = .ok found) :
    t.Reaches found.location ∧ ∀ k address, found = .existing k (.link address) → purpose = .rename := by
  rw [trace] at h
  split_ifs at h
  exact reaches_of_walk (hcwd.startOf path.bytes) (forall_mem_parts path) h

/-- A path that has been traced leads to what the tree has. -/
theorem holds_of_trace {found : Target} (h : t.trace cwd purpose path = .ok found) : t.Holds found := by
  rw [trace] at h
  split_ifs at h
  exact holds_of_walk h

/-- What can be looked at, or is missing, is located. -/
theorem trace_locate_eq (hcwd : t.HasDirectory cwd)
    (h : ∀ cause, t.resolve cwd .look path = .error cause → cause = .notFound) :
    t.trace cwd .locate path = t.resolve cwd .look path := by
  by_cases hlong : (0 ∉ path.bytes && longestPath < path.bytes.length) = true
  · rw [resolve, if_pos hlong] at h
    cases h _ rfl
  rw [resolve, if_neg hlong] at h ⊢
  rw [trace] at h ⊢
  rw [trace]
  split_ifs at h ⊢ with hzero hempty
  · rfl
  · rfl
  · obtain ⟨left, hleft⟩ := walk_of_isWeaker (isWeaker_locate .look) (hcwd.startOf path.bytes)
      (forall_mem_parts path) (fun cause hcause => by
        rw [h cause hcause, Purpose.mayMind]
        exact not_or.2 ⟨by decide, by decide⟩)
    rw [hleft]
    cases hwalk : t.walk .look mostLinks (startOf cwd path.bytes) (Path.parts path.bytes) with
    | error cause => rfl
    | ok found =>
      have hlink := (reaches_of_walk (hcwd.startOf path.bytes) (forall_mem_parts path) hwalk).2
      exact proceed_follow fun k address heq => Purpose.noConfusion (hlink k address heq)

/-! ## The steps of a replacement -/

theorem exists_of_replace (h : t.replace cwd path content = (.ok (), t')) :
    ∃ target staged t₁ t₂, t.replacementPath cwd path = .ok target ∧
      t.stage cwd (stagingDirectory target) content = .ok (staged, t₁) ∧
      t₁.copyMode cwd target staged = .ok t₂ ∧ t₂.move cwd staged target = .ok t' := by
  unfold replace at h
  split at h
  · cases h
  · next target htarget =>
    simp only at h
    split at h
    · cases h
    · next staged t₁ hstage =>
      split at h
      · cases h
      · next t₃ hmoved =>
        cases h
        cases hcopied : t₁.copyMode cwd target staged with
        | error cause =>
          rw [hcopied] at hmoved
          cases hmoved
        | ok t₂ =>
          rw [hcopied] at hmoved
          exact ⟨target, staged, t₁, t₂, htarget, hstage, hcopied, hmoved⟩

/-- A replacement goes to the location of the entry that the path leads to, or to the path itself. -/
theorem cases_of_replacementPath (h : t.replacementPath cwd path = .ok target) :
    (∃ l n, t.trace cwd .locate path = .ok (.existing l n) ∧ target = pathOf l) ∨
      IsMissing (t.trace cwd .locate path) ∧ target = path := by
  unfold replacementPath at h
  split at h
  · next l n htrace =>
    cases h
    exact Or.inl ⟨l, n, htrace, rfl⟩
  · next htrace =>
    cases h
    exact Or.inr ⟨by rw [htrace]; exact trivial, rfl⟩
  · next htrace =>
    cases h
    exact Or.inr ⟨by rw [htrace]; exact rfl, rfl⟩
  · cases h

/-- A file that has been put somewhere can be put there again. -/
theorem PutsFile.set (h : t.PutsFile t₁ l mode content) (hne : l ≠ []) (mode' : Nat)
    (content' : Bytes) : t.PutsFile (t₁.set l (.file mode' content')) l mode' content' where
  self := by rw [get?_set _ _ _ hne, if_pos rfl]
  other := fun hk => by rw [get?_set _ _ _ hne, if_neg hk, h.other hk]
  old := h.old

/-- The staged file gets the permissions of what the replacement goes to, or stays as it is if that is
missing. -/
theorem putsFile_of_copyMode (h : t.PutsFile t₁ staged privateMode content) (hne : staged ≠ [])
    (hcopied : t₁.copyMode cwd target staged = .ok t₂) :
    ∃ mode, t.PutsFile t₂ staged mode content ∧
      (t₁.mode cwd target = .ok mode ∨
        t₁.mode cwd target = .error .notFound ∧ mode = privateMode) := by
  rw [copyMode, h.self] at hcopied
  cases hmode : t₁.mode cwd target with
  | ok mode =>
    rw [hmode] at hcopied
    cases hcopied
    exact ⟨mode, h.set hne mode content, Or.inl rfl⟩
  | error cause =>
    rw [hmode] at hcopied
    cases cause with
    | notFound =>
      cases hcopied
      exact ⟨privateMode, h, Or.inr ⟨rfl, rfl⟩⟩
    | _ => cases hcopied

/-- A file is moved to where a path leads, which is no directory, and nothing else changes. -/
theorem exists_of_move {n : Node} (hne : staged ≠ []) (hstaged : t.get? staged = some n)
    (h : t.move cwd staged target = .ok t') :
    ∃ found, t.resolve cwd .rename target = .ok found ∧
      (∀ mode, t.get? found.location ≠ some (.directory mode)) ∧
      ∀ k, t'.get? k =
        if k = found.location then some n else if k = staged then none else t.get? k := by
  have hmoved : ∀ {k}, k ≠ [] → t' = (t.erase staged).set k n → ∀ j, t'.get? j =
      if j = k then some n else if j = staged then none else t.get? j := by
    rintro k hk rfl j
    rw [get?_set _ _ _ hk, get?_erase _ _ hne]
  rw [move, hstaged] at h
  cases hresolve : t.resolve cwd .rename target with
  | error cause =>
    rw [hresolve] at h
    cases h
  | ok found =>
    rw [hresolve] at h
    have hholds := holds_of_resolve hresolve
    refine ⟨found, rfl, ?_⟩
    cases found with
    | vacant k =>
      have hfree : t.get? k = none := hholds
      have hk : k ≠ [] := by
        rintro rfl
        cases hfree
      refine ⟨fun mode hdirectory => ?_, hmoved hk (Except.ok.inj h).symm⟩
      cases hfree.symm.trans hdirectory
    | existing k m =>
      have hm : t.get? k = some m := hholds
      cases k with
      | nil => cases h
      | cons name k =>
        cases m with
        | directory mode => cases h
        | file | link =>
          refine ⟨fun mode hdirectory => ?_, hmoved (List.cons_ne_nil name k) (Except.ok.inj h).symm⟩
          cases hm.symm.trans hdirectory

/-! ## What a replacement does -/

/-- A replacement that succeeded has put a file where the path led, with the permissions of the old one,
or, where there was none, a private file where the path itself says. -/
inductive IsReplaced (t t' : FileTree) (cwd : Location) (path : Path) (content : Bytes)
    (l : Location) : Prop where
  | onto {mode : Nat} {old : Bytes}
      (hfound : t.trace cwd .locate path = .ok (.existing l (.file mode old)))
      (hput : t.PutsFile t' l mode content)
  | into {found : Target} (hmissing : IsMissing (t.trace cwd .locate path))
      (hmode : t.mode cwd path = .error .notFound)
      (hfound : t.resolve cwd .rename path = .ok found) (hlocation : found.location = l)
      (hdirectory : ∀ mode, t.get? l ≠ some (.directory mode))
      (hself : t'.get? l = some (.file privateMode content))
      (hother : ∀ {k}, k ≠ l → t'.get? k = t.get? k)

theorem mode_congr (h : t'.resolve cwd .look path = t.resolve cwd .look path) :
    t'.mode cwd path = t.mode cwd path := by
  rw [mode, mode, h]

theorem exists_of_mode (h : t.mode cwd path = .ok mode) :
    ∃ l n, t.resolve cwd .look path = .ok (.existing l n) := by
  rw [FileTree.mode] at h
  split at h
  · cases h
  · next l _ _ hfound => exact ⟨l, _, hfound⟩
  · next l _ hfound => exact ⟨l, _, hfound⟩
  · cases h

/-- A staged file does not bring back what was missing: only its own permissions can be seen through a
path that led nowhere. -/
theorem mode_of_isMissing (hput : t.PutsFile t₁ staged privateMode content)
    (hfree : t.get? staged = none) (hcwd : t.HasDirectory cwd)
    (hmissing : IsMissing (t.trace cwd .locate path))
    (hmode : t₁.mode cwd path = .ok mode ∨ t₁.mode cwd path = .error .notFound ∧ mode = privateMode) :
    mode = privateMode ∧ t.mode cwd path = .error .notFound := by
  rcases resolve_beside hput hfree hcwd .look path with
    heq | ⟨hfile, hvacant⟩ | hstopped
  · rw [mode_congr heq] at hmode
    rcases hmode with hmode | ⟨hmode, rfl⟩
    · obtain ⟨l, n, hfound⟩ := exists_of_mode hmode
      rw [trace_locate_eq hcwd (by rw [hfound]; exact nofun), hfound] at hmissing
      cases hmissing
    · exact ⟨rfl, hmode⟩
  · have hprivate : t₁.mode cwd path = .ok privateMode := by rw [FileTree.mode, hfile]
    rw [hprivate] at hmode
    rcases hmode with hmode | ⟨hmode, -⟩
    · exact ⟨(Except.ok.inj hmode).symm, by rw [FileTree.mode, hvacant]⟩
    · cases hmode
  · have hstopped' : t₁.mode cwd path = .error .notADirectory := by rw [FileTree.mode, hstopped]
    rw [hstopped'] at hmode
    rcases hmode with hmode | ⟨hmode, -⟩ <;> cases hmode

/-- How a replacement that goes to `target` has come about: a file was put under a free name, got its
permissions, and was moved to where `target` leads. -/
structure IsMoved (t t₁ t₂ t' : FileTree) (cwd : Location) (target : Path) (staged : Location)
    (mode : Nat) (content : Bytes) (found : Target) : Prop where
  free : t.get? staged = none
  puts_private : t.PutsFile t₁ staged privateMode content
  copied : t₁.mode cwd target = .ok mode ∨
    t₁.mode cwd target = .error .notFound ∧ mode = privateMode
  puts : t.PutsFile t₂ staged mode content
  place : t₂.resolve cwd .rename target = .ok found
  not_directory : ∀ m, t₂.get? found.location ≠ some (.directory m)
  self : t'.get? found.location = some (.file mode content)
  other : ∀ {k}, k ≠ found.location → t'.get? k = t.get? k

theorem exists_isMoved (h : t.replace cwd path content = (.ok (), t')) :
    ∃ target staged t₁ t₂ mode found, t.replacementPath cwd path = .ok target ∧
      t.IsMoved t₁ t₂ t' cwd target staged mode content found := by
  obtain ⟨target, staged, t₁, t₂, htarget, hstage, hcopied, hmove⟩ := exists_of_replace h
  obtain ⟨directory, hstaged, ht₁⟩ := exists_of_stage hstage
  have hne : staged ≠ [] := hstaged ▸ List.append_ne_nil_of_right_ne_nil _ (List.cons_ne_nil _ [])
  have hfree : t.get? staged = none := by
    rw [get?, if_neg hne, List.lookup_eq_none_iff]
    intro e he
    rw [bne_iff_ne]
    rintro rfl
    exact t.append_freshName_not_mem directory (hstaged ▸ List.mem_map_of_mem he)
  have hprivate : t.PutsFile t₁ staged privateMode content := by
    rw [ht₁]
    refine putsFile_set (fun hn => ?_) privateMode content
    cases hfree.symm.trans hn
  obtain ⟨mode, hputs, hmode⟩ := putsFile_of_copyMode hprivate hne hcopied
  obtain ⟨found, hfound, hdirectory, hmoved⟩ := exists_of_move hne hputs.self hmove
  refine ⟨target, staged, t₁, t₂, mode, found, htarget, hfree, hprivate, hmode, hputs, hfound,
    hdirectory, ?_, fun {k} hk => ?_⟩
  · rw [hmoved, if_pos rfl]
  · rw [hmoved, if_neg hk]
    by_cases hstaged : k = staged
    · rw [if_pos hstaged, hstaged, hfree]
    · rw [if_neg hstaged, hputs.other hstaged]

variable {found : Target}

/-- What is moved to the path of an entry takes the place of that entry, with its permissions. -/
theorem IsMoved.onto (h : t.IsMoved t₁ t₂ t' cwd (pathOf l) staged mode content found)
    (hcwd : t.HasDirectory cwd) {n : Node} (htrace : t.trace cwd .locate path = .ok (.existing l n)) :
    t.IsReplaced t' cwd path content l := by
  obtain ⟨hreaches, hlink⟩ := reaches_of_trace hcwd htrace
  have hn : t.get? l = some n := holds_of_trace htrace
  have hl : l ≠ staged := by
    rintro rfl
    cases h.free.symm.trans hn
  have hlink : ∀ address, n ≠ .link address := fun address heq =>
    Purpose.noConfusion (hlink l address (heq ▸ rfl))
  -- The path of the location leads there in the tree with the staged file as well.
  have hown : ∀ {t₀ m}, t.PutsFile t₀ staged m content → ∀ purpose,
      t₀.resolve cwd purpose (pathOf l) = .ok (.existing l n) ∨
        ∃ cause, t₀.resolve cwd purpose (pathOf l) = .error cause ∧ cause ≠ .notFound :=
    fun hputs purpose => resolve_pathOf (hreaches.congr hputs.other hputs.not_directory)
      ((hputs.other hl).trans hn) hlink cwd purpose
  obtain rfl : .existing l n = found := by
    rcases hown h.puts .rename with hok | ⟨cause, herror, -⟩
    · exact Except.ok.inj (hok.symm.trans h.place)
    · cases herror.symm.trans h.place
  cases n with
  | link address => exact absurd rfl (hlink address)
  | directory m => exact absurd ((h.puts.other hl).trans hn) (h.not_directory m)
  | file m old =>
    obtain rfl : mode = m := by
      rcases hown h.puts_private .look with hok | ⟨cause, herror, hcause⟩
      · have hm : t₁.mode cwd (pathOf l) = .ok m := by rw [FileTree.mode, hok]
        rcases h.copied with hmode | ⟨hmode, -⟩
        · exact Except.ok.inj (hmode.symm.trans hm)
        · cases hmode.symm.trans hm
      · have hm : t₁.mode cwd (pathOf l) = .error cause := by rw [FileTree.mode, herror]
        rcases h.copied with hmode | ⟨hmode, -⟩
        · cases hmode.symm.trans hm
        · exact absurd (Except.error.inj (hm.symm.trans hmode)) hcause
    refine .onto htrace ⟨h.self, h.other, fun hn' => ?_⟩
    exact ⟨mode, old, Option.some.inj (hn'.symm.trans hn)⟩

/-- What is moved to a path that leads nowhere takes the place that the path names, as a private file. -/
theorem IsMoved.into (h : t.IsMoved t₁ t₂ t' cwd path staged mode content found)
    (hcwd : t.HasDirectory cwd) (hmissing : IsMissing (t.trace cwd .locate path)) :
    t.IsReplaced t' cwd path content found.location := by
  obtain ⟨rfl, hmode⟩ := mode_of_isMissing h.puts_private h.free hcwd hmissing h.copied
  have hdirectory : ∀ m, t.get? found.location ≠ some (.directory m) := by
    intro m hm
    by_cases hstaged : found.location = staged
    · cases h.free.symm.trans (hstaged ▸ hm)
    · exact h.not_directory m ((h.puts.other hstaged).trans hm)
  rcases resolve_beside h.puts h.free hcwd .rename path with
    heq | ⟨hfile, hvacant⟩ | hstopped
  · exact .into hmissing hmode (heq.symm.trans h.place) rfl hdirectory h.self h.other
  · cases hfile.symm.trans h.place
    exact .into hmissing hmode hvacant rfl hdirectory h.self h.other
  · cases hstopped.symm.trans h.place

/-- A replacement that succeeds puts the content where the path leads or, if it leads nowhere, where the
path itself says. -/
theorem isReplaced_of_replace (hcwd : t.HasDirectory cwd)
    (h : t.replace cwd path content = (.ok (), t')) :
    ∃ l, t.IsReplaced t' cwd path content l := by
  obtain ⟨target, staged, t₁, t₂, mode, found, htarget, hmoved⟩ := exists_isMoved h
  rcases cases_of_replacementPath htarget with ⟨l, n, htrace, rfl⟩ | ⟨hmissing, rfl⟩
  · exact ⟨l, hmoved.onto hcwd htrace⟩
  · exact ⟨found.location, hmoved.into hcwd hmissing⟩

/-! ## The place of a replacement -/

/-- Where the content of a replacement goes: to the entry that the path leads to, links followed, or, if
there is none, to the one that the path itself names, which may be a link that leads nowhere. -/
def destination? (t : FileTree) (cwd : Location) (path : Path) : Option Location :=
  match t.trace cwd .locate path, t.resolve cwd .rename path with
  | .ok (.existing l _), _ => some l
  | _, .ok target => some target.location
  | _, .error _ => none

/-- A path that leads to no entry when all links are followed. -/
def LeadsNowhere (t : FileTree) (cwd : Location) (path : Path) : Prop :=
  ∀ l n, t.trace cwd .locate path ≠ .ok (.existing l n)

theorem leadsNowhere_of_isMissing (h : IsMissing (t.trace cwd .locate path)) :
    t.LeadsNowhere cwd path := by
  intro l n htrace
  rw [htrace] at h
  exact h

theorem IsReplaced.destination?_eq (h : t.IsReplaced t' cwd path content l) :
    t.destination? cwd path = some l := by
  cases h with
  | onto hfound hput => rw [destination?, hfound]
  | into hmissing hmode hfound hlocation hdirectory hself hother =>
    rw [destination?, hfound]
    split
    · next htrace => exact absurd htrace (leadsNowhere_of_isMissing hmissing _ _)
    · next heq _ =>
      cases heq
      rw [hlocation]
    · next heq _ => cases heq

/-- The file that a replacement leaves has the permissions of the one before, or is private if nothing
could be seen through the path. -/
theorem IsReplaced.self (h : t.IsReplaced t' cwd path content l) :
    ∃ mode, t'.get? l = some (.file mode content) ∧
      ((∃ old, t.get? l = some (.file mode old)) ∨
        t.mode cwd path = .error .notFound ∧ mode = privateMode) := by
  cases h with
  | @onto mode old hfound hput => exact ⟨mode, hput.self, Or.inl ⟨old, holds_of_trace hfound⟩⟩
  | into hmissing hmode hfound hlocation hdirectory hself hother =>
    exact ⟨privateMode, hself, Or.inr ⟨hmode, rfl⟩⟩

theorem IsReplaced.other (h : t.IsReplaced t' cwd path content l) {k : Location} (hk : k ≠ l) :
    t'.get? k = t.get? k := by
  cases h with
  | onto hfound hput => exact hput.other hk
  | into hmissing hmode hfound hlocation hdirectory hself hother => exact hother hk

/-! ## What is seen through the path -/

/-- After a replacement the path leads to the new file, unless it could not be followed before for
another reason than that something was missing. -/
theorem IsReplaced.look (hcwd : t.HasDirectory cwd) (h : t.IsReplaced t' cwd path content l) :
    (∃ mode, t'.resolve cwd .look path = .ok (.existing l (.file mode content)) ∧
      (t.mode cwd path = .ok mode ∨ t.mode cwd path = .error .notFound ∧ mode = privateMode)) ∨
    ∃ cause, cause ≠ .notFound ∧ t.resolve cwd .look path = .error cause ∧
      t'.resolve cwd .look path = .error cause := by
  cases h with
  | @onto mode old hfound hput =>
    have hover := resolve_over hput (holds_of_trace hfound) hcwd .look path
    cases hlook : t.resolve cwd .look path with
    | error cause =>
      refine Or.inr ⟨cause, ?_, rfl, hover.1 cause hlook⟩
      rintro rfl
      rw [trace_locate_eq hcwd (by rw [hlook]; rintro _ ⟨⟩; rfl), hlook] at hfound
      cases hfound
    | ok found =>
      rw [trace_locate_eq hcwd (by rw [hlook]; exact nofun), hlook] at hfound
      cases hfound
      exact Or.inl ⟨mode, hover.2 _ hlook, Or.inl (by rw [FileTree.mode, hlook])⟩
  | into hmissing hmode hfound hlocation hdirectory hself hother =>
    exact Or.inl ⟨privateMode,
      resolve_into hother hdirectory hself hcwd hfound hlocation hmissing, Or.inr ⟨hmode, rfl⟩⟩

/-- The permissions that are seen through the path are those from before, or those of a private file if
nothing was there. -/
theorem IsReplaced.mode_eq (hcwd : t.HasDirectory cwd) (h : t.IsReplaced t' cwd path content l) :
    t'.mode cwd path =
      if t.mode cwd path = .error .notFound then .ok privateMode else t.mode cwd path := by
  rcases h.look hcwd with ⟨mode, hlook, hbefore⟩ | ⟨cause, hcause, hbefore, hlook⟩
  · have hafter : t'.mode cwd path = .ok mode := by rw [FileTree.mode, hlook]
    rcases hbefore with hbefore | ⟨hbefore, rfl⟩
    · rw [hafter, hbefore, if_neg nofun]
    · rw [hafter, if_pos hbefore]
  · have hmode : t.mode cwd path = .error cause := by rw [FileTree.mode, hbefore]
    rw [mode_congr (hlook.trans hbefore.symm), hmode, if_neg (by simpa using hcause)]

/-- The new content is read through the path if the path can be followed and the permissions that are
seen through it grant reading. -/
theorem IsReplaced.read_eq (hcwd : t.HasDirectory cwd) (h : t.IsReplaced t' cwd path content l) :
    t'.read cwd path =
      match t'.mode cwd path with
      | .ok mode => if (Node.file mode content).permits .read then .ok content else .error .forbidden
      | .error cause => .error cause := by
  rcases h.look hcwd with ⟨mode, hlook, -⟩ | ⟨cause, -, -, hlook⟩
  · have hafter : t'.mode cwd path = .ok mode := by rw [FileTree.mode, hlook]
    rw [read_of_resolve hlook, hafter]
  · have hafter : t'.mode cwd path = .error cause := by rw [FileTree.mode, hlook]
    rw [read, hlook, hafter]

/-- Through the path of a replacement something is seen, or it cannot be followed. -/
theorem IsReplaced.mode_ne_notFound (hcwd : t.HasDirectory cwd)
    (h : t.IsReplaced t' cwd path content l) : t'.mode cwd path ≠ .error .notFound := by
  rw [h.mode_eq hcwd]
  split_ifs with hmode
  · exact nofun
  · exact hmode

end BuildTargets.FileTree

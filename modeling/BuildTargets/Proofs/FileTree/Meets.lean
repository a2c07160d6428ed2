import BuildTargets.Proofs.FileTree.Purposes

/-!
# The same path in two trees

Two trees differ in one entry only.  Then a path goes the same way in both until it comes to that entry,
if it ever does (`walk_meets`).  So a file that is set up under a free name is in nobody's way
(`resolve_beside`), a file with new content is found where the old one was (`resolve_over`), and a
file in the place of a name or of a link that leads nowhere is found by the path that names it
(`resolve_into`).
-/

namespace BuildTargets.FileTree

variable {t t' : FileTree} {purpose p q : Purpose} {cwd here l : Location} {part : Bytes}
  {rest parts : List Bytes} {path : Path} {mode : Nat} {content : Bytes} {target : Target}

/-! ## Until the trees differ -/

theorem turn_congr (h : t'.get? here = t.get? here) :
    t'.turn purpose here part rest = t.turn purpose here part rest := by
  rw [turn, turn, permits, permits, h]

/-- What is true of a location that a way comes to with the parts `rest` behind it. -/
structure Meets (t : FileTree) (purpose : Purpose) (l : Location) (rest : List Bytes) : Prop where
  directory : t.HasDirectory l.dropLast
  name : ∃ part, nameRefusal? purpose part rest = none

section

variable (hother : ∀ {k}, k ≠ l → t'.get? k = t.get? k) (hl : ∀ mode, t.get? l ≠ some (.directory mode))

include hother hl

/-- A directory is not the entry in which the trees differ. -/
theorem HasDirectory.get?_eq (h : t.HasDirectory here) : t'.get? here = t.get? here := by
  obtain ⟨mode, hmode⟩ := h.isDirectory
  exact hother fun heq => hl mode (heq ▸ hmode)

/-- What lies where its location says still does, as the entry in which the trees differ is no
directory. -/
theorem Reaches.congr {k : Location} (h : t.Reaches k) : t'.Reaches k where
  isDirectory j name hj := by
    obtain ⟨mode, hmode⟩ := h.isDirectory j name hj
    refine ⟨mode, (hother fun heq => hl mode (heq ▸ hmode)).trans hmode⟩
  isName := h.isName

theorem HasDirectory.congr (h : t.HasDirectory here) : t'.HasDirectory here where
  reaches := h.reaches.congr hother hl
  isDirectory := by rw [h.get?_eq hother hl]; exact h.isDirectory

/-- A stretch is the same in both trees, or it comes to the entry in which they differ. -/
theorem pass_meets (purpose : Purpose) (hhere : t.HasDirectory here)
    (hparts : ∀ part ∈ parts, Path.slash ∉ part) :
    t'.pass purpose here parts = t.pass purpose here parts ∨
      ∃ rest, t.Meets purpose l rest ∧ t.pass purpose here parts = t.lookup purpose l rest ∧
        t'.pass purpose here parts = t'.lookup purpose l rest := by
  induction parts generalizing here with
  | nil =>
    obtain ⟨mode, hmode⟩ := hhere.isDirectory
    have hsame := hhere.get?_eq hother hl
    exact Or.inl ((pass_nil (hsame.trans hmode)).trans (pass_nil hmode).symm)
  | cons part rest ih =>
    obtain ⟨hpart, hrest⟩ := List.forall_mem_cons.1 hparts
    rw [pass_cons, pass_cons, turn_congr (hhere.get?_eq hother hl)]
    rcases turn_cases purpose rest hhere hpart with
      ⟨cause, hturn, -⟩ | ⟨next, hturn, hnext⟩ | ⟨hturn, hname, hrefusal⟩
    · rw [hturn]
      exact Or.inl rfl
    · rw [hturn]
      exact ih hnext hrest
    · rw [hturn]
      simp only
      by_cases hmeets : here ++ [part] = l
      · subst hmeets
        have hdirectory : t.HasDirectory (here ++ [part]).dropLast := by rwa [List.dropLast_concat]
        exact Or.inr ⟨rest, ⟨hdirectory, part, hrefusal⟩, rfl, rfl⟩
      · have hreaches := hhere.reaches_concat hname
        have hsame : t'.get? (here ++ [part]) = t.get? (here ++ [part]) := hother hmeets
        cases hn : t.get? (here ++ [part]) with
        | none =>
          rw [lookup_of_none hn, lookup_of_none (hsame.trans hn)]
          exact Or.inl rfl
        | some n =>
          cases n with
          | file mode content =>
            rw [lookup_of_file hn, lookup_of_file (hsame.trans hn)]
            exact Or.inl rfl
          | directory mode =>
            rw [lookup_of_directory hn, lookup_of_directory (hsame.trans hn)]
            exact ih ⟨hreaches, mode, hn⟩ hrest
          | link target =>
            rw [lookup_of_link hn, lookup_of_link (hsame.trans hn)]
            exact Or.inl rfl

/-- A walk is the same in both trees, or it comes to the entry in which they differ. -/
theorem walk_meets (purpose : Purpose) {links : Nat} {here : Location} {parts : List Bytes}
    (hhere : t.HasDirectory here) (hparts : ∀ part ∈ parts, Path.slash ∉ part) :
    t'.walk purpose links here parts = t.walk purpose links here parts ∨
      ∃ left rest, t.Meets purpose l rest ∧
        t.walk purpose links here parts = t.proceed purpose left (t.lookup purpose l rest) ∧
        t'.walk purpose links here parts = t'.proceed purpose left (t'.lookup purpose l rest) := by
  rw [walk_eq_proceed, walk_eq_proceed]
  rcases pass_meets hother hl purpose hhere hparts with heq | ⟨rest, hmeets, h, h'⟩
  · rw [heq]
    have hsound := isSound_pass purpose hhere hparts
    cases hpass : t.pass purpose here parts with
    | arrived found => exact Or.inl rfl
    | stopped cause => exact Or.inl rfl
    | diverted start rest =>
      rw [hpass] at hsound
      cases links with
      | zero => exact Or.inl rfl
      | succ links => exact walk_meets purpose hsound.1 hsound.2
  · exact Or.inr ⟨links, rest, hmeets, by rw [h], by rw [h']⟩
termination_by links

end

/-- What two walks have in common, and the failures to start one, the two paths have in common. -/
theorem resolve_congr (R : Except IoCause Target → Except IoCause Target → Prop)
    (herror : ∀ cause, R (.error cause) (.error cause))
    (hwalk : R (t.walk p mostLinks (startOf cwd path.bytes) (Path.parts path.bytes))
      (t'.walk q mostLinks (startOf cwd path.bytes) (Path.parts path.bytes))) :
    R (t.resolve cwd p path) (t'.resolve cwd q path) := by
  rw [resolve, resolve, trace, trace]
  split_ifs
  · exact herror _
  · exact herror _
  · exact herror _
  · exact hwalk

theorem forall_mem_parts (path : Path) : ∀ part ∈ Path.parts path.bytes, Path.slash ∉ part :=
  fun _ => Path.slash_not_mem_of_mem_parts

theorem PutsFile.not_directory (h : t.PutsFile t' l mode content) (m : Nat) :
    t.get? l ≠ some (.directory m) := by
  intro hdirectory
  obtain ⟨_, _, hfile⟩ := h.old hdirectory
  cases hfile

/-- What a path leads to is the entry at that location, if there is one. -/
theorem Holds.eq_existing {n : Node} (h : t.Holds target) (hself : t.get? l = some n)
    (hlocation : target.location = l) : target = .existing l n := by
  subst hlocation
  cases target with
  | existing k m =>
    have hm : t.get? k = some m := h
    rw [Option.some.inj (hm.symm.trans hself)]
    rfl
  | vacant k =>
    have hnone : t.get? k = none := h
    cases hnone.symm.trans hself

/-! ## A file under a free name -/

/-- Where a file has been put under a free name, a path leads where it led before, or to that file if it
led to its name, or else it would have to go on from that file. -/
theorem resolve_beside (h : t.PutsFile t' l mode content) (hfree : t.get? l = none)
    (hcwd : t.HasDirectory cwd) (purpose : Purpose) (path : Path) :
    t'.resolve cwd purpose path = t.resolve cwd purpose path ∨
      (t'.resolve cwd purpose path = .ok (.existing l (.file mode content)) ∧
        t.resolve cwd purpose path = .ok (.vacant l)) ∨
      t'.resolve cwd purpose path = .error .notADirectory := by
  refine resolve_congr (fun r r' => r' = r ∨ (r' = _ ∧ r = _) ∨ r' = _) (fun _ => Or.inl rfl) ?_
  rcases walk_meets h.other h.not_directory purpose (hcwd.startOf path.bytes)
    (forall_mem_parts path) with heq | ⟨left, rest, hmeets, ht, ht'⟩
  · exact Or.inl heq
  · rw [lookup_of_none hfree] at ht
    rw [lookup_of_file h.self] at ht'
    by_cases hrest : rest = []
    · subst hrest
      exact Or.inr (Or.inl ⟨ht', ht⟩)
    · rw [if_neg hrest] at ht'
      exact Or.inr (Or.inr ht')

/-! ## A file over another -/

/-- Where a file has been put over another one, a path that led to it still does, and one that led
nowhere still does not. -/
theorem resolve_over {old : Bytes} {m : Nat} (h : t.PutsFile t' l mode content)
    (hfile : t.get? l = some (.file m old)) (hcwd : t.HasDirectory cwd) (purpose : Purpose)
    (path : Path) :
    (∀ cause, t.resolve cwd purpose path = .error cause →
      t'.resolve cwd purpose path = .error cause) ∧
    ∀ n, t.resolve cwd purpose path = .ok (.existing l n) →
      t'.resolve cwd purpose path = .ok (.existing l (.file mode content)) := by
  refine resolve_congr (fun r r' => (∀ cause, r = .error cause → r' = .error cause) ∧
    ∀ n, r = .ok (.existing l n) → r' = _) (fun _ => ⟨fun _ => id, nofun⟩) ?_
  rcases walk_meets h.other h.not_directory purpose (hcwd.startOf path.bytes)
    (forall_mem_parts path) with heq | ⟨left, rest, hmeets, ht, ht'⟩
  · rw [heq]
    refine ⟨fun _ => id, fun n hn => ?_⟩
    have hholds : t'.Holds (.existing l n) := holds_of_walk (heq.trans hn)
    rw [hn, hholds.eq_existing h.self rfl]
  · rw [ht, ht', lookup_of_file hfile, lookup_of_file h.self]
    split
    · exact ⟨nofun, fun _ _ => rfl⟩
    · exact ⟨fun _ => id, nofun⟩

/-! ## A file in the place of a name or a link -/

/-- A name behind which a slash would be refused is the last part of a path, or is followed by more than
slashes. -/
theorem eq_nil_of_slashRefusal? (hslash : purpose.slashRefusal? ≠ none)
    (h : nameRefusal? purpose part rest = none) (hrest : (rest.all (· = [])) = true) : rest = [] := by
  refine Decidable.byContradiction fun hne => ?_
  obtain ⟨cause, hcause⟩ := Option.ne_none_iff_exists'.1 hslash
  rw [nameRefusal?, if_pos (by simpa [hne] using hrest), hcause] at h
  cases h

/-- A walk finds that there is nothing where it leads. -/
def IsMissing : Except IoCause Target → Prop
  | .ok (.vacant _) => True
  | .error cause => cause = .notFound
  | _ => False

/-- What a walk misses it does not find with more links or fewer. -/
theorem not_isMissing_of_walk {links more : Nat} {n : Node}
    (h : t.walk purpose links here parts = .ok (.existing l n)) :
    ¬IsMissing (t.walk purpose more here parts) := by
  intro hmissing
  have hmore : t.walk purpose (max links more) here parts = .ok (.existing l n) :=
    walk_mono h nofun (Nat.le_max_left links more)
  have hloop : t.walk purpose more here parts ≠ .error .linkLoop := by
    intro hloop
    rw [hloop] at hmissing
    cases hmissing
  rw [← walk_mono rfl hloop (Nat.le_max_right links more), hmore] at hmissing
  exact hmissing

/-- Nothing is where a link at the end of a path says, if nothing is where the path leads. -/
theorem isMissing_of_link {links : Nat} {address : Bytes} (hhere : t.HasDirectory here)
    (hparts : ∀ part ∈ parts, Path.slash ∉ part)
    (h : t.walk .rename links here parts = .ok (.existing l (.link address)))
    (hmissing : IsMissing (t.walk .locate links here parts)) :
    ∃ left, IsMissing (t.walk .locate left (startOf l.dropLast address) (Path.parts address)) := by
  obtain ⟨left, hwalk⟩ := walk_of_isWeaker (isWeaker_locate .rename) hhere hparts
    (by rw [h]; exact nofun)
  rw [h] at hwalk
  rw [hwalk] at hmissing
  cases left with
  | zero => cases hmissing
  | succ left => exact ⟨left, hmissing⟩

/-- A link that leads nowhere is the end of every path that comes to it. -/
theorem Meets.rest_eq_nil {left : Nat} (hmeets : t.Meets .rename l rest)
    (hl : ∀ m, t.get? l ≠ some (.directory m))
    (hlink : ∀ address, t.get? l = some (.link address) →
      ∃ links, IsMissing (t.walk .locate links (startOf l.dropLast address) (Path.parts address)))
    (h : t.proceed .rename left (t.lookup .rename l rest) = .ok target)
    (hlocation : target.location = l) : rest = [] := by
  refine Decidable.byContradiction fun hrest => ?_
  cases hn : t.get? l with
  | none =>
    obtain ⟨part, hpart⟩ := hmeets.name
    have hall : ¬(rest.all (· = [])) = true := fun hall =>
      hrest (eq_nil_of_slashRefusal? (by decide) hpart hall)
    rw [lookup_of_none hn, if_neg hall] at h
    cases h
  | some n =>
    cases n with
    | file m old =>
      rw [lookup_of_file hn, if_neg hrest] at h
      cases h
    | directory m => exact hl m hn
    | link address =>
      rw [lookup_of_link hn, if_neg (by simp [hrest])] at h
      cases left with
      | zero => cases h
      | succ left =>
        have hwalk : t.walk .rename left (FileTree.startOf l.dropLast address)
            (Path.parts address ++ rest) = .ok target := h
        rw [(holds_of_walk hwalk).eq_existing hn hlocation] at hwalk
        obtain ⟨k, m, hfound⟩ := exists_of_walk_append (isWeaker_locate .rename)
          (hmeets.directory.startOf address) (fun _ => Path.slash_not_mem_of_mem_parts) hrest hwalk
        obtain ⟨links, hmissing⟩ := hlink address hn
        exact not_isMissing_of_walk hfound hmissing

/-- A walk to a name or to a link that leads nowhere leads to the file that is put there. -/
theorem walk_into {links : Nat} (hother : ∀ {k}, k ≠ l → t'.get? k = t.get? k)
    (hl : ∀ m, t.get? l ≠ some (.directory m)) (hself : t'.get? l = some (.file mode content))
    (hhere : t.HasDirectory here) (hparts : ∀ part ∈ parts, Path.slash ∉ part)
    (h : t.walk .rename links here parts = .ok target) (hlocation : target.location = l)
    (hmissing : IsMissing (t.walk .locate links here parts)) :
    t'.walk .look links here parts = .ok (.existing l (.file mode content)) := by
  have hrename : t'.walk .rename links here parts = .ok (.existing l (.file mode content)) := by
    rcases walk_meets hother hl .rename hhere hparts with
      heq | ⟨left, rest, hmeets, ht, ht'⟩
    · rw [h] at heq
      rw [heq, (holds_of_walk heq).eq_existing hself hlocation]
    · have hrest : rest = [] := by
        refine hmeets.rest_eq_nil hl (fun address haddress => ?_) (ht.symm.trans h) hlocation
        rw [(holds_of_walk h).eq_existing haddress hlocation] at h
        exact isMissing_of_link hhere hparts h hmissing
      rw [ht', lookup_of_file hself, if_pos hrest]
      rfl
  obtain ⟨left, hlook⟩ := walk_of_isWeaker isWeaker_look_rename (hhere.congr hother hl) hparts
    (by rw [hrename]; exact nofun)
  rw [hlook, hrename]
  rfl

/-- A path that can be followed is neither empty nor too long and holds no zero octet. -/
structure IsFollowed (path : Path) : Prop where
  zero_not_mem : 0 ∉ path.bytes
  ne_nil : path.bytes ≠ []
  length_le : path.bytes.length ≤ longestPath

theorem IsFollowed.trace (h : IsFollowed path) : t.trace cwd purpose path =
    t.walk purpose mostLinks (startOf cwd path.bytes) (Path.parts path.bytes) := by
  rw [FileTree.trace, if_neg h.zero_not_mem, if_neg h.ne_nil]

theorem IsFollowed.resolve (h : IsFollowed path) :
    t.resolve cwd purpose path = t.trace cwd purpose path := by
  rw [FileTree.resolve, if_neg]
  rw [Bool.and_eq_true, decide_eq_true_eq, decide_eq_true_eq]
  exact fun hlong => absurd hlong.2 (Nat.not_lt.2 h.length_le)

theorem isFollowed_of_resolve (h : t.resolve cwd purpose path = .ok target) : IsFollowed path := by
  rw [resolve, trace] at h
  split_ifs at h with hlong hzero hempty
  refine ⟨hzero, hempty, ?_⟩
  rw [Bool.and_eq_true, decide_eq_true_eq, decide_eq_true_eq, not_and] at hlong
  exact Nat.not_lt.1 (hlong hzero)

/-- A path to a name or to a link that leads nowhere leads to the file that is put there. -/
theorem resolve_into (hother : ∀ {k}, k ≠ l → t'.get? k = t.get? k)
    (hl : ∀ m, t.get? l ≠ some (.directory m)) (hself : t'.get? l = some (.file mode content))
    (hcwd : t.HasDirectory cwd) (h : t.resolve cwd .rename path = .ok target)
    (hlocation : target.location = l) (hmissing : IsMissing (t.trace cwd .locate path)) :
    t'.resolve cwd .look path = .ok (.existing l (.file mode content)) := by
  have hfollowed := isFollowed_of_resolve h
  rw [hfollowed.resolve, hfollowed.trace] at h ⊢
  rw [hfollowed.trace] at hmissing
  exact walk_into hother hl hself (hcwd.startOf path.bytes) (forall_mem_parts path) h hlocation hmissing

end BuildTargets.FileTree

import BuildTargets.Proofs.FileTree.Written
import BuildTargets.Proofs.Path.Steps

/-!
# The way of a path

A path is followed part by part.  Some parts are settled without a look at any name, the others are names
to be looked up (`pass_cons`).  From a directory that lies where its location says, a way only comes
through such directories (`turn_cases`, `reaches_of_walk`).  More links make no difference to a way that
has come to its end (`walk_mono`), and the path of a location leads there (`resolve_pathOf`).
-/

namespace BuildTargets.FileTree

variable {t : FileTree} {purpose : Purpose} {cwd here next l : Location} {part : Bytes}
  {rest parts : List Bytes}

/-! ## One part of a path -/

/-- What becomes of a part of a path before any name is looked up. -/
inductive Turn where
  | stop (cause : IoCause)
  /-- The way goes on from a location that was passed already. -/
  | stay (next : Location)
  /-- The part is a name in the directory that the way has come to. -/
  | name

/-- What becomes of a part in front of the parts `rest`. -/
def turn (t : FileTree) (purpose : Purpose) (here : Location) (part : Bytes) (rest : List Bytes) :
    Turn :=
  if !(t.get? here).any Node.isDirectory then .stop .notADirectory
  else if part = [] then .stay here
  else if needsSearch purpose part && !t.permits .search here then .stop .forbidden
  else if part = [Path.dot] then .stay here
  else if part = [Path.dot, Path.dot] then .stay here.dropLast
  else
    match nameRefusal? purpose part rest with
    | some cause => .stop cause
    | none => .name

/-- What becomes of a part for which the directory is searched, if that is needed. -/
theorem turn_of_permits (hdir : ¬(!(t.get? here).any Node.isDirectory) = true) (hempty : part ≠ [])
    (hsearch : ¬(needsSearch purpose part && !t.permits .search here) = true) :
    t.turn purpose here part rest =
      if part = [Path.dot] then .stay here
      else if part = [Path.dot, Path.dot] then .stay here.dropLast
      else
        match nameRefusal? purpose part rest with
        | some cause => .stop cause
        | none => .name := by
  rw [turn, if_neg hdir, if_neg hempty, if_neg hsearch]

/-- How a way goes on at a name, with the parts `rest` behind it. -/
def lookup (t : FileTree) (purpose : Purpose) (next : Location) (rest : List Bytes) : Passage :=
  match t.get? next with
  | none => if rest.all (· = []) then .arrived (.vacant next) else .stopped .notFound
  | some (.link target) =>
    if rest.isEmpty && purpose = .rename then .arrived (.existing next (.link target))
    else .diverted (startOf next.dropLast target) (Path.parts target ++ rest)
  | some _ => t.pass purpose next rest

/-- A link is followed from the directory that holds it. -/
theorem lookup_concat (t : FileTree) (purpose : Purpose) (here : Location) (part : Bytes)
    (rest : List Bytes) :
    t.lookup purpose (here ++ [part]) rest =
      match t.get? (here ++ [part]) with
      | none =>
        if rest.all (· = []) then .arrived (.vacant (here ++ [part])) else .stopped .notFound
      | some (.link target) =>
        if rest.isEmpty && purpose = .rename then
          .arrived (.existing (here ++ [part]) (.link target))
        else .diverted (startOf here target) (Path.parts target ++ rest)
      | some _ => t.pass purpose (here ++ [part]) rest := by
  rw [lookup, List.dropLast_concat]

/-- A path goes on as its first part says. -/
theorem pass_cons (t : FileTree) (purpose : Purpose) (here : Location) (part : Bytes)
    (rest : List Bytes) :
    t.pass purpose here (part :: rest) =
      match t.turn purpose here part rest with
      | .stop cause => .stopped cause
      | .stay next => t.pass purpose next rest
      | .name => t.lookup purpose (here ++ [part]) rest := by
  rw [pass, turn]
  iterate 5
    split
    · rfl
  cases nameRefusal? purpose part rest with
  | some cause => rfl
  | none => exact (lookup_concat t purpose here part rest).symm

/-- A path ends at what it has come to when no parts are left. -/
theorem pass_nil {n : Node} (h : t.get? here = some n) :
    t.pass purpose here [] = .arrived (.existing here n) := by
  rw [pass, h]

/-- A path does not go on from a file. -/
theorem pass_of_file {mode : Nat} {content : Bytes} (h : t.get? here = some (.file mode content)) :
    t.pass purpose here parts =
      if parts = [] then .arrived (.existing here (.file mode content))
      else .stopped .notADirectory := by
  cases parts with
  | nil => exact pass_nil h
  | cons part rest =>
    rw [pass_cons, turn, h]
    rfl

theorem lookup_of_none (h : t.get? next = none) :
    t.lookup purpose next rest =
      if rest.all (· = []) then .arrived (.vacant next) else .stopped .notFound := by
  rw [lookup, h]

theorem lookup_of_link {target : Bytes} (h : t.get? next = some (.link target)) :
    t.lookup purpose next rest =
      if rest.isEmpty && purpose = .rename then .arrived (.existing next (.link target))
      else .diverted (startOf next.dropLast target) (Path.parts target ++ rest) := by
  rw [lookup, h]

theorem lookup_of_file {mode : Nat} {content : Bytes} (h : t.get? next = some (.file mode content)) :
    t.lookup purpose next rest =
      if rest = [] then .arrived (.existing next (.file mode content))
      else .stopped .notADirectory := by
  rw [← pass_of_file h, lookup, h]

theorem lookup_of_directory {mode : Nat} (h : t.get? next = some (.directory mode)) :
    t.lookup purpose next rest = t.pass purpose next rest := by
  rw [lookup, h]

/-! ## Locations that can be reached -/

/-- An entry lies where its location says: behind directories only, under names that entries can have. -/
structure Reaches (t : FileTree) (l : Location) : Prop where
  isDirectory : ∀ k name, k ++ [name] <+: l → ∃ mode, t.get? k = some (.directory mode)
  isName : ∀ name ∈ l, Path.IsName name

/-- A directory that lies where its location says. -/
structure HasDirectory (t : FileTree) (l : Location) : Prop where
  reaches : t.Reaches l
  isDirectory : ∃ mode, t.get? l = some (.directory mode)

theorem Reaches.of_prefix {k : Location} (h : t.Reaches l) (hk : k <+: l) : t.Reaches k where
  isDirectory j name hj := h.isDirectory j name (hj.trans hk)
  isName name hname := h.isName name (hk.subset hname)

/-- Below a directory an entry can lie under any name. -/
theorem HasDirectory.reaches_concat (h : t.HasDirectory here) {name : Bytes} (hname : Path.IsName name) :
    t.Reaches (here ++ [name]) where
  isDirectory k other hk := by
    rcases List.prefix_concat_iff.1 hk with heq | hk
    · rw [(List.append_inj' heq rfl).1]
      exact h.isDirectory
    · exact h.reaches.isDirectory k other hk
  isName other hother := by
    rcases List.mem_append.1 hother with hother | hother
    · exact h.reaches.isName other hother
    · rwa [List.mem_singleton.1 hother]

theorem hasDirectory_root (t : FileTree) : t.HasDirectory [] where
  reaches := { isDirectory := fun k name hk => absurd (List.prefix_nil.1 hk) (by simp), isName := nofun }
  isDirectory := ⟨0o755, rfl⟩

/-- A step up from a directory leads to a directory. -/
theorem HasDirectory.dropLast (h : t.HasDirectory here) : t.HasDirectory here.dropLast := by
  rcases List.eq_nil_or_concat here with rfl | ⟨front, name, rfl⟩
  · exact h
  · rw [List.concat_eq_append] at h ⊢
    rw [List.dropLast_concat]
    exact ⟨h.reaches.of_prefix (List.prefix_append front [name]),
      h.reaches.isDirectory front name List.prefix_rfl⟩

/-- A way starts at a directory. -/
theorem HasDirectory.startOf (h : t.HasDirectory here) (target : Bytes) :
    t.HasDirectory (startOf here target) := by
  rw [FileTree.startOf]
  split
  · exact hasDirectory_root t
  · exact h

/-- A name is not refused for being missing. -/
theorem nameRefusal?_ne_notFound {cause : IoCause} (h : nameRefusal? purpose part rest = some cause) :
    cause ≠ .notFound := by
  rintro rfl
  have hslash : purpose.slashRefusal? ≠ some .notFound := by cases purpose <;> exact nofun
  rw [nameRefusal?] at h
  split at h
  · next hcause =>
    split at hcause
    · exact hslash (hcause.trans h)
    · cases hcause
  · split at h <;> cases h

/-- A part stops the way, or leads to a directory that was passed already, or is a name that an entry
below a directory can have. -/
theorem turn_cases (purpose : Purpose) (rest : List Bytes) (h : t.HasDirectory here)
    (hpart : Path.slash ∉ part) :
    (∃ cause, t.turn purpose here part rest = .stop cause ∧ cause ≠ .notFound) ∨
    (∃ next, t.turn purpose here part rest = .stay next ∧ t.HasDirectory next) ∨
    (t.turn purpose here part rest = .name ∧ Path.IsName part ∧
      nameRefusal? purpose part rest = none) := by
  rw [turn]
  split_ifs with hdir hempty hsearch hdot hdots
  · exact Or.inl ⟨_, rfl, nofun⟩
  · exact Or.inr (Or.inl ⟨_, rfl, h⟩)
  · exact Or.inl ⟨_, rfl, nofun⟩
  · exact Or.inr (Or.inl ⟨_, rfl, h⟩)
  · exact Or.inr (Or.inl ⟨_, rfl, h.dropLast⟩)
  · cases hrefusal : nameRefusal? purpose part rest with
    | some cause =>
      exact Or.inl ⟨cause, rfl, nameRefusal?_ne_notFound hrefusal⟩
    | none => exact Or.inr (Or.inr ⟨rfl, ⟨hempty, hdot, hdots, hpart⟩, rfl⟩)

/-- What a way leads to can be reached, and so can the place where it goes on at a link.  Only for one
purpose does it end at a link. -/
def Passage.IsSound (t : FileTree) (purpose : Purpose) : Passage → Prop
  | .arrived target => t.Reaches target.location ∧
      ∀ l path, target = .existing l (.link path) → purpose = .rename
  | .stopped _ => True
  | .diverted start parts => t.HasDirectory start ∧ ∀ part ∈ parts, Path.slash ∉ part

theorem isSound_pass (purpose : Purpose) (h : t.HasDirectory here)
    (hparts : ∀ part ∈ parts, Path.slash ∉ part) :
    (t.pass purpose here parts).IsSound t purpose := by
  induction parts generalizing here with
  | nil =>
    obtain ⟨mode, hmode⟩ := h.isDirectory
    rw [pass_nil hmode]
    exact ⟨h.reaches, nofun⟩
  | cons part rest ih =>
    obtain ⟨hpart, hrest⟩ := List.forall_mem_cons.1 hparts
    rw [pass_cons]
    rcases turn_cases purpose rest h hpart with
      ⟨cause, hturn, -⟩ | ⟨next, hturn, hnext⟩ | ⟨hturn, hname, -⟩
    · rw [hturn]
      exact trivial
    · rw [hturn]
      exact ih hnext hrest
    · rw [hturn]
      have hreaches := h.reaches_concat hname
      cases hn : t.get? (here ++ [part]) with
      | none =>
        simp only [lookup_of_none hn]
        split
        · exact ⟨hreaches, nofun⟩
        · exact trivial
      | some n =>
        cases n with
        | file mode content =>
          simp only [lookup_of_file hn]
          split
          · exact ⟨hreaches, nofun⟩
          · exact trivial
        | directory mode =>
          simp only [lookup_of_directory hn]
          exact ih ⟨hreaches, mode, hn⟩ hrest
        | link target =>
          simp only [lookup_of_link hn, List.dropLast_concat]
          split
          · next hlast =>
            rw [Bool.and_eq_true, decide_eq_true_eq] at hlast
            exact ⟨hreaches, fun _ _ _ => hlast.2⟩
          · refine ⟨h.startOf target, fun other hother => ?_⟩
            rcases List.mem_append.1 hother with hother | hother
            · exact Path.slash_not_mem_of_mem_parts hother
            · exact hrest other hother

/-! ## Walks -/

/-- How a walk goes on after a stretch without links. -/
def proceed (t : FileTree) (purpose : Purpose) (links : Nat) : Passage → Except IoCause Target
  | .arrived target => .ok target
  | .stopped cause => .error cause
  | .diverted start parts =>
    match links with
    | 0 => .error .linkLoop
    | links + 1 => t.walk purpose links start parts

theorem walk_eq_proceed (t : FileTree) (purpose : Purpose) (links : Nat) (here : Location)
    (parts : List Bytes) :
    t.walk purpose links here parts = t.proceed purpose links (t.pass purpose here parts) := by
  cases links <;> rw [walk] <;> rfl

/-- What a walk leads to can be reached. -/
theorem reaches_of_walk {links : Nat} {target : Target} (h : t.HasDirectory here)
    (hparts : ∀ part ∈ parts, Path.slash ∉ part)
    (hwalk : t.walk purpose links here parts = .ok target) :
    t.Reaches target.location ∧ ∀ l path, target = .existing l (.link path) → purpose = .rename := by
  fun_induction walk t purpose links here parts with
  | case1 links here parts found hpass =>
    have hsound := isSound_pass purpose h hparts
    rw [hpass] at hsound
    cases hwalk
    exact hsound
  | case2 => cases hwalk
  | case3 => cases hwalk
  | case4 here parts start rest hpass links ih =>
    have hsound := isSound_pass purpose h hparts
    rw [hpass] at hsound
    exact ih hsound.1 hsound.2 hwalk

/-- A walk that has come to its end needs no more links. -/
theorem walk_mono {links more : Nat} {result : Except IoCause Target}
    (h : t.walk purpose links here parts = result) (hresult : result ≠ .error .linkLoop)
    (hle : links ≤ more) : t.walk purpose more here parts = result := by
  subst h
  fun_induction walk t purpose links here parts generalizing more with
  | case1 links here parts found hpass => rw [walk_eq_proceed, hpass, proceed]
  | case2 links here parts cause hpass => rw [walk_eq_proceed, hpass, proceed]
  | case3 => exact absurd rfl hresult
  | case4 here parts start rest hpass links ih =>
    obtain ⟨more, rfl⟩ := Nat.exists_eq_add_of_le' (Nat.one_le_of_lt hle)
    rw [walk_eq_proceed, hpass]
    exact ih (Nat.le_of_succ_le_succ hle) hresult

/-! ## The path of a location -/

theorem parts_pathOf (hne : l ≠ []) (hnames : ∀ name ∈ l, Path.slash ∉ name) :
    Path.parts (pathOf l).bytes = [] :: l := by
  rw [pathOf, Path.parts_cons_slash, Path.parts_joinWith hne hnames]

/-- A name leads on to no location that was passed already. -/
theorem turn_ne_stay (hname : Path.IsName part) (next : Location) :
    t.turn purpose here part rest ≠ .stay next := by
  rw [turn, if_neg hname.ne_nil, if_neg hname.ne_dot, if_neg hname.ne_dots]
  split_ifs
  · exact nofun
  · exact nofun
  · cases nameRefusal? purpose part rest <;> exact nofun

/-- On its own path an entry is looked up, if nothing forbids to come so far. -/
theorem pass_of_reaches (h : t.Reaches (here ++ parts)) (hhere : t.HasDirectory here)
    (hne : parts ≠ []) :
    t.pass purpose here parts = t.lookup purpose (here ++ parts) [] ∨
      ∃ cause, t.pass purpose here parts = .stopped cause ∧ cause ≠ .notFound := by
  induction parts generalizing here with
  | nil => exact absurd rfl hne
  | cons part rest ih =>
    have hname := h.isName part (List.mem_append_right here List.mem_cons_self)
    have happend : here ++ part :: rest = here ++ [part] ++ rest := by
      rw [List.append_assoc, List.singleton_append]
    rw [pass_cons]
    rcases turn_cases purpose rest hhere hname.slash_not_mem with
      ⟨cause, hturn, hcause⟩ | ⟨next, hturn, -⟩ | ⟨hturn, -, -⟩
    · rw [hturn]
      exact Or.inr ⟨cause, rfl, hcause⟩
    · exact absurd hturn (turn_ne_stay hname next)
    · rw [hturn]
      cases rest with
      | nil => exact Or.inl rfl
      | cons part' rest =>
        have hprefix : here ++ [part] ++ [part'] <+: here ++ part :: part' :: rest :=
          ⟨rest, by simp⟩
        obtain ⟨mode, hmode⟩ := h.isDirectory (here ++ [part]) part' hprefix
        have hnext : t.HasDirectory (here ++ [part]) := ⟨hhere.reaches_concat hname, mode, hmode⟩
        rw [happend] at h ⊢
        simp only [lookup_of_directory hmode]
        exact ih h hnext (List.cons_ne_nil part' rest)

/-- A file or directory that lies where its location says is found on its own path, or else something
other than its being missing stands in the way. -/
theorem resolve_pathOf {n : Node} (h : t.Reaches l) (hl : t.get? l = some n)
    (hlink : ∀ target, n ≠ .link target) (cwd : Location) (purpose : Purpose) :
    t.resolve cwd purpose (pathOf l) = .ok (.existing l n) ∨
      ∃ cause, t.resolve cwd purpose (pathOf l) = .error cause ∧ cause ≠ .notFound := by
  have hpass : t.pass purpose [] (Path.parts (pathOf l).bytes) = .arrived (.existing l n) ∨
      ∃ cause, t.pass purpose [] (Path.parts (pathOf l).bytes) = .stopped cause ∧
        cause ≠ .notFound := by
    have hroot : ∀ parts, t.pass purpose [] ([] :: parts) = t.pass purpose [] parts := fun _ => rfl
    by_cases hne : l = []
    · subst hne
      refine Or.inl ?_
      rw [show Path.parts (pathOf []).bytes = [[], []] from rfl, hroot, hroot]
      exact pass_nil hl
    · rw [parts_pathOf hne fun name hname => (h.isName name hname).slash_not_mem, hroot]
      have hlookup : t.lookup purpose l [] = .arrived (.existing l n) := by
        cases n with
        | file mode content => rw [lookup_of_file hl, if_pos rfl]
        | directory mode => rw [lookup_of_directory hl, pass_nil hl]
        | link target => exact absurd rfl (hlink target)
      rw [← hlookup]
      exact pass_of_reaches h (hasDirectory_root t) hne
  have hstart : startOf cwd (pathOf l).bytes = [] := if_pos rfl
  rw [resolve, trace, hstart, walk_eq_proceed]
  split_ifs with hlong hzero hempty
  · exact Or.inr ⟨_, rfl, nofun⟩
  · exact Or.inr ⟨_, rfl, nofun⟩
  · cases hempty
  · rcases hpass with hfound | ⟨cause, hstopped, hcause⟩
    · exact Or.inl (by rw [hfound, proceed])
    · exact Or.inr ⟨cause, by rw [hstopped, proceed], hcause⟩

end BuildTargets.FileTree

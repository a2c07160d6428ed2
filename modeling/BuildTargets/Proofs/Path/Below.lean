import BuildTargets.Proofs.Path.Canonical

/-!
# Paths below a directory

`Path.below? base p` gives the names that lead from `base` down to `p`.  It succeeds exactly if the
normal steps of `p` are those of `base` and then names, at least one (`below?_eq_some_iff`).  They are
names that an entry can have (`isName_of_mem_below?`), so the text that spells them is not empty
(`namesText_ne_nil`).
-/

namespace BuildTargets

namespace Path

/-- Collecting names succeeds on lists of names only. -/
theorem mapM_name_eq_some_iff {cs : List Component} {names : List Bytes} :
    (cs.mapM fun
      | .name n => some n
      | _ => none) = some names ↔ cs = names.map .name := by
  induction cs generalizing names with
  | nil =>
    rw [List.mapM_nil]
    constructor
    · intro h
      cases h
      rfl
    · intro h
      cases names with
      | nil => rfl
      | cons n names => cases h
  | cons c cs ih =>
    rw [List.mapM_cons, Option.bind_eq_bind, Option.bind_eq_some_iff]
    constructor
    · rintro ⟨n, hn, h⟩
      rw [Option.bind_eq_bind, Option.bind_eq_some_iff] at h
      obtain ⟨rest, hrest, hnames⟩ := h
      cases hnames
      rw [ih.1 hrest, List.map_cons]
      cases c with
      | name b =>
        cases hn
        rfl
      | root | here | up => cases hn
    · intro h
      cases names with
      | nil => cases h
      | cons n names =>
        rw [List.map_cons, List.cons.injEq] at h
        obtain ⟨rfl, rfl⟩ := h
        refine ⟨n, rfl, ?_⟩
        rw [ih.2 rfl]
        rfl

/-- One path lies below another exactly if its normal steps go on with names. -/
theorem below?_eq_some_iff {base p : Path} {names : List Bytes} :
    base.below? p = some names ↔
      names ≠ [] ∧ p.normalComponents = base.normalComponents ++ names.map .name := by
  rw [below?]
  split
  · next h =>
    refine iff_of_false (fun hnone => by cases hnone) ?_
    rintro ⟨-, hp⟩
    rw [after?_eq_some_iff.2 hp] at h
    cases h
  · next h =>
    refine iff_of_false (fun hnone => by cases hnone) ?_
    rintro ⟨hne, hp⟩
    rw [after?_eq_some_iff.2 hp, Option.some.injEq, List.map_eq_nil_iff] at h
    exact hne h
  · next c cs h =>
    refine Iff.trans mapM_name_eq_some_iff ?_
    rw [after?_eq_some_iff.1 h]
    constructor
    · intro hnames
      refine ⟨?_, by rw [hnames]⟩
      intro hnil
      rw [hnil] at hnames
      cases hnames
    · rintro ⟨-, hp⟩
      exact List.append_cancel_left hp

/-! ## Names -/

/-- What a path names can be a name. -/
theorem isName_of_mem_components {p : Path} {n : Bytes} (h : .name n ∈ p.components) : IsName n := by
  have hmem : .name n ∈ p.steps := by
    rcases components_eq p with ⟨-, hp⟩ | ⟨-, hp | hp⟩ <;> simpa [hp] using h
  rcases mem_steps hmem with hup | ⟨m, hm, hname⟩
  · cases hup
  · cases hm
    exact hname

/-- The names that lead down to a path can be names. -/
theorem isName_of_mem_below? {base p : Path} {names : List Bytes} (h : base.below? p = some names) :
    ∀ n ∈ names, IsName n := by
  intro n hn
  refine isName_of_mem_components (p := p.normalize) ?_
  rw [components_normalize, (below?_eq_some_iff.1 h).2]
  exact List.mem_append_right _ (List.mem_map_of_mem hn)

/-- The names that lead down to a path are not empty. -/
theorem ne_nil_of_mem_below? {base p : Path} {names : List Bytes} (h : base.below? p = some names) :
    ∀ n ∈ names, n ≠ [] :=
  fun n hn => (isName_of_mem_below? h n hn).ne_nil

/-- Octets show as at least one character. -/
theorem decodeLossy_ne_nil {s : Bytes} (hs : s ≠ []) : Utf8.decodeLossy s ≠ [] := by
  cases s with
  | nil => exact absurd rfl hs
  | cons a s =>
    rw [Utf8.decodeLossy, Utf8.read]
    exact List.cons_ne_nil _ _

/-- Names spell a text that is not empty. -/
theorem namesText_ne_nil {names : List Bytes} (hne : names ≠ []) (hnames : ∀ n ∈ names, n ≠ []) :
    namesText names ≠ [] := by
  match names, hne with
  | [n], _ =>
    exact decodeLossy_ne_nil (hnames n List.mem_cons_self)
  | n :: m :: names, _ =>
    rw [namesText, List.map_cons, List.map_cons, joinWith]
    simp

end Path

end BuildTargets

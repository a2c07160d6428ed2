import BuildTargets.Path.Normal
import BuildTargets.Proofs.Path.Steps

/-!
# Normal paths are canonical

What is left of a path when its dots and steps up have been resolved is the root, or any number of
steps up, and then names (`IsNormal`).  Such steps stay as they are when they are settled
(`foldl_settle_of_isNormal`) and when they are spelled and read (`components_ofComponents_of_isNormal`),
so a normal path is normal for good.  Settling goes from left to right, so a path that is joined to
another may be normalized first (`normalize_canonical`).
-/

namespace BuildTargets

namespace Path

/-- Steps in which there is nothing to resolve: behind the root, names; in a relative path, any number
of steps up and then names. -/
inductive IsNormal : (absolute : Bool) → List Component → Prop where
  | absolute {names : List Bytes} (hnames : ∀ n ∈ names, IsName n) :
      IsNormal true (.root :: names.map .name)
  | relative (ups : Nat) {names : List Bytes} (hnames : ∀ n ∈ names, IsName n) :
      IsNormal false (List.replicate ups .up ++ names.map .name)

variable {absolute : Bool} {cs taken : List Component}

/-! ## Settling -/

theorem settle_name (taken : List Component) (n : Bytes) :
    settle taken (.name n) = .name n :: taken := by
  cases taken with
  | nil => rfl
  | cons d taken => cases d <;> rfl

/-- A step up is kept behind others. -/
theorem settle_replicate_up (ups : Nat) :
    settle (List.replicate ups .up) .up = List.replicate (ups + 1) .up := by
  cases ups <;> rfl

/-- Names are taken one after the other. -/
theorem foldl_settle_names (taken : List Component) (names : List Bytes) :
    (names.map .name).foldl settle taken = (names.map .name).reverse ++ taken := by
  induction names generalizing taken with
  | nil => rfl
  | cons n names ih =>
    rw [List.map_cons, List.foldl_cons, settle_name, ih, List.reverse_cons, List.append_assoc]
    rfl

/-- Steps up are taken where there is nothing to undo. -/
theorem foldl_settle_ups (ups : Nat) :
    (List.replicate ups .up).foldl settle [] = List.replicate ups .up := by
  induction ups with
  | zero => rfl
  | succ ups ih =>
    rw [List.replicate_succ', List.foldl_append, ih]
    exact (settle_replicate_up ups).trans List.replicate_succ'

/-- Normal steps stay as they are. -/
theorem foldl_settle_of_isNormal (h : IsNormal absolute cs) : cs.foldl settle [] = cs.reverse := by
  cases h with
  | absolute hnames =>
    rw [List.foldl_cons, List.reverse_cons]
    exact foldl_settle_names [.root] _
  | relative ups hnames =>
    rw [List.foldl_append, foldl_settle_ups, foldl_settle_names, List.reverse_append,
      List.reverse_replicate]

/-- A step up undoes the last name. -/
theorem settle_up_names (lead : List Component) (names : List Bytes) (n : Bytes) :
    (settle (lead ++ (names ++ [n]).map Component.name).reverse .up).reverse =
      lead ++ names.map Component.name := by
  rw [List.map_append, ← List.append_assoc, List.reverse_append]
  exact List.reverse_reverse _

/-- A step up behind normal steps leads to normal ones. -/
theorem isNormal_settle_up (h : IsNormal absolute cs) :
    IsNormal absolute (settle cs.reverse .up).reverse := by
  have hfront : ∀ {names : List Bytes} {n : Bytes}, (∀ m ∈ names ++ [n], IsName m) →
      ∀ m ∈ names, IsName m := fun hnames m hm => hnames m (List.mem_append_left _ hm)
  cases h with
  | @absolute names hnames =>
    rcases List.eq_nil_or_concat names with rfl | ⟨front, n, rfl⟩
    · exact .absolute hnames
    · rw [List.concat_eq_append] at hnames ⊢
      have hpop := settle_up_names [.root] front n
      rw [List.singleton_append] at hpop
      rw [hpop]
      exact .absolute (hfront hnames)
  | @relative ups names hnames =>
    rcases List.eq_nil_or_concat names with rfl | ⟨front, n, rfl⟩
    · have hgoal := IsNormal.relative (ups + 1) hnames
      rw [List.map_nil, List.append_nil] at hgoal ⊢
      rwa [List.reverse_replicate, settle_replicate_up, List.reverse_replicate]
    · rw [List.concat_eq_append] at hnames ⊢
      rw [settle_up_names]
      exact .relative ups (hfront hnames)

/-- A name behind normal steps makes for normal ones. -/
theorem isNormal_settle_name (h : IsNormal absolute cs) {n : Bytes} (hn : IsName n) :
    IsNormal absolute (settle cs.reverse (.name n)).reverse := by
  have hall : ∀ {names : List Bytes}, (∀ m ∈ names, IsName m) → ∀ m ∈ names ++ [n], IsName m :=
    fun hnames m hm => (List.mem_append.1 hm).elim (hnames m) fun h => List.mem_singleton.1 h ▸ hn
  rw [settle_name, List.reverse_cons, List.reverse_reverse]
  cases h with
  | absolute hnames =>
    have hgoal := IsNormal.absolute (hall hnames)
    rwa [List.map_append] at hgoal
  | relative ups hnames =>
    have hgoal := IsNormal.relative ups (hall hnames)
    rwa [List.map_append, ← List.append_assoc] at hgoal

/-- Settling steps behind normal ones leads to normal ones. -/
theorem isNormal_foldl_settle (h : IsNormal absolute cs) {l : List Component}
    (hl : ∀ c ∈ l, c = .up ∨ ∃ n, c = .name n ∧ IsName n) :
    IsNormal absolute (l.foldl settle cs.reverse).reverse := by
  induction l generalizing cs with
  | nil => rwa [List.foldl_nil, List.reverse_reverse]
  | cons c l ih =>
    have hstep : IsNormal absolute (settle cs.reverse c).reverse := by
      rcases hl c List.mem_cons_self with rfl | ⟨n, rfl, hn⟩
      · exact isNormal_settle_up h
      · exact isNormal_settle_name h hn
    have hrest := ih hstep fun d hd => hl d (List.mem_cons_of_mem c hd)
    rwa [List.reverse_reverse] at hrest

/-! ## Normal paths -/

/-- The steps that settling starts with. -/
def start (absolute : Bool) : List Component := if absolute then [.root] else []

theorem isNormal_start (absolute : Bool) : IsNormal absolute (start absolute) := by
  cases absolute with
  | true => exact .absolute (List.forall_mem_nil _)
  | false => exact .relative 0 (List.forall_mem_nil _)

/-- Only the steps behind the root or a leading dot have to be settled. -/
theorem normalComponents_eq (p : Path) :
    p.normalComponents = (p.steps.foldl settle (start p.isAbsolute).reverse).reverse := by
  rw [normalComponents]
  rcases components_eq p with ⟨habs, hp⟩ | ⟨habs, hp | hp⟩ <;> rw [hp, habs] <;> rfl

/-- The normal steps of a path are normal. -/
theorem isNormal_normalComponents (p : Path) : IsNormal p.isAbsolute p.normalComponents := by
  rw [normalComponents_eq]
  exact isNormal_foldl_settle (isNormal_start _) fun _ => mem_steps

/-- Normal steps are spelled as a path with these steps. -/
theorem components_ofComponents_of_isNormal (h : IsNormal absolute cs) :
    (ofComponents cs).isAbsolute = absolute ∧ (ofComponents cs).components = cs := by
  have hname : ∀ {names : List Bytes}, (∀ n ∈ names, IsName n) →
      ∀ c ∈ names.map Component.name, c = .up ∨ ∃ n, c = .name n ∧ IsName n := by
    intro names hnames c hc
    obtain ⟨n, hn, rfl⟩ := List.mem_map.1 hc
    exact Or.inr ⟨n, rfl, hnames n hn⟩
  cases h with
  | absolute hnames => exact ⟨rfl, components_ofComponents_root (hname hnames)⟩
  | relative ups hnames =>
    refine components_ofComponents fun c hc => ?_
    rcases List.mem_append.1 hc with hc | hc
    · exact Or.inl (List.eq_of_mem_replicate hc)
    · exact hname hnames c hc

/-- The steps of a normal path are the normal steps. -/
theorem components_normalize (p : Path) : p.normalize.components = p.normalComponents :=
  (components_ofComponents_of_isNormal (isNormal_normalComponents p)).2

theorem isAbsolute_normalize (p : Path) : p.normalize.isAbsolute = p.isAbsolute :=
  (components_ofComponents_of_isNormal (isNormal_normalComponents p)).1

/-- A path of normal steps has these as its normal steps. -/
theorem normalComponents_of_isNormal {p : Path} (h : IsNormal absolute p.components) :
    p.normalComponents = p.components := by
  rw [normalComponents, foldl_settle_of_isNormal h, List.reverse_reverse]

theorem normalComponents_normalize (p : Path) :
    p.normalize.normalComponents = p.normalComponents := by
  have hcomponents := components_normalize p
  rw [normalComponents_of_isNormal (hcomponents ▸ isNormal_normalComponents p), hcomponents]

/-- The steps of a relative path are settled behind those of the directory it is seen from. -/
theorem normalComponents_join (p : Path) {q : Path} (hq : q.isAbsolute = false) :
    (p.join q).normalComponents = (q.steps.foldl settle p.normalComponents.reverse).reverse := by
  rw [normalComponents_eq, isAbsolute_join p hq, steps_join p hq, List.foldl_append,
    normalComponents_eq p, List.reverse_reverse]

/-- The directory that a path is seen from may be normalized first. -/
theorem normalComponents_normalize_join (p q : Path) :
    (p.normalize.join q).normalComponents = (p.join q).normalComponents := by
  cases hq : q.isAbsolute with
  | true => rw [join_of_isAbsolute _ hq, join_of_isAbsolute _ hq]
  | false => rw [normalComponents_join _ hq, normalComponents_join _ hq, normalComponents_normalize]

/-- The normal spelling of a path is canonical.  It has no dots, it is absolute if the path is, and it
steps up only in front of all names, and never from the root.  Where the steps of a path have this form
already they are kept, so a normal path is its own normal spelling.  A path seen from another has the
normal spelling that it has when seen from the normal spelling of the other. -/
theorem normalize_canonical (p : Path) :
    .here ∉ p.normalize.components ∧
    p.normalize.isAbsolute = p.isAbsolute ∧
    (p.isAbsolute = true ∧
        (∃ names : List Bytes, p.normalize.components = .root :: names.map .name) ∨
      p.isAbsolute = false ∧ ∃ (ups : Nat) (names : List Bytes),
        p.normalize.components = List.replicate ups .up ++ names.map .name) ∧
    (p.normalize.components = p.components ↔ IsNormal p.isAbsolute p.components) ∧
    p.normalize.normalize = p.normalize ∧
    ∀ q : Path, (p.join q).normalize = (p.normalize.join q).normalize := by
  have hnormal := isNormal_normalComponents p
  have hform : (p.isAbsolute = true ∧
        (∃ names : List Bytes, p.normalComponents = .root :: names.map .name)) ∨
      p.isAbsolute = false ∧ ∃ (ups : Nat) (names : List Bytes),
        p.normalComponents = List.replicate ups .up ++ names.map .name := by
    generalize p.isAbsolute = absolute, p.normalComponents = cs at hnormal
    cases hnormal with
    | absolute hnames => exact Or.inl ⟨rfl, _, rfl⟩
    | relative ups hnames => exact Or.inr ⟨rfl, ups, _, rfl⟩
  rw [components_normalize]
  refine ⟨?_, isAbsolute_normalize p, hform, ⟨fun h => h ▸ hnormal, normalComponents_of_isNormal⟩,
    ?_, fun q => ?_⟩
  · rcases hform with ⟨-, names, h⟩ | ⟨-, ups, names, h⟩ <;> simp [h]
  · rw [normalize, normalComponents_normalize, normalize]
  · rw [normalize, normalize, normalComponents_normalize_join]

/-- A step up undoes a name, stays put at the root and is kept in front of a relative path. -/
example : (ofText "/../a//b/./../c/".toList).normalize = ofText "/a/c".toList ∧
    (ofText "./a/../../b".toList).normalize = ofText "../b".toList := by
  decide +kernel

end Path

end BuildTargets

import BuildTargets.Proofs.FileTree.Ways

/-!
# Paths followed for different purposes

A path can be followed to look at what is there, to put something there, or only to locate it.  A purpose
that asks for less goes the same way (`walk_of_isWeaker`), and follows a link at the end of it.  A way
that goes on behind its beginning needs what the beginning finds, so it is no use to write slashes or
names behind a link that leads nowhere (`exists_of_walk_append`).
-/

namespace BuildTargets.FileTree

variable {t : FileTree} {purpose p q : Purpose} {here l : Location} {part : Bytes}
  {rest parts : List Bytes}

/-! ## Purposes that ask for less -/

/-- A purpose asks for no more than another: it needs no other directories to be searched, and it
refuses no slash at the end. -/
structure Purpose.IsWeaker (q p : Purpose) : Prop where
  search : ∀ part, needsSearch q part = true → needsSearch p part = true
  slash : q.slashRefusal? = none

/-- A purpose that refuses no slash at the end is not the one for which a name is replaced. -/
theorem Purpose.IsWeaker.ne_rename (hq : q.IsWeaker p) : q ≠ .rename := by
  rintro rfl
  cases hq.slash

theorem isWeaker_locate (p : Purpose) : Purpose.locate.IsWeaker p where
  search part h := by
    cases p with
    | locate => exact h
    | look | create | rename => rfl
  slash := rfl

theorem isWeaker_look_rename : Purpose.look.IsWeaker .rename where
  search _ _ := rfl
  slash := rfl

/-- A cause of refusal that a weaker purpose need not mind. -/
def Purpose.mayMind (p : Purpose) (cause : IoCause) : Prop :=
  cause = .forbidden ∨ p.slashRefusal? = some cause

/-- Where no slash is refused, a name is for its length only. -/
theorem nameRefusal?_of_slash (hq : q.slashRefusal? = none) (part : Bytes) (rest : List Bytes) :
    nameRefusal? q part rest = if longestName < part.length then some .nameTooLong else none := by
  rw [nameRefusal?, hq, ite_self]

theorem nameRefusal?_of_isWeaker (hq : q.IsWeaker p)
    (h : ∀ cause, nameRefusal? p part rest = some cause → ¬p.mayMind cause) (rest' : List Bytes) :
    nameRefusal? q part rest' = nameRefusal? p part rest := by
  rw [nameRefusal?_of_slash hq.slash]
  rw [nameRefusal?] at h ⊢
  by_cases hrest : (rest ≠ [] && rest.all (· = [])) = true
  · rw [if_pos hrest] at h ⊢
    cases hslash : p.slashRefusal? with
    | none => rfl
    | some cause =>
      rw [hslash] at h
      exact absurd (Or.inr hslash) (h cause rfl)
  · rw [if_neg hrest]

/-- A part that does not stop the way for one purpose leads on in the same way for a weaker one, whatever
stands behind it. -/
theorem turn_of_isWeaker (hq : q.IsWeaker p)
    (h : ∀ cause, t.turn p here part rest = .stop cause → ¬p.mayMind cause) (rest' : List Bytes) :
    t.turn q here part rest' = t.turn p here part rest := by
  by_cases hdir : (!(t.get? here).any Node.isDirectory) = true
  · rw [turn, turn, if_pos hdir, if_pos hdir]
  by_cases hempty : part = []
  · rw [turn, turn, if_neg hdir, if_neg hdir, if_pos hempty, if_pos hempty]
  by_cases hsearch : (needsSearch p part && !t.permits .search here) = true
  · exact absurd (Or.inl rfl) (h _ (by rw [turn, if_neg hdir, if_neg hempty, if_pos hsearch]))
  have hsearch' : ¬(needsSearch q part && !t.permits .search here) = true := by
    rw [Bool.and_eq_true] at hsearch ⊢
    exact fun hq' => hsearch ⟨hq.search part hq'.1, hq'.2⟩
  rw [turn_of_permits hdir hempty hsearch] at h ⊢
  rw [turn_of_permits hdir hempty hsearch']
  split_ifs with hdot hdots
  · rfl
  · rfl
  · rw [if_neg hdot, if_neg hdots] at h
    rw [nameRefusal?_of_isWeaker hq fun cause hcause => h cause (by rw [hcause])]

/-- A way that ends at a link goes on as the link says. -/
def Passage.follow : Passage → Passage
  | .arrived (.existing l (.link target)) =>
    .diverted (startOf l.dropLast target) (Path.parts target)
  | passage => passage

/-- A way that ends, but not at a link, ends there. -/
theorem proceed_follow {links : Nat} {target : Target}
    (h : ∀ l address, target ≠ .existing l (.link address)) :
    t.proceed purpose links (Passage.arrived target).follow = .ok target := by
  cases target with
  | vacant l => rfl
  | existing l n =>
    cases n with
    | link address => exact absurd rfl (h l address)
    | file mode content => rfl
    | directory mode => rfl

/-- Unless a stronger purpose is refused for what a weaker one does not mind, a stretch is the same for
both, but the weaker one follows a link at its end. -/
theorem pass_of_isWeaker (hq : q.IsWeaker p) (hhere : t.HasDirectory here)
    (hparts : ∀ part ∈ parts, Path.slash ∉ part)
    (h : ∀ cause, t.pass p here parts = .stopped cause → ¬p.mayMind cause) :
    t.pass q here parts = (t.pass p here parts).follow := by
  induction parts generalizing here with
  | nil =>
    obtain ⟨mode, hmode⟩ := hhere.isDirectory
    rw [pass_nil hmode, pass_nil hmode]
    rfl
  | cons part rest ih =>
    obtain ⟨hpart, hrest⟩ := List.forall_mem_cons.1 hparts
    rw [pass_cons] at h ⊢
    rw [pass_cons]
    have hturns : t.turn q here part rest = t.turn p here part rest :=
      turn_of_isWeaker hq (fun cause hcause => h cause (by rw [hcause])) rest
    rw [hturns]
    rcases turn_cases p rest hhere hpart with
      ⟨cause, hturn, -⟩ | ⟨next, hturn, hnext⟩ | ⟨hturn, hname, -⟩
    · rw [hturn]
      rfl
    · rw [hturn] at h ⊢
      exact ih hnext hrest h
    · rw [hturn] at h ⊢
      have hreaches := hhere.reaches_concat hname
      simp only at h ⊢
      cases hn : t.get? (here ++ [part]) with
      | none =>
        rw [lookup_of_none hn, lookup_of_none hn]
        split <;> rfl
      | some n =>
        cases n with
        | file mode content =>
          rw [lookup_of_file hn, lookup_of_file hn]
          split <;> rfl
        | directory mode =>
          rw [lookup_of_directory hn] at h ⊢
          rw [lookup_of_directory hn]
          exact ih ⟨hreaches, mode, hn⟩ hrest h
        | link target =>
          rw [lookup_of_link hn, lookup_of_link hn, if_neg (by simp [hq.ne_rename])]
          split
          · next hlast =>
            rw [Bool.and_eq_true, List.isEmpty_iff] at hlast
            rw [hlast.1, List.append_nil]
            rfl
          · rfl

/-- Unless a stronger purpose is refused for what a weaker one does not mind, a walk is the same for
both, but the weaker one follows a link at its end. -/
theorem walk_of_isWeaker (hq : q.IsWeaker p) {links : Nat} (hhere : t.HasDirectory here)
    (hparts : ∀ part ∈ parts, Path.slash ∉ part)
    (h : ∀ cause, t.walk p links here parts = .error cause → ¬p.mayMind cause) :
    ∃ left, t.walk q links here parts =
      t.walk p links here parts >>= fun target =>
        t.proceed q left (Passage.arrived target).follow := by
  fun_induction walk t p links here parts with
  | case1 links here parts found hpass =>
    refine ⟨links, ?_⟩
    rw [walk_eq_proceed, pass_of_isWeaker hq hhere hparts (by rw [hpass]; rintro _ ⟨⟩), hpass]
    rfl
  | case2 links here parts cause hpass =>
    refine ⟨links, ?_⟩
    have hstopped : ∀ cause, t.pass p here parts = .stopped cause → ¬p.mayMind cause := by
      intro cause hcause
      rw [hpass] at hcause
      cases hcause
      exact h cause rfl
    rw [walk_eq_proceed, pass_of_isWeaker hq hhere hparts hstopped, hpass]
    rfl
  | case3 here parts start rest hpass =>
    refine ⟨0, ?_⟩
    rw [walk_eq_proceed, pass_of_isWeaker hq hhere hparts (by rw [hpass]; rintro _ ⟨⟩), hpass]
    rfl
  | case4 here parts start rest hpass links ih =>
    have hsound := isSound_pass p hhere hparts
    rw [hpass] at hsound
    obtain ⟨left, hleft⟩ := ih hsound.1 hsound.2 h
    refine ⟨left, ?_⟩
    rw [walk_eq_proceed, pass_of_isWeaker hq hhere hparts (by rw [hpass]; rintro _ ⟨⟩), hpass]
    exact hleft

/-! ## Parts of longer ways -/

/-- What a stretch of a way has come to: an entry, or the link at which the longer way goes on. -/
def Passage.LeadsTo (back : List Bytes) : (whole front : Passage) → Prop
  | .arrived (.existing _ _), front => ∃ l n, front = .arrived (.existing l n)
  | .diverted start rest, front =>
    (∃ l n, front = .arrived (.existing l n)) ∨
      ∃ rest', rest = rest' ++ back ∧ front = .diverted start rest'
  | _, _ => True

theorem Passage.leadsTo_existing (back : List Bytes) (whole : Passage) (l : Location) (n : Node) :
    whole.LeadsTo back (.arrived (.existing l n)) := by
  cases whole with
  | arrived target =>
    cases target with
    | existing => exact ⟨l, n, rfl⟩
    | vacant => exact trivial
  | stopped cause => exact trivial
  | diverted start rest => exact Or.inl ⟨l, n, rfl⟩

/-- A longer stretch needs what the beginning of it finds. -/
theorem leadsTo_pass (hq : q.IsWeaker p) (hhere : t.HasDirectory here) {front back : List Bytes}
    (hfront : ∀ part ∈ front, Path.slash ∉ part) (hback : back ≠ []) :
    (t.pass p here (front ++ back)).LeadsTo back (t.pass q here front) := by
  induction front generalizing here with
  | nil =>
    obtain ⟨mode, hmode⟩ := hhere.isDirectory
    rw [pass_nil hmode]
    exact Passage.leadsTo_existing back _ here _
  | cons part front ih =>
    obtain ⟨hpart, hfront⟩ := List.forall_mem_cons.1 hfront
    have hne : front ++ back ≠ [] := List.append_ne_nil_of_right_ne_nil front hback
    rw [List.cons_append, pass_cons, pass_cons]
    rcases turn_cases p (front ++ back) hhere hpart with
      ⟨cause, hturn, -⟩ | ⟨next, hturn, hnext⟩ | ⟨hturn, hname, -⟩
    · rw [hturn]
      exact trivial
    · rw [turn_of_isWeaker hq (by rw [hturn]; exact nofun) front, hturn]
      exact ih hnext hfront
    · rw [turn_of_isWeaker hq (by rw [hturn]; exact nofun) front, hturn]
      have hreaches := hhere.reaches_concat hname
      simp only
      cases hn : t.get? (here ++ [part]) with
      | none =>
        rw [lookup_of_none hn]
        split <;> exact trivial
      | some n =>
        cases n with
        | file mode content =>
          rw [lookup_of_file hn, if_neg hne]
          exact trivial
        | directory mode =>
          rw [lookup_of_directory hn, lookup_of_directory hn]
          exact ih ⟨hreaches, mode, hn⟩ hfront
        | link target =>
          rw [lookup_of_link hn, lookup_of_link hn, if_neg (by simp [hne]), if_neg (by simp [hq.ne_rename])]
          exact Or.inr ⟨Path.parts target ++ front, by rw [List.append_assoc], rfl⟩

/-- A walk to an entry needs what the beginning of it finds. -/
theorem exists_of_walk_append (hq : q.IsWeaker p) {links : Nat} (hhere : t.HasDirectory here)
    {front back : List Bytes} (hfront : ∀ part ∈ front, Path.slash ∉ part) (hback : back ≠ [])
    {n : Node} (h : t.walk p links here (front ++ back) = .ok (.existing l n)) :
    ∃ k m, t.walk q links here front = .ok (.existing k m) := by
  generalize hwhole : front ++ back = whole at h
  fun_induction walk t p links here whole generalizing front with
  | case1 links here whole found hpass =>
    have hleads := leadsTo_pass hq hhere hfront hback
    rw [hwhole, hpass] at hleads
    cases h
    obtain ⟨k, m, hfound⟩ := hleads
    exact ⟨k, m, by rw [walk_eq_proceed, hfound]; rfl⟩
  | case2 => cases h
  | case3 => cases h
  | case4 here whole start rest hpass links ih =>
    have hleads := leadsTo_pass hq hhere hfront hback
    have hsound := isSound_pass q hhere hfront
    rw [hwhole, hpass] at hleads
    rcases hleads with ⟨k, m, hfound⟩ | ⟨rest', rfl, hdiverted⟩
    · exact ⟨k, m, by rw [walk_eq_proceed, hfound]; rfl⟩
    · rw [hdiverted] at hsound
      obtain ⟨k, m, hwalk⟩ := ih hsound.1 hsound.2 rfl h
      exact ⟨k, m, by rw [walk_eq_proceed, hdiverted]; exact hwalk⟩

end BuildTargets.FileTree

import BuildTargets.Proofs.Path.Canonical
import BuildTargets.Proofs.Text.Trim

/-!
# The directory of a path

Where a normal path ends in a name, the steps in front of that name are normal too
(`isNormal_of_concat`), and taking the last step off its spelling leaves the spelling of these
(`parent?_ofComponents`).  In any other spelling idle parts in front of the name are left out, which makes
no difference to the steps; so the directory of a name as seen from `p` is `p`, perhaps spelled otherwise
(`exists_parent?_join`).
-/

namespace BuildTargets

namespace Path

variable {absolute : Bool} {cs : List Component} {n : Bytes}

/-- Normal steps that end in a name are normal in front of it. -/
theorem isNormal_of_concat (h : IsNormal absolute (cs ++ [.name n])) :
    IsNormal absolute cs ∧ IsName n := by
  generalize hds : cs ++ [Component.name n] = ds at h
  have hlast : ∀ (lead : List Component) {names : List Bytes} {m : Bytes},
      cs ++ [.name n] = lead ++ (names ++ [m]).map Component.name →
        cs = lead ++ names.map Component.name ∧ n = m := by
    intro lead names m heq
    rw [List.map_append, ← List.append_assoc] at heq
    obtain ⟨hfront, hback⟩ := List.append_inj' heq rfl
    exact ⟨hfront, Component.name.inj (List.cons.inj hback).1⟩
  have hall : ∀ {names : List Bytes} {m : Bytes}, (∀ k ∈ names ++ [m], IsName k) →
      (∀ k ∈ names, IsName k) ∧ IsName m := fun h =>
    ⟨fun k hk => h k (List.mem_append_left _ hk), h _ (List.mem_append_right _ List.mem_cons_self)⟩
  have hmem : Component.name n ∈ ds := hds ▸ List.mem_append_right cs List.mem_cons_self
  cases h with
  | @absolute names hnames =>
    rcases List.eq_nil_or_concat names with rfl | ⟨front, m, rfl⟩
    · cases List.mem_singleton.1 hmem
    · rw [List.concat_eq_append] at hds hnames
      obtain ⟨rfl, rfl⟩ := hlast [.root] hds
      exact ⟨.absolute (hall hnames).1, (hall hnames).2⟩
  | @relative ups names hnames =>
    rcases List.eq_nil_or_concat names with rfl | ⟨front, m, rfl⟩
    · rw [List.map_nil, List.append_nil] at hmem
      cases List.eq_of_mem_replicate hmem
    · rw [List.concat_eq_append] at hds hnames
      obtain ⟨rfl, rfl⟩ := hlast (List.replicate ups .up) hds
      exact ⟨.relative ups (hall hnames).1, (hall hnames).2⟩

theorem isIdle_of_step? {part : Bytes} {c : Component} (h : step? part = some c) :
    isIdle part = false := by
  rw [step?] at h
  split at h
  · cases h
  · next hidle => exact Bool.eq_false_iff.2 hidle

/-- A part that is a step is kept at the end. -/
theorem dropEndWhile_isIdle {qs : List Bytes} (h : ∀ q ∈ qs, isIdle q = false) :
    dropEndWhile isIdle qs = qs := by
  rw [dropEndWhile_eq_rdropWhile, List.rdropWhile_eq_self_iff]
  intro hne
  rw [h _ (List.getLast_mem hne)]
  exact Bool.false_ne_true

/-- What is spelled by a first part and others, idle ones at the end left out.  The root is spelled by two
empty parts. -/
def directoryOf (first : Bytes) (rest : List Bytes) : Path :=
  match dropEndWhile isIdle rest with
  | [] => ⟨if first = [] then [slash] else first⟩
  | r :: rs => ⟨joinWith [slash] (first :: r :: rs)⟩

/-- A part that is a step at the end keeps all parts in front of it. -/
theorem parent?_eq_directoryOf {p : Path} {first : Bytes} {rest : List Bytes}
    (hparts : parts p.bytes = first :: (rest ++ [n])) (hn : isIdle n = false) :
    p.parent? = some (directoryOf first rest) := by
  have hkept : dropEndWhile isIdle (rest ++ [n]) = rest ++ [n] := by
    rw [dropEndWhile_eq_rdropWhile, List.rdropWhile_concat_neg]
    rw [hn]
    exact Bool.false_ne_true
  obtain ⟨q, qs, hq⟩ := List.exists_cons_of_ne_nil
    (List.append_ne_nil_of_right_ne_nil rest (List.cons_ne_nil n []))
  have hfront : (q :: qs).dropLast = rest := hq ▸ List.dropLast_concat
  simp only [parent?, hparts, hkept]
  rw [hq]
  simp only [hfront, directoryOf]
  cases dropEndWhile isIdle rest <;> rfl

/-- What a path of two parts or more is without the last, if all but the first are steps. -/
theorem parent?_of_parts {p : Path} {first : Bytes} {rest : List Bytes}
    (hparts : parts p.bytes = first :: (rest ++ [n])) (hrest : ∀ q ∈ rest ++ [n], isIdle q = false) :
    p.parent? =
      if rest = [] then some ⟨if first = [] then [slash] else first⟩
      else some ⟨joinWith [slash] (first :: rest)⟩ := by
  have hkept : dropEndWhile isIdle rest = rest :=
    dropEndWhile_isIdle fun q hq => hrest q (List.mem_append_left _ hq)
  rw [parent?_eq_directoryOf hparts (hrest n (List.mem_append_right _ List.mem_cons_self)),
    directoryOf, hkept]
  cases rest with
  | nil => rfl
  | cons r rs => rfl

theorem forall_mem_concat_name {ds : List Component}
    (hds : ∀ c ∈ ds, c = .up ∨ ∃ m, c = .name m ∧ IsName m) (hn : IsName n) :
    ∀ c ∈ ds ++ [Component.name n], c = .up ∨ ∃ m, c = .name m ∧ IsName m := by
  intro c hc
  rcases List.mem_append.1 hc with hc | hc
  · exact hds c hc
  · exact Or.inr ⟨n, List.mem_singleton.1 hc, hn⟩

/-- Between the slashes of spelled steps that end in a name stand these, and all of them count. -/
theorem parts_joinWith_concat {ds : List Component}
    (hds : ∀ c ∈ ds, c = .up ∨ ∃ m, c = .name m ∧ IsName m) (hn : IsName n) :
    parts (joinWith [slash] ((ds ++ [Component.name n]).map stepBytes)) = ds.map stepBytes ++ [n] ∧
      ∀ q ∈ ds.map stepBytes ++ [n], isIdle q = false := by
  have hall := forall_mem_concat_name hds hn
  have hmap : (ds ++ [Component.name n]).map stepBytes = ds.map stepBytes ++ [n] := List.map_append
  rw [parts_joinWith_stepBytes hall (List.append_ne_nil_of_right_ne_nil ds (List.cons_ne_nil _ [])),
    ← hmap]
  refine ⟨rfl, fun q hq => ?_⟩
  obtain ⟨c, hc, rfl⟩ := List.mem_map.1 hq
  exact isIdle_of_step? (step?_stepBytes (hall c hc)).1

/-- The directory of normal steps that end in a name is spelled by the steps in front. -/
theorem parent?_ofComponents (h : IsNormal absolute (cs ++ [.name n])) :
    (ofComponents (cs ++ [.name n])).parent? = some (ofComponents cs) := by
  obtain ⟨hcs, hn⟩ := isNormal_of_concat h
  have hnamed : ∀ {names : List Bytes}, (∀ m ∈ names, IsName m) →
      ∀ c ∈ names.map Component.name, c = .up ∨ ∃ m, c = .name m ∧ IsName m := by
    intro names hnames c hc
    obtain ⟨m, hm, rfl⟩ := List.mem_map.1 hc
    exact Or.inr ⟨m, rfl, hnames m hm⟩
  cases hcs with
  | @absolute names hnames =>
    obtain ⟨hparts, hidle⟩ := parts_joinWith_concat (hnamed hnames) hn
    have hroot := (parts_cons_slash _).trans (congrArg (List.cons []) hparts)
    rw [List.cons_append, ofComponents, parent?_of_parts hroot hidle]
    cases names <;> rfl
  | @relative ups names hnames =>
    have hds : ∀ c ∈ List.replicate ups .up ++ names.map Component.name,
        c = .up ∨ ∃ m, c = .name m ∧ IsName m := fun c hc =>
      (List.mem_append.1 hc).elim (fun hup => Or.inl (List.eq_of_mem_replicate hup)) (hnamed hnames c)
    generalize List.replicate ups .up ++ names.map Component.name = ds at hds h
    obtain ⟨hparts, hidle⟩ := parts_joinWith_concat hds hn
    have hspelled := ofComponents_eq (forall_mem_concat_name hds hn)
    cases ds with
    | nil =>
      rw [hspelled, parent?, hparts]
      exact if_neg hn.ne_nil
    | cons c ds =>
      have hrest : ∀ q ∈ ds.map stepBytes ++ [n], isIdle q = false :=
        fun q hq => hidle q (List.mem_cons_of_mem _ hq)
      have hfirst : stepBytes c ≠ [] := by
        intro hempty
        have hidle := hidle (stepBytes c) List.mem_cons_self
        rw [hempty] at hidle
        cases hidle
      rw [hspelled, parent?_of_parts hparts hrest, if_neg hfirst, ofComponents_eq hds]
      cases ds <;> rfl

/-! ## The directory of a path that ends in a name -/

/-- Idle parts at the end spell no steps. -/
theorem filterMap_step?_dropEndWhile (qs : List Bytes) :
    (dropEndWhile isIdle qs).filterMap step? = qs.filterMap step? := by
  obtain ⟨idle, hqs, hidle⟩ := dropEndWhile_append isIdle qs
  have hnone : idle.filterMap step? = [] := by
    rw [List.filterMap_eq_nil_iff]
    exact fun q hq => if_pos (List.all_eq_true.1 hidle q hq)
  conv_rhs => rw [hqs, List.filterMap_append, hnone, List.append_nil]

/-- A path of two parts or more is absolute if the first of them is empty. -/
theorem isAbsolute_iff_of_parts {p : Path} {first : Bytes} {rest : List Bytes}
    (hparts : parts p.bytes = first :: rest) (hrest : rest ≠ []) :
    p.isAbsolute = true ↔ first = [] := by
  rw [isAbsolute_iff]
  cases hbytes : p.bytes with
  | nil =>
    rw [hbytes] at hparts
    exact absurd (List.cons.inj hparts).2.symm hrest
  | cons b s =>
    rw [hbytes] at hparts
    by_cases hb : b = slash
    · rw [hb, parts_cons_slash] at hparts
      exact iff_of_true ⟨s, by rw [hb]⟩ (List.cons.inj hparts).1.symm
    · obtain ⟨q, qs, hq⟩ := List.exists_cons_of_ne_nil (parts_ne_nil s)
      rw [parts_cons hb hq] at hparts
      refine iff_of_false (fun ⟨s', hs'⟩ => hb (List.cons.inj hs').1) ?_
      rw [← (List.cons.inj hparts).1]
      exact List.cons_ne_nil b q

/-- What is spelled starts at the root if the first part is empty, and keeps all steps. -/
theorem steps_directoryOf {first : Bytes} {rest : List Bytes} (h : ∀ q ∈ first :: rest, slash ∉ q) :
    ((directoryOf first rest).isAbsolute = true ↔ first = []) ∧
      (directoryOf first rest).steps = (first :: rest).filterMap step? := by
  have hsteps : (first :: rest).filterMap step? =
      (first :: dropEndWhile isIdle rest).filterMap step? := by
    rw [List.filterMap_cons, List.filterMap_cons, filterMap_step?_dropEndWhile]
  rw [hsteps, directoryOf]
  cases hkept : dropEndWhile isIdle rest with
  | nil =>
    by_cases hempty : first = []
    · simp only [if_pos hempty]
      exact ⟨iff_of_true rfl hempty, by rw [hempty]; rfl⟩
    · have hfirst := parts_of_slash_not_mem (h first List.mem_cons_self)
      simp only [if_neg hempty]
      refine ⟨iff_of_false (fun habs => ?_) hempty, by rw [steps, hfirst]⟩
      obtain ⟨s, hs : first = slash :: s⟩ := isAbsolute_iff.1 habs
      exact h first List.mem_cons_self (by rw [hs]; exact List.mem_cons_self)
  | cons r rs =>
    obtain ⟨idle, hrest, -⟩ := dropEndWhile_append isIdle rest
    have hparts : parts (joinWith [slash] (first :: r :: rs)) = first :: r :: rs := by
      refine parts_joinWith (List.cons_ne_nil _ _) fun q hq => h q ?_
      rcases List.mem_cons.1 hq with rfl | hq
      · exact List.mem_cons_self
      · rw [hrest, hkept]
        exact List.mem_cons_of_mem first (List.mem_append_left idle hq)
    exact ⟨isAbsolute_iff_of_parts hparts (List.cons_ne_nil r rs), by rw [steps, hparts]⟩

/-- A path that ends in a name has a directory.  It starts where the path does, and has its steps in front
of the name. -/
theorem exists_parent?_of_parts {p : Path} {front : List Bytes} (hparts : parts p.bytes = front ++ [n])
    (hn : IsName n) :
    ∃ d : Path, p.parent? = some d ∧ d.isAbsolute = p.isAbsolute ∧ d.steps ++ [.name n] = p.steps := by
  have hsteps : p.steps = front.filterMap step? ++ [.name n] := by
    rw [steps, hparts, List.filterMap_append]
    exact congrArg _ (List.filterMap_cons_some (step?_of_isName hn))
  have hnotmem : ∀ q ∈ front, slash ∉ q := fun q hq =>
    slash_not_mem_of_mem_parts (hparts ▸ List.mem_append_left _ hq)
  rw [hsteps]
  cases front with
  | nil =>
    refine ⟨⟨[]⟩, ?_, ?_, rfl⟩
    · rw [parent?, hparts]
      exact if_neg hn.ne_nil
    · cases habs : p.isAbsolute with
      | false => rfl
      | true =>
        obtain ⟨s, hs⟩ := isAbsolute_iff.1 habs
        rw [hs, parts_cons_slash] at hparts
        exact absurd (List.cons.inj hparts).1.symm hn.ne_nil
  | cons first rest =>
    obtain ⟨habs, hdirectory⟩ := steps_directoryOf hnotmem
    refine ⟨_, parent?_eq_directoryOf hparts (isIdle_of_step? (step?_of_isName hn)), ?_,
      by rw [hdirectory]⟩
    rw [Bool.eq_iff_iff, habs, isAbsolute_iff_of_parts hparts
      (List.append_ne_nil_of_right_ne_nil rest (List.cons_ne_nil n []))]

/-- What ends in a name that is seen from a directory. -/
theorem exists_parts_join (p : Path) (hn : IsName n) :
    ∃ front, parts (p.join ⟨n⟩).bytes = front ++ [n] := by
  have hname : parts n = [n] := parts_of_slash_not_mem hn.slash_not_mem
  rw [join]
  split
  · exact ⟨[], hname⟩
  · split
    · next hlast =>
      obtain ⟨s, hs⟩ := List.getLast?_eq_some_iff.1 hlast
      refine ⟨parts s, ?_⟩
      rw [hs, List.append_assoc, List.singleton_append, parts_append_slash, hname]
    · exact ⟨parts p.bytes, by rw [parts_append_slash, hname]⟩

/-- The directory of a name that is seen from a directory has the normal steps of that. -/
theorem exists_parent?_join (p : Path) (hn : IsName n) :
    ∃ d : Path, (p.join ⟨n⟩).parent? = some d ∧ d.normalComponents = p.normalComponents := by
  have hrelative : (Path.mk n).isAbsolute = false := isAbsolute_of_isName hn
  have hstep : (Path.mk n).steps = [.name n] := by
    rw [steps, parts_of_slash_not_mem hn.slash_not_mem]
    exact List.filterMap_cons_some (step?_of_isName hn)
  obtain ⟨front, hparts⟩ := exists_parts_join p hn
  obtain ⟨d, hd, habs, hsteps⟩ := exists_parent?_of_parts hparts hn
  rw [isAbsolute_join p hrelative] at habs
  rw [steps_join p hrelative, hstep] at hsteps
  refine ⟨d, hd, ?_⟩
  rw [normalComponents_eq, normalComponents_eq, habs, List.append_cancel_right hsteps]

end Path

end BuildTargets

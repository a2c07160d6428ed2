import BuildTargets.Path.Basic
import Mathlib.Data.List.Basic

/-!
# The steps that a path spells

Apart from where it starts, a path is the sequence of the steps between its slashes (`Path.steps`).
A slash separates these (`parts_append_slash`), so the steps of a joined path are those of its two
halves (`steps_join`), and steps that are spelled with single slashes are read back as they are
(`components_ofComponents`).
-/

namespace BuildTargets

namespace Path

/-- Whether octets can be the name of an entry on a path. -/
structure IsName (n : Bytes) : Prop where
  ne_nil : n ≠ []
  ne_dot : n ≠ [dot]
  ne_dots : n ≠ [dot, dot]
  slash_not_mem : slash ∉ n

/-- The steps of a path behind the root, and without the dot that may start it. -/
def steps (p : Path) : List Component := (parts p.bytes).filterMap step?

/-! ## Between the slashes -/

theorem parts_cons_slash (s : Bytes) : parts (slash :: s) = [] :: parts s := by
  rw [parts, if_pos rfl]

theorem parts_cons {b : UInt8} (hb : b ≠ slash) {s q : Bytes} {qs : List Bytes}
    (h : parts s = q :: qs) : parts (b :: s) = (b :: q) :: qs := by
  rw [parts, if_neg hb, h]

theorem parts_ne_nil (s : Bytes) : parts s ≠ [] := by
  induction s with
  | nil => exact List.cons_ne_nil [] []
  | cons b s ih =>
    by_cases hb : b = slash
    · rw [hb, parts_cons_slash]
      exact List.cons_ne_nil _ _
    · obtain ⟨q, qs, hq⟩ := List.exists_cons_of_ne_nil ih
      rw [parts_cons hb hq]
      exact List.cons_ne_nil _ _

/-- No part holds a slash. -/
theorem slash_not_mem_of_mem_parts {s part : Bytes} (h : part ∈ parts s) : slash ∉ part := by
  induction s generalizing part with
  | nil =>
    rw [List.mem_singleton.1 h]
    exact List.not_mem_nil
  | cons b s ih =>
    by_cases hb : b = slash
    · rw [hb, parts_cons_slash] at h
      rcases List.mem_cons.1 h with rfl | h
      · exact List.not_mem_nil
      · exact ih h
    · obtain ⟨q, qs, hq⟩ := List.exists_cons_of_ne_nil (parts_ne_nil s)
      rw [parts_cons hb hq] at h
      rcases List.mem_cons.1 h with rfl | h
      · have hnot : slash ∉ q := ih (hq ▸ List.mem_cons_self)
        exact List.not_mem_cons_of_ne_of_not_mem (Ne.symm hb) hnot
      · exact ih (hq ▸ List.mem_cons_of_mem q h)

/-- What holds no slash is one part. -/
theorem parts_of_slash_not_mem {s : Bytes} (h : slash ∉ s) : parts s = [s] := by
  induction s with
  | nil => rfl
  | cons b s ih =>
    have hs : slash ∉ s := fun hmem => h (List.mem_cons_of_mem b hmem)
    have hb : b ≠ slash := fun heq => h (heq ▸ List.mem_cons_self)
    exact parts_cons hb (ih hs)

/-- A slash separates the parts before it from the parts behind it. -/
theorem parts_append_slash (s t : Bytes) : parts (s ++ slash :: t) = parts s ++ parts t := by
  induction s with
  | nil => exact parts_cons_slash t
  | cons b s ih =>
    rw [List.cons_append]
    by_cases hb : b = slash
    · rw [hb, parts_cons_slash, parts_cons_slash, ih]
      rfl
    · obtain ⟨q, qs, hq⟩ := List.exists_cons_of_ne_nil (parts_ne_nil s)
      rw [parts_cons hb hq]
      exact parts_cons hb (by rw [ih, hq]; rfl)

/-- Parts without slashes are found again between the slashes. -/
theorem parts_joinWith {qs : List Bytes} (hne : qs ≠ []) (hqs : ∀ q ∈ qs, slash ∉ q) :
    parts (joinWith [slash] qs) = qs := by
  induction qs with
  | nil => exact absurd rfl hne
  | cons q qs ih =>
    have hq : parts q = [q] := parts_of_slash_not_mem (hqs q List.mem_cons_self)
    cases qs with
    | nil => exact hq
    | cons r qs =>
      have hrest : parts (joinWith [slash] (r :: qs)) = r :: qs :=
        ih (List.cons_ne_nil r qs) fun x hx => hqs x (List.mem_cons_of_mem q hx)
      rw [joinWith, List.append_assoc, List.singleton_append, parts_append_slash, hq, hrest]
      rfl

/-! ## Spelled steps -/

/-- A name is a step of its own. -/
theorem step?_of_isName {n : Bytes} (hn : IsName n) : step? n = some (.name n) := by
  have hidle : ¬isIdle n = true := by simp [isIdle, hn.ne_nil, hn.ne_dot]
  rw [step?, if_neg hidle, if_neg hn.ne_dots]

/-- The steps that parts spell: steps up and names. -/
theorem step?_cases {part : Bytes} {c : Component} (h : step? part = some c) (hpart : slash ∉ part) :
    c = .up ∨ ∃ n, c = .name n ∧ IsName n := by
  rw [step?] at h
  split at h
  · cases h
  · next hidle =>
    have hne : part ≠ [] ∧ part ≠ [dot] := by simpa [isIdle] using hidle
    split at h
    · exact Or.inl (Option.some.inj h).symm
    · next hdots => exact Or.inr ⟨part, (Option.some.inj h).symm, hne.1, hne.2, hdots, hpart⟩

/-- The steps of a path lead up, or to a name. -/
theorem mem_steps {p : Path} {c : Component} (h : c ∈ p.steps) :
    c = .up ∨ ∃ n, c = .name n ∧ IsName n := by
  obtain ⟨part, hpart, hstep⟩ := List.mem_filterMap.1 h
  exact step?_cases hstep (slash_not_mem_of_mem_parts hpart)

/-- What spells a step up or a name is read as that step, and can stand between slashes. -/
theorem step?_stepBytes {c : Component} (h : c = .up ∨ ∃ n, c = .name n ∧ IsName n) :
    step? (stepBytes c) = some c ∧ slash ∉ stepBytes c := by
  rcases h with rfl | ⟨n, rfl, hn⟩
  · decide
  · exact ⟨step?_of_isName hn, hn.slash_not_mem⟩

/-- A path is absolute if it begins with a slash. -/
theorem isAbsolute_iff {p : Path} : p.isAbsolute = true ↔ ∃ s, p.bytes = slash :: s := by
  rw [isAbsolute, decide_eq_true_eq, List.head?_eq_some_iff]

/-- A name that stands alone is a relative path. -/
theorem isAbsolute_of_isName {n : Bytes} (hn : IsName n) : (Path.mk n).isAbsolute = false := by
  rw [← Bool.not_eq_true, isAbsolute_iff]
  rintro ⟨s, hs : n = slash :: s⟩
  exact hn.slash_not_mem (by rw [hs]; exact List.mem_cons_self)

/-- A path starts at the root, or with a dot that counts, or with its first step. -/
theorem components_eq (p : Path) :
    (p.isAbsolute = true ∧ p.components = .root :: p.steps) ∨
      (p.isAbsolute = false ∧ (p.components = p.steps ∨ p.components = .here :: p.steps)) := by
  cases habs : p.isAbsolute with
  | true =>
    refine Or.inl ⟨rfl, ?_⟩
    rw [components, habs]
    rfl
  | false =>
    refine Or.inr ⟨rfl, ?_⟩
    obtain ⟨first, rest, hparts⟩ := List.exists_cons_of_ne_nil (parts_ne_nil p.bytes)
    rw [components, habs, steps, hparts]
    by_cases hdot : first = [dot]
    · subst hdot
      exact Or.inr rfl
    · exact Or.inl (if_neg hdot)

section

variable {cs : List Component} (hcs : ∀ c ∈ cs, c = .up ∨ ∃ n, c = .name n ∧ IsName n)

include hcs

/-- Steps that are spelled with single slashes stand between these, if there are any. -/
theorem parts_joinWith_stepBytes (hne : cs ≠ []) :
    parts (joinWith [slash] (cs.map stepBytes)) = cs.map stepBytes := by
  refine parts_joinWith (fun h => hne (List.map_eq_nil_iff.1 h)) fun q hq => ?_
  obtain ⟨c, hc, rfl⟩ := List.mem_map.1 hq
  exact (step?_stepBytes (hcs c hc)).2

/-- What spells steps is read as these. -/
theorem filterMap_step?_joinWith :
    (parts (joinWith [slash] (cs.map stepBytes))).filterMap step? = cs := by
  by_cases hne : cs = []
  · rw [hne]
    rfl
  · rw [parts_joinWith_stepBytes hcs hne, List.filterMap_map]
    refine (List.filterMap_congr fun c hc => ?_).trans List.filterMap_some
    exact (step?_stepBytes (hcs c hc)).1

/-- Steps that are spelled behind the root are read back as they are. -/
theorem components_ofComponents_root :
    (ofComponents (.root :: cs)).components = .root :: cs := by
  have hsteps : (ofComponents (.root :: cs)).steps = cs := by
    have hparts := parts_cons_slash (joinWith [slash] (cs.map stepBytes))
    exact (congrArg (List.filterMap step?) hparts).trans (filterMap_step?_joinWith hcs)
  exact congrArg (List.cons Component.root) hsteps

theorem ofComponents_eq : ofComponents cs = ⟨joinWith [slash] (cs.map stepBytes)⟩ := by
  cases cs with
  | nil => rfl
  | cons c cs => rcases hcs c List.mem_cons_self with rfl | ⟨n, rfl, -⟩ <;> rfl

/-- Steps that are spelled with single slashes are the steps of that path. -/
theorem steps_ofComponents : (ofComponents cs).steps = cs := by
  rw [ofComponents_eq hcs]
  exact filterMap_step?_joinWith hcs

/-- Steps that are spelled with single slashes make up a relative path, which is read back as they
are. -/
theorem components_ofComponents :
    (ofComponents cs).isAbsolute = false ∧ (ofComponents cs).components = cs := by
  have hsteps := steps_ofComponents hcs
  have hspelled := ofComponents_eq hcs
  cases cs with
  | nil => exact ⟨rfl, rfl⟩
  | cons c cs =>
    have hparts := parts_joinWith_stepBytes hcs (List.cons_ne_nil c cs)
    have hfirst := (step?_stepBytes (hcs c List.mem_cons_self)).1
    have hdot : stepBytes c ≠ [dot] := by
      intro h
      rw [h] at hfirst
      cases hfirst
    have habs : (ofComponents (c :: cs)).isAbsolute = false := by
      rw [hspelled, ← Bool.not_eq_true, isAbsolute_iff]
      rintro ⟨s, hs : joinWith [slash] ((c :: cs).map stepBytes) = slash :: s⟩
      -- A slash in front would make for an empty first part.
      rw [hs, parts_cons_slash] at hparts
      have hempty : stepBytes c = [] := (List.cons.inj hparts).1.symm
      rw [hempty] at hfirst
      cases hfirst
    refine ⟨habs, ?_⟩
    rw [steps, hspelled, hparts] at hsteps
    rw [components, habs, hspelled, hparts]
    exact (if_neg hdot).trans hsteps

end

/-! ## Joined paths -/

/-- A relative path is seen from a directory through the steps of that directory. -/
theorem steps_join (p : Path) {q : Path} (hq : q.isAbsolute = false) :
    (p.join q).steps = p.steps ++ q.steps := by
  rw [join, hq, Bool.false_or, steps, steps, steps]
  by_cases hempty : p.bytes = []
  · rw [if_pos (decide_eq_true hempty), hempty]
    rfl
  · rw [if_neg (by simpa using hempty)]
    split
    · next hlast =>
      obtain ⟨s, hs⟩ := List.getLast?_eq_some_iff.1 hlast
      have htrailing : parts (s ++ [slash]) = parts s ++ [[]] := parts_append_slash s []
      rw [hs, List.append_assoc, List.singleton_append, parts_append_slash, htrailing]
      simp [step?, isIdle]
    · rw [parts_append_slash, List.filterMap_append]

/-- Whether a relative path is seen from the root is settled by the directory. -/
theorem isAbsolute_join (p : Path) {q : Path} (hq : q.isAbsolute = false) :
    (p.join q).isAbsolute = p.isAbsolute := by
  rw [join, hq, Bool.false_or]
  by_cases hempty : p.bytes = []
  · rw [if_pos (decide_eq_true hempty), hq, isAbsolute, hempty]
    rfl
  · obtain ⟨b, s, hs⟩ := List.exists_cons_of_ne_nil hempty
    rw [if_neg (by simpa using hempty)]
    split <;> simp [isAbsolute, hs]

/-- An absolute path looks the same from everywhere. -/
theorem join_of_isAbsolute (p : Path) {q : Path} (hq : q.isAbsolute = true) : p.join q = q := by
  rw [join, hq]
  rfl

end Path

end BuildTargets

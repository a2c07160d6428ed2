import BuildTargets.FileTree.Access
import BuildTargets.Proofs.FileTree.Meets
import Mathlib.Data.List.Flatten

/-!
# Spellings of one path

Dots and repeated slashes in front of a name make no difference to where a path leads
(`walk_filter_isIdle`): the way has to come to a directory there, and to search it, for the sake of the
name behind them too.  So a path from the root that ends in a name leads where its steps lead when they
are spelled with single slashes.  That spelling is not longer (`bytes_ofComponents_sublist`), so it leads
to a file if the path does (`isFile_ofComponents`).
-/

namespace BuildTargets

namespace Path

variable {p : Path}

/-- Steps are spelled by the parts that are no idle ones. -/
theorem map_stepBytes_steps (p : Path) :
    p.steps.map stepBytes = (parts p.bytes).filter (!isIdle ·) := by
  rw [steps]
  induction parts p.bytes with
  | nil => rfl
  | cons part rest ih =>
    rw [List.filterMap_cons, List.filter_cons, step?]
    cases hidle : isIdle part with
    | true => simpa using ih
    | false =>
      by_cases hdots : part = [dot, dot] <;> simp [hdots, ih, stepBytes]

/-- The parts of a path with slashes between them are its octets. -/
theorem flatMap_parts (s : Bytes) : (parts s).flatMap (slash :: ·) = slash :: s := by
  induction s with
  | nil => rfl
  | cons b s ih =>
    by_cases hb : b = slash
    · rw [hb, parts_cons_slash, List.flatMap_cons, ih]
      rfl
    · obtain ⟨q, qs, hq⟩ := List.exists_cons_of_ne_nil (parts_ne_nil s)
      rw [hq, List.flatMap_cons] at ih
      rw [parts_cons hb hq, List.flatMap_cons]
      simpa using ih

/-- A path is determined by its parts. -/
theorem parts_injective : Function.Injective parts := by
  intro s s' h
  have hs := flatMap_parts s
  rw [h, flatMap_parts] at hs
  exact (List.cons.inj hs).2.symm

theorem components_of_isAbsolute (habs : p.isAbsolute = true) : p.components = .root :: p.steps := by
  rcases components_eq p with ⟨-, hp⟩ | ⟨hrelative, -⟩
  · exact hp
  · rw [habs] at hrelative
    cases hrelative

/-- The spelling of a path with single slashes has the parts that are no idle ones. -/
theorem parts_ofComponents (habs : p.isAbsolute = true) (hne : p.steps ≠ []) :
    parts (ofComponents p.components).bytes = [] :: (parts p.bytes).filter (!isIdle ·) := by
  rw [components_of_isAbsolute habs, ofComponents, parts_cons_slash,
    parts_joinWith_stepBytes (fun _ => mem_steps) hne, map_stepBytes_steps]

/-- A path from the root does not get longer when it is spelled with single slashes. -/
theorem bytes_ofComponents_sublist (habs : p.isAbsolute = true) (hne : p.steps ≠ []) :
    (ofComponents p.components).bytes.Sublist p.bytes := by
  obtain ⟨s, hs⟩ := isAbsolute_iff.1 habs
  have hparts : parts p.bytes = [] :: parts s := hs ▸ parts_cons_slash s
  have hspelled := parts_ofComponents habs hne
  have hsublist : (parts (ofComponents p.components).bytes).Sublist (parts p.bytes) := by
    have hkept : ([] :: parts s).filter (!isIdle ·) = (parts s).filter (!isIdle ·) := rfl
    rw [hspelled, hparts, hkept]
    exact List.filter_sublist.cons_cons []
  have hbytes := hsublist.flatMap (slash :: ·)
  rw [flatMap_parts, flatMap_parts] at hbytes
  exact List.cons_sublist_cons.1 hbytes

end Path

namespace FileTree

variable {t : FileTree} {cwd here next : Location} {part name : Bytes} {front rest : List Bytes}

/-! ## Idle parts -/

/-- Where a directory may not be searched, no way goes on to a name. -/
theorem pass_of_not_permits (hname : ∃ name ∈ rest, Path.isIdle name = false)
    (hdir : ¬(!(t.get? here).any Node.isDirectory) = true) (hsearch : t.permits .search here = false) :
    t.pass .look here rest = .stopped .forbidden := by
  induction rest with
  | nil => exact absurd hname (by simp)
  | cons part rest ih =>
    rw [pass_cons, turn, if_neg hdir]
    by_cases hempty : part = []
    · obtain ⟨name, hmem, hidle⟩ := hname
      have hne : name ≠ part := by
        rintro rfl
        rw [hempty] at hidle
        cases hidle
      rw [if_pos hempty]
      exact ih ⟨name, List.mem_of_ne_of_mem hne hmem, hidle⟩
    · rw [if_neg hempty, hsearch]
      rfl

/-- An idle part in front of a name makes no difference: for the name the way has to come to a directory,
and to search it, all the same. -/
theorem pass_of_isIdle (hpart : Path.isIdle part = true)
    (hname : ∃ name ∈ rest, Path.isIdle name = false) :
    t.pass .look here (part :: rest) = t.pass .look here rest := by
  by_cases hdir : (!(t.get? here).any Node.isDirectory) = true
  · obtain ⟨name, hmem, -⟩ := hname
    obtain ⟨next, rest, rfl⟩ := List.exists_cons_of_ne_nil (List.ne_nil_of_mem hmem)
    rw [pass_cons, pass_cons, turn, turn, if_pos hdir, if_pos hdir]
  by_cases hempty : part = []
  · rw [pass_cons, turn, if_neg hdir, if_pos hempty]
  have hdot : part = [Path.dot] := by simpa [Path.isIdle, hempty] using hpart
  by_cases hsearch : (needsSearch .look part && !t.permits .search here) = true
  · have hforbidden : t.permits .search here = false := by simpa [needsSearch] using hsearch
    rw [pass_of_not_permits hname hdir hforbidden, pass_cons, turn, if_neg hdir, if_neg hempty,
      if_pos hsearch]
  · rw [pass_cons, turn_of_permits hdir hempty hsearch, if_pos hdot]

/-- What stands behind a part that is looked at makes no difference to that part. -/
theorem turn_look (part : Bytes) (rest rest' : List Bytes) :
    t.turn .look here part rest = t.turn .look here part rest' := by
  rw [turn, turn, nameRefusal?_of_slash rfl, nameRefusal?_of_slash rfl]

/-- How a way goes on to a name that stands behind the one looked up. -/
theorem lookup_look (hname : ∃ name ∈ rest, Path.isIdle name = false) :
    t.lookup .look next rest =
      match t.get? next with
      | none => .stopped .notFound
      | some (.file _ _) => .stopped .notADirectory
      | some (.directory _) => t.pass .look next rest
      | some (.link target) => .diverted (startOf next.dropLast target) (Path.parts target ++ rest) := by
  obtain ⟨name, hmem, hidle⟩ := hname
  have hall : ¬rest.all (· = []) = true := by
    rw [List.all_eq_true]
    intro h
    rw [of_decide_eq_true (h name hmem)] at hidle
    cases hidle
  cases hn : t.get? next with
  | none => rw [lookup_of_none hn, if_neg hall]
  | some n =>
    cases n with
    | file mode content => rw [lookup_of_file hn, if_neg (List.ne_nil_of_mem hmem)]
    | directory mode => rw [lookup_of_directory hn]
    | link target => rw [lookup_of_link hn, decide_eq_false nofun, Bool.and_false, if_neg nofun]

/-- An idle part in front of a name is passed, if that makes no difference behind links. -/
theorem walk_of_proceed {links : Nat} (hpart : Path.isIdle part = true)
    (hname : ∃ name ∈ rest, Path.isIdle name = false)
    (hlinks : ∀ start front, t.proceed .look links (.diverted start (front ++ part :: rest)) =
      t.proceed .look links (.diverted start (front ++ rest))) (here : Location) (front : List Bytes) :
    t.walk .look links here (front ++ part :: rest) = t.walk .look links here (front ++ rest) := by
  have hbehind : ∀ front : List Bytes, (∃ name ∈ front ++ part :: rest, Path.isIdle name = false) ∧
      ∃ name ∈ front ++ rest, Path.isIdle name = false := by
    intro front
    obtain ⟨name, hmem, hidle⟩ := hname
    exact ⟨⟨name, List.mem_append_right _ (List.mem_cons_of_mem _ hmem), hidle⟩,
      ⟨name, List.mem_append_right _ hmem, hidle⟩⟩
  induction front generalizing here with
  | nil =>
    rw [List.nil_append, List.nil_append, walk_eq_proceed, pass_of_isIdle hpart hname,
      ← walk_eq_proceed]
  | cons other front ih =>
    rw [List.cons_append, List.cons_append, walk_eq_proceed, walk_eq_proceed, pass_cons, pass_cons,
      turn_look other (front ++ part :: rest) (front ++ rest)]
    cases t.turn .look here other (front ++ rest) with
    | stop cause => rfl
    | stay next =>
      simp only [← walk_eq_proceed]
      exact ih next
    | name =>
      simp only [lookup_look (hbehind front).1, lookup_look (hbehind front).2]
      cases t.get? (here ++ [other]) with
      | none => rfl
      | some n =>
        cases n with
        | file mode content => rfl
        | directory mode =>
          simp only [← walk_eq_proceed]
          exact ih _
        | link target =>
          simp only [← List.append_assoc]
          exact hlinks _ _

/-- An idle part in front of a name makes no difference to where a path leads. -/
theorem walk_append_idle {links : Nat} (hpart : Path.isIdle part = true)
    (hname : ∃ name ∈ rest, Path.isIdle name = false) (here : Location) (front : List Bytes) :
    t.walk .look links here (front ++ part :: rest) = t.walk .look links here (front ++ rest) := by
  induction links generalizing here front with
  | zero => exact walk_of_proceed hpart hname (fun _ _ => rfl) here front
  | succ links ih =>
    refine walk_of_proceed hpart hname (fun start front => ?_) here front
    exact ih start front

/-- Idle parts make no difference to where a path leads that ends in a name. -/
theorem walk_filter_isIdle {links : Nat} (hname : Path.isIdle name = false) (here : Location)
    (front rest : List Bytes) :
    t.walk .look links here (front ++ (rest ++ [name])) =
      t.walk .look links here (front ++ (rest ++ [name]).filter (!Path.isIdle ·)) := by
  induction rest generalizing front with
  | nil => rw [List.nil_append, List.filter_singleton, hname, Bool.not_false, cond_true]
  | cons part rest ih =>
    rw [List.cons_append, List.filter_cons]
    cases hpart : Path.isIdle part with
    | true =>
      have hbehind : ∃ other ∈ rest ++ [name], Path.isIdle other = false :=
        ⟨name, List.mem_append_right _ List.mem_cons_self, hname⟩
      rw [walk_append_idle hpart hbehind, ih]
      rfl
    | false =>
      have hkept := ih (front ++ [part])
      rw [List.append_assoc, List.append_assoc] at hkept
      exact hkept

/-! ## Paths from the root -/

/-- The path of a location is spelled by its names. -/
theorem ofComponents_eq_pathOf (l : Location) : Path.ofComponents (.root :: l.map .name) = pathOf l := by
  rw [Path.ofComponents, List.map_map]
  exact congrArg (fun names => Path.mk (Path.slash :: joinWith [Path.slash] names)) (List.map_id l)

/-- A name that is seen from the path of a location is spelled behind it with a single slash. -/
theorem join_pathOf {l : Location} (hl : ∀ m ∈ l, Path.IsName m) (hname : Path.IsName name) :
    (pathOf l).join ⟨name⟩ = pathOf (l ++ [name]) := by
  have hjoin : (pathOf l).join ⟨name⟩ =
      if (pathOf l).bytes.getLast? = some Path.slash then ⟨(pathOf l).bytes ++ name⟩
      else ⟨(pathOf l).bytes ++ Path.slash :: name⟩ := by
    rw [Path.join, Path.isAbsolute_of_isName hname]
    rfl
  rw [hjoin]
  by_cases hnil : l = []
  · subst hnil
    rfl
  have hslash : ∀ m ∈ l, Path.slash ∉ m := fun m hm => (hl m hm).slash_not_mem
  have hparts := parts_pathOf hnil hslash
  have hlast : (pathOf l).bytes.getLast? ≠ some Path.slash := by
    intro h
    obtain ⟨s, hs⟩ := List.getLast?_eq_some_iff.1 h
    rw [hs, Path.parts_append_slash] at hparts
    have hends := congrArg List.getLast? hparts
    rw [List.getLast?_cons_of_ne_nil hnil] at hends
    exact (hl [] (List.mem_of_getLast? (hends.symm.trans List.getLast?_concat))).ne_nil rfl
  have hall : ∀ m ∈ l ++ [name], Path.slash ∉ m :=
    List.forall_mem_append.2 ⟨hslash, List.forall_mem_singleton.2 hname.slash_not_mem⟩
  rw [if_neg hlast]
  refine congrArg Path.mk (Path.parts_injective ?_)
  rw [Path.parts_append_slash, hparts, Path.parts_of_slash_not_mem hname.slash_not_mem]
  exact (parts_pathOf (List.append_ne_nil_of_left_ne_nil hnil _) hall).symm

variable {p : Path}

theorem IsFollowed.ofComponents (h : IsFollowed p) (habs : p.isAbsolute = true) (hne : p.steps ≠ []) :
    IsFollowed (.ofComponents p.components) := by
  have hsublist := Path.bytes_ofComponents_sublist habs hne
  refine ⟨fun hzero => h.zero_not_mem (hsublist.subset hzero), ?_,
    Nat.le_trans hsublist.length_le h.length_le⟩
  rw [Path.components_of_isAbsolute habs]
  exact List.cons_ne_nil _ _

/-- A path from the root that ends in a name leads where its parts lead that are no idle ones. -/
theorem IsFollowed.resolve_of_isAbsolute (h : IsFollowed p) (habs : p.isAbsolute = true)
    (hparts : Path.parts p.bytes = front ++ [name]) (hname : Path.isIdle name = false) :
    t.resolve cwd .look p =
      t.walk .look mostLinks [] ((Path.parts p.bytes).filter (!Path.isIdle ·)) := by
  obtain ⟨s, hs⟩ := Path.isAbsolute_iff.1 habs
  have hstart : startOf cwd p.bytes = [] := if_pos (hs ▸ rfl)
  rw [h.resolve, h.trace, hstart, hparts]
  exact walk_filter_isIdle hname [] [] front

/-- A path from the root that ends in a name and leads to a file does so too when its steps are spelled
with single slashes. -/
theorem isFile_ofComponents (habs : p.isAbsolute = true)
    (hparts : Path.parts p.bytes = front ++ [name]) (hname : Path.isIdle name = false)
    (h : t.isFile cwd p = true) : t.isFile cwd (.ofComponents p.components) = true := by
  obtain ⟨target, htarget⟩ : ∃ target, t.resolve cwd .look p = .ok target := by
    rw [isFile] at h
    split at h
    · next hresolve => exact ⟨_, hresolve⟩
    · cases h
  have hkept : (Path.parts p.bytes).filter (!Path.isIdle ·) =
      front.filter (!Path.isIdle ·) ++ [name] := by
    rw [hparts, List.filter_append, List.filter_singleton, hname, Bool.not_false, cond_true]
  have hne : p.steps ≠ [] := by
    intro hnil
    have hspelled := Path.map_stepBytes_steps p
    rw [hnil, hkept] at hspelled
    exact List.append_ne_nil_of_right_ne_nil _ (List.cons_ne_nil name []) hspelled.symm
  have hspelled := Path.parts_ofComponents habs hne
  have hsame : (Path.parts (Path.ofComponents p.components).bytes).filter (!Path.isIdle ·) =
      (Path.parts p.bytes).filter (!Path.isIdle ·) := by
    rw [hspelled, List.filter_cons_of_neg (by decide), List.filter_filter]
    simp only [Bool.and_self]
  rw [hkept, ← List.cons_append] at hspelled
  have habs' : (Path.ofComponents p.components).isAbsolute = true := by
    rw [Path.components_of_isAbsolute habs]
    rfl
  have hfollowed := isFollowed_of_resolve htarget
  have hresolve : t.resolve cwd .look (.ofComponents p.components) = t.resolve cwd .look p := by
    rw [hfollowed.resolve_of_isAbsolute habs hparts hname,
      (hfollowed.ofComponents habs hne).resolve_of_isAbsolute habs' hspelled hname, hsame]
  rw [isFile, hresolve]
  exact h

end FileTree

end BuildTargets

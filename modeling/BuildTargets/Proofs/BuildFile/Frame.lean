import BuildTargets.BuildFile.Edit
import BuildTargets.Proofs.BuildFile.ArgumentLists
import BuildTargets.Proofs.Statement.ReadBack

/-!
# What an edit changes and what it leaves alone

An edit writes statements about one target, its owner.  Seen from any other target the text says the
same as before (`argumentLists_append_of_ne`, `argumentLists_rewrite_of_ne`): the lines that go are
statements about the owner, and so are the lines that come.  Seen from the owner the first
declaration is the one that was written (`argumentLists_append`, `exists_argumentLists_rewrite`).
-/

namespace BuildTargets

namespace BuildFile

open Statement

variable {kind : Kind} {owner target path : Text} {directory : Option Text}

/-- A terminator that has been closed is one. -/
theorem closed_ne_eof (e : LineEnd) : e.closed ≠ .eof := by
  cases e <;> simp [LineEnd.closed]

/-! ## Statements behind the end -/

/-- Lines put behind a text add what they say. -/
theorem argumentLists_append_flatMap (hn : Request.IsTargetName target) (s : Text)
    (added : List Text) :
    argumentLists kind target (s ++ added.flatMap ('\n' :: ·)) =
      argumentLists kind target s ++ added.flatMap (argumentLists kind target) := by
  induction added generalizing s with
  | nil => simp
  | cons x added ih =>
    rw [List.flatMap_cons, List.flatMap_cons, List.cons_append,
      argumentLists_append_newline hn, ih]

/-- The statements of an insertion follow what the text says. -/
theorem argumentLists_append (hn : Request.IsTargetName target) (text : Text) :
    argumentLists kind target (append text owner path directory) =
      argumentLists kind target text ++
        (statements owner path directory).flatMap (argumentLists kind target) :=
  argumentLists_append_flatMap hn text _

/-! ## Statements in the place of a declaration -/

/-- Every line of an edited text has a terminator. -/
theorem ending_ne_of_mem_replaceDeclaration {fresh : List Text} {ls : List Line} {l : Line}
    (hl : l ∈ replaceDeclaration owner fresh ls) : l.ending ≠ .eof := by
  fun_induction replaceDeclaration owner fresh ls with
  | case1 => cases hl
  | case2 k ks hout ih => exact ih hl
  | case3 k ks hout hdecl =>
    rcases List.mem_append.1 hl with hl | hl
    · obtain ⟨s, -, rfl⟩ := List.mem_map.1 hl
      exact closed_ne_eof k.ending
    · obtain ⟨k', -, rfl⟩ := List.mem_map.1 hl
      exact closed_ne_eof k'.ending
  | case4 k ks hout hdecl ih =>
    rcases List.mem_cons.1 hl with rfl | hl
    · exact closed_ne_eof k.ending
    · exact ih hl

/-- An edited text says what its lines say. -/
theorem argumentLists_rewrite (hn : Request.IsTargetName target) (text : Text) :
    argumentLists kind target (rewrite text owner path directory) =
      (replaceDeclaration owner (statements owner path directory) (Line.split text)).flatMap
        fun l => argumentLists kind target l.content :=
  argumentLists_join hn fun _ hl => ending_ne_of_mem_replaceDeclaration hl

/-! ## Other targets -/

/-- A line about one target says nothing about another. -/
theorem argumentLists_eq_nil_of_isStatement {kind' : Kind} {line : Text}
    (howner : Request.IsTargetName owner) (hn : Request.IsTargetName target)
    (hne : owner ≠ target) (hline : '\n' ∉ line) (h : isStatement kind' owner line = true) :
    argumentLists kind target line = [] := by
  obtain ⟨arguments, h⟩ := Option.isSome_iff_exists.1 h
  rw [argumentLists_of_newline_not_mem hline]
  cases hread : read? kind target line with
  | none => rfl
  | some arguments' => exact absurd (eq_of_read? howner hn h hread).2 hne

/-- What is written for the owner says nothing about another target. -/
theorem argumentLists_statements_of_ne (howner : Request.IsTargetName owner)
    (hn : Request.IsTargetName target) (hne : owner ≠ target) (hpath : '\n' ∉ path)
    (hdirectory : ∀ d ∈ directory, '\n' ∉ d) :
    ∀ s ∈ statements owner path directory, argumentLists kind target s = [] := by
  intro s hs
  rw [statements] at hs
  rcases List.mem_cons.1 hs with rfl | hs
  · rw [argumentLists_of_newline_not_mem (newline_not_mem_executableLine howner hpath),
      read?_executableLine_eq_none howner hn hne]
    rfl
  · obtain ⟨d, hd, rfl⟩ := Option.map_eq_some_iff.1 (Option.mem_toList.1 hs)
    rw [argumentLists_of_newline_not_mem
      (newline_not_mem_propertiesLine howner (hdirectory d hd)),
      read?_propertiesLine_eq_none howner hn hne]
    rfl

/-- Leaving out the lines that set the owner's output directory does not show to another target. -/
theorem flatMap_filter_isOutputLine_of_ne (howner : Request.IsTargetName owner)
    (hn : Request.IsTargetName target) (hne : owner ≠ target) {ls : List Line}
    (hls : ∀ l ∈ ls, '\n' ∉ l.content) :
    (ls.filter (!isOutputLine owner ·)).flatMap (fun l => argumentLists kind target l.content) =
      ls.flatMap fun l => argumentLists kind target l.content := by
  induction ls with
  | nil => rfl
  | cons l ls ih =>
    obtain ⟨hl, hls⟩ := List.forall_mem_cons.1 hls
    by_cases hout : isOutputLine owner l = true
    · rw [List.filter_cons_of_neg (by simp [hout]), List.flatMap_cons,
        argumentLists_eq_nil_of_isStatement howner hn hne hl hout, List.nil_append, ih hls]
    · rw [List.filter_cons_of_pos (by simp [hout]), List.flatMap_cons, List.flatMap_cons, ih hls]

/-- Putting lines in the place of a declaration does not show to another target if the new lines
say nothing about it. -/
theorem flatMap_replaceDeclaration_of_ne (howner : Request.IsTargetName owner)
    (hn : Request.IsTargetName target) (hne : owner ≠ target) {fresh : List Text}
    (hfresh : ∀ s ∈ fresh, argumentLists kind target s = []) {ls : List Line}
    (hls : ∀ l ∈ ls, '\n' ∉ l.content) :
    (replaceDeclaration owner fresh ls).flatMap (fun l => argumentLists kind target l.content) =
      ls.flatMap fun l => argumentLists kind target l.content := by
  have hnil : ∀ {kind' : Kind} {l : Line}, '\n' ∉ l.content →
      isStatement kind' owner l.content = true → argumentLists kind target l.content = [] :=
    fun hl h => argumentLists_eq_nil_of_isStatement howner hn hne hl h
  fun_induction replaceDeclaration owner fresh ls with
  | case1 => rfl
  | case2 l ls hout ih =>
    obtain ⟨hl, hls⟩ := List.forall_mem_cons.1 hls
    rw [List.flatMap_cons, hnil hl hout, ih hls, List.nil_append]
  | case3 l ls hout hdecl =>
    obtain ⟨hl, hls⟩ := List.forall_mem_cons.1 hls
    have hfreshNil : (fresh.map fun s => (⟨s, l.ending.closed⟩ : Line)).flatMap
        (fun l => argumentLists kind target l.content) = [] := by
      rw [List.flatMap_map, List.flatMap_eq_nil_iff]
      exact hfresh
    rw [List.flatMap_append, hfreshNil, List.nil_append, List.flatMap_map, List.flatMap_cons,
      hnil hl hdecl, List.nil_append]
    exact flatMap_filter_isOutputLine_of_ne howner hn hne hls
  | case4 l ls hout hdecl ih =>
    rw [List.flatMap_cons, List.flatMap_cons, ih fun k hk => hls k (List.mem_cons_of_mem l hk)]

/-- An insertion does not show to another target. -/
theorem argumentLists_append_of_ne (howner : Request.IsTargetName owner)
    (hn : Request.IsTargetName target) (hne : owner ≠ target) (hpath : '\n' ∉ path)
    (hdirectory : ∀ d ∈ directory, '\n' ∉ d) (text : Text) :
    argumentLists kind target (append text owner path directory) =
      argumentLists kind target text := by
  rw [argumentLists_append hn, List.flatMap_eq_nil_iff.2
    (argumentLists_statements_of_ne howner hn hne hpath hdirectory), List.append_nil]

/-- A replaced declaration does not show to another target. -/
theorem argumentLists_rewrite_of_ne (howner : Request.IsTargetName owner)
    (hn : Request.IsTargetName target) (hne : owner ≠ target) (hpath : '\n' ∉ path)
    (hdirectory : ∀ d ∈ directory, '\n' ∉ d) (text : Text) :
    argumentLists kind target (rewrite text owner path directory) =
      argumentLists kind target text := by
  rw [argumentLists_rewrite hn, flatMap_replaceDeclaration_of_ne howner hn hne
    (argumentLists_statements_of_ne howner hn hne hpath hdirectory)
    (fun l hl => Line.newline_not_mem_of_mem_split hl), flatMap_argumentLists_split]

/-! ## The owner -/

/-- The new lines stand in front of all else that is said about the owner. -/
theorem exists_flatMap_replaceDeclaration (hn : Request.IsTargetName owner) {fresh : List Text}
    {ls : List Line} (hls : ∀ l ∈ ls, '\n' ∉ l.content)
    (hdeclared : ∃ l ∈ ls, isDeclaration owner l = true) :
    ∃ lists : List Text, (replaceDeclaration owner fresh ls).flatMap
      (fun l => argumentLists .executable owner l.content) =
        fresh.flatMap (argumentLists .executable owner) ++ lists := by
  fun_induction replaceDeclaration owner fresh ls with
  | case1 =>
    obtain ⟨l, hl, -⟩ := hdeclared
    cases hl
  | case2 l ls hout ih =>
    refine ih (fun k hk => hls k (List.mem_cons_of_mem l hk)) ?_
    obtain ⟨k, hk, hdecl⟩ := hdeclared
    rcases List.mem_cons.1 hk with rfl | hk
    · -- no line is both a declaration and an output directory
      obtain ⟨a, ha⟩ := Option.isSome_iff_exists.1 hout
      obtain ⟨a', ha'⟩ := Option.isSome_iff_exists.1 hdecl
      cases (eq_of_read? hn hn ha ha').1
    · exact ⟨k, hk, hdecl⟩
  | case3 l ls hout hdecl =>
    rw [List.flatMap_append, List.flatMap_map]
    exact ⟨_, rfl⟩
  | case4 l ls hout hdecl ih =>
    obtain ⟨hl, hls⟩ := List.forall_mem_cons.1 hls
    have hnil : argumentLists .executable owner l.content = [] := by
      have hread : read? .executable owner l.content = none := by
        rw [← Option.not_isSome_iff_eq_none]
        exact hdecl
      rw [argumentLists_of_newline_not_mem hl, hread]
      rfl
    rw [List.flatMap_cons, hnil, List.nil_append]
    refine ih hls ?_
    obtain ⟨k, hk, hdecl'⟩ := hdeclared
    rcases List.mem_cons.1 hk with rfl | hk
    · exact absurd hdecl' hdecl
    · exact ⟨k, hk, hdecl'⟩

/-- Where the declaration of its owner has been replaced, the new statements come first. -/
theorem exists_argumentLists_rewrite (hn : Request.IsTargetName owner) {text : Text}
    (hdeclared : argumentLists .executable owner text ≠ []) :
    ∃ lists : List Text, argumentLists .executable owner (rewrite text owner path directory) =
      (statements owner path directory).flatMap (argumentLists .executable owner) ++ lists := by
  rw [argumentLists_rewrite hn]
  refine exists_flatMap_replaceDeclaration hn
    (fun l hl => Line.newline_not_mem_of_mem_split hl) ?_
  obtain ⟨arguments, hmem⟩ := List.exists_mem_of_ne_nil _ hdeclared
  obtain ⟨l, hl, hread⟩ := List.mem_filterMap.1 hmem
  exact ⟨l, hl, Option.isSome_iff_exists.2 ⟨arguments, hread⟩⟩

end BuildFile

end BuildTargets

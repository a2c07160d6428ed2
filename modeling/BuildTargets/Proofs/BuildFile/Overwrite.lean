import BuildTargets.Proofs.BuildFile.Frame

/-!
# Overwriting what was overwritten

An overwrite keeps the lines in front of the first declaration and those behind it, but for the lines
that set the target's output directory (`rewrite_eq_join`).  Of the statements that it writes a second
overwrite recognises the declaration, and the output directory as well unless its value cannot be read
back.  So the second overwrite gives what it would have given in the first place, with one line more
where such a value was written (`exists_rewrite_rewrite_eq_join`).
-/

namespace BuildTargets

namespace BuildFile

open Statement

variable {target path path' : Text} {directory directory' : Option Text} {fresh : List Text}
  {text : Text} {l : Line} {ls front back : List Line}

/-! ## The lines that stay -/

/-- The line with a terminator, which is a line feed if it had none. -/
def closedLine (l : Line) : Line := ⟨l.content, l.ending.closed⟩

/-- The lines that an overwrite keeps apart from the declaration: those that do not set the output
directory of the target, each with a terminator. -/
def keptLines (target : Text) (ls : List Line) : List Line :=
  (ls.filter (!isOutputLine target ·)).map closedLine

/-- The lines in the place of a declaration, which all get the terminator that it had. -/
def freshLines (fresh : List Text) (e : LineEnd) : List Line := fresh.map fun s => ⟨s, e⟩

theorem closedLine_eq_self (hl : l.ending ≠ .eof) : closedLine l = l := by
  obtain ⟨s, e⟩ := l
  cases e with
  | lf | crlf => rfl
  | eof => exact absurd rfl hl

theorem ending_ne_of_mem_keptLines (hl : l ∈ keptLines target ls) : l.ending ≠ .eof := by
  obtain ⟨k, -, rfl⟩ := List.mem_map.1 hl
  exact closed_ne_eof k.ending

theorem ending_ne_of_mem_freshLines {e : LineEnd} (he : e ≠ .eof) (hl : l ∈ freshLines fresh e) :
    l.ending ≠ .eof := by
  obtain ⟨s, -, rfl⟩ := List.mem_map.1 hl
  exact he

theorem keptLines_append (target : Text) (ls ls' : List Line) :
    keptLines target (ls ++ ls') = keptLines target ls ++ keptLines target ls' := by
  rw [keptLines, List.filter_append, List.map_append]
  rfl

/-- Lines are told apart by their contents, whatever a carriage return at the end belongs to. -/
theorem isStatement_reread {kind : Kind} (hn : Request.IsTargetName target) (l : Line) :
    isStatement kind target l.reread.content = isStatement kind target l.content := by
  rw [isStatement, isStatement, read?_reread hn]

/-- A kept line does not set the output directory, also where it is read back. -/
theorem isOutputLine_of_mem_keptLines (hn : Request.IsTargetName target) {m : Line}
    (hm : m ∈ (keptLines target ls).map Line.reread) : isOutputLine target m = false := by
  obtain ⟨kept, hkept, rfl⟩ := List.mem_map.1 hm
  obtain ⟨l, hl, rfl⟩ := List.mem_map.1 hkept
  have hl' : isOutputLine target l = false := by simpa using (List.mem_filter.1 hl).2
  rw [isOutputLine, isStatement_reread hn]
  exact hl'

/-- Of kept lines that have been written and read back all are kept again. -/
theorem keptLines_map_reread (hn : Request.IsTargetName target) (ls : List Line) :
    keptLines target ((keptLines target ls).map Line.reread) =
      (keptLines target ls).map Line.reread := by
  have hfilter : ((keptLines target ls).map Line.reread).filter (!isOutputLine target ·) =
      (keptLines target ls).map Line.reread := by
    rw [List.filter_eq_self]
    intro k hk
    rw [isOutputLine_of_mem_keptLines hn hk]
    rfl
  rw [keptLines, hfilter]
  refine (List.map_congr_left ?_).trans (List.map_id _)
  intro k hk
  obtain ⟨l, hl, rfl⟩ := List.mem_map.1 hk
  exact closedLine_eq_self (Line.ending_reread_ne (ending_ne_of_mem_keptLines hl))

/-! ## One overwrite -/

/-- A declaration sets no output directory. -/
theorem isOutputLine_eq_false (hn : Request.IsTargetName target)
    (hl : isDeclaration target l = true) : isOutputLine target l = false := by
  rw [← Bool.not_eq_true]
  intro hout
  obtain ⟨arguments, hread⟩ := Option.isSome_iff_exists.1 hl
  obtain ⟨arguments', hread'⟩ := Option.isSome_iff_exists.1 hout
  cases (eq_of_read? hn hn hread hread').1

/-- The first declaration among some lines. -/
theorem exists_eq_append_declaration (hdeclared : ∃ l ∈ ls, isDeclaration target l = true) :
    ∃ (front : List Line) (l : Line) (back : List Line), ls = front ++ l :: back ∧
      (∀ k ∈ front, isDeclaration target k = false) ∧ isDeclaration target l = true := by
  obtain ⟨l, hfind⟩ := Option.isSome_iff_exists.1 (List.find?_isSome.2 hdeclared)
  obtain ⟨hl, front, back, hls, hfront⟩ := List.find?_eq_some_iff_append.1 hfind
  exact ⟨front, l, back, hls, fun k hk => by simpa using hfront k hk, hl⟩

/-- The fresh statements stand in the place of the first declaration. -/
theorem replaceDeclaration_append (hn : Request.IsTargetName target)
    (hfront : ∀ k ∈ front, isDeclaration target k = false) (hl : isDeclaration target l = true)
    (fresh : List Text) (back : List Line) :
    replaceDeclaration target fresh (front ++ l :: back) =
      keptLines target front ++ freshLines fresh l.ending.closed ++ keptLines target back := by
  induction front with
  | nil =>
    rw [List.nil_append, replaceDeclaration, isOutputLine_eq_false hn hl, hl]
    rfl
  | cons k front ih =>
    obtain ⟨hk, hfront⟩ := List.forall_mem_cons.1 hfront
    rw [List.cons_append, replaceDeclaration, ih hfront, hk]
    cases hout : isOutputLine target k with
    | true => simp [keptLines, hout]
    | false => simp [keptLines, closedLine, hout]

/-- An overwritten text consists of the kept lines on both sides of the fresh statements. -/
theorem rewrite_eq_join (hn : Request.IsTargetName target)
    (htext : Line.split text = front ++ l :: back)
    (hfront : ∀ k ∈ front, isDeclaration target k = false) (hl : isDeclaration target l = true)
    (path : Text) (directory : Option Text) :
    rewrite text target path directory =
      Line.join (keptLines target front ++
        freshLines (statements target path directory) l.ending.closed ++
        keptLines target back) := by
  rw [rewrite, htext, replaceDeclaration_append hn hfront hl]

/-! ## Two overwrites -/

/-- The statement for an output directory that was written but is not recognised. -/
def staleStatements (target : Text) (directory : Option Text) : List Text :=
  (directory.map (propertiesLine target)).toList.filter (!isStatement .properties target ·)

/-- A written declaration is recognised as one if its path is not blank. -/
theorem isStatement_executableLine (hn : Request.IsTargetName target) (hpath : ¬path.IsBlank) :
    isStatement .executable target (executableLine target path) = true := by
  rw [isStatement, read?_executableLine hn, if_neg (trim_quote_ne_nil (Or.inl hpath))]
  rfl

/-- A written statement does not end in a carriage return: it ends in a parenthesis. -/
theorem getLast?_of_mem_statements {s : Text} (hs : s ∈ statements target path directory) :
    s.getLast? ≠ some '\r' := by
  rw [statements] at hs
  rcases List.mem_cons.1 hs with rfl | hs
  · rw [executableLine_eq, ← List.append_assoc, List.getLast?_concat]
    decide
  · obtain ⟨d, -, rfl⟩ := Option.map_eq_some_iff.1 (Option.mem_toList.1 hs)
    rw [propertiesLine_eq, ← List.append_assoc, List.getLast?_concat]
    decide

/-- A written statement is in one line if its path and its directory are. -/
theorem newline_not_mem_of_mem_statements (hn : Request.IsTargetName target) (hpath : '\n' ∉ path)
    (hdirectory : ∀ d ∈ directory, '\n' ∉ d) {s : Text}
    (hs : s ∈ statements target path directory) : '\n' ∉ s := by
  rw [statements] at hs
  rcases List.mem_cons.1 hs with rfl | hs
  · exact newline_not_mem_executableLine hn hpath
  · obtain ⟨d, hd, rfl⟩ := Option.map_eq_some_iff.1 (Option.mem_toList.1 hs)
    exact newline_not_mem_propertiesLine hn (hdirectory d hd)

/-- Kept lines are in one line each. -/
theorem newline_not_mem_of_mem_keptLines (hls : ∀ l ∈ ls, '\n' ∉ l.content)
    (hl : l ∈ keptLines target ls) : '\n' ∉ l.content := by
  obtain ⟨k, hk, rfl⟩ := List.mem_map.1 hl
  exact hls k (List.mem_filter.1 hk).1

/-- An overwritten text is cut into the lines that it was put together from. -/
theorem split_join_keptLines (hn : Request.IsTargetName target) (hpath : '\n' ∉ path)
    (hdirectory : ∀ d ∈ directory, '\n' ∉ d) {e : LineEnd} (he : e ≠ .eof)
    (hfront : ∀ k ∈ front, '\n' ∉ k.content) (hback : ∀ k ∈ back, '\n' ∉ k.content) :
    Line.split (Line.join (keptLines target front ++
        freshLines (statements target path directory) e ++ keptLines target back)) =
      (keptLines target front).map Line.reread ++ freshLines (statements target path directory) e ++
        (keptLines target back).map Line.reread := by
  have hended : ∀ l ∈ keptLines target front ++
      freshLines (statements target path directory) e ++ keptLines target back, l.IsEnded := by
    intro l hl
    rcases List.mem_append.1 hl with hl | hl
    · rcases List.mem_append.1 hl with hl | hl
      · exact ⟨ending_ne_of_mem_keptLines hl, newline_not_mem_of_mem_keptLines hfront hl⟩
      · refine ⟨ending_ne_of_mem_freshLines he hl, ?_⟩
        obtain ⟨s, hs, rfl⟩ := List.mem_map.1 hl
        exact newline_not_mem_of_mem_statements hn hpath hdirectory hs
    · exact ⟨ending_ne_of_mem_keptLines hl, newline_not_mem_of_mem_keptLines hback hl⟩
  have hfresh : (freshLines (statements target path directory) e).map Line.reread =
      freshLines (statements target path directory) e := by
    refine (List.map_congr_left ?_).trans (List.map_id _)
    intro l hl
    obtain ⟨s, hs, rfl⟩ := List.mem_map.1 hl
    exact Line.reread_eq_self (getLast?_of_mem_statements hs)
  have hsplit := Line.split_join_append hended []
  rwa [List.append_nil, show Line.split [] = [] from rfl, List.append_nil, List.map_append,
    List.map_append, hfresh] at hsplit

/-- What is kept of a written output directory is the statement that is not recognised. -/
theorem keptLines_freshLines {e : LineEnd} (he : e ≠ .eof) (directory : Option Text) :
    keptLines target (freshLines (directory.map (propertiesLine target)).toList e) =
      freshLines (staleStatements target directory) e := by
  cases directory with
  | none => rfl
  | some d =>
    have hclosed : closedLine ⟨propertiesLine target d, e⟩ = ⟨propertiesLine target d, e⟩ :=
      closedLine_eq_self he
    cases hread : isStatement .properties target (propertiesLine target d) <;>
      simp [keptLines, freshLines, staleStatements, isOutputLine, hread, hclosed]

/-- Two overwrites give what the second of them gives alone, with the statement of the first that is
not recognised behind the fresh statements. -/
theorem exists_rewrite_rewrite_eq_join (hn : Request.IsTargetName target)
    (hdeclared : ∃ l ∈ Line.split text, isDeclaration target l = true)
    (hpath : '\n' ∉ path) (hblank : ¬path.IsBlank) (hdirectory : ∀ d ∈ directory, '\n' ∉ d)
    (path' : Text) (directory' : Option Text) :
    ∃ (before behind : List Line) (e : LineEnd), (∀ k ∈ before, k.ending ≠ .eof) ∧ e ≠ .eof ∧
      rewrite text target path' directory' = Line.join (before ++ behind) ∧
      rewrite (rewrite text target path directory) target path' directory' =
        Line.join (before ++ freshLines (staleStatements target directory) e ++ behind) := by
  obtain ⟨front, l, back, htext, hfront, hl⟩ := exists_eq_append_declaration hdeclared
  have hline : ∀ k ∈ front ++ l :: back, '\n' ∉ k.content := fun k hk =>
    Line.newline_not_mem_of_mem_split (htext ▸ hk)
  have he : l.ending.closed ≠ .eof := closed_ne_eof l.ending
  generalize hclosed : l.ending.closed = e at he
  -- the first overwrite, cut into lines: its declaration is the first one again
  have hfirst : Line.split (rewrite text target path directory) =
      (keptLines target front).map Line.reread ++ ⟨executableLine target path, e⟩ ::
        (freshLines (directory.map (propertiesLine target)).toList e ++
          (keptLines target back).map Line.reread) := by
    rw [rewrite_eq_join hn htext hfront hl, hclosed,
      split_join_keptLines hn hpath hdirectory he (fun k hk => hline k (by simp [hk]))
        (fun k hk => hline k (by simp [hk])), statements]
    simp [freshLines]
  have hfront' : ∀ k ∈ (keptLines target front).map Line.reread,
      isDeclaration target k = false := by
    intro k hk
    obtain ⟨m, hm, rfl⟩ := List.mem_map.1 hk
    obtain ⟨m', hm', rfl⟩ := List.mem_map.1 hm
    rw [isDeclaration, isStatement_reread hn]
    exact hfront m' (List.mem_filter.1 hm').1
  have hdeclaration : isDeclaration target ⟨executableLine target path, e⟩ = true :=
    isStatement_executableLine hn hblank
  have hend : LineEnd.closed e = e := congrArg Line.ending (closedLine_eq_self (l := ⟨[], e⟩) he)
  refine ⟨keptLines target front ++ freshLines (statements target path' directory') e,
    keptLines target back, e, ?_, he, ?_, ?_⟩
  · intro k hk
    rcases List.mem_append.1 hk with hk | hk
    · exact ending_ne_of_mem_keptLines hk
    · exact ending_ne_of_mem_freshLines he hk
  · rw [rewrite_eq_join hn htext hfront hl, hclosed]
  · rw [rewrite_eq_join hn hfirst hfront' hdeclaration, hend, keptLines_append,
      keptLines_freshLines he, keptLines_map_reread hn, keptLines_map_reread hn]
    simp only [Line.join_append, Line.join_map_reread, List.append_assoc]

/-- Two overwrites come to the second alone exactly if no statement of the first goes
unrecognised. -/
theorem rewrite_rewrite_eq_iff (hn : Request.IsTargetName target)
    (hdeclared : ∃ l ∈ Line.split text, isDeclaration target l = true)
    (hpath : '\n' ∉ path) (hblank : ¬path.IsBlank) (hdirectory : ∀ d ∈ directory, '\n' ∉ d) :
    rewrite (rewrite text target path directory) target path' directory' =
        rewrite text target path' directory' ↔
      ∀ d ∈ directory, isStatement .properties target (propertiesLine target d) = true := by
  obtain ⟨before, behind, e, -, he, honce, htwice⟩ :=
    exists_rewrite_rewrite_eq_join hn hdeclared hpath hblank hdirectory path' directory'
  have hstale : staleStatements target directory = [] ↔
      ∀ d ∈ directory, isStatement .properties target (propertiesLine target d) = true := by
    cases directory <;> simp [staleStatements]
  rw [honce, htwice, ← hstale]
  constructor
  · intro h
    simp only [Line.join_append, List.append_assoc, List.append_cancel_left_eq] at h
    have hnil : Line.join (freshLines (staleStatements target directory) e) = [] :=
      List.append_left_eq_self.1 h
    cases hlist : staleStatements target directory with
    | nil => rfl
    | cons s rest =>
      -- a line with a terminator spells something
      have hend : e.text = [] := by
        rw [hlist] at hnil
        simp only [freshLines, List.map_cons, Line.join_cons, Line.text, List.append_eq_nil_iff]
          at hnil
        exact hnil.1.2
      cases e with
      | lf | crlf => cases hend
      | eof => exact absurd rfl he
  · intro h
    rw [h]
    simp [freshLines]

/-- The statement of a first overwrite that goes unrecognised is a line of its own after the second,
among the lines that the second overwrite gives alone. -/
theorem exists_split_rewrite_rewrite (hn : Request.IsTargetName target)
    (hdeclared : ∃ l ∈ Line.split text, isDeclaration target l = true)
    (hpath : '\n' ∉ path) (hblank : ¬path.IsBlank) {d : Text} (hd : '\n' ∉ d)
    (hstale : isStatement .properties target (propertiesLine target d) = false)
    (path' : Text) (directory' : Option Text) :
    ∃ (before behind : List Line) (e : LineEnd), e ≠ .eof ∧
      Line.split (rewrite text target path' directory') = before ++ behind ∧
      Line.split (rewrite (rewrite text target path (some d)) target path' directory') =
        before ++ ⟨propertiesLine target d, e⟩ :: behind := by
  obtain ⟨before, behind, e, hbefore, he, honce, htwice⟩ :=
    exists_rewrite_rewrite_eq_join hn hdeclared hpath hblank
      (fun d' hd' => by rwa [← Option.mem_some.1 hd']) path' directory'
  have hwritten : propertiesLine target d ∈ statements target path (some d) := by
    simp [statements]
  have hline : Line.split (Line.text ⟨propertiesLine target d, e⟩ ++ Line.join behind) =
      ⟨propertiesLine target d, e⟩ :: Line.split (Line.join behind) := by
    rw [Line.split_text_append ⟨he, newline_not_mem_propertiesLine hn hd⟩,
      Line.reread_eq_self (getLast?_of_mem_statements hwritten)]
  refine ⟨Line.split (Line.join before), Line.split (Line.join behind), e, he, ?_, ?_⟩
  · rw [honce, Line.join_append, Line.split_join_append_of_ending_ne hbefore]
  · have hfresh : staleStatements target (some d) = [propertiesLine target d] := by
      simp [staleStatements, hstale]
    rw [htwice, hfresh, List.append_assoc, Line.join_append,
      Line.split_join_append_of_ending_ne hbefore, ← hline]
    simp [freshLines]

/-- Overwriting a declaration again undoes the overwrite before, to the octet, unless that wrote an
output directory whose value cannot be read back: one that is blank, or holds blanks and is not a
text between double quotes without further ones.  The line that sets such a directory outlasts the
second overwrite. -/
theorem edit_absorbs_edit_iff (hn : Request.IsTargetName target)
    (hdeclared : ∃ l ∈ Line.split text, isDeclaration target l = true)
    (hpath : '\n' ∉ path) (hblank : ¬path.IsBlank)
    (hdirectory : ∀ d ∈ directory, d ≠ [] ∧ '\n' ∉ d) :
    (edit (edit text .different target path directory) .different target path' directory' =
        edit text .different target path' directory' ↔
      ∀ d ∈ directory, isStatement .properties target (propertiesLine target d) = true) ∧
    ∀ d ∈ directory,
      (isStatement .properties target (propertiesLine target d) = true ↔
        Text.trim (quote d) ≠ [] ∧ ((∀ c ∈ Text.trim (quote d), isBlank c = false) ∨
          ∃ s : Text, '"' ∉ s ∧ Text.trim (quote d) = '"' :: s ++ ['"'])) ∧
      (isStatement .properties target (propertiesLine target d) = false →
        ∃ (before behind : List Line) (e : LineEnd), e ≠ .eof ∧
          Line.split (edit text .different target path' directory') = before ++ behind ∧
          Line.split (edit (edit text .different target path directory) .different target path'
            directory') = before ++ ⟨propertiesLine target d, e⟩ :: behind) := by
  have hfilter : directory.filter (· ≠ []) = directory := by
    cases directory with
    | none => rfl
    | some d => simp [(hdirectory d rfl).1]
  have hedit : ∀ s p : Text, ∀ o : Option Text,
      edit s .different target p o = rewrite s target p (o.filter (· ≠ [])) := fun _ _ _ => rfl
  simp only [hedit, hfilter]
  refine ⟨rewrite_rewrite_eq_iff hn hdeclared hpath hblank fun d hd => (hdirectory d hd).2, ?_⟩
  rintro d rfl
  refine ⟨(isStatement_propertiesLine_iff hn d).trans isValue_iff, ?_⟩
  intro hstale
  exact exists_split_rewrite_rewrite hn hdeclared hpath hblank (hdirectory d rfl).2 hstale path' _

/-- A tab in an output directory, which is not put between quotes: in a text with both line ends and
a carriage return at its end, the line is left behind. -/
theorem edit_absorbs_edit_iff_tab :
    Request.IsTargetName "app".toList ∧
      (∃ l ∈ Line.split "x\r\nadd_executable(app a.c)\n# end\r".toList,
        isDeclaration "app".toList l = true) ∧
      '\n' ∉ "b.c".toList ∧ ¬Text.IsBlank "b.c".toList ∧
      (∀ d ∈ some "out\tdir".toList, d ≠ [] ∧ '\n' ∉ d) ∧
      edit (edit "x\r\nadd_executable(app a.c)\n# end\r".toList .different "app".toList
          "b.c".toList (some "out\tdir".toList)) .different "app".toList "c.c".toList none ≠
        edit "x\r\nadd_executable(app a.c)\n# end\r".toList .different "app".toList
          "c.c".toList none := by
  have hdeclared : ∃ l ∈ Line.split "x\r\nadd_executable(app a.c)\n# end\r".toList,
      isDeclaration "app".toList l = true := by
    decide
  have hdirectory : ∀ d ∈ some "out\tdir".toList, d ≠ [] ∧ '\n' ∉ d := by
    rintro d ⟨⟩
    decide
  refine ⟨by decide, hdeclared, by decide, by decide, hdirectory, ?_⟩
  intro heq
  have hread := (edit_absorbs_edit_iff (by decide) hdeclared (by decide) (by decide)
    hdirectory).1.1 heq "out\tdir".toList rfl
  revert hread
  decide

end BuildFile

end BuildTargets

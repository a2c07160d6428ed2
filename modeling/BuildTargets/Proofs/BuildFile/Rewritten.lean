import BuildTargets.Proofs.BuildFile.Overwrite

/-!
# What an overwrite does to each line

An overwrite looks for the declaration by itself, in the same pass that leaves out the lines which set
the output directory.  The line that it replaces is the one that decides the status of the target
(`exists_of_declaration?`), so what becomes of a line is settled by its number and its content
(`edit_eq_flatten_mapIdx`).  In the new text only the statement that was written for an output directory
is recognised as one.
-/

namespace BuildTargets

namespace BuildFile

open Statement

variable {target path : Text} {directory : Option Text} {text : Text} {k : Nat} {ls : List Line}

/-- What becomes of line number `i` when line number `k` is replaced by statements that all get its
terminator: a line that sets the output directory goes, and any other line stays. -/
def rewrittenLine (target : Text) (fresh : List Text) (k i : Nat) (l : Line) : Text :=
  if i = k then fresh.flatMap (· ++ l.ending.closed.text)
  else if isOutputLine target l then []
  else l.content ++ l.ending.closed.text

/-- The line with the number that the status of a target comes with is the first to declare it. -/
theorem exists_of_declaration? {arguments : Text}
    (h : declaration? target ls = some (k, arguments)) :
    ∃ (front : List Line) (l : Line) (back : List Line), ls = front ++ l :: back ∧
      front.length = k ∧ (∀ m ∈ front, isDeclaration target m = false) ∧
      isDeclaration target l = true := by
  induction ls generalizing k with
  | nil => cases h
  | cons m ls ih =>
    rw [declaration?] at h
    cases hread : read? .executable target m.content with
    | some found =>
      rw [hread] at h
      cases h
      have hm : isDeclaration target m = true := by rw [isDeclaration, isStatement, hread]; rfl
      exact ⟨[], m, ls, rfl, rfl, List.forall_mem_nil _, hm⟩
    | none =>
      rw [hread] at h
      obtain ⟨⟨k', found⟩, hrest, he⟩ := Option.map_eq_some_iff.1 h
      cases he
      obtain ⟨front, l, back, rfl, rfl, hfront, hl⟩ := ih hrest
      have hm : isDeclaration target m = false := by rw [isDeclaration, isStatement, hread]; rfl
      exact ⟨m :: front, l, back, rfl, rfl, List.forall_mem_cons.2 ⟨hm, hfront⟩, hl⟩

/-- A conflict has been found at the first line that declares the target. -/
theorem exists_of_classify_different (h : classify text target path = (.different, some k)) :
    ∃ (front : List Line) (l : Line) (back : List Line), Line.split text = front ++ l :: back ∧
      front.length = k ∧ (∀ m ∈ front, isDeclaration target m = false) ∧
      isDeclaration target l = true := by
  rw [classify] at h
  cases hfound : declaration? target (Line.split text) with
  | none =>
    rw [hfound] at h
    cases h
  | some found =>
    obtain ⟨k', arguments⟩ := found
    rw [hfound] at h
    obtain rfl : k' = k := Option.some.inj (Prod.mk.inj h).2
    exact exists_of_declaration? hfound

/-- Of lines other than the replaced one those are kept that do not set the output directory, whatever
their numbers are. -/
theorem flatten_mapIdx_rewrittenLine {fresh : List Text} (number : Nat → Nat)
    (hk : ∀ i < ls.length, number i ≠ k) :
    (ls.mapIdx fun i => rewrittenLine target fresh k (number i)).flatten =
      Line.join (keptLines target ls) := by
  induction ls generalizing number with
  | nil => rfl
  | cons l ls ih =>
    have hfirst : number 0 ≠ k := hk 0 (Nat.succ_pos _)
    have hrest : (ls.mapIdx fun i => rewrittenLine target fresh k (number (i + 1))).flatten =
        Line.join (keptLines target ls) :=
      ih (fun i => number (i + 1)) fun i hi => hk (i + 1) (Nat.succ_lt_succ hi)
    rw [List.mapIdx_cons, List.flatten_cons, hrest, rewrittenLine, if_neg hfirst]
    cases hout : isOutputLine target l with
    | true => simp [keptLines, hout]
    | false => simp [keptLines, hout, closedLine, Line.text]

/-- Lines with a replaced one among them are put together from what becomes of each. -/
theorem flatten_mapIdx_rewrittenLine_append (fresh : List Text) (front back : List Line) (l : Line) :
    ((front ++ l :: back).mapIdx (rewrittenLine target fresh front.length)).flatten =
      Line.join (keptLines target front ++ freshLines fresh l.ending.closed ++
        keptLines target back) := by
  have hbefore : (front.mapIdx (rewrittenLine target fresh front.length)).flatten =
      Line.join (keptLines target front) :=
    flatten_mapIdx_rewrittenLine id fun i hi => Nat.ne_of_lt hi
  have hbehind : (back.mapIdx fun i =>
      rewrittenLine target fresh front.length (i + 1 + front.length)).flatten =
        Line.join (keptLines target back) :=
    flatten_mapIdx_rewrittenLine (fun i => i + 1 + front.length) fun i _ => by omega
  have hreplaced : rewrittenLine target fresh front.length (0 + front.length) l =
      Line.join (freshLines fresh l.ending.closed) := by
    rw [rewrittenLine, if_pos (Nat.zero_add _), freshLines, Line.join, List.flatMap_map]
    rfl
  rw [List.mapIdx_append, List.mapIdx_cons, List.flatten_append, List.flatten_cons, hbefore, hbehind,
    hreplaced, Line.join_append, Line.join_append, List.append_assoc]

/-- A written declaration does not set the output directory. -/
theorem isOutputLine_executableLine (hn : Request.IsTargetName target) (path : Text) (e : LineEnd) :
    isOutputLine target ⟨executableLine target path, e⟩ = false := by
  have hread : read? .properties target (executableLine target path) = none := by
    rw [executableLine_eq]
    exact read?_heading_eq_none hn hn (fun h => by cases h.1) Text.isBlank_nil Text.isBlank_nil
      (by decide) _
  rw [isOutputLine, isStatement, hread]
  rfl

/-- An overwrite of a target that is declared with another source goes line by line.  Each line is kept
with its terminator, a line feed where it had none, unless it sets the output directory of the target;
only the line that decides the status is replaced, by the declaration and the statement for the output
directory if there is to be one, and these get its terminator.  In the new text no line but that
statement is recognised as setting the output directory. -/
theorem edit_different_by_lines (hn : Request.IsTargetName target) (hpath : '\n' ∉ path)
    (hdirectory : ∀ d ∈ directory, '\n' ∉ d)
    (hstatus : classify text target path = (.different, some k)) :
    edit text .different target path directory =
      ((Line.split text).mapIdx (rewrittenLine target (executableLine target path ::
        ((directory.filter (· ≠ [])).map (propertiesLine target)).toList) k)).flatten ∧
    ∃ (l : Line) (before behind : List Line), (Line.split text)[k]? = some l ∧
      Line.split (edit text .different target path directory) =
        before ++ ⟨executableLine target path, l.ending.closed⟩ ::
          (((directory.filter (· ≠ [])).map (propertiesLine target)).toList.map
            fun s => ⟨s, l.ending.closed⟩) ++ behind ∧
      ∀ m ∈ before ++ ⟨executableLine target path, l.ending.closed⟩ :: behind,
        isOutputLine target m = false := by
  obtain ⟨front, l, back, htext, rfl, hfront, hl⟩ := exists_of_classify_different hstatus
  have hedit : edit text .different target path directory =
      rewrite text target path (directory.filter (· ≠ [])) := rfl
  have hdirectory' : ∀ d ∈ directory.filter (· ≠ []), '\n' ∉ d := fun d hd =>
    hdirectory d (Option.mem_filter_iff.1 hd).1
  generalize directory.filter (· ≠ []) = directory' at hedit hdirectory' ⊢
  have hline : ∀ m ∈ front ++ l :: back, '\n' ∉ m.content := fun m hm =>
    Line.newline_not_mem_of_mem_split (htext ▸ hm)
  rw [hedit, rewrite_eq_join hn htext hfront hl]
  constructor
  · rw [htext]
    exact (flatten_mapIdx_rewrittenLine_append _ front back l).symm
  · refine ⟨l, (keptLines target front).map Line.reread, (keptLines target back).map Line.reread,
      ?_, ?_, ?_⟩
    · rw [htext, List.getElem?_append_right (Nat.le_refl _), Nat.sub_self]
      rfl
    · rw [split_join_keptLines hn hpath hdirectory' (closed_ne_eof _) (fun m hm => hline m (by simp [hm]))
        (fun m hm => hline m (by simp [hm]))]
      rfl
    · intro m hm
      rcases List.mem_append.1 hm with hm | hm
      · exact isOutputLine_of_mem_keptLines hn hm
      · rcases List.mem_cons.1 hm with rfl | hm
        · exact isOutputLine_executableLine hn path _
        · exact isOutputLine_of_mem_keptLines hn hm

/-- A declaration with both line ends around it, an output directory on either side and a second
declaration behind it, which is the last line and not ended. -/
def redeclaredText : Text :=
  ("# \r\nset_target_properties(app PROPERTIES RUNTIME_OUTPUT_DIRECTORY out)\n" ++
    "add_executable(app a.c)\r\n" ++
    "set_target_properties( app PROPERTIES  RUNTIME_OUTPUT_DIRECTORY \"o p\")\r\n" ++
    "add_executable(app c.c)").toList

theorem edit_different_by_lines_redeclaredText :
    Request.IsTargetName "app".toList ∧ '\n' ∉ "b.c".toList ∧
      (∀ d ∈ some "bin".toList, '\n' ∉ d) ∧
      classify redeclaredText "app".toList "b.c".toList = (.different, some 2) ∧
      edit redeclaredText .different "app".toList "b.c".toList (some "bin".toList) =
        ("# \r\nadd_executable(app b.c)\r\n" ++
          "set_target_properties(app PROPERTIES RUNTIME_OUTPUT_DIRECTORY bin)\r\n" ++
          "add_executable(app c.c)\n").toList := by
  have hn : Request.IsTargetName "app".toList := by decide
  have hpath : '\n' ∉ "b.c".toList := by decide
  have hdirectory : ∀ d ∈ some "bin".toList, '\n' ∉ d := by
    rintro d ⟨⟩
    decide
  have hstatus : classify redeclaredText "app".toList "b.c".toList = (.different, some 2) := by
    decide +kernel
  exact ⟨hn, hpath, hdirectory, hstatus,
    (edit_different_by_lines hn hpath hdirectory hstatus).1.trans (by decide +kernel)⟩

end BuildFile

end BuildTargets

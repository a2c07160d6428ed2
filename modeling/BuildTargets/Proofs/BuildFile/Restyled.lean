import BuildTargets.Proofs.BuildFile.Rewritten
import Mathlib.Data.List.Forall2

/-!
# Line ends and trailing blanks

Two texts that differ in the kinds of their line ends and in the blanks at the ends of their lines have
the same lines as far as statements are concerned (`IsRestyled`, `map_read?_split`).  So a target has the
same status in both, found at the same line, and an overwrite replaces and drops the lines with the same
numbers (`classify_edit_of_isRestyled`).
-/

namespace BuildTargets

/-! ## Lines in another style -/

namespace Line

/-- A line with other blanks at its end.  Its terminator, if there is one, may be another, and a line
without one is not emptied. -/
structure IsRestyled (l l' : Line) : Prop where
  content : ∃ s b b' : Text, b.IsBlank ∧ b'.IsBlank ∧ l.content = s ++ b ∧ l'.content = s ++ b'
  newline_not_mem : '\n' ∉ l'.content
  ending : l'.ending = .eof ↔ l.ending = .eof
  ne_nil : l'.ending = .eof → l'.content ≠ []

/-- Lines in another style are a sequence of lines again. -/
theorem IsSequence.of_isRestyled {ls ls' : List Line} (h : IsSequence ls)
    (hstyle : List.Forall₂ IsRestyled ls ls') : IsSequence ls' := by
  induction h generalizing ls' with
  | nil =>
    cases hstyle
    exact .nil
  | rest hne hs =>
    cases hstyle with
    | @cons _ l' _ _ hl hrest =>
      cases hrest
      obtain ⟨s', e'⟩ := l'
      obtain rfl : e' = .eof := hl.ending.2 rfl
      exact .rest (hl.ne_nil rfl) hl.newline_not_mem
  | ended hl h ih =>
    cases hstyle with
    | cons hl' hrest =>
      exact .ended ⟨fun he => hl.ending_ne (hl'.ending.1 he), hl'.newline_not_mem⟩ (ih hrest)

end Line

/-- A text whose lines are those of another in another style. -/
def Text.IsRestyled (text text' : Text) : Prop :=
  ∃ ls' : List Line, List.Forall₂ Line.IsRestyled (Line.split text) ls' ∧ text' = Line.join ls'

namespace BuildFile

open Statement

variable {target path text text' : Text} {directory : Option Text} {ls ls' : List Line}

/-- The same is read off a line in another style. -/
theorem read?_of_isRestyled (hn : Request.IsTargetName target) {l l' : Line} (h : l.IsRestyled l')
    (kind : Kind) : read? kind target l'.content = read? kind target l.content := by
  obtain ⟨s, b, b', hb, hb', hl, hl'⟩ := h.content
  rw [hl, hl', read?_append_isBlank hn kind s hb, read?_append_isBlank hn kind s hb']

/-- What is read off the lines of a text, line by line, is the same for a text in another style. -/
theorem map_read?_split (hn : Request.IsTargetName target) (h : text.IsRestyled text') (kind : Kind) :
    (Line.split text').map (fun l => read? kind target l.content) =
      (Line.split text).map fun l => read? kind target l.content := by
  obtain ⟨ls', hstyle, rfl⟩ := h
  have hsequence := (Line.isSequence_split text).of_isRestyled hstyle
  rw [hsequence.split_join, List.map_map]
  generalize Line.split text = ls at hstyle
  clear hsequence
  induction hstyle with
  | nil => rfl
  | cons hl hrest ih =>
    rw [List.map_cons, List.map_cons, ih, Function.comp_apply, read?_reread hn,
      read?_of_isRestyled hn hl]

/-- The first declaration is found by what is read off the lines. -/
theorem declaration?_congr
    (h : ls'.map (fun l => read? .executable target l.content) =
      ls.map fun l => read? .executable target l.content) :
    declaration? target ls' = declaration? target ls := by
  induction ls generalizing ls' with
  | nil =>
    rw [List.map_nil, List.map_eq_nil_iff] at h
    rw [h]
  | cons l ls ih =>
    cases ls' with
    | nil => cases h
    | cons l' ls' =>
      obtain ⟨hl, hrest⟩ := List.cons.inj h
      have hl : read? .executable target l'.content = read? .executable target l.content := hl
      rw [declaration?, declaration?, ih hrest, hl]

/-! ## The lines that an overwrite touches -/

/-- The number of the line that an overwrite replaces, if there is one. -/
def replacedLine? (target text : Text) : Option Nat :=
  (Line.split text).findIdx? (isDeclaration target)

/-- The numbers of the lines that an overwrite drops. -/
def droppedLines (target text : Text) : List Nat :=
  (Line.split text).findIdxs (isOutputLine target)

/-- What becomes of line number `i` where the statements `fresh` replace one line and others are
dropped. -/
def editedLine (fresh : List Text) (replaced : Option Nat) (dropped : List Nat) (i : Nat) (l : Line) :
    Text :=
  if replaced = some i then fresh.flatMap (· ++ l.ending.closed.text)
  else if i ∈ dropped then []
  else l.content ++ l.ending.closed.text

/-- Without a declaration an overwrite replaces nothing. -/
theorem replaceDeclaration_of_forall (fresh : List Text)
    (h : ∀ l ∈ ls, isDeclaration target l = false) :
    replaceDeclaration target fresh ls = keptLines target ls := by
  induction ls with
  | nil => rfl
  | cons l ls ih =>
    obtain ⟨hl, hls⟩ := List.forall_mem_cons.1 h
    rw [replaceDeclaration, hl, ih hls]
    cases hout : isOutputLine target l with
    | true => simp [keptLines, hout]
    | false => simp [keptLines, hout, closedLine]

/-- An overwrite goes line by line, whether the target is declared or not. -/
theorem rewrite_eq_flatten (hn : Request.IsTargetName target) (text path : Text)
    (directory : Option Text) :
    rewrite text target path directory =
      ((Line.split text).mapIdx (editedLine (statements target path directory)
        (replacedLine? target text) (droppedLines target text))).flatten := by
  have hedited : ∀ k, (∀ i < (Line.split text).length, replacedLine? target text = some i ↔ i = k) →
      (Line.split text).mapIdx (editedLine (statements target path directory)
        (replacedLine? target text) (droppedLines target text)) =
      (Line.split text).mapIdx (rewrittenLine target (statements target path directory) k) := by
    intro k hk
    rw [List.mapIdx_eq_mapIdx_iff]
    intro i hi
    have hdropped : i ∈ droppedLines target text ↔ isOutputLine target (Line.split text)[i] = true :=
      List.mem_findIdxs_iff_pos_getElem hi
    simp only [editedLine, rewrittenLine, hk i hi, hdropped]
  by_cases hdeclared : ∃ l ∈ Line.split text, isDeclaration target l = true
  · obtain ⟨front, l, back, htext, hfront, hl⟩ := exists_eq_append_declaration hdeclared
    have hnumber : replacedLine? target text = some front.length := by
      rw [replacedLine?, htext, List.findIdx?_append, List.findIdx?_eq_none_iff.2 hfront,
        List.findIdx?_cons, hl]
      simp
    rw [hedited front.length fun i _ => by rw [hnumber, Option.some_inj, eq_comm],
      rewrite_eq_join hn htext hfront hl, htext]
    exact (flatten_mapIdx_rewrittenLine_append _ front back l).symm
  · have hnone : ∀ l ∈ Line.split text, isDeclaration target l = false := by
      intro l hl
      rw [← Bool.not_eq_true]
      exact fun hdecl => hdeclared ⟨l, hl, hdecl⟩
    have hnumber : replacedLine? target text = none := List.findIdx?_eq_none_iff.2 hnone
    rw [hedited (Line.split text).length fun i hi => by
        rw [hnumber]
        exact iff_of_false (Option.some_ne_none i).symm (Nat.ne_of_lt hi),
      rewrite, replaceDeclaration_of_forall _ hnone]
    exact (flatten_mapIdx_rewrittenLine id fun i hi => Nat.ne_of_lt hi).symm

/-- A text in another style has its declaration and the lines that set the output directory at the same
numbers. -/
theorem touched_of_isRestyled (hn : Request.IsTargetName target) (h : text.IsRestyled text') :
    replacedLine? target text' = replacedLine? target text ∧
      droppedLines target text' = droppedLines target text := by
  have hread := map_read?_split hn h
  have hdeclared : ∀ t, replacedLine? target t =
      ((Line.split t).map fun l => read? .executable target l.content).findIdx? Option.isSome :=
    fun t => by
      rw [replacedLine?, List.findIdx?_map]
      rfl
  have hout : ∀ t, droppedLines target t =
      ((Line.split t).map fun l => read? .properties target l.content).findIdxs Option.isSome :=
    fun t => by
      rw [droppedLines, List.findIdxs_map]
      rfl
  rw [hdeclared, hdeclared, hout, hout, hread, hread]
  exact ⟨rfl, rfl⟩

/-- The kinds of line ends and the blanks at the ends of lines make no difference to a target.  It has the
same status whatever its source is, and the same line decides; and an overwrite goes line by line in
both texts, with the same numbers for the line that is replaced and for those that are dropped. -/
theorem classify_edit_of_isRestyled (hn : Request.IsTargetName target) (h : text.IsRestyled text') :
    (∀ path, classify text' target path = classify text target path) ∧
    replacedLine? target text' = replacedLine? target text ∧
    droppedLines target text' = droppedLines target text ∧
    ∀ s ∈ [text, text'], ∀ (path : Text) (directory : Option Text),
      edit s .different target path directory =
        ((Line.split s).mapIdx (editedLine (executableLine target path ::
            ((directory.filter (· ≠ [])).map (propertiesLine target)).toList)
          (replacedLine? target text) (droppedLines target text))).flatten := by
  obtain ⟨hreplaced, hdropped⟩ := touched_of_isRestyled hn h
  refine ⟨fun path => ?_, hreplaced, hdropped, fun s hs path directory => ?_⟩
  · rw [classify, classify, declaration?_congr (map_read?_split hn h .executable)]
  · have hedit := rewrite_eq_flatten hn s path (directory.filter (· ≠ []))
    rcases List.mem_pair.1 hs with rfl | rfl
    · exact hedit
    · rwa [hreplaced, hdropped] at hedit

/-- A comment, a declaration and an output directory, the last of which is on a line that is not ended. -/
def plainText : Text :=
  ("#\n" ++ "add_executable(a a.c)\r\n" ++
    "set_target_properties(a PROPERTIES RUNTIME_OUTPUT_DIRECTORY b)").toList

/-- The same lines with a carriage return more, without one, and with blanks at the end. -/
def restyledText : Text :=
  ("#\r\r\n" ++ "add_executable(a a.c)\u2028\n" ++
    "set_target_properties(a PROPERTIES RUNTIME_OUTPUT_DIRECTORY b) \r").toList

theorem isRestyled_plainText : plainText.IsRestyled restyledText := by
  have hsplit : Line.split plainText =
      [⟨['#'], .lf⟩, ⟨"add_executable(a a.c)".toList, .crlf⟩,
        ⟨"set_target_properties(a PROPERTIES RUNTIME_OUTPUT_DIRECTORY b)".toList, .eof⟩] := by
    decide +kernel
  have hadded : ∀ {l l' : Line} (b : Text), b.IsBlank ∧ l'.content = l.content ++ b →
      '\n' ∉ l'.content ∧ (l'.ending = .eof ↔ l.ending = .eof) ∧ l'.content ≠ [] →
        l.IsRestyled l' := by
    intro l l' b ⟨hb, hl'⟩ ⟨hnewline, hending, hne⟩
    exact ⟨⟨l.content, [], b, by decide, hb, (List.append_nil _).symm, hl'⟩, hnewline, hending,
      fun _ => hne⟩
  refine ⟨[⟨['#', '\r'], .crlf⟩, ⟨"add_executable(a a.c)\u2028".toList, .lf⟩,
    ⟨"set_target_properties(a PROPERTIES RUNTIME_OUTPUT_DIRECTORY b) \r".toList, .eof⟩], ?_,
    by decide +kernel⟩
  rw [hsplit]
  exact .cons (hadded ['\r'] (by decide) (by decide))
    (.cons (hadded ['\u2028'] (by decide) (by decide))
      (.cons (hadded [' ', '\r'] (by decide) (by decide)) .nil))

theorem classify_edit_of_isRestyled_plainText :
    Request.IsTargetName ['a'] ∧ plainText.IsRestyled restyledText ∧
      classify restyledText ['a'] "b.c".toList = (.different, some 1) ∧
      droppedLines ['a'] restyledText = [2] := by
  have hn : Request.IsTargetName ['a'] := by decide
  obtain ⟨hstatus, -, hdropped, -⟩ := classify_edit_of_isRestyled hn isRestyled_plainText
  exact ⟨hn, isRestyled_plainText, (hstatus _).trans (by decide +kernel),
    hdropped.trans (by decide +kernel)⟩

end BuildFile

end BuildTargets

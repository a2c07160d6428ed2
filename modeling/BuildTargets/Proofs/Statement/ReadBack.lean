import BuildTargets.Proofs.Statement.Grammar
import BuildTargets.Statement.Writer

/-!
# Reading back what is written

The writer puts a value between quotes for a space or a parenthesis and escapes nothing, while the
reader trims all blanks.  A declaration is therefore read back with its value trimmed
(`read?_executableLine`), and it holds the value itself if that was quoted or had nothing to trim
(`occursIn_trim_quote_iff`).  A written line is never taken for a statement of another kind or about
another target (`read?_executableLine_eq_none`, `read?_propertiesLine_eq_none`).  For every value,
`written_value_read_back` says what becomes of it in either statement.
-/

namespace BuildTargets

namespace Statement

/-! ## Quoting -/

/-- Quotes are put around spaces and parentheses, and around no other blank. -/
theorem needsQuotes_iff {value : Text} :
    needsQuotes value = true ↔ ' ' ∈ value ∨ '(' ∈ value ∨ ')' ∈ value := by
  rw [needsQuotes, List.any_eq_true]
  constructor
  · rintro ⟨c, hc, h⟩
    simp only [Bool.or_eq_true, decide_eq_true_eq] at h
    rcases h with (rfl | rfl) | rfl
    · exact Or.inl hc
    · exact Or.inr (Or.inl hc)
    · exact Or.inr (Or.inr hc)
  · rintro (h | h | h)
    · exact ⟨_, h, rfl⟩
    · exact ⟨_, h, rfl⟩
    · exact ⟨_, h, rfl⟩

/-- Nothing is trimmed off a quoted value. -/
theorem trim_quote_of_needsQuotes {value : Text} (h : needsQuotes value = true) :
    Text.trim (quote value) = quote value := by
  rw [Text.trim_eq_self_iff, quote, if_pos h]
  refine ⟨?_, ?_⟩
  · intro c hc
    cases hc
    decide
  · intro c hc
    rw [List.getLast?_concat] at hc
    cases hc
    decide

/-- A value that is not blank leaves something when it has been written and trimmed. -/
theorem trim_quote_ne_nil {value : Text} (h : ¬value.IsBlank ∨ needsQuotes value = true) :
    Text.trim (quote value) ≠ [] := by
  by_cases hq : needsQuotes value = true
  · rw [trim_quote_of_needsQuotes hq, quote, if_pos hq]
    exact List.cons_ne_nil _ _
  · rw [quote, if_neg hq, Ne, Text.trim_eq_nil_iff]
    exact h.resolve_right hq

/-- A value is found in what was written for it exactly if it was quoted or keeps its ends. -/
theorem occursIn_trim_quote_iff {value : Text} :
    occursIn value (Text.trim (quote value)) = true ↔
      (' ' ∈ value ∨ '(' ∈ value ∨ ')' ∈ value) ∨ value.IsTrimmed := by
  rw [occursIn_iff, ← needsQuotes_iff]
  by_cases hq : needsQuotes value = true
  · rw [trim_quote_of_needsQuotes hq, quote, if_pos hq]
    exact iff_of_true ⟨['"'], ['"'], rfl⟩ (Or.inl hq)
  · rw [quote, if_neg hq, ← Text.trim_eq_self_iff]
    constructor
    · intro h
      obtain ⟨b, b', -, -, hvalue⟩ := Text.exists_eq_trim value
      have hpart : Text.trim value <:+: value := ⟨b, b', hvalue.symm⟩
      exact Or.inr (hpart.eq_of_length_le h.length_le)
    · intro h
      have htrim : Text.trim value = value := h.resolve_left hq
      exact ⟨[], [], by rw [List.nil_append, List.append_nil, htrim]⟩

/-- A path that is found again in its own declaration: it is in one line, and it is quoted or has
no blank at its ends. -/
def IsRecoverable (path : Text) : Prop :=
  '\n' ∉ path ∧ ((' ' ∈ path ∨ '(' ∈ path ∨ ')' ∈ path) ∨ path.IsTrimmed)

instance (path : Text) : Decidable (IsRecoverable path) :=
  inferInstanceAs (Decidable (_ ∧ _))

/-- Of a recoverable path something is left to read. -/
theorem IsRecoverable.trim_quote_ne_nil {path : Text} (h : IsRecoverable path) (hne : path ≠ []) :
    Text.trim (quote path) ≠ [] := by
  rcases h.2 with hq | htrimmed
  · exact Statement.trim_quote_ne_nil (Or.inr (needsQuotes_iff.2 hq))
  · refine Statement.trim_quote_ne_nil (Or.inl ?_)
    intro hblank
    rw [← Text.trim_eq_nil_iff, Text.trim_eq_self_iff.2 htrimmed] at hblank
    exact hne hblank

/-! ## Written lines -/

theorem newline_not_mem_quote {value : Text} (h : '\n' ∉ value) : '\n' ∉ quote value := by
  rw [quote]
  split
  · simp [h]
  · exact h

theorem newline_not_mem_target {target : Text} (hn : Request.IsTargetName target) :
    '\n' ∉ target := by
  intro h
  have hblank := not_isBlank_of_mem hn h
  revert hblank
  decide

theorem newline_not_mem_executableLine {target path : Text} (hn : Request.IsTargetName target)
    (h : '\n' ∉ path) : '\n' ∉ executableLine target path := by
  have hkeyword : '\n' ∉ Kind.executable.keyword := by decide
  simp [executableLine, hkeyword, newline_not_mem_target hn, newline_not_mem_quote h]

theorem newline_not_mem_propertiesLine {target directory : Text}
    (hn : Request.IsTargetName target) (h : '\n' ∉ directory) :
    '\n' ∉ propertiesLine target directory := by
  have hkeyword : '\n' ∉ Kind.properties.keyword := by decide
  have hproperties : '\n' ∉ propertiesWord := by decide
  have houtput : '\n' ∉ outputWord := by decide
  simp [propertiesLine, hkeyword, hproperties, houtput, newline_not_mem_target hn,
    newline_not_mem_quote h]

/-- A written declaration in parts: what it begins with, and its value before the parenthesis. -/
theorem executableLine_eq (target path : Text) :
    executableLine target path =
      Kind.executable.keyword ++ [] ++ '(' :: [] ++ target ++ (' ' :: quote path ++ ')' :: []) := by
  simp only [executableLine, List.append_assoc, List.append_nil, List.cons_append, List.nil_append]

/-- A written declaration is read back with its value trimmed. -/
theorem read?_executableLine {target : Text} (hn : Request.IsTargetName target) (path : Text) :
    read? .executable target (executableLine target path) =
      if Text.trim (quote path) = [] then none else some (Text.trim (quote path)) := by
  rw [executableLine_eq, read?_heading hn .executable Text.isBlank_nil Text.isBlank_nil,
    arguments?_closing .executable (by decide) _ Text.isBlank_nil]
  by_cases h : Text.trim (quote path) = []
  · simp [acceptsArguments, h]
  · simp [acceptsArguments, h]

/-- A written declaration is no other statement. -/
theorem read?_executableLine_eq_none {kind : Kind} {target target' : Text}
    (hn : Request.IsTargetName target) (hn' : Request.IsTargetName target')
    (hne : target ≠ target') (path : Text) :
    read? kind target' (executableLine target path) = none := by
  rw [executableLine_eq]
  exact read?_heading_eq_none hn hn' (fun h => hne h.2) Text.isBlank_nil Text.isBlank_nil
    (by decide) _

/-- A written output directory in parts: what it begins with, and the property with its value before
the parenthesis. -/
theorem propertiesLine_eq (target directory : Text) :
    propertiesLine target directory =
      Kind.properties.keyword ++ [] ++ '(' :: [] ++ target ++
        (' ' :: (propertiesWord ++ ' ' :: outputWord ++ ' ' :: quote directory) ++ ')' :: []) := by
  simp only [propertiesLine, List.append_assoc, List.append_nil, List.cons_append, List.nil_append]

/-- A written output directory is no statement about another target. -/
theorem read?_propertiesLine_eq_none {kind : Kind} {target target' : Text}
    (hn : Request.IsTargetName target) (hn' : Request.IsTargetName target')
    (hne : target ≠ target') (directory : Text) :
    read? kind target' (propertiesLine target directory) = none := by
  rw [propertiesLine_eq]
  exact read?_heading_eq_none hn hn' (fun h => hne h.2) Text.isBlank_nil Text.isBlank_nil
    (by decide) _

/-- The property without a value is no argument list. -/
theorem acceptsArguments_propertiesWord_outputWord :
    acceptsArguments .properties (propertiesWord ++ ' ' :: outputWord) = false := by
  decide

/-- The property with a value is an argument list exactly if the trimmed value is one argument. -/
theorem acceptsArguments_properties_iff (value : Text) :
    acceptsArguments .properties
        (Text.trim (propertiesWord ++ ' ' :: outputWord ++ ' ' :: value)) = true ↔
      IsValue (Text.trim value) := by
  by_cases hblank : value.IsBlank
  · have htrimmed : Text.IsTrimmed (propertiesWord ++ ' ' :: outputWord) := by decide
    have htrim : Text.trim (propertiesWord ++ ' ' :: outputWord ++ ' ' :: value) =
        propertiesWord ++ ' ' :: outputWord := by
      have h := Text.trim_append Text.isBlank_nil
        (Text.isBlank_cons.2 ⟨(by decide : isBlank ' ' = true), hblank⟩)
        (propertiesWord ++ ' ' :: outputWord)
      rwa [List.nil_append, Text.trim_eq_self_iff.2 htrimmed] at h
    rw [htrim, acceptsArguments_propertiesWord_outputWord, Text.trim_eq_nil_iff.2 hblank]
    exact iff_of_false Bool.false_ne_true fun h => h.ne_nil rfl
  · obtain ⟨b, b', hb, hb', hvalue⟩ := Text.exists_eq_trim value
    have hne : Text.trim value ≠ [] := fun h => hblank (Text.trim_eq_nil_iff.1 h)
    have hends := Text.isTrimmed_trim value
    generalize Text.trim value = v at hvalue hne hends ⊢
    have hword : ∀ c ∈ (outputWord ++ ' ' :: b ++ v).head?, isBlank c = false := by
      intro c hc
      cases hc
      decide
    have htrimmed : Text.IsTrimmed (propertiesWord ++ ' ' :: outputWord ++ ' ' :: b ++ v) := by
      refine ⟨?_, ?_⟩
      · intro c hc
        cases hc
        decide
      · intro c hc
        rw [List.getLast?_append_of_ne_nil _ hne] at hc
        exact hends.last c hc
    have htrim : Text.trim (propertiesWord ++ ' ' :: outputWord ++ ' ' :: value) =
        propertiesWord ++ ' ' :: outputWord ++ ' ' :: b ++ v := by
      have h := Text.trim_append Text.isBlank_nil hb'
        (propertiesWord ++ ' ' :: outputWord ++ ' ' :: b ++ v)
      rw [Text.trim_eq_self_iff.2 htrimmed] at h
      simpa only [hvalue, List.nil_append, List.append_assoc, List.cons_append] using h
    have hfirst : (after? propertiesWord (propertiesWord ++ ' ' :: outputWord ++ ' ' :: b ++ v)).bind
        afterSomeBlanks? = some (outputWord ++ ' ' :: b ++ v) :=
      after?_bind_afterSomeBlanks?_eq_some_iff.2
        ⟨[' '], by decide, List.cons_ne_nil _ _,
          by simp only [List.append_assoc, List.cons_append, List.nil_append], hword⟩
    have hsecond : (after? outputWord (outputWord ++ ' ' :: b ++ v)).bind afterSomeBlanks? =
        some v :=
      after?_bind_afterSomeBlanks?_eq_some_iff.2
        ⟨' ' :: b, Text.isBlank_cons.2 ⟨by decide, hb⟩, List.cons_ne_nil _ _, rfl, hends.head⟩
    rw [htrim, acceptsArguments, hfirst]
    simp only
    rw [hsecond]
    exact isArgument_iff

/-- A written output directory is read back exactly if its value, trimmed, is one argument. -/
theorem isStatement_propertiesLine_iff {target : Text} (hn : Request.IsTargetName target)
    (directory : Text) :
    isStatement .properties target (propertiesLine target directory) = true ↔
      IsValue (Text.trim (quote directory)) := by
  rw [isStatement, propertiesLine_eq, read?_heading hn .properties Text.isBlank_nil
    Text.isBlank_nil, arguments?_closing .properties (by decide) _ Text.isBlank_nil,
    ← acceptsArguments_properties_iff]
  split <;> simp_all

/-- What is read back of a written value, whatever it holds: a declaration has it with its quotes, if it
was given any, and without the blanks at its ends; an output directory is recognized exactly if
what is left then is not empty and either holds no blank or stands between two double quotes that have
none between them. -/
theorem written_value_read_back {target : Text} (hn : Request.IsTargetName target) (value : Text) :
    read? .executable target (executableLine target value) =
        (if Text.trim (quote value) ≠ [] then some (Text.trim (quote value)) else none) ∧
      (isStatement .properties target (propertiesLine target value) = true ↔
        Text.trim (quote value) ≠ [] ∧
          ((∀ c ∈ Text.trim (quote value), isBlank c = false) ∨
            ∃ s : Text, '"' ∉ s ∧ Text.trim (quote value) = '"' :: s ++ ['"'])) := by
  constructor
  · rw [read?_executableLine hn, ite_not]
  · rw [isStatement_propertiesLine_iff hn, isValue_iff]

/-- A value that is quoted for its spaces and parentheses, blanks at its end included, and one that
holds a tab, loses the blanks at its ends and is no output directory. -/
theorem written_value_read_back_quoted_and_bare :
    Request.IsTargetName "app".toList ∧
      read? .executable "app".toList (executableLine "app".toList "o (\u00A0) b\t".toList) =
        some "\"o (\u00A0) b\t\"".toList ∧
      isStatement .properties "app".toList (propertiesLine "app".toList "o (\u00A0) b\t".toList) =
        true ∧
      read? .executable "app".toList (executableLine "app".toList "\u00A0a\tb\r".toList) =
        some "a\tb".toList ∧
      isStatement .properties "app".toList (propertiesLine "app".toList "\u00A0a\tb\r".toList) =
        false := by
  have hn : Request.IsTargetName "app".toList := by decide
  obtain ⟨hquoted, hquoted'⟩ := written_value_read_back hn "o (\u00A0) b\t".toList
  obtain ⟨hbare, hbare'⟩ := written_value_read_back hn "\u00A0a\tb\r".toList
  refine ⟨hn, ?_, ?_, ?_, ?_⟩
  · rw [hquoted]
    decide
  · exact hquoted'.2 ⟨by decide, Or.inr ⟨"o (\u00A0) b\t".toList, by decide, by decide⟩⟩
  · rw [hbare]
    decide
  · have htrim : Text.trim (quote "\u00A0a\tb\r".toList) = ['a', '\t', 'b'] := by decide
    rw [← Bool.not_eq_true, hbare', htrim]
    rintro ⟨-, hblank | ⟨s, -, hs⟩⟩
    · exact absurd (hblank '\t' (by decide)) (by decide)
    · cases hs

end Statement

end BuildTargets

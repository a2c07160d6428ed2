import BuildTargets.Proofs.Text.Trim
import BuildTargets.Request
import BuildTargets.Statement.Reader

/-!
# The grammar of statements

`IsSpelling kind target arguments line` says, without a scanner, that the line spells the statement
of the given kind about `target` with the given arguments: keyword, parenthesis, name, arguments and
closing parenthesis, with blanks between them.  The reader of lines goes on greedily and cuts at the
last closing parenthesis; `read?_eq_some_iff` says that it finds exactly what the grammar derives.

Two equations carry the proofs.  `read?_heading` takes the keyword, the parenthesis and the name
off, and `arguments?_closing` says that what is left stands for its trimmed inner part.
-/

namespace BuildTargets

namespace Statement

/-! ## What the grammar derives -/

/-- One argument: a text between double quotes that holds none, or a text without blanks. -/
inductive IsValue : Text → Prop where
  | quoted {s : Text} (h : '"' ∉ s) : IsValue ('"' :: s ++ ['"'])
  | bare {s : Text} (hne : s ≠ []) (h : ∀ c ∈ s, isBlank c = false) : IsValue s

/-- The argument lists that a statement of the kind may have. -/
inductive IsArgumentList : Kind → Text → Prop where
  /-- Any text that does not begin or end with a blank. -/
  | executable {s : Text} (hne : s ≠ []) (h : s.IsTrimmed) : IsArgumentList .executable s
  /-- The output directory and no other property. -/
  | properties {b b' v : Text} (hb : b.IsBlank) (hne : b ≠ []) (hb' : b'.IsBlank) (hne' : b' ≠ [])
      (hv : IsValue v) : IsArgumentList .properties (propertiesWord ++ b ++ outputWord ++ b' ++ v)

/-- The lines that spell a statement: only the name has to be followed by a blank. -/
inductive IsSpelling (kind : Kind) (target arguments : Text) : Text → Prop where
  | mk {b₁ b₂ b₃ b₄ b₅ : Text} (h₁ : b₁.IsBlank) (h₂ : b₂.IsBlank) (h₃ : b₃.IsBlank)
      (h₄ : b₄.IsBlank) (h₅ : b₅.IsBlank) (hne : b₃ ≠ [])
      (harguments : IsArgumentList kind arguments) :
      IsSpelling kind target arguments
        (kind.keyword ++ b₁ ++ '(' :: b₂ ++ target ++ b₃ ++ arguments ++ b₄ ++ ')' :: b₅)

theorem propertiesWord_eq_cons : ∃ s : Text, propertiesWord = 'P' :: s :=
  ⟨"ROPERTIES".toList, rfl⟩

theorem outputWord_eq_cons : ∃ s : Text, outputWord = 'R' :: s :=
  ⟨"UNTIME_OUTPUT_DIRECTORY".toList, rfl⟩

theorem IsValue.ne_nil {v : Text} (hv : IsValue v) : v ≠ [] := by
  cases hv with
  | quoted h => simp
  | bare hne h => exact hne

theorem IsValue.isTrimmed {v : Text} (hv : IsValue v) : v.IsTrimmed := by
  cases hv with
  | quoted h =>
    refine ⟨?_, ?_⟩
    · intro c hc
      cases hc
      decide
    · intro c hc
      rw [List.getLast?_concat] at hc
      cases hc
      decide
  | bare hne h => exact ⟨fun c hc => h c (List.mem_of_mem_head? hc), fun c hc =>
      h c (List.mem_of_getLast? hc)⟩

/-- A value is not empty, and is without blanks or stands between two double quotes. -/
theorem isValue_iff {v : Text} :
    IsValue v ↔ v ≠ [] ∧
      ((∀ c ∈ v, isBlank c = false) ∨ ∃ s : Text, '"' ∉ s ∧ v = '"' :: s ++ ['"']) := by
  constructor
  · intro hv
    refine ⟨hv.ne_nil, ?_⟩
    cases hv with
    | quoted h => exact Or.inr ⟨_, h, rfl⟩
    | bare hne h => exact Or.inl h
  · rintro ⟨hne, h | ⟨s, h, rfl⟩⟩
    · exact IsValue.bare hne h
    · exact IsValue.quoted h

theorem IsArgumentList.ne_nil {kind : Kind} {s : Text} (hs : IsArgumentList kind s) : s ≠ [] := by
  cases hs with
  | executable hne h => exact hne
  | @properties b b' v hb hne hb' hne' hv =>
    obtain ⟨w, hw⟩ := propertiesWord_eq_cons
    rw [hw]
    exact List.cons_ne_nil 'P' (w ++ b ++ outputWord ++ b' ++ v)

theorem IsArgumentList.isTrimmed {kind : Kind} {s : Text} (hs : IsArgumentList kind s) :
    s.IsTrimmed := by
  cases hs with
  | executable hne h => exact h
  | properties hb hne hb' hne' hv =>
    refine ⟨?_, ?_⟩
    · intro c hc
      obtain ⟨w, hw⟩ := propertiesWord_eq_cons
      rw [hw] at hc
      cases hc
      decide
    · intro c hc
      rw [List.getLast?_append_of_ne_nil _ hv.ne_nil] at hc
      exact hv.isTrimmed.last c hc

/-! ## Argument lists -/

/-- The test for one argument accepts exactly the values of the grammar. -/
theorem isArgument_iff {s : Text} : isArgument s = true ↔ IsValue s := by
  constructor
  · intro h
    cases s with
    | nil => cases h
    | cons c r =>
      rw [isArgument, Bool.or_eq_true, Bool.and_eq_true, decide_eq_true_eq] at h
      rcases h with ⟨rfl, h⟩ | h
      · split at h
        · next inner back hcut =>
          obtain ⟨hr, -⟩ := cutLast_eq_some_iff.1 hcut
          rw [Bool.and_eq_true, decide_eq_true_eq, Bool.not_eq_true'] at h
          rw [hr, h.1]
          exact IsValue.quoted (by simpa using h.2)
        · cases h
      · refine IsValue.bare (List.cons_ne_nil c r) ?_
        intro d hd
        simpa using List.all_eq_true.1 h d hd
  · intro h
    cases h with
    | @quoted s h =>
      have hcut : cutLast '"' (s ++ ['"']) = some (s, []) :=
        cutLast_eq_some_iff.2 ⟨rfl, List.not_mem_nil⟩
      simp [isArgument, hcut, h]
    | bare hne h =>
      cases s with
      | nil => exact absurd rfl hne
      | cons c r =>
        have hall : (c :: r).all (!isBlank ·) = true := by
          rw [List.all_eq_true]
          intro d hd
          rw [h d hd]
          rfl
        rw [isArgument, hall, Bool.or_true]

/-- Going on behind a word and the blanks after it. -/
theorem after?_bind_afterSomeBlanks?_eq_some_iff {w s t : Text} :
    (after? w s).bind afterSomeBlanks? = some t ↔
      ∃ b : Text, b.IsBlank ∧ b ≠ [] ∧ s = w ++ b ++ t ∧ ∀ c ∈ t.head?, isBlank c = false := by
  rw [Option.bind_eq_some_iff]
  constructor
  · rintro ⟨r, hr, ht⟩
    rw [after?_eq_some_iff] at hr
    cases r with
    | nil => cases ht
    | cons c r =>
      rw [afterSomeBlanks?] at ht
      split at ht
      · next hc =>
        cases ht
        obtain ⟨b, hb, hrb⟩ := Text.exists_eq_trimStart r
        refine ⟨c :: b, Text.isBlank_cons.2 ⟨hc, hb⟩, List.cons_ne_nil c b, ?_,
          Text.head?_trimStart r⟩
        rw [hr, List.append_assoc, List.cons_append, ← hrb]
      · cases ht
  · rintro ⟨b, hb, hne, hs, ht⟩
    refine ⟨b ++ t, after?_eq_some_iff.2 (by rw [hs, List.append_assoc]), ?_⟩
    cases b with
    | nil => exact absurd rfl hne
    | cons c b =>
      obtain ⟨hc, hb⟩ := Text.isBlank_cons.1 hb
      rw [List.cons_append, afterSomeBlanks?, if_pos hc, Text.trimStart_append_of_isBlank hb,
        Text.trimStart_eq_self ht]

/-- The test for an argument list accepts, of the texts without blanks at the ends, exactly the
argument lists of the grammar. -/
theorem acceptsArguments_iff {kind : Kind} {s : Text} (hs : s.IsTrimmed) :
    acceptsArguments kind s = true ↔ IsArgumentList kind s := by
  cases kind with
  | executable =>
    constructor
    · intro h
      exact IsArgumentList.executable (of_decide_eq_true h) hs
    · intro h
      exact decide_eq_true h.ne_nil
  | properties =>
    constructor
    · intro h
      rw [acceptsArguments] at h
      split at h
      · cases h
      · next t ht =>
        split at h
        · cases h
        · next v hv =>
          obtain ⟨b, hb, hne, hst, -⟩ := after?_bind_afterSomeBlanks?_eq_some_iff.1 ht
          obtain ⟨b', hb', hne', htv, -⟩ := after?_bind_afterSomeBlanks?_eq_some_iff.1 hv
          rw [hst, htv, ← List.append_assoc, ← List.append_assoc]
          exact IsArgumentList.properties hb hne hb' hne' (isArgument_iff.1 h)
    · intro h
      cases h with
      | @properties b b' v hb hne hb' hne' hv =>
        have hword : ∀ c ∈ (outputWord ++ b' ++ v).head?, isBlank c = false := by
          intro c hc
          obtain ⟨w, hw⟩ := outputWord_eq_cons
          rw [hw] at hc
          cases hc
          decide
        have h₁ : (after? propertiesWord (propertiesWord ++ b ++ outputWord ++ b' ++ v)).bind
            afterSomeBlanks? = some (outputWord ++ b' ++ v) :=
          after?_bind_afterSomeBlanks?_eq_some_iff.2
            ⟨b, hb, hne, by simp only [List.append_assoc], hword⟩
        have h₂ : (after? outputWord (outputWord ++ b' ++ v)).bind afterSomeBlanks? = some v :=
          after?_bind_afterSomeBlanks?_eq_some_iff.2 ⟨b', hb', hne', rfl, hv.isTrimmed.head⟩
        rw [acceptsArguments, h₁]
        simp only
        rw [h₂]
        exact isArgument_iff.2 hv

/-- A text that ends in a closing parenthesis, blanks apart, is cut there: blanks hold none. -/
theorem beforeClosing?_append (s : Text) {b : Text} (hb : b.IsBlank) :
    beforeClosing? (s ++ ')' :: b) = some (Text.trimEnd s) := by
  have hcut : cutLast ')' (s ++ ')' :: b) = some (s, b) := by
    refine cutLast_eq_some_iff.2 ⟨rfl, ?_⟩
    intro hmem
    exact absurd (hb ')' hmem) (by decide)
  rw [beforeClosing?, hcut]
  exact if_pos (List.all_eq_true.2 hb)

/-- The arguments behind a name are what stands in front of the closing parenthesis, trimmed. -/
theorem arguments?_closing (kind : Kind) {c : Char} (hc : isBlank c = true) (s : Text) {b : Text}
    (hb : b.IsBlank) :
    arguments? kind (c :: s ++ ')' :: b) =
      if acceptsArguments kind (Text.trim s) then some (Text.trim s) else none := by
  have hstart : afterSomeBlanks? (c :: s ++ ')' :: b) = some (Text.trimStart s ++ ')' :: b) := by
    rw [List.cons_append, afterSomeBlanks?, if_pos hc,
      Text.trimStart_append_cons s b (by decide : isBlank ')' = false)]
  rw [arguments?, hstart]
  simp only [Option.bind_eq_bind, Option.bind_some, beforeClosing?_append _ hb]
  rfl

/-- Arguments are read off a blank, an inner part and a closing parenthesis only. -/
theorem exists_of_arguments? {kind : Kind} {s arguments : Text}
    (h : arguments? kind s = some arguments) :
    ∃ (c : Char) (inner b : Text),
      isBlank c = true ∧ b.IsBlank ∧ s = c :: inner ++ ')' :: b := by
  simp only [arguments?, Option.bind_eq_bind] at h
  rw [Option.bind_eq_some_iff] at h
  obtain ⟨t, ht, h⟩ := h
  rw [Option.bind_eq_some_iff] at h
  obtain ⟨u, hu, -⟩ := h
  cases s with
  | nil => cases ht
  | cons c s =>
    rw [afterSomeBlanks?] at ht
    split at ht
    · next hc =>
      cases ht
      rw [beforeClosing?] at hu
      split at hu
      · next front back hcut =>
        split at hu
        · next hback =>
          obtain ⟨a, -, hs⟩ := Text.exists_eq_trimStart s
          refine ⟨c, a ++ front, back, hc, List.all_eq_true.1 hback, ?_⟩
          rw [hs, (cutLast_eq_some_iff.1 hcut).1, List.cons_append, List.append_assoc]
        · cases hu
      · cases hu
    · cases ht

/-! ## Lines -/

/-- A name holds no blank. -/
theorem not_isBlank_of_mem {target : Text} (hn : Request.IsTargetName target) {c : Char}
    (hc : c ∈ target) : isBlank c = false := by
  have h := hn.2 c hc
  rw [Request.isForbidden, Bool.or_eq_false_iff, Bool.or_eq_false_iff, Bool.or_eq_false_iff] at h
  exact h.1.1.1

/-- A name does not begin with a blank, whatever stands behind it. -/
theorem head?_target_append {target : Text} (hn : Request.IsTargetName target) (s : Text) :
    ∀ c ∈ (target ++ s).head?, isBlank c = false := by
  intro c hc
  cases target with
  | nil => exact absurd rfl hn.1
  | cons d r =>
    cases hc
    exact not_isBlank_of_mem hn List.mem_cons_self

/-- Nothing is found by going back over blanks if what is looked for does not begin with one. -/
theorem afterBlanks_eq {α : Type} {go : Text → Option α}
    (hgo : ∀ c s, isBlank c = true → go (c :: s) = none) (s : Text) :
    afterBlanks go s = go (Text.trimStart s) := by
  induction s with
  | nil => rfl
  | cons c s ih =>
    rw [afterBlanks]
    split
    · next hc =>
      rw [ih, hgo c s hc, Option.or_none, Text.trimStart, Text.trimStart,
        List.dropWhile_cons_of_pos hc]
    · next hc => rw [Text.trimStart_cons_of_not_isBlank (by simpa using hc)]

/-- The search for a name and its arguments starts behind all blanks. -/
theorem afterBlanks_target {target : Text} (hn : Request.IsTargetName target) (kind : Kind)
    (s : Text) :
    afterBlanks (fun s => (after? target s).bind (arguments? kind)) s =
      (after? target (Text.trimStart s)).bind (arguments? kind) := by
  apply afterBlanks_eq
  intro c s hc
  rw [Option.bind_eq_none_iff]
  intro t ht
  rw [after?_eq_some_iff] at ht
  have h := head?_target_append hn t c (by rw [← ht]; rfl)
  rw [h] at hc
  cases hc

/-- Keyword, parenthesis and name are taken off with the blanks between them. -/
theorem read?_heading {target : Text} (hn : Request.IsTargetName target) (kind : Kind)
    {b₁ b₂ : Text} (h₁ : b₁.IsBlank) (h₂ : b₂.IsBlank) (s : Text) :
    read? kind target (kind.keyword ++ b₁ ++ '(' :: b₂ ++ target ++ s) = arguments? kind s := by
  have hline : kind.keyword ++ b₁ ++ '(' :: b₂ ++ target ++ s =
      kind.keyword ++ (b₁ ++ ['('] ++ (b₂ ++ (target ++ s))) := by
    simp only [List.append_assoc, List.cons_append, List.nil_append]
  have hparen : Text.trimStart (b₁ ++ ['('] ++ (b₂ ++ (target ++ s))) =
      ['('] ++ (b₂ ++ (target ++ s)) := by
    rw [List.append_assoc, Text.trimStart_append_of_isBlank h₁]
    exact Text.trimStart_cons_of_not_isBlank (by decide) _
  rw [hline, read?, after?_append]
  simp only [Option.bind_eq_bind, Option.bind_some, hparen, after?_append]
  rw [afterBlanks_target hn, Text.trimStart_append_of_isBlank h₂,
    Text.trimStart_eq_self (head?_target_append hn s), after?_append, Option.bind_some]

/-- A line that is read begins with keyword, parenthesis and name. -/
theorem exists_of_read? {target : Text} (hn : Request.IsTargetName target) {kind : Kind}
    {line arguments : Text} (h : read? kind target line = some arguments) :
    ∃ b₁ b₂ s : Text, b₁.IsBlank ∧ b₂.IsBlank ∧
      line = kind.keyword ++ b₁ ++ '(' :: b₂ ++ target ++ s ∧
      arguments? kind s = some arguments := by
  simp only [read?, Option.bind_eq_bind] at h
  rw [Option.bind_eq_some_iff] at h
  obtain ⟨s₁, hs₁, h⟩ := h
  rw [Option.bind_eq_some_iff] at h
  obtain ⟨s₂, hs₂, h⟩ := h
  rw [afterBlanks_target hn, Option.bind_eq_some_iff] at h
  obtain ⟨s₃, hs₃, h⟩ := h
  rw [after?_eq_some_iff] at hs₁ hs₂ hs₃
  obtain ⟨b₁, h₁, hb₁⟩ := Text.exists_eq_trimStart s₁
  obtain ⟨b₂, h₂, hb₂⟩ := Text.exists_eq_trimStart s₂
  refine ⟨b₁, b₂, s₃, h₁, h₂, ?_, h⟩
  rw [hs₁, hb₁, hs₂, hb₂, hs₃]
  simp only [List.append_assoc, List.cons_append, List.nil_append]

/-- The reader finds exactly the arguments that the grammar derives. -/
theorem read?_eq_some_iff {target : Text} (hn : Request.IsTargetName target) {kind : Kind}
    {line arguments : Text} :
    read? kind target line = some arguments ↔ IsSpelling kind target arguments line := by
  constructor
  · intro h
    obtain ⟨b₁, b₂, s, h₁, h₂, hline, h⟩ := exists_of_read? hn h
    obtain ⟨c, inner, b₅, hc, h₅, hs⟩ := exists_of_arguments? h
    rw [hs, arguments?_closing kind hc inner h₅] at h
    split at h
    · next haccepts =>
      cases h
      obtain ⟨b, b₄, hb, h₄, hinner⟩ := Text.exists_eq_trim inner
      have hspelling : IsSpelling kind target (Text.trim inner) (kind.keyword ++ b₁ ++ '(' :: b₂ ++
          target ++ c :: b ++ Text.trim inner ++ b₄ ++ ')' :: b₅) :=
        IsSpelling.mk h₁ h₂ (Text.isBlank_cons.2 ⟨hc, hb⟩) h₄ h₅ (List.cons_ne_nil c b)
          ((acceptsArguments_iff (Text.isTrimmed_trim inner)).1 haccepts)
      have hrest : c :: inner = c :: b ++ Text.trim inner ++ b₄ := by
        rw [List.cons_append, List.cons_append, ← hinner]
      rw [hline, hs, hrest]
      simpa only [List.append_assoc] using hspelling
    · cases h
  · intro hspelling
    obtain @⟨b₁, b₂, b₃, b₄, b₅, h₁, h₂, h₃, h₄, h₅, hne, harguments⟩ := hspelling
    have htrim : Text.trim (b₃.tail ++ arguments ++ b₄) = arguments := by
      rw [Text.trim_append (fun c hc => h₃ c (List.mem_of_mem_tail hc)) h₄]
      exact Text.trim_eq_self_iff.2 harguments.isTrimmed
    cases b₃ with
    | nil => exact absurd rfl hne
    | cons c b₃ =>
      have hrest : kind.keyword ++ b₁ ++ '(' :: b₂ ++ target ++ c :: b₃ ++ arguments ++ b₄ ++
          ')' :: b₅ = kind.keyword ++ b₁ ++ '(' :: b₂ ++ target ++
            (c :: (b₃ ++ arguments ++ b₄) ++ ')' :: b₅) := by
        simp only [List.append_assoc, List.cons_append]
      rw [hrest, read?_heading hn kind h₁ h₂,
        arguments?_closing kind (Text.isBlank_cons.1 h₃).1 (b₃ ++ arguments ++ b₄) h₅]
      rw [List.tail_cons] at htrim
      rw [htrim, if_pos ((acceptsArguments_iff harguments.isTrimmed).2 harguments)]

/-- Blanks behind a line make no difference to what is read off it. -/
theorem read?_append_isBlank {target : Text} (hn : Request.IsTargetName target) (kind : Kind)
    (line : Text) {b : Text} (hb : b.IsBlank) :
    read? kind target (line ++ b) = read? kind target line := by
  refine Option.ext fun arguments => ?_
  rw [read?_eq_some_iff hn, read?_eq_some_iff hn]
  constructor
  · intro h
    generalize hl : line ++ b = l at h
    obtain @⟨b₁, b₂, b₃, b₄, b₅, h₁, h₂, h₃, h₄, h₅, hne, harguments⟩ := h
    -- the blanks stand behind the closing parenthesis, which is none
    rcases List.append_eq_append_iff.1 hl with ⟨r, -, hr⟩ | ⟨r, hr, hr'⟩
    · have hmem : ')' ∈ b := by
        rw [hr]
        exact List.mem_append_right r List.mem_cons_self
      exact absurd (hb ')' hmem) (by decide)
    · cases r with
      | nil =>
        have hmem : ')' ∈ b := by
          rw [← List.nil_append b, ← hr']
          exact List.mem_cons_self
        exact absurd (hb ')' hmem) (by decide)
      | cons d r =>
        rw [List.cons_append, List.cons.injEq] at hr'
        rw [hr, ← hr'.1]
        rw [hr'.2] at h₅
        exact IsSpelling.mk h₁ h₂ h₃ h₄ (Text.isBlank_append.1 h₅).1 hne harguments
  · rintro ⟨h₁, h₂, h₃, h₄, h₅, hne, harguments⟩
    rw [List.append_assoc]
    exact IsSpelling.mk h₁ h₂ h₃ h₄ (Text.isBlank_append.2 ⟨h₅, hb⟩) hne harguments

/-! ## One statement a line -/

/-- The first character of a line tells the kinds of statements apart. -/
theorem kind_eq_of_keyword_append {kind kind' : Kind} {s s' : Text}
    (h : kind.keyword ++ s = kind'.keyword ++ s') : kind = kind' := by
  have hhead := congrArg List.head? h
  cases kind with
  | executable =>
    cases kind' with
    | executable => rfl
    | properties => exact absurd (Option.some.inj hhead) (by decide)
  | properties =>
    cases kind' with
    | executable => exact absurd (Option.some.inj hhead) (by decide)
    | properties => rfl

/-- A name ends at the first blank behind it. -/
theorem takeWhile_target {target : Text} (hn : Request.IsTargetName target) {c : Char}
    (hc : isBlank c = true) (s : Text) :
    (target ++ c :: s).takeWhile (!isBlank ·) = target := by
  have htarget : ∀ d ∈ target, (!isBlank d) = true := by
    intro d hd
    rw [not_isBlank_of_mem hn hd]
    rfl
  rw [List.takeWhile_append_of_pos htarget, List.takeWhile_cons_of_neg (by simp [hc]),
    List.append_nil]

/-- What a line begins with, up to the blank behind the name, tells kind and target. -/
theorem eq_of_heading {kind kind' : Kind} {target target' b₁ b₂ b₁' b₂' s s' : Text} {c c' : Char}
    (hn : Request.IsTargetName target) (hn' : Request.IsTargetName target') (h₁ : b₁.IsBlank)
    (h₂ : b₂.IsBlank) (h₁' : b₁'.IsBlank) (h₂' : b₂'.IsBlank) (hc : isBlank c = true)
    (hc' : isBlank c' = true)
    (heq : kind.keyword ++ b₁ ++ '(' :: b₂ ++ target ++ c :: s =
      kind'.keyword ++ b₁' ++ '(' :: b₂' ++ target' ++ c' :: s') :
    kind = kind' ∧ target = target' := by
  simp only [List.append_assoc, List.cons_append] at heq
  have hkind : kind = kind' := kind_eq_of_keyword_append heq
  refine ⟨hkind, ?_⟩
  rw [hkind, List.append_cancel_left_eq] at heq
  -- behind the blanks both readings see the same parenthesis, and behind that the same name
  have hparen := congrArg Text.trimStart heq
  rw [Text.trimStart_append_of_isBlank h₁, Text.trimStart_append_of_isBlank h₁',
    Text.trimStart_cons_of_not_isBlank (by decide), Text.trimStart_cons_of_not_isBlank (by decide),
    List.cons.injEq] at hparen
  have hname := congrArg Text.trimStart hparen.2
  rw [Text.trimStart_append_of_isBlank h₂, Text.trimStart_append_of_isBlank h₂',
    Text.trimStart_eq_self (head?_target_append hn _),
    Text.trimStart_eq_self (head?_target_append hn' _)] at hname
  have htake := congrArg (List.takeWhile (!isBlank ·)) hname
  rwa [takeWhile_target hn hc, takeWhile_target hn' hc'] at htake

/-- A line that begins like one statement is no other statement, even if it is not that one. -/
theorem read?_heading_eq_none {kind kind' : Kind} {target target' b₁ b₂ : Text} {c : Char}
    (hn : Request.IsTargetName target) (hn' : Request.IsTargetName target')
    (hne : ¬(kind = kind' ∧ target = target')) (h₁ : b₁.IsBlank) (h₂ : b₂.IsBlank)
    (hc : isBlank c = true) (s : Text) :
    read? kind' target' (kind.keyword ++ b₁ ++ '(' :: b₂ ++ target ++ c :: s) = none := by
  rw [Option.eq_none_iff_forall_ne_some]
  intro arguments h
  obtain ⟨b₁', b₂', s', h₁', h₂', hline, hs'⟩ := exists_of_read? hn' h
  obtain ⟨c', inner, b, hc', -, rfl⟩ := exists_of_arguments? hs'
  exact hne (eq_of_heading hn hn' h₁ h₂ h₁' h₂' hc hc' hline)

/-- A line is a statement of one kind about one target at most. -/
theorem eq_of_read? {kind kind' : Kind} {target target' line arguments arguments' : Text}
    (hn : Request.IsTargetName target) (hn' : Request.IsTargetName target')
    (h : read? kind target line = some arguments)
    (h' : read? kind' target' line = some arguments') : kind = kind' ∧ target = target' := by
  obtain ⟨b₁, b₂, s, h₁, h₂, hline, hs⟩ := exists_of_read? hn h
  obtain ⟨c, inner, b, hc, -, rfl⟩ := exists_of_arguments? hs
  by_contra hne
  rw [hline, List.cons_append, read?_heading_eq_none hn hn' hne h₁ h₂ hc] at h'
  cases h'

/-- The reader of lines accepts exactly what the grammar derives: it succeeds where some arguments
are spelled, these are unique and are the ones it gives, the test for a statement agrees with it,
and no line is a statement of two kinds or about two targets. -/
theorem recognizes_exactly_spellings (line : Text) :
    (∀ (kind : Kind) (target : Text), Request.IsTargetName target →
      ((read? kind target line).isSome = true ↔
        ∃ arguments, IsSpelling kind target arguments line) ∧
      (∀ arguments, IsSpelling kind target arguments line →
        read? kind target line = some arguments) ∧
      (∀ arguments arguments', IsSpelling kind target arguments line →
        IsSpelling kind target arguments' line → arguments = arguments') ∧
      (isStatement kind target line = true ↔ (read? kind target line).isSome = true)) ∧
    ∀ (kind kind' : Kind) (target target' : Text), Request.IsTargetName target →
      Request.IsTargetName target' → isStatement kind target line = true →
      isStatement kind' target' line = true → kind = kind' ∧ target = target' := by
  constructor
  · intro kind target hn
    refine ⟨?_, fun arguments h => (read?_eq_some_iff hn).2 h, ?_, Iff.rfl⟩
    · rw [Option.isSome_iff_exists]
      exact exists_congr fun arguments => read?_eq_some_iff hn
    · intro arguments arguments' h h'
      have hread := (read?_eq_some_iff hn).2 h
      rw [(read?_eq_some_iff hn).2 h'] at hread
      exact (Option.some.inj hread).symm
  · intro kind kind' target target' hn hn' h h'
    obtain ⟨arguments, h⟩ := Option.isSome_iff_exists.1 h
    obtain ⟨arguments', h'⟩ := Option.isSome_iff_exists.1 h'
    exact eq_of_read? hn hn' h h'

/-- A closing parenthesis among the arguments, blanks of several kinds and a carriage return at the
end of the line, which is no statement of the other kind. -/
theorem recognizes_exactly_spellings_inner_parenthesis :
    Request.IsTargetName "app".toList ∧
      read? .executable "app".toList "add_executable\t( app\u00A0 a.c )b ) \r".toList =
        some "a.c )b".toList ∧
      ¬isStatement .properties "app".toList "add_executable\t( app\u00A0 a.c )b ) \r".toList =
        true := by
  have hname : Request.IsTargetName "app".toList := by decide
  have hspelling : IsSpelling .executable "app".toList "a.c )b".toList
      "add_executable\t( app\u00A0 a.c )b ) \r".toList :=
    @IsSpelling.mk .executable "app".toList "a.c )b".toList ['\t'] [' '] ['\u00A0', ' '] [' ']
      [' ', '\r'] (by decide) (by decide) (by decide) (by decide) (by decide) (by decide)
      (.executable (by decide) (by decide))
  obtain ⟨hreads, hone⟩ :=
    recognizes_exactly_spellings "add_executable\t( app\u00A0 a.c )b ) \r".toList
  obtain ⟨hsome, hread, -, hagree⟩ := hreads .executable "app".toList hname
  refine ⟨hname, hread _ hspelling, ?_⟩
  intro hproperties
  have hexecutable := hagree.2 (hsome.2 ⟨_, hspelling⟩)
  cases (hone .executable .properties _ _ hname hname hexecutable hproperties).1

end Statement

end BuildTargets

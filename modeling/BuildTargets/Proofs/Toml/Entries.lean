import BuildTargets.Proofs.Toml.Spelling
import BuildTargets.Toml.Document

/-!
# Entries that read back

An entry of a document keeps what stands around its key and its value, so its line can be written
again and read again.  For values that are strings or truth values, under a key of one part, the line
reads back as an entry of the same name that denotes the same (`readsBack_of_mem_entries`), whatever
lines follow it; a fresh value reads back under a key that was read as well as under a bare one.
Lines that read back do so in sequence (`read?_lines`).
-/

namespace BuildTargets.Toml

/-! ## Between the clauses -/

/-- A text that does not begin with anything that may stand between clauses. -/
def IsSolid (s : Text) : Prop :=
  ∀ c ∈ s.head?, isSpace c = false ∧ c ≠ '\n' ∧ c ≠ '\r' ∧ c ≠ '#'

/-- Nothing stands in front of a text that begins with something else. -/
theorem trivia_of_isSolid {s : Text} (h : IsSolid s) : trivia false s = some ([], s) := by
  cases s with
  | nil => rfl
  | cons c s =>
    obtain ⟨hspace, hfeed, hreturn, hhash⟩ := h c rfl
    rw [trivia, if_neg hfeed, if_neg Bool.false_ne_true, if_neg hhash, hspace,
      if_neg Bool.false_ne_true]
    exact fun t ht _ => hreturn ht

theorem trivia_lineFeed (comment : Bool) (s : Text) :
    trivia comment ('\n' :: s) = consTaken '\n' (trivia false s) := by
  rw [trivia, if_pos rfl]
  exact fun _ h _ => absurd h (by decide)

theorem trivia_comment {c : Char} (hfeed : ¬c = '\n') (hcontrol : ¬isControl c = true) (s : Text) :
    trivia true (c :: s) = consTaken c (trivia true s) := by
  rw [trivia, if_neg hfeed, if_pos rfl, if_neg hcontrol]
  exact fun _ h _ => ne_return_of_not_isControl hcontrol h

theorem trivia_hash (s : Text) : trivia false ('#' :: s) = consTaken '#' (trivia true s) := by
  rw [trivia, if_neg (by decide), if_neg (by decide), if_pos rfl]
  exact fun _ h _ => absurd h (by decide)

theorem trivia_space {c : Char} (hspace : isSpace c = true) (s : Text) :
    trivia false (c :: s) = consTaken c (trivia false s) := by
  have hfeed : ¬c = '\n' := by
    rintro rfl
    exact absurd hspace (by decide)
  have hhash : ¬c = '#' := by
    rintro rfl
    exact absurd hspace (by decide)
  rw [trivia, if_neg hfeed, if_neg (by decide), if_neg hhash, if_pos hspace]
  exact fun _ h _ => ne_return_of_isSpace hspace h

/-- What stands in front of a clause does not end in the middle of spaces. -/
theorem head?_of_trivia {comment : Bool} {s taken rest : Text}
    (h : trivia comment s = some (taken, rest)) : ∀ c ∈ rest.head?, isSpace c = false := by
  fun_induction trivia comment s generalizing taken with
  | case1 =>
    cases h
    rintro _ ⟨⟩
  | case4 => cases h
  | case8 _ c s _ _ _ _ hspace =>
    cases h
    rintro _ ⟨⟩
    simpa using hspace
  | case2 _ _ ih | case3 _ _ _ ih | case5 _ _ _ _ _ ih | case6 _ _ _ _ _ ih
  | case7 _ _ _ _ _ _ _ _ ih =>
    obtain ⟨t, ht, -⟩ := consTaken_eq_some_iff.1 h
    exact ih ht

/-- What was taken between two clauses is taken again in front of a clause, or at the end of the text
if it was there. -/
theorem trivia_append {comment : Bool} {s taken rest rest' : Text}
    (h : trivia comment s = some (taken, rest)) (hend : rest = [] → rest' = [])
    (hsolid : IsSolid rest') : trivia comment (taken ++ rest') = some (taken, rest') := by
  fun_induction trivia comment s generalizing taken with
  | case1 =>
    cases h
    rw [hend rfl]
    rfl
  | case4 => cases h
  | case8 comment c s _ _ hcomment _ _ =>
    cases h
    rw [Bool.eq_false_iff.2 hcomment]
    exact trivia_of_isSolid hsolid
  | case2 _ _ ih | case3 _ _ _ ih =>
    obtain ⟨t, ht, rfl⟩ := consTaken_eq_some_iff.1 h
    rw [List.cons_append, trivia_lineFeed, ih ht]
    rfl
  | case5 c s _ hfeed hcontrol ih =>
    obtain ⟨t, ht, rfl⟩ := consTaken_eq_some_iff.1 h
    rw [List.cons_append, trivia_comment hfeed hcontrol, ih ht]
    rfl
  | case6 comment s hcomment _ _ ih =>
    obtain ⟨t, ht, rfl⟩ := consTaken_eq_some_iff.1 h
    rw [Bool.eq_false_iff.2 hcomment, List.cons_append, trivia_hash, ih ht]
    rfl
  | case7 comment c s _ _ hcomment _ hspace ih =>
    obtain ⟨t, ht, rfl⟩ := consTaken_eq_some_iff.1 h
    rw [Bool.eq_false_iff.2 hcomment, List.cons_append, trivia_space hspace, ih ht]
    rfl

/-! ## Behind a clause -/

/-- The rest of a line begins with a space or a comment, if there is any. -/
theorem head?_of_lineRest {s taken rest : Text} (h : lineRest false s = some (taken, rest)) :
    ∀ c ∈ taken.head?, isSpace c = true ∨ c = '#' := by
  unfold lineRest at h
  split at h
  · cases h
    rintro _ ⟨⟩
  · cases h
    rintro _ ⟨⟩
  · next c s _ =>
    split at h
    · cases h
      rintro _ ⟨⟩
    · simp only [Bool.false_eq_true, if_false] at h
      split at h
      · next hhash =>
        obtain ⟨t, -, rfl⟩ := consTaken_eq_some_iff.1 h
        rintro _ ⟨⟩
        exact Or.inr hhash
      · split at h
        · next hspace =>
          obtain ⟨t, -, rfl⟩ := consTaken_eq_some_iff.1 h
          rintro _ ⟨⟩
          exact Or.inl hspace
        · cases h

/-- What was taken behind a clause is taken again in front of a line feed. -/
theorem lineRest_append {comment : Bool} {s taken rest : Text}
    (h : lineRest comment s = some (taken, rest)) (rest' : Text) :
    lineRest comment (taken ++ '\n' :: rest') = some (taken, rest') := by
  have hfeed : ∀ comment, lineRest comment ('\n' :: rest') = some ([], rest') := by
    intro comment
    rw [lineRest, if_pos rfl]
    exact fun _ h _ => absurd h (by decide)
  fun_induction lineRest comment s generalizing taken with
  | case4 => cases h
  | case8 => cases h
  | case1 comment | case2 comment | case3 comment =>
    cases h
    exact hfeed comment
  | case5 c s _ hne hcontrol ih =>
    obtain ⟨t, ht, rfl⟩ := consTaken_eq_some_iff.1 h
    rw [List.cons_append, lineRest, if_neg hne, if_pos rfl, if_neg hcontrol, ih ht]
    · rfl
    · exact fun _ h _ => ne_return_of_not_isControl hcontrol h
  | case6 comment s hcomment _ hne ih =>
    obtain ⟨t, ht, rfl⟩ := consTaken_eq_some_iff.1 h
    rw [List.cons_append, lineRest, if_neg hne, if_neg hcomment, if_pos rfl, ih ht]
    · rfl
    · exact fun _ h _ => absurd h (by decide)
  | case7 comment c s _ hne hcomment hhash hspace ih =>
    obtain ⟨t, ht, rfl⟩ := consTaken_eq_some_iff.1 h
    rw [List.cons_append, lineRest, if_neg hne, if_neg hcomment, if_neg hhash, if_pos hspace, ih ht]
    · rfl
    · exact fun _ h _ => ne_return_of_isSpace hspace h

/-! ## Spaces -/

/-- Characters of one kind are taken up to the first of another kind. -/
theorem takeWhile_dropWhile_append {p : Char → Bool} {u s : Text} (hu : ∀ c ∈ u, p c = true)
    (hs : ∀ c ∈ s.head?, p c = false) :
    (u ++ s).takeWhile p = u ∧ (u ++ s).dropWhile p = s := by
  rw [List.takeWhile_append_of_pos hu, List.dropWhile_append_of_pos hu]
  cases s with
  | nil => simp
  | cons c s => simp [hs c rfl]

/-- Spaces are taken up to the first other character. -/
theorem spaces_append {blanks s : Text} (hblanks : ∀ c ∈ blanks, isSpace c = true)
    (hs : ∀ c ∈ s.head?, isSpace c = false) : spaces (blanks ++ s) = (blanks, s) := by
  obtain ⟨htake, hdrop⟩ := takeWhile_dropWhile_append hblanks hs
  rw [spaces, htake, hdrop]

/-- A text is its spaces and what follows them. -/
theorem spaces_cases (s : Text) :
    ∃ blanks rest, s = blanks ++ rest ∧ (∀ c ∈ blanks, isSpace c = true) ∧
      (∀ c ∈ rest.head?, isSpace c = false) ∧ spaces s = (blanks, rest) := by
  refine ⟨s.takeWhile isSpace, s.dropWhile isSpace, List.takeWhile_append_dropWhile.symm,
    List.all_eq_true.1 List.all_takeWhile, ?_, rfl⟩
  intro c hc
  have hhead := List.head?_dropWhile_not isSpace s
  rw [Option.mem_def.1 hc] at hhead
  exact hhead

/-! ## Values -/

/-- What is denoted is a text or a truth value. -/
def Datum.IsPlain : Datum → Prop
  | .string _ | .boolean _ => True
  | _ => False

/-- Something other than a quote follows. -/
def NoQuote (s : Text) : Prop := s.head? ≠ some '"' ∧ s.head? ≠ some '\''

/-- The characters with which strings and truth values begin. -/
def IsValueStart (c : Char) : Prop := c = '"' ∨ c = '\'' ∨ c = 't' ∨ c = 'f'

/-- A string begins with a quote. -/
theorem exists_cons_of_string? {s t rest : Text} (h : string? s = some (t, rest)) :
    ∃ c u, s = c :: u ∧ (c = '"' ∨ c = '\'') := by
  unfold string? at h
  split at h
  · exact ⟨_, _, rfl, Or.inl rfl⟩
  · exact ⟨_, _, rfl, Or.inl rfl⟩
  · exact ⟨_, _, rfl, Or.inr rfl⟩
  · exact ⟨_, _, rfl, Or.inr rfl⟩
  · cases h

/-- A value that begins with a quote is a string. -/
theorem scalar?_of_quote {c : Char} {s : Text} (hc : c = '"' ∨ c = '\'') :
    scalar? (c :: s) = (string? (c :: s)).map fun (t, rest) => (.string t, rest) := by
  rcases hc with rfl | rfl <;> rfl

/-- A string or a truth value is read in the same way whatever follows it, but for a quote. -/
theorem exists_of_scalar? {s rest : Text} {d : Datum} (h : scalar? s = some (d, rest))
    (hd : d.IsPlain) :
    ∃ c u, s = c :: u ++ rest ∧ IsValueStart c ∧
      ∀ rest', NoQuote rest' → scalar? (c :: u ++ rest') = some (d, rest') := by
  cases s with
  | nil => cases h
  | cons c s =>
    by_cases hquote : c = '"' ∨ c = '\''
    · rw [scalar?_of_quote hquote] at h
      obtain ⟨⟨t, r⟩, hstring, he⟩ := Option.map_eq_some_iff.1 h
      cases he
      obtain ⟨u, hu, hread⟩ := exists_of_string? hstring
      -- The string begins with the quote whatever follows it.
      obtain ⟨c', u', hu', -⟩ := exists_cons_of_string? (hread [] nofun nofun)
      rw [List.append_nil] at hu'
      subst hu'
      cases hu
      refine ⟨c, u', rfl, hquote.elim Or.inl fun h => Or.inr (Or.inl h), fun rest' hrest' => ?_⟩
      rw [List.cons_append, scalar?_of_quote hquote, ← List.cons_append,
        hread rest' hrest'.1 hrest'.2]
      rfl
    have hquotes : ¬(decide (c = '"') || decide (c = '\'')) = true := by simpa using hquote
    by_cases htrue : c = 't'
    · subst htrue
      rw [scalar?, if_neg hquotes, if_pos rfl] at h
      obtain ⟨r, hafter, he⟩ := Option.map_eq_some_iff.1 h
      cases he
      refine ⟨'t', "rue".toList, after?_eq_some_iff.1 hafter, Or.inr (Or.inr (Or.inl rfl)),
        fun rest' _ => rfl⟩
    by_cases hfalse : c = 'f'
    · subst hfalse
      rw [scalar?, if_neg hquotes, if_neg htrue, if_pos rfl] at h
      obtain ⟨r, hafter, he⟩ := Option.map_eq_some_iff.1 h
      cases he
      refine ⟨'f', "alse".toList, after?_eq_some_iff.1 hafter, Or.inr (Or.inr (Or.inr rfl)),
        fun rest' _ => rfl⟩
    -- All other values are moments and numbers.
    rw [scalar?, if_neg hquotes, if_neg htrue, if_neg hfalse] at h
    split at h
    · cases h
      exact hd.elim
    · split at h
      · cases h
        exact hd.elim
      · obtain ⟨⟨n, r⟩, -, he⟩ := Option.map_eq_some_iff.1 h
        cases he
        exact hd.elim

/-- A value that begins like a string or a truth value holds no others. -/
theorem reading_of_isValueStart {c : Char} (hc : IsValueStart c) (depth : Nat) (s : Text) :
    reading depth (c :: s) =
      (scalar? (c :: s)).map fun (datum, rest) => (datum, spelling (c :: s) rest, rest) := by
  rcases hc with rfl | rfl | rfl | rfl <;> cases depth <;> rfl

/-- A string or a truth value keeps its spelling, which is read in the same way whatever follows it, but
for a quote. -/
theorem exists_of_reading {depth : Nat} {s spelled rest : Text} {d : Datum}
    (h : reading depth s = some (d, spelled, rest)) (hd : d.IsPlain) :
    ∃ c u, spelled = c :: u ∧ s = spelled ++ rest ∧ IsValueStart c ∧
      ∀ rest', NoQuote rest' → reading depth (spelled ++ rest') = some (d, spelled, rest') := by
  have hscalar : (scalar? s).map (fun (datum, rest) => (datum, spelling s rest, rest)) =
      some (d, spelled, rest) := by
    unfold reading at h
    split at h
    · obtain ⟨p, -, he⟩ := Option.map_eq_some_iff.1 h
      cases he
      exact hd.elim
    · unfold braces? at h
      split at h
      · cases h
        exact hd.elim
      · obtain ⟨p, -, he⟩ := Option.map_eq_some_iff.1 h
        cases he
        exact hd.elim
    · exact h
  obtain ⟨⟨d', r⟩, hread, he⟩ := Option.map_eq_some_iff.1 hscalar
  cases he
  obtain ⟨c, u, rfl, hc, hsame⟩ := exists_of_scalar? hread hd
  rw [spelling_append]
  refine ⟨c, u, rfl, rfl, hc, fun rest' hrest' => ?_⟩
  have hread' := hsame rest' hrest'
  rw [List.cons_append] at hread' ⊢
  rw [reading_of_isValueStart hc, hread', Option.map_some]
  exact congrArg (fun t => some (d, t, rest')) (spelling_append (c :: u) rest')

/-- The value of an entry, read from behind the equals sign up to the end of its line. -/
def lineValue? (s : Text) : Option (Value × Text) := do
  let (before, s) := spaces s
  let (datum, spelled, s) ← reading mostNested s
  let (after, s) ← lineRest false s
  return (⟨datum, spelled, before, after⟩, s)

/-- A value reads back: with what stands around it, it is read off a line as it is. -/
def Value.ReadsBack (v : Value) : Prop :=
  ∀ rest, lineValue? (v.before ++ (v.spelling ++ (v.after ++ '\n' :: rest))) = some (v, rest)

/-- A value reads back if it is spelled as a reader takes it, between spaces in front and the rest of a
line behind. -/
theorem readsBack_of_reading {v : Value} (hbefore : ∀ c ∈ v.before, isSpace c = true)
    (hspelling : ∀ c ∈ v.spelling.head?, isSpace c = false) (hne : v.spelling ≠ [])
    (hread : ∀ rest, NoQuote rest →
      reading mostNested (v.spelling ++ rest) = some (v.datum, v.spelling, rest))
    (hafter : ∀ rest, lineRest false (v.after ++ '\n' :: rest) = some (v.after, rest)) :
    v.ReadsBack := by
  intro rest
  have hspaces : spaces (v.before ++ (v.spelling ++ (v.after ++ '\n' :: rest))) =
      (v.before, v.spelling ++ (v.after ++ '\n' :: rest)) := by
    refine spaces_append hbefore fun c hc => hspelling c ?_
    obtain ⟨d, u, hu⟩ := List.exists_cons_of_ne_nil hne
    rw [hu] at hc ⊢
    exact hc
  have hquote : NoQuote (v.after ++ '\n' :: rest) := by
    cases hv : v.after with
    | nil => exact ⟨by simp, by simp⟩
    | cons c after =>
      have hc : isSpace c = true ∨ c = '#' := by
        have hrest := hafter rest
        rw [hv] at hrest
        exact head?_of_lineRest hrest c rfl
      constructor
      · rintro ⟨⟩
        exact absurd hc (by decide)
      · rintro ⟨⟩
        exact absurd hc (by decide)
  unfold lineValue?
  rw [hspaces]
  simp only [hread _ hquote, hafter rest, Option.bind_eq_bind, Option.bind_some]
  rfl

/-- A string or a truth value that was read off a line reads back. -/
theorem readsBack_of_lineValue? {s rest : Text} {v : Value} (h : lineValue? s = some (v, rest))
    (hd : v.datum.IsPlain) : v.ReadsBack := by
  obtain ⟨blanks, s', -, hblanks, -, hspaces⟩ := spaces_cases s
  unfold lineValue? at h
  rw [hspaces] at h
  simp only [Option.bind_eq_bind] at h
  obtain ⟨⟨datum, spelled, s₁⟩, hreading, h⟩ := Option.bind_eq_some_iff.1 h
  obtain ⟨⟨after, s₂⟩, hline, h⟩ := Option.bind_eq_some_iff.1 h
  cases h
  obtain ⟨c, u, rfl, -, hc, hread⟩ := exists_of_reading hreading hd
  refine readsBack_of_reading hblanks ?_ (List.cons_ne_nil c u) hread (lineRest_append hline)
  rintro _ ⟨⟩
  rcases hc with rfl | rfl | rfl | rfl <;> decide

/-! ## Keys -/

/-- The characters with which the parts of keys begin. -/
def IsNameStart (c : Char) : Prop := Key.isBare c = true ∨ c = '"' ∨ c = '\''

theorem isSolid_of_isNameStart {c : Char} (hc : IsNameStart c) (s : Text) : IsSolid (c :: s) := by
  rintro _ ⟨⟩
  rcases hc with hc | rfl | rfl
  · refine ⟨?_, ?_, ?_, ?_⟩
    · rw [Bool.eq_false_iff]
      intro hspace
      rcases isSpace_iff.1 hspace with rfl | rfl <;> exact absurd hc (by decide)
    all_goals
      rintro rfl
      exact absurd hc (by decide)
  · decide
  · decide

/-- A bare word ends at the first character that cannot stand in it. -/
theorem name?_of_isBare {c : Char} {u rest : Text} (hbare : ∀ d ∈ c :: u, Key.isBare d = true)
    (hrest : ∀ d ∈ rest.head?, Key.isBare d = false) :
    Key.name? (c :: u ++ rest) = some (c :: u, rest) := by
  obtain ⟨htake, hdrop⟩ := takeWhile_dropWhile_append hbare hrest
  have hc := hbare c List.mem_cons_self
  unfold Key.name?
  split
  · next heq =>
    cases heq
    exact absurd hc (by decide)
  · next heq =>
    cases heq
    exact absurd hc (by decide)
  · rw [htake, hdrop]

/-- A part of a key is read in the same way whatever follows it, but for a character that continues a
bare word. -/
theorem exists_of_name? {s name rest : Text} (h : Key.name? s = some (name, rest)) :
    ∃ c u, s = c :: u ++ rest ∧ IsNameStart c ∧ ∀ rest', (∀ d ∈ rest'.head?, Key.isBare d = false) →
      Key.name? (c :: u ++ rest') = some (name, rest') := by
  unfold Key.name? at h
  split at h
  · next t =>
    obtain ⟨u, rfl, hread⟩ := exists_of_basic? h
    exact ⟨'"', u, rfl, Or.inr (Or.inl rfl), fun rest' _ => hread rest'⟩
  · next t =>
    obtain ⟨u, rfl, hread⟩ := exists_of_literal? h
    exact ⟨'\'', u, rfl, Or.inr (Or.inr rfl), fun rest' _ => hread rest'⟩
  · split at h
    · cases h
    · next hword =>
      cases h
      have hsplit := List.takeWhile_append_dropWhile (p := Key.isBare) (l := s)
      have hbare : ∀ c ∈ s.takeWhile Key.isBare, Key.isBare c = true :=
        List.all_eq_true.1 List.all_takeWhile
      obtain ⟨c, u, hname⟩ := List.exists_cons_of_ne_nil hword
      rw [hname] at hsplit hbare ⊢
      exact ⟨c, u, hsplit.symm, Or.inl (hbare c List.mem_cons_self),
        fun rest' => name?_of_isBare hbare⟩

/-- A key of one part reads back: in front of an equals sign, with what stands around it, it is read as
a key with the same name. -/
def Key.ReadsBack (k : Key) : Prop :=
  ∀ rest, ∃ before c s k', trivia false (Key.text ([], [' ']) [k] ++ '=' :: rest) =
      some (before, c :: s) ∧ c ≠ '[' ∧
    DottedKey.read? before (c :: s) = some (⟨[], k'⟩, '=' :: rest) ∧ k'.name = k.name

/-- A key reads back if its name is spelled as a reader takes it, between what may stand in front of a
clause and spaces behind. -/
theorem readsBack_of_name? {k : Key} {before after u : Text} {c : Char}
    (htext : Key.text ([], [' ']) [k] = before ++ (c :: u) ++ after)
    (hbefore : ∀ s, trivia false (before ++ (c :: s)) = some (before, c :: s))
    (hafter : ∀ d ∈ after, isSpace d = true) (hc : IsNameStart c)
    (hname : ∀ rest, (∀ d ∈ rest.head?, Key.isBare d = false) →
      Key.name? (c :: u ++ rest) = some (k.name, rest)) : k.ReadsBack := by
  intro rest
  have hspaces : spaces (after ++ '=' :: rest) = (after, '=' :: rest) :=
    spaces_append hafter (by rintro _ ⟨⟩; decide)
  have hread : Key.name? (c :: (u ++ (after ++ '=' :: rest))) =
      some (k.name, after ++ '=' :: rest) := by
    refine hname _ fun d hd => ?_
    cases hafter' : after with
    | nil =>
      rw [hafter'] at hd
      cases hd
      decide
    | cons e after =>
      have he : isSpace e = true := hafter e (by rw [hafter']; exact List.mem_cons_self)
      rw [hafter'] at hd
      cases hd
      rcases isSpace_iff.1 he with rfl | rfl <;> decide
  have hblank : spaces (c :: (u ++ (after ++ '=' :: rest))) =
      ([], c :: (u ++ (after ++ '=' :: rest))) :=
    spaces_append (List.forall_mem_nil _) fun d hd => (isSolid_of_isNameStart hc _ d hd).1
  refine ⟨before, c, u ++ (after ++ '=' :: rest),
    { name := k.name, spelling := spelling (c :: (u ++ (after ++ '=' :: rest))) (after ++ '=' :: rest)
      around := some (before, after) }, ?_, ?_, ?_, rfl⟩
  · rw [htext, ← hbefore]
    simp
  · rintro rfl
    rcases hc with hc | hc | hc <;> exact absurd hc (by decide)
  · unfold DottedKey.read? Key.mostParts Key.parts?
    rw [hblank]
    simp only [hread, hspaces]
    simp [DottedKey.ofParts?]

/-- A key has a part. -/
theorem ne_nil_of_parts? {most : Nat} {s rest : Text} {ks : List Key}
    (h : Key.parts? most s = some (ks, rest)) : ks ≠ [] := by
  cases most with
  | zero => cases h
  | succ most =>
    unfold Key.parts? at h
    simp only at h
    split at h
    · cases h
    · split at h
      · obtain ⟨⟨keys, u⟩, -, he⟩ := Option.map_eq_some_iff.1 h
        cases he
        exact List.cons_ne_nil _ _
      · cases h
        exact List.cons_ne_nil _ _

/-- A key of one part stands before the first character that is neither in its part nor a space. -/
theorem exists_of_read? {lead s rest : Text} {k : DottedKey}
    (h : DottedKey.read? lead s = some (k, rest)) (hleading : k.leading = [])
    (hs : ∀ c ∈ s.head?, isSpace c = false) :
    ∃ name after, Key.name? s = some (name, after ++ rest) ∧ (∀ c ∈ after, isSpace c = true) ∧
      k.last = { name := name, spelling := spelling s (after ++ rest), around := some (lead, after) } := by
  have hblank : spaces s = ([], s) := spaces_append (List.forall_mem_nil _) hs
  unfold DottedKey.read? at h
  cases hparts : Key.parts? Key.mostParts s with
  | none =>
    rw [hparts] at h
    cases h
  | some p =>
  obtain ⟨ks, r⟩ := p
  rw [hparts] at h
  obtain ⟨k', hk', he⟩ := Option.map_eq_some_iff.1 h
  cases he
  unfold Key.mostParts Key.parts? at hparts
  rw [hblank] at hparts
  simp only at hparts
  cases hname : Key.name? s with
  | none =>
    rw [hname] at hparts
    cases hparts
  | some p =>
  obtain ⟨name, r⟩ := p
  rw [hname] at hparts
  obtain ⟨after, r', rfl, hafter, -, hspaces⟩ := spaces_cases r
  simp only [hspaces] at hparts
  split at hparts
  · -- A dot makes for a part in front of the last.
    obtain ⟨⟨keys, u⟩, hkeys, he⟩ := Option.map_eq_some_iff.1 hparts
    cases he
    obtain ⟨l, keys, rfl⟩ := List.exists_cons_of_ne_nil (ne_nil_of_parts? hkeys)
    simp only [DottedKey.ofParts?] at hk'
    obtain ⟨last, -, rfl⟩ := Option.map_eq_some_iff.1 hk'
    cases hleading
  · cases hparts
    cases hk'
    exact ⟨name, after, rfl, hafter, by rw [List.append_nil]⟩

/-- A key of one part that was read in front of an entry reads back. -/
theorem readsBack_of_read? {s₀ lead s rest : Text} {k : DottedKey}
    (htrivia : trivia false s₀ = some (lead, s)) (h : DottedKey.read? lead s = some (k, rest))
    (hleading : k.leading = []) : k.last.ReadsBack := by
  obtain ⟨name, after, hname, hafter, hk⟩ := exists_of_read? h hleading (head?_of_trivia htrivia)
  obtain ⟨c, u, rfl, hc, hread⟩ := exists_of_name? hname
  rw [spelling_append] at hk
  have hbefore : ∀ s', trivia false (lead ++ (c :: s')) = some (lead, c :: s') := by
    intro s'
    exact trivia_append htrivia nofun (isSolid_of_isNameStart hc s')
  rw [hk]
  exact readsBack_of_name? rfl hbefore hafter hc hread

/-- A bare word reads back. -/
theorem readsBack_bare {name : Text} (hne : name ≠ []) (hbare : ∀ c ∈ name, Key.isBare c = true) :
    (Key.bare name).ReadsBack := by
  obtain ⟨c, u, rfl⟩ := List.exists_cons_of_ne_nil hne
  have hc : IsNameStart c := Or.inl (hbare c List.mem_cons_self)
  have hspace : ∀ d ∈ [' '], isSpace d = true := List.forall_mem_singleton.2 rfl
  exact readsBack_of_name? rfl (fun s => trivia_of_isSolid (isSolid_of_isNameStart hc s)) hspace hc
    fun rest => name?_of_isBare hbare

/-! ## Entries -/

/-- An entry is a key, an equals sign and what a line holds behind it. -/
theorem entry?_eq (before s : Text) :
    Outline.entry? before s = (do
      let (key, s) ← DottedKey.read? before s
      let s ← after? ['='] s
      let (v, s) ← lineValue? s
      return (Outline.consEntry ⟨key, v⟩, s)) := by
  simp only [Outline.entry?, lineValue?, bind_assoc, pure_bind]

/-- A value under a key of one part. -/
def Entry.single (e : Key × Value) : Entry := ⟨⟨[], e.1⟩, e.2⟩

/-- The line of an entry. -/
def lineText (e : Key × Value) : Text := Table.entryText ([e.1], e.2) ++ ['\n']

/-- An entry whose key and value read back is read off its line, whatever lines follow. -/
theorem read?_lineText {e : Key × Value} (hk : e.1.ReadsBack) (hv : e.2.ReadsBack) (rest : Text) :
    ∃ k, k.name = e.1.name ∧ Outline.read? (lineText e ++ rest) =
      (Outline.read? rest).map (Outline.consEntry (Entry.single (k, e.2))) := by
  obtain ⟨before, c, s, k, htrivia, hc, hkey, hname⟩ :=
    hk (e.2.before ++ (e.2.spelling ++ (e.2.after ++ '\n' :: rest)))
  have hentry : Outline.entry? before (c :: s) =
      some (Outline.consEntry (Entry.single (k, e.2)), rest) := by
    rw [entry?_eq, hkey]
    change (do
      let (v, s) ← lineValue? (e.2.before ++ (e.2.spelling ++ (e.2.after ++ '\n' :: rest)))
      return (Outline.consEntry ⟨⟨[], k⟩, v⟩, s)) = _
    rw [hv rest]
    rfl
  have hclause : Outline.clause? before (c :: s) =
      some (Outline.consEntry (Entry.single (k, e.2)), rest) := by
    unfold Outline.clause?
    split
    · next heq => exact absurd (List.cons.inj heq).1 hc
    · next heq => exact absurd (List.cons.inj heq).1 hc
    · exact hentry
  have htext : lineText e ++ rest = Key.text ([], [' ']) [e.1] ++
      '=' :: (e.2.before ++ (e.2.spelling ++ (e.2.after ++ '\n' :: rest))) := by
    simp [lineText, Table.entryText]
  have hlength : rest.length < (lineText e ++ rest).length := by
    simp only [lineText, List.length_append, List.length_cons]
    omega
  refine ⟨k, hname, ?_⟩
  rw [← htext] at htrivia
  rw [Outline.read?, htrivia]
  simp only [hclause, dif_pos hlength]

/-- Lines of entries that read back are read one after the other. -/
theorem read?_lines {l : List (Key × Value)}
    (hl : ∀ e ∈ l, e.1.ReadsBack ∧ e.2.ReadsBack) {trailing : Text}
    (ht : trivia false trailing = some (trailing, [])) :
    ∃ l' : List (Key × Value), l'.map (fun e => (e.1.name, e.2)) = l.map (fun e => (e.1.name, e.2)) ∧
      Outline.read? (l.flatMap lineText ++ trailing) = some ⟨l'.map Entry.single, [], trailing⟩ := by
  induction l with
  | nil =>
    refine ⟨[], rfl, ?_⟩
    rw [List.flatMap_nil, List.nil_append, Outline.read?, ht]
    rfl
  | cons e l ih =>
    obtain ⟨l', hl', hread⟩ := ih fun e he => hl e (List.mem_cons_of_mem _ he)
    obtain ⟨hk, hv⟩ := hl e List.mem_cons_self
    obtain ⟨k, hname, hline⟩ := read?_lineText hk hv (l.flatMap lineText ++ trailing)
    refine ⟨(k, e.2) :: l', ?_, ?_⟩
    · rw [List.map_cons, List.map_cons, hl', hname]
    · rw [List.flatMap_cons, List.append_assoc, hline, hread]
      rfl

/-- An entry that was read reads back, if its key has one part and its value is a string or a truth
value. -/
theorem readsBack_of_entry? {s₀ before s rest : Text} {change : Outline → Outline}
    (htrivia : trivia false s₀ = some (before, s))
    (h : Outline.entry? before s = some (change, rest)) :
    ∃ e : Entry, change = Outline.consEntry e ∧
      (e.key.leading = [] → e.value.datum.IsPlain → e.key.last.ReadsBack ∧ e.value.ReadsBack) := by
  rw [entry?_eq] at h
  obtain ⟨⟨key, s₁⟩, hkey, h⟩ := Option.bind_eq_some_iff.1 h
  obtain ⟨s₂, -, h⟩ := Option.bind_eq_some_iff.1 h
  obtain ⟨⟨v, s₃⟩, hvalue, h⟩ := Option.bind_eq_some_iff.1 h
  cases h
  exact ⟨⟨key, v⟩, rfl, fun hleading hd =>
    ⟨readsBack_of_read? htrivia hkey hleading, readsBack_of_lineValue? hvalue hd⟩⟩

/-- A clause is an entry or opens a section. -/
theorem clause?_cases {before s rest : Text} {change : Outline → Outline}
    (h : Outline.clause? before s = some (change, rest)) :
    Outline.entry? before s = some (change, rest) ∨ ∀ o, (change o).sections ≠ [] := by
  have hheader : ∀ {isElement t}, Outline.header? isElement before t = some (change, rest) →
      ∀ o, (change o).sections ≠ [] := by
    intro isElement t h
    unfold Outline.header? at h
    obtain ⟨p, -, h⟩ := Option.bind_eq_some_iff.1 h
    obtain ⟨s₁, -, h⟩ := Option.bind_eq_some_iff.1 h
    obtain ⟨q, -, h⟩ := Option.bind_eq_some_iff.1 h
    cases h
    exact fun o => List.cons_ne_nil _ _
  unfold Outline.clause? at h
  split at h
  · exact Or.inr (hheader h)
  · exact Or.inr (hheader h)
  · exact Or.inl h

/-- In a text without headers, what stands behind the entries reads back, and so does every entry whose
key has one part and whose value is a string or a truth value. -/
theorem readsBack_of_mem_entries {s : Text} {o : Outline} (h : Outline.read? s = some o)
    (ho : o.sections = []) :
    trivia false o.trailing = some (o.trailing, []) ∧ ∀ e ∈ o.entries,
      e.key.leading = [] → e.value.datum.IsPlain → e.key.last.ReadsBack ∧ e.value.ReadsBack := by
  fun_induction Outline.read? s generalizing o with
  | case1 => cases h
  | case2 s trailing htrivia =>
    cases h
    have hempty := trivia_append htrivia (fun _ => rfl) (by rintro _ ⟨⟩)
    rw [List.append_nil] at hempty
    exact ⟨hempty, List.forall_mem_nil _⟩
  | case3 => cases h
  | case4 s before t _ htrivia change rest hclause hlength ih =>
    obtain ⟨o', ho', rfl⟩ := Option.map_eq_some_iff.1 h
    rcases clause?_cases hclause with hentry | hsections
    · obtain ⟨e, rfl, hback⟩ := readsBack_of_entry? htrivia hentry
      obtain ⟨htrailing, hentries⟩ := ih ho' ho
      refine ⟨htrailing, fun e' he' => ?_⟩
      rcases List.mem_cons.1 he' with rfl | he'
      · exact hback
      · exact hentries e' he'
    · exact absurd ho (hsections o')
  | case5 => cases h

end BuildTargets.Toml

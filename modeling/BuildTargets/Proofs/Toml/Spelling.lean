import BuildTargets.Toml.RoundTrip

/-!
# Strings on their own

A reader of strings decides by what it reads and not by what follows: the characters that it has taken
are read in the same way with anything behind them.  Only the forms with triple quotes look further,
for up to two quotes that belong to the string, so there a quote must not follow.  The statement for all
four forms is `exists_of_string?`; it is what allows a string to be moved to another place unchanged.
-/

namespace BuildTargets.Toml

/-! ## Beginnings of texts -/

/-- Whether a text begins with two given characters is settled by its first two. -/
theorem append_ne_of_two_le {u r : Text} (hu : 2 ≤ u.length) {a b : Char}
    (h : ∀ w, u ++ r ≠ a :: b :: w) (r' w : Text) : u ++ r' ≠ a :: b :: w := by
  match u, hu with
  | c :: d :: u, _ =>
    intro heq
    simp only [List.cons_append, List.cons.injEq] at heq
    refine h (u ++ r) ?_
    rw [heq.1, heq.2.1]
    rfl

/-- A pair of quotes at the beginning of a text does not come about by what is put behind it, unless
that is a quote. -/
theorem append_ne_of_head?_ne {u r r' : Text} {q : Char} (h : ∀ w, u ++ r ≠ q :: q :: w)
    (hr' : r'.head? ≠ some q) (w : Text) : u ++ r' ≠ q :: q :: w := by
  match u with
  | [] =>
    rintro rfl
    exact hr' rfl
  | [a] =>
    intro heq
    have htail : r' = q :: w := (List.cons.inj heq).2
    rw [htail] at hr'
    exact hr' rfl
  | a :: b :: u => exact append_ne_of_two_le (by simp) h r' w

/-- The characters that separate the parts of a line. -/
theorem isSpace_iff {c : Char} : isSpace c = true ↔ c = ' ' ∨ c = '\t' := by
  simp [isSpace]

/-- A line end is a line feed, or a carriage return and a line feed. -/
theorem afterLineEnd?_eq_some_iff {s t : Text} :
    afterLineEnd? s = some t ↔ s = '\n' :: t ∨ s = '\r' :: '\n' :: t := by
  constructor
  · intro h
    unfold afterLineEnd? at h
    split at h
    · next s =>
      rw [Option.some.inj h]
      exact Or.inl rfl
    · next s =>
      rw [Option.some.inj h]
      exact Or.inr rfl
    · cases h
  · rintro (rfl | rfl) <;> rfl

/-- A line end at the beginning of a text is found within its first two characters. -/
theorem withoutLineEnd_append {u : Text} (hu : 2 ≤ u.length) (r : Text) :
    withoutLineEnd (u ++ r) = withoutLineEnd u ++ r := by
  match u, hu with
  | c :: d :: u, _ =>
    by_cases hn : c = '\n'
    · subst hn
      rfl
    by_cases hr : c = '\r'
    · subst hr
      by_cases hd : d = '\n'
      · subst hd
        rfl
      · simp [withoutLineEnd, afterLineEnd?, hd]
    · simp only [withoutLineEnd, List.cons_append, afterLineEnd?_cons_eq_none hn hr,
        Option.getD_none]

/-! ## Escapes -/

/-- An escape is read in the same way whatever follows it. -/
theorem exists_of_escape? {s rest : Text} {c : Char} (h : escape? s = some (c, rest)) :
    ∃ u, s = u ++ rest ∧ ∀ rest', escape? (u ++ rest') = some (c, rest') := by
  unfold escape? at h
  split at h
  case h_8 a b d e s =>
    obtain ⟨x, hx, he⟩ := Option.map_eq_some_iff.1 h
    cases he
    refine ⟨['u', a, b, d, e], rfl, fun rest' => ?_⟩
    simp only [List.cons_append, List.nil_append, escape?, hx, Option.map_some]
  case h_9 a b d e f g i j s =>
    obtain ⟨x, hx, he⟩ := Option.map_eq_some_iff.1 h
    cases he
    refine ⟨['U', a, b, d, e, f, g, i, j], rfl, fun rest' => ?_⟩
    simp only [List.cons_append, List.nil_append, escape?, hx, Option.map_some]
  case h_10 => cases h
  all_goals
    cases h
    exact ⟨[_], rfl, fun _ => rfl⟩

/-- Blanks and line ends are passed over in front of the same two characters. -/
theorem exists_of_afterBlankLines {s u rest : Text} (hu : 2 ≤ u.length)
    (h : afterBlankLines s = u ++ rest) :
    ∃ w, s = w ++ (u ++ rest) ∧ ∀ rest', afterBlankLines (w ++ (u ++ rest')) = u ++ rest' := by
  fun_induction afterBlankLines s with
  | case1 =>
    rw [List.nil_eq, List.append_eq_nil_iff] at h
    rw [h.1] at hu
    cases hu
  | case2 s ih =>
    obtain ⟨w, rfl, hw⟩ := ih h
    exact ⟨'\r' :: '\n' :: w, rfl, hw⟩
  | case3 c s hreturn hc ih =>
    obtain ⟨w, rfl, hw⟩ := ih h
    refine ⟨c :: w, rfl, fun rest' => ?_⟩
    rw [List.cons_append, afterBlankLines, if_pos hc, hw]
    rintro t rfl -
    exact absurd hc (by decide)
  | case4 c s hreturn hc =>
    refine ⟨[], h, fun rest' => ?_⟩
    match u, hu with
    | d :: e :: u, _ =>
      cases h
      rw [List.nil_append, List.cons_append, List.cons_append, afterBlankLines, if_neg hc]
      intro t hd he
      exact hreturn (u ++ rest) hd (congrArg (· :: (u ++ rest)) (List.cons.inj he).1)

/-- A backslash that ends a line is read in the same way in front of the same two characters, and is no
other escape. -/
theorem exists_of_afterLineEscape? {s u rest : Text} (hu : 2 ≤ u.length)
    (h : afterLineEscape? s = some (u ++ rest)) :
    ∃ w, s = w ++ (u ++ rest) ∧ ∀ rest', escape? (w ++ (u ++ rest')) = none ∧
      afterLineEscape? (w ++ (u ++ rest')) = some (u ++ rest') := by
  obtain ⟨t, ht, hblank⟩ := Option.map_eq_some_iff.1 h
  obtain ⟨w, rfl, hw⟩ := exists_of_afterBlankLines hu hblank
  have hsplit := (List.takeWhile_append_dropWhile (p := isSpace) (l := s)).symm
  have hspaces : ∀ c ∈ s.takeWhile isSpace, isSpace c = true :=
    List.all_eq_true.1 List.all_takeWhile
  -- The line end stands behind the spaces, and no escape begins with either.
  obtain ⟨lineEnd, hlineEnd, hdrop⟩ : ∃ e, (e = ['\n'] ∨ e = ['\r', '\n']) ∧
      s.dropWhile isSpace = e ++ (w ++ (u ++ rest)) := by
    rcases afterLineEnd?_eq_some_iff.1 ht with h | h
    · exact ⟨['\n'], Or.inl rfl, h⟩
    · exact ⟨['\r', '\n'], Or.inr rfl, h⟩
  rw [hdrop] at hsplit
  refine ⟨s.takeWhile isSpace ++ lineEnd ++ w, by simpa using hsplit, fun rest' => ⟨?_, ?_⟩⟩
  · rw [List.append_assoc, List.append_assoc]
    cases hblanks : s.takeWhile isSpace with
    | nil => rcases hlineEnd with rfl | rfl <;> rfl
    | cons c blanks =>
      have hc : isSpace c = true := hspaces c (by rw [hblanks]; exact List.mem_cons_self)
      rcases isSpace_iff.1 hc with rfl | rfl <;> rfl
  · rw [afterLineEscape?, List.append_assoc, List.append_assoc,
      List.dropWhile_append_of_pos hspaces]
    rcases hlineEnd with rfl | rfl
    · exact congrArg some (hw rest')
    · exact congrArg some (hw rest')

/-! ## Strings on one line -/

/-- A string between double quotes is read in the same way whatever follows it. -/
theorem exists_of_basic? {s t rest : Text} (h : basic? s = some (t, rest)) :
    ∃ u, s = u ++ rest ∧ ∀ rest', basic? (u ++ rest') = some (t, rest') := by
  fun_induction basic? s generalizing t with
  | case1 => cases h
  | case2 s =>
    cases h
    exact ⟨['"'], rfl, fun rest' => by rw [List.cons_append, basic?, if_pos rfl]; rfl⟩
  | case3 => cases h
  | case4 s x tail hescape hquote ih =>
    obtain ⟨t, ht, rfl⟩ := consTaken_eq_some_iff.1 h
    obtain ⟨u, rfl, hu⟩ := ih ht
    obtain ⟨e, rfl, he⟩ := exists_of_escape? hescape
    refine ⟨'\\' :: (e ++ u), by simp, fun rest' => ?_⟩
    rw [List.cons_append, List.append_assoc, basic?_escape (he _), hu]
    rfl
  | case5 => cases h
  | case6 c s hquote hbackslash hcontrol ih =>
    obtain ⟨t, ht, rfl⟩ := consTaken_eq_some_iff.1 h
    obtain ⟨u, rfl, hu⟩ := ih ht
    refine ⟨c :: u, rfl, fun rest' => ?_⟩
    rw [List.cons_append, basic?, if_neg hquote, if_neg hbackslash, if_neg hcontrol, hu]
    rfl

/-- A string between single quotes is read in the same way whatever follows it. -/
theorem exists_of_literal? {s t rest : Text} (h : literal? s = some (t, rest)) :
    ∃ u, s = u ++ rest ∧ ∀ rest', literal? (u ++ rest') = some (t, rest') := by
  fun_induction literal? s generalizing t with
  | case1 => cases h
  | case2 s =>
    cases h
    exact ⟨['\''], rfl, fun rest' => by rw [List.cons_append, literal?, if_pos rfl]; rfl⟩
  | case3 => cases h
  | case4 c s hquote hcontrol ih =>
    obtain ⟨t, ht, rfl⟩ := consTaken_eq_some_iff.1 h
    obtain ⟨u, rfl, hu⟩ := ih ht
    refine ⟨c :: u, rfl, fun rest' => ?_⟩
    rw [List.cons_append, literal?, if_neg hquote, if_neg hcontrol, hu]
    rfl

/-! ## Strings over several lines -/

/-- A backslash that ends a line is passed over with the blanks behind it. -/
theorem basicLines?_lineEscape {s rest : Text} (hescape : escape? s = none)
    (hline : afterLineEscape? s = some rest) : basicLines? ('\\' :: s) = basicLines? rest := by
  rw [basicLines?, if_pos rfl]
  · split
    · next h => simp [hescape] at h
    · split
      · next h => simp [hline] at h
      · next h =>
        rw [hline] at h
        cases h
        rfl
  · exact fun _ h _ => absurd h (by decide)
  · exact fun _ h _ => absurd h (by decide)

/-- At most two quotes are taken as part of a string. -/
theorem closingQuotes_cases (q : Char) (s : Text) :
    ∃ n ≤ 2, ∃ rest, s = List.replicate n q ++ rest ∧
      closingQuotes q s = (List.replicate n q, rest) := by
  unfold closingQuotes
  split
  · next a b s =>
    split
    · next ha =>
      subst ha
      split
      · next hb =>
        subst hb
        exact ⟨2, by decide, s, rfl, rfl⟩
      · exact ⟨1, by decide, b :: s, rfl, rfl⟩
    · exact ⟨0, by decide, a :: b :: s, rfl, rfl⟩
  · next a =>
    split
    · next ha =>
      subst ha
      exact ⟨1, by decide, [], rfl, rfl⟩
    · exact ⟨0, by decide, [a], rfl, rfl⟩
  · exact ⟨0, by decide, [], rfl, rfl⟩

/-- A string between triple double quotes is read in the same way whatever follows it, but for a
double quote. -/
theorem exists_of_basicLines? {s t rest : Text} (h : basicLines? s = some (t, rest)) :
    ∃ u, 3 ≤ u.length ∧ s = u ++ rest ∧ ∀ rest', rest'.head? ≠ some '"' →
      basicLines? (u ++ rest') = some (t, rest') := by
  fun_induction basicLines? s generalizing t with
  | case1 => cases h
  | case2 s =>
    obtain ⟨n, hn, r, rfl, hclosing⟩ := closingQuotes_cases '"' s
    rw [hclosing] at h
    cases h
    refine ⟨'"' :: '"' :: '"' :: List.replicate n '"', by simp, rfl, fun rest' hrest' => ?_⟩
    simp only [List.cons_append, basicLines?]
    rw [closingQuotes_replicate hn hrest']
  | case3 s ih =>
    obtain ⟨t, ht, rfl⟩ := consTaken_eq_some_iff.1 h
    obtain ⟨u, hu, rfl, hread⟩ := ih ht
    refine ⟨'\r' :: '\n' :: u, by simp only [List.length_cons]; omega, rfl, fun rest' hrest' => ?_⟩
    simp only [List.cons_append, basicLines?]
    rw [hread rest' hrest']
    rfl
  | case4 s x tail hescape hquotes hreturn ih =>
    obtain ⟨t, ht, rfl⟩ := consTaken_eq_some_iff.1 h
    obtain ⟨u, hu, rfl, hread⟩ := ih ht
    obtain ⟨e, rfl, he⟩ := exists_of_escape? hescape
    refine ⟨'\\' :: (e ++ u), by simp only [List.length_cons, List.length_append]; omega, by simp,
      fun rest' hrest' => ?_⟩
    rw [List.cons_append, List.append_assoc, basicLines?_escape (he _), hread rest' hrest']
    rfl
  | case5 => cases h
  | case6 s hescape tail hline hquotes hreturn ih =>
    obtain ⟨u, hu, rfl, hread⟩ := ih h
    obtain ⟨w, rfl, hw⟩ := exists_of_afterLineEscape? (Nat.le_of_succ_le hu) hline
    refine ⟨'\\' :: (w ++ u), by simp only [List.length_cons, List.length_append]; omega, by simp,
      fun rest' hrest' => ?_⟩
    rw [List.cons_append, List.append_assoc,
      basicLines?_lineEscape (hw rest').1 (hw rest').2, hread rest' hrest']
  | case7 => cases h
  | case8 c s hquotes hreturn hbackslash hcontrol ih =>
    obtain ⟨t, ht, rfl⟩ := consTaken_eq_some_iff.1 h
    obtain ⟨u, hu, rfl, hread⟩ := ih ht
    refine ⟨c :: u, by simp only [List.length_cons]; omega, rfl, fun rest' hrest' => ?_⟩
    have hc : isControl c = false ∨ c = '\n' := by
      cases hctl : isControl c with
      | false => exact Or.inl rfl
      | true => exact Or.inr (by simpa [hctl] using hcontrol)
    rw [List.cons_append, basicLines?_cons hbackslash hc fun w hq =>
      append_ne_of_two_le (Nat.le_of_succ_le hu) (fun w' => hquotes w' hq) rest' w,
      hread rest' hrest']
    rfl

/-- A string between triple single quotes is read in the same way whatever follows it, but for a
single quote. -/
theorem exists_of_literalLines? {s t rest : Text} (h : literalLines? s = some (t, rest)) :
    ∃ u, 3 ≤ u.length ∧ s = u ++ rest ∧ ∀ rest', rest'.head? ≠ some '\'' →
      literalLines? (u ++ rest') = some (t, rest') := by
  fun_induction literalLines? s generalizing t with
  | case1 => cases h
  | case2 s =>
    obtain ⟨n, hn, r, rfl, hclosing⟩ := closingQuotes_cases '\'' s
    rw [hclosing] at h
    cases h
    refine ⟨'\'' :: '\'' :: '\'' :: List.replicate n '\'', by simp, rfl, fun rest' hrest' => ?_⟩
    simp only [List.cons_append, literalLines?]
    rw [closingQuotes_replicate hn hrest']
  | case3 s ih =>
    obtain ⟨t, ht, rfl⟩ := consTaken_eq_some_iff.1 h
    obtain ⟨u, hu, rfl, hread⟩ := ih ht
    refine ⟨'\r' :: '\n' :: u, by simp only [List.length_cons]; omega, rfl, fun rest' hrest' => ?_⟩
    simp only [List.cons_append, literalLines?]
    rw [hread rest' hrest']
    rfl
  | case4 => cases h
  | case5 c s hquotes hreturn hcontrol ih =>
    obtain ⟨t, ht, rfl⟩ := consTaken_eq_some_iff.1 h
    obtain ⟨u, hu, rfl, hread⟩ := ih ht
    refine ⟨c :: u, by simp only [List.length_cons]; omega, rfl, fun rest' hrest' => ?_⟩
    have hc : needsEscape c = false := by simpa [needsEscape] using hcontrol
    rw [List.cons_append, literalLines?_cons hc fun w hq =>
      append_ne_of_two_le (Nat.le_of_succ_le hu) (fun w' => hquotes w' hq) rest' w,
      hread rest' hrest']
    rfl

/-! ## All forms -/

/-- A string between triple quotes is read in the same way without the line end at its beginning. -/
theorem exists_of_withoutLineEnd {s u rest : Text} (hu : 3 ≤ u.length)
    (h : withoutLineEnd s = u ++ rest) :
    ∃ w, 3 ≤ w.length ∧ s = w ++ rest ∧ ∀ rest', withoutLineEnd (w ++ rest') = u ++ rest' := by
  cases hend : afterLineEnd? s with
  | none =>
    rw [withoutLineEnd, hend, Option.getD_none] at h
    subst h
    refine ⟨u, hu, rfl, fun rest' => ?_⟩
    have hsame := withoutLineEnd_append (Nat.le_of_succ_le hu) rest
    rw [withoutLineEnd, hend, Option.getD_none] at hsame
    rw [withoutLineEnd_append (Nat.le_of_succ_le hu), ← List.append_cancel_right hsame]
  | some t =>
    rw [withoutLineEnd, hend, Option.getD_some] at h
    subst h
    rcases afterLineEnd?_eq_some_iff.1 hend with rfl | rfl
    · exact ⟨'\n' :: u, by simp only [List.length_cons]; omega, rfl, fun _ => rfl⟩
    · exact ⟨'\r' :: '\n' :: u, by simp only [List.length_cons]; omega, rfl, fun _ => rfl⟩

/-- A string in any of its forms is read in the same way whatever follows it, but for a quote. -/
theorem exists_of_string? {s t rest : Text} (h : string? s = some (t, rest)) :
    ∃ u, s = u ++ rest ∧ ∀ rest', rest'.head? ≠ some '"' → rest'.head? ≠ some '\'' →
      string? (u ++ rest') = some (t, rest') := by
  unfold string? at h
  split at h
  · next s =>
    obtain ⟨v, hv, hs, hread⟩ := exists_of_basicLines? h
    obtain ⟨u, hu, rfl, hopen⟩ := exists_of_withoutLineEnd hv hs
    refine ⟨'"' :: '"' :: '"' :: u, rfl, fun rest' hd _ => ?_⟩
    simp only [List.cons_append, string?]
    rw [hopen rest', hread rest' hd]
  · next s hquotes =>
    obtain ⟨u, rfl, hread⟩ := exists_of_basic? h
    refine ⟨'"' :: u, rfl, fun rest' hd _ => ?_⟩
    rw [List.cons_append, string?, hread rest']
    exact append_ne_of_head?_ne hquotes hd
  · next s =>
    obtain ⟨v, hv, hs, hread⟩ := exists_of_literalLines? h
    obtain ⟨u, hu, rfl, hopen⟩ := exists_of_withoutLineEnd hv hs
    refine ⟨'\'' :: '\'' :: '\'' :: u, rfl, fun rest' _ hs => ?_⟩
    simp only [List.cons_append, string?]
    rw [hopen rest', hread rest' hs]
  · next s hquotes =>
    obtain ⟨u, rfl, hread⟩ := exists_of_literal? h
    refine ⟨'\'' :: u, rfl, fun rest' _ hs => ?_⟩
    rw [List.cons_append, string?, hread rest']
    exact append_ne_of_head?_ne hquotes hs
  · cases h

end BuildTargets.Toml

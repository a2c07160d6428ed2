import BuildTargets.Toml.Quoted
import BuildTargets.Toml.Written

/-!
# Written strings read back

Whatever a text holds, the string that it is written as denotes that text again. Each of the four forms
is settled on its own, in front of anything that cannot continue the string; the choice among them only
has to keep out of a form what that form cannot hold. The main statement is `string?_writtenString`.
-/

namespace BuildTargets.Toml

/-! ## Escapes -/

theorem hexNumber?_hexDigits (n : Fin 128) :
    hexNumber? ['0', '0', hexDigit (n / 16), hexDigit (n % 16)] = some n.val := by
  revert n
  decide

theorem charOfCode?_toNat (c : Char) : charOfCode? c.toNat = some c := by
  have hv : c.toNat.isValidChar := c.valid
  rw [charOfCode?, if_pos hv, Char.ofNat_toNat]

theorem toNat_lt_of_isControl {c : Char} (h : isControl c = true) : c.toNat < 128 := by
  simp only [isControl, Bool.or_eq_true, Bool.and_eq_true, decide_eq_true_eq] at h
  omega

/-- A character is written as an escape for itself, or as itself if it may stand between double
quotes. -/
theorem escaped_cases (several : Bool) (c : Char) :
    (∃ e, escaped several c = '\\' :: e ∧ ∀ s, escape? (e ++ s) = some (c, s)) ∨
      escaped several c = [c] ∧ c ≠ '\\' ∧ (isControl c = false ∨ several = true ∧ c = '\n') := by
  rw [escaped]
  split
  · next h => exact Or.inl ⟨['b'], rfl, fun s => by rw [h]; rfl⟩
  split
  · next h => exact Or.inl ⟨['t'], rfl, fun s => by rw [h]; rfl⟩
  split
  · next h =>
    split
    · next hs => exact Or.inr ⟨by rw [h], by rw [h]; decide, Or.inr ⟨hs, h⟩⟩
    · exact Or.inl ⟨['n'], rfl, fun s => by rw [h]; rfl⟩
  split
  · next h => exact Or.inl ⟨['f'], rfl, fun s => by rw [h]; rfl⟩
  split
  · next h => exact Or.inl ⟨['r'], rfl, fun s => by rw [h]; rfl⟩
  split
  · next h => exact Or.inl ⟨['\\'], rfl, fun s => by rw [h]; rfl⟩
  split
  · next h =>
    refine Or.inl ⟨_, rfl, fun s => ?_⟩
    have hn := hexNumber?_hexDigits ⟨c.toNat, toNat_lt_of_isControl h⟩
    simp only [List.cons_append, List.nil_append, escape?]
    rw [hn, Option.bind_some, charOfCode?_toNat, Option.map_some]
  · next hb h => exact Or.inr ⟨rfl, hb, Or.inl (by simpa using h)⟩

/-! ## Between double quotes -/

theorem basic?_escape {e s rest : Text} {c : Char} (h : escape? (e ++ s) = some (c, rest)) :
    basic? ('\\' :: (e ++ s)) = consTaken c (basic? rest) := by
  rw [basic?, if_neg (by decide), if_pos rfl]
  split
  · next h' => simp [h] at h'
  · next h' =>
    rw [h] at h'
    cases h'
    rfl

theorem basic?_escapedText (t rest : Text) :
    basic? (escapedText false 0 0 t ++ '"' :: rest) = some (t, rest) := by
  induction t with
  | nil => rw [escapedText, List.nil_append, basic?, if_pos rfl]
  | cons c t ih =>
    rw [escapedText]
    split
    · next h =>
      rw [if_neg (Nat.lt_irrefl 0), h]
      have he : escape? (['"'] ++ (escapedText false 0 0 t ++ '"' :: rest)) =
        some ('"', escapedText false 0 0 t ++ '"' :: rest) := rfl
      exact (basic?_escape he).trans (by rw [ih]; rfl)
    · next h =>
      rw [List.append_assoc]
      rcases escaped_cases false c with ⟨e, he, hr⟩ | ⟨he, hb, hc | ⟨hf, -⟩⟩
      · rw [he, List.cons_append, basic?_escape (hr _), ih]
        rfl
      · rw [he, List.cons_append, List.nil_append, basic?, if_neg h, if_neg hb, hc,
          if_neg Bool.false_ne_true, ih]
        rfl
      · cases hf

/-! ## Between single quotes -/

theorem literal?_append {t : Text} (hc : t.any isControl = false) (hq : '\'' ∉ t) (rest : Text) :
    literal? (t ++ '\'' :: rest) = some (t, rest) := by
  induction t with
  | nil => rw [List.nil_append, literal?, if_pos rfl]
  | cons c t ih =>
    rw [List.any_cons, Bool.or_eq_false_iff] at hc
    rw [List.mem_cons, not_or] at hq
    rw [List.cons_append, literal?, if_neg (Ne.symm hq.1), hc.1, if_neg Bool.false_ne_true,
      ih hc.2 hq.2]
    rfl

/-! ## Between tripled quotes -/

/-- Up to two quotes in front of the closing ones belong to the string. -/
theorem closingQuotes_replicate {q : Char} {n : Nat} (hn : n ≤ 2) {rest : Text}
    (hr : rest.head? ≠ some q) :
    closingQuotes q (List.replicate n q ++ rest) = (List.replicate n q, rest) := by
  match n, hn, rest with
  | 0, _, [] => rfl
  | 0, _, [c] => simp_all [closingQuotes]
  | 0, _, c :: d :: s => simp_all [closingQuotes]
  | 1, _, [] => simp [closingQuotes]
  | 1, _, c :: s => simp_all [closingQuotes, List.replicate]
  | 2, _, s => simp [closingQuotes, List.replicate]

theorem basicLines?_cons {c : Char} {s : Text} (hb : c ≠ '\\')
    (hc : isControl c = false ∨ c = '\n') (hq : ∀ u, c = '"' → s ≠ '"' :: '"' :: u) :
    basicLines? (c :: s) = consTaken c (basicLines? s) := by
  rw [basicLines?, if_neg hb, if_neg]
  · rcases hc with hc | rfl <;> simp_all
  · exact fun u h₁ h₂ => hq u h₁ h₂
  · rintro _ rfl
    rcases hc with hc | hc <;> exact absurd hc (by decide)

theorem replicate_append_ne {q : Char} {n : Nat} (hn : n < 2) {u : Text} (hu : u.head? ≠ some q)
    (w : Text) : List.replicate n q ++ u ≠ q :: q :: w := by
  match n, hn with
  | 0, _ =>
    intro h
    exact hu (by rw [show u = _ from h]; rfl)
  | 1, _ =>
    intro h
    exact hu (by rw [show u = _ from (List.cons.inj h).2]; rfl)

theorem basicLines?_replicate {n : Nat} (hn : n ≤ 2) {u v rest : Text} (hu : u.head? ≠ some '"')
    (h : basicLines? u = some (v, rest)) :
    basicLines? (List.replicate n '"' ++ u) = some (List.replicate n '"' ++ v, rest) := by
  induction n with
  | zero => exact h
  | succ n ih =>
    rw [List.replicate_succ, List.cons_append, basicLines?_cons (by decide) (Or.inl (by decide))
      fun w _ => replicate_append_ne hn hu w, ih (Nat.le_of_lt hn)]
    rfl

theorem basicLines?_escape {e s rest : Text} {c : Char} (h : escape? (e ++ s) = some (c, rest)) :
    basicLines? ('\\' :: (e ++ s)) = consTaken c (basicLines? rest) := by
  rw [basicLines?, if_pos rfl]
  · split
    · next h' =>
      rw [h] at h'
      cases h'
      rfl
    · next h' => simp [h] at h'
  · exact fun _ h₁ _ => absurd h₁ (by decide)
  · exact fun _ h₁ _ => absurd h₁ (by decide)

theorem basicLines?_escapedText {n : Nat} (hn : n ≤ 2) (t : Text) {rest : Text}
    (hr : rest.head? ≠ some '"') :
    basicLines? (List.replicate n '"' ++ (escapedText true 2 n t ++ '"' :: '"' :: '"' :: rest)) =
      some (List.replicate n '"' ++ t, rest) := by
  induction t generalizing n with
  | nil =>
    have hs : List.replicate n '"' ++ (escapedText true 2 n [] ++ '"' :: '"' :: '"' :: rest) =
        '"' :: '"' :: '"' :: (List.replicate n '"' ++ rest) := by
      match n, hn with
      | 0, _ | 1, _ | 2, _ => rfl
    rw [hs, basicLines?, closingQuotes_replicate hn hr, List.append_nil]
  | cons c t ih =>
    rw [escapedText]
    split
    · next h =>
      subst h
      split
      · next hm =>
        have := ih (n := n + 1) hm
        rwa [List.replicate_succ', List.append_assoc, List.append_assoc] at this
      · refine basicLines?_replicate hn (by simp) ?_
        have he : escape? (['"'] ++ (escapedText true 2 0 t ++ '"' :: '"' :: '"' :: rest)) =
          some ('"', escapedText true 2 0 t ++ '"' :: '"' :: '"' :: rest) := rfl
        exact (basicLines?_escape he).trans (congrArg (consTaken '"') (ih (Nat.zero_le 2)))
    · next h =>
      rw [List.append_assoc]
      rcases escaped_cases true c with ⟨e, he, hs⟩ | ⟨he, hb, hc⟩
      · rw [he, List.cons_append]
        refine basicLines?_replicate hn (by simp) ?_
        exact (basicLines?_escape (hs _)).trans (congrArg (consTaken c) (ih (Nat.zero_le 2)))
      · rw [he, List.cons_append, List.nil_append]
        refine basicLines?_replicate hn (by simpa using h) ?_
        rw [basicLines?_cons hb (hc.imp_right (·.2)) fun _ hq => absurd hq h]
        exact congrArg (consTaken c) (ih (Nat.zero_le 2))

theorem literalLines?_cons {c : Char} {s : Text} (hc : needsEscape c = false)
    (hq : ∀ u, c = '\'' → s ≠ '\'' :: '\'' :: u) :
    literalLines? (c :: s) = consTaken c (literalLines? s) := by
  rw [literalLines?, if_neg]
  · simpa [needsEscape] using hc
  · exact fun u h₁ h₂ => hq u h₁ h₂
  · rintro _ rfl
    exact absurd hc (by decide)

theorem literalLines?_replicate {n : Nat} (hn : n ≤ 2) {u v rest : Text} (hu : u.head? ≠ some '\'')
    (h : literalLines? u = some (v, rest)) :
    literalLines? (List.replicate n '\'' ++ u) = some (List.replicate n '\'' ++ v, rest) := by
  induction n with
  | zero => exact h
  | succ n ih =>
    rw [List.replicate_succ, List.cons_append, literalLines?_cons (by decide)
      fun w _ => replicate_append_ne hn hu w, ih (Nat.le_of_lt hn)]
    rfl

theorem literalLines?_append {n : Nat} {t : Text} (ht : t.any needsEscape = false)
    (hn : hasRun '\'' 3 n t = false) {rest : Text} (hr : rest.head? ≠ some '\'') :
    literalLines? (List.replicate n '\'' ++ (t ++ '\'' :: '\'' :: '\'' :: rest)) =
      some (List.replicate n '\'' ++ t, rest) := by
  induction t generalizing n with
  | nil =>
    have hn : n ≤ 2 := by simp [hasRun] at hn; omega
    have hs : List.replicate n '\'' ++ ([] ++ '\'' :: '\'' :: '\'' :: rest) =
        '\'' :: '\'' :: '\'' :: (List.replicate n '\'' ++ rest) := by
      match n, hn with
      | 0, _ | 1, _ | 2, _ => rfl
    rw [hs, literalLines?, closingQuotes_replicate hn hr, List.append_nil]
  | cons c t ih =>
    rw [List.any_cons, Bool.or_eq_false_iff] at ht
    rw [hasRun, Bool.or_eq_false_iff, decide_eq_false_iff_not] at hn
    by_cases h : c = '\''
    · subst h
      have := ih (n := n + 1) ht.2 (by simpa using hn.2)
      rwa [List.replicate_succ', List.append_assoc, List.append_assoc] at this
    · refine literalLines?_replicate (by omega) (by simpa using h) ?_
      rw [List.cons_append, literalLines?_cons ht.1 fun _ hq => absurd hq h]
      exact congrArg (consTaken c) (ih (n := 0) ht.2 (by simpa [h] using hn.2))

/-! ## All forms -/

/-- The line feed behind the opening quotes is the only one that does not count. -/
theorem withoutLineEnd_opening {t : Text} (body : Text)
    (h : '\n' ∉ t → afterLineEnd? body = none) : withoutLineEnd (opening t ++ body) = body := by
  rw [opening]
  split
  · rfl
  · next hn =>
    rw [List.nil_append, withoutLineEnd, h (by simpa using hn)]
    rfl

theorem afterLineEnd?_cons_eq_none {c : Char} (hn : c ≠ '\n') (hr : c ≠ '\r') (s : Text) :
    afterLineEnd? (c :: s) = none := by
  unfold afterLineEnd?
  split
  · next h => exact absurd (List.cons.inj h).1 hn
  · next h => exact absurd (List.cons.inj h).1 hr
  · rfl

/-- What a text is written as between double quotes does not begin with a line end of its own. -/
theorem afterLineEnd?_escapedText {several : Bool} {most seen : Nat} {t : Text} (h : '\n' ∉ t)
    (s : Text) : afterLineEnd? (escapedText several most seen t ++ '"' :: s) = none := by
  cases t with
  | nil => rfl
  | cons c t =>
    rw [List.mem_cons, not_or] at h
    rw [escapedText]
    split
    · split <;> rfl
    · rcases escaped_cases several c with ⟨e, he, -⟩ | ⟨he, -, hc | ⟨-, hn⟩⟩
      · rw [he]
        rfl
      · rw [he]
        exact afterLineEnd?_cons_eq_none (Ne.symm h.1)
          (ne_return_of_not_isControl (by simp [hc])) _
      · exact absurd hn.symm h.1

theorem string?_write_basic (t : Text) {rest : Text} (hr : rest.head? ≠ some '"') :
    string? (Form.basic.write t ++ rest) = some (t, rest) := by
  have hq : ∀ u, escapedText false 0 0 t ++ '"' :: rest ≠ '"' :: '"' :: u := by
    intro u
    cases t with
    | nil => simpa [escapedText] using fun h => hr (by rw [h]; rfl)
    | cons c t =>
      rw [escapedText]
      split
      · simp
      · next hc =>
        rcases escaped_cases false c with ⟨e, he, -⟩ | ⟨he, -⟩
        · simp [he]
        · simp [he, hc]
  rw [Form.write, List.cons_append, List.cons_append, List.append_assoc, string?]
  · exact basic?_escapedText t rest
  · exact hq

theorem string?_write_literal {t : Text} (hc : t.any isControl = false) (hq : '\'' ∉ t)
    (hn : t ≠ []) (rest : Text) : string? (Form.literal.write t ++ rest) = some (t, rest) := by
  rw [Form.write, List.cons_append, List.cons_append, List.append_assoc, string?]
  · exact literal?_append hc hq rest
  · intro u h
    cases t with
    | nil => exact hn rfl
    | cons c t => exact hq (by simp_all)

theorem string?_write_basicLines (t : Text) {rest : Text} (hr : rest.head? ≠ some '"') :
    string? (Form.basicLines.write t ++ rest) = some (t, rest) := by
  have h := basicLines?_escapedText (Nat.zero_le 2) t hr
  have ho := withoutLineEnd_opening (t := t)
    (escapedText true 2 0 t ++ '"' :: '"' :: '"' :: rest) fun hl => afterLineEnd?_escapedText hl _
  rw [← ho] at h
  simpa [Form.write, string?] using h

theorem string?_write_literalLines {t : Text} (ht : t.any needsEscape = false)
    (hq : hasRun '\'' 3 0 t = false) {rest : Text} (hr : rest.head? ≠ some '\'') :
    string? (Form.literalLines.write t ++ rest) = some (t, rest) := by
  have h := literalLines?_append ht hq hr
  have ho := withoutLineEnd_opening (t := t) (t ++ '\'' :: '\'' :: '\'' :: rest) fun hl => by
    cases t with
    | nil => rfl
    | cons c t =>
      rw [List.any_cons, Bool.or_eq_false_iff] at ht
      refine afterLineEnd?_cons_eq_none (fun hc => hl (by simp [hc])) ?_ _
      rintro rfl
      exact absurd ht.1 (by decide)
  rw [← ho] at h
  simpa [Form.write, string?] using h

/-- A string reads back as the text that it was written for, whatever follows it, as long as that is not
another quote. -/
theorem string?_writtenString (t : Text) {rest : Text} (hd : rest.head? ≠ some '"')
    (hs : rest.head? ≠ some '\'') : string? (writtenString t ++ rest) = some (t, rest) := by
  rw [writtenString, Form.of]
  split
  · exact string?_write_basic t hd
  split
  · next hb h =>
    simp only [Bool.and_eq_true, Bool.not_eq_true', List.contains_eq_mem, decide_eq_false_iff_not] at h
    refine string?_write_literal ?_ h.1.2 ?_ rest
    · rw [List.any_eq_false] at h ⊢
      intro c hc hctl
      have hne : c ≠ '\n' := fun hl => h.2 (hl ▸ hc)
      exact h.1.1 c hc (by simp [needsEscape, hctl, hne])
    · rintro rfl
      exact hb (by decide)
  split
  · exact string?_write_basicLines t hd
  split
  · next h =>
    simp only [Bool.and_eq_true, Bool.not_eq_true'] at h
    exact string?_write_literalLines h.1 h.2 hs
  split
  · exact string?_write_basicLines t hd
  · exact string?_write_basic t hd

end BuildTargets.Toml

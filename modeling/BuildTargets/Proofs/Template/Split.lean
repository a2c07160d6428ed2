import BuildTargets.Template
import Mathlib.Data.List.Chain
import Mathlib.Data.List.Infix

/-!
# The split of a template

A template is made up of placeholders and of the literals between them.  What this means is said without
a scanner (`IsSplit`): a literal is as long as it can be, and no placeholder starts in it.  No
placeholder is spelled at the beginning of another, so there is one such split, which the scanner finds
(`isSplit_iff`).  Resolving a template puts the values into its split (`resolve_eq_flatMap_pieces`); which
values these are for a source is spelled out in `resolve_ofSource_append`.
-/

namespace BuildTargets.Template

/-! ## Placeholders at the beginning of a text -/

namespace Token

/-- A placeholder is found at the beginning of a text, whatever follows it. -/
theorem leading?_append (t : Token) (rest : Text) : leading? (t.text ++ rest) = some (t, rest) := by
  cases t <;> rfl

/-- No placeholder is found where none is spelled. -/
theorem leading?_eq_none_iff {s : Text} : leading? s = none ↔ ∀ t : Token, ¬t.text <+: s := by
  rw [← Option.not_isSome_iff_eq_none, Option.isSome_iff_exists, Prod.exists]
  constructor
  · rintro h t ⟨rest, rfl⟩
    exact h ⟨t, rest, leading?_append t rest⟩
  · rintro h ⟨t, rest, hsome⟩
    exact h t ⟨rest, (leading?_eq_some hsome).symm⟩

theorem text_ne_nil (t : Token) : t.text ≠ [] := by
  cases t <;> decide

end Token

/-! ## Splits -/

/-- Whether a piece is a stretch between placeholders. -/
def Piece.isLiteral : Piece → Bool
  | token _ => false
  | literal _ => true

/-- A split of a template into placeholders and the stretches between them. -/
structure IsSplit (t : Text) (ps : List Piece) : Prop where
  /-- Nothing is lost. -/
  text : ps.flatMap Piece.text = t
  ne_nil : ∀ s, Piece.literal s ∈ ps → s ≠ []
  /-- A literal stands next to no other. -/
  maximal : ps.IsChain fun p q => p.isLiteral = false ∨ q.isLiteral = false
  /-- No placeholder starts in a literal, even if it should end behind it. -/
  plain : ∀ s back, Piece.literal s :: back <:+ ps → ∀ r, r <:+ s → r ≠ [] →
    ∀ token : Token, ¬token.text <+: r ++ back.flatMap Piece.text

variable {t s : Text} {c : Char} {p : Piece} {ps qs : List Piece}

/-- Behind its first piece a split goes on as a split. -/
theorem IsSplit.tail (h : IsSplit t (p :: ps)) : IsSplit (ps.flatMap Piece.text) ps where
  text := rfl
  ne_nil s hs := h.ne_nil s (List.mem_cons_of_mem p hs)
  maximal := h.maximal.tail
  plain s back hback := h.plain s back (hback.trans (List.suffix_cons p ps))

/-- The split of a template that begins with a placeholder. -/
theorem isSplit_token_iff {token : Token} :
    IsSplit (token.text ++ s) ps ↔ ∃ qs, ps = .token token :: qs ∧ IsSplit s qs := by
  constructor
  · intro h
    cases ps with
    | nil => exact absurd (List.append_eq_nil_iff.1 h.text.symm).1 token.text_ne_nil
    | cons p qs =>
      cases p with
      | token u =>
        have htext : u.text ++ qs.flatMap Piece.text = token.text ++ s := h.text
        have hfound := Token.leading?_append u (qs.flatMap Piece.text)
        rw [htext, Token.leading?_append, Option.some.injEq, Prod.mk.injEq] at hfound
        obtain ⟨rfl, rfl⟩ := hfound
        exact ⟨qs, rfl, h.tail⟩
      | literal r =>
        have htext : r ++ qs.flatMap Piece.text = token.text ++ s := h.text
        have hstart : ¬token.text <+: r ++ qs.flatMap Piece.text :=
          h.plain r qs List.suffix_rfl r List.suffix_rfl (h.ne_nil r List.mem_cons_self) token
        exact absurd (htext ▸ List.prefix_append _ _) hstart
  · rintro ⟨qs, rfl, h⟩
    refine ⟨congrArg (token.text ++ ·) h.text, fun r hr => ?_, ?_, fun r back hback => ?_⟩
    · exact h.ne_nil r ((List.mem_cons.1 hr).resolve_left nofun)
    · exact List.isChain_cons.2 ⟨fun _ _ => Or.inl rfl, h.maximal⟩
    · exact h.plain r back ((List.suffix_cons_iff.1 hback).resolve_left nofun)

/-- What it takes for a split to begin with a literal. -/
theorem isSplit_literal_iff {r : Text} :
    IsSplit t (.literal r :: ps) ↔ t = r ++ ps.flatMap Piece.text ∧ r ≠ [] ∧
      (∀ p ∈ ps.head?, p.isLiteral = false) ∧
      (∀ r', r' <:+ r → r' ≠ [] → ∀ token : Token, ¬token.text <+: r' ++ ps.flatMap Piece.text) ∧
      IsSplit (ps.flatMap Piece.text) ps := by
  constructor
  · intro h
    refine ⟨h.text.symm, h.ne_nil r List.mem_cons_self, fun p hp => ?_,
      h.plain r ps List.suffix_rfl, h.tail⟩
    exact ((List.isChain_cons.1 h.maximal).1 p hp).resolve_left nofun
  · rintro ⟨rfl, hne, hhead, hplain, h⟩
    refine ⟨rfl, fun r' hr => ?_, ?_, fun r' back hback => ?_⟩
    · rcases List.mem_cons.1 hr with heq | hr
      · rwa [Piece.literal.inj heq]
      · exact h.ne_nil r' hr
    · exact List.isChain_cons.2 ⟨fun p hp => Or.inr (hhead p hp), h.maximal⟩
    · rcases List.suffix_cons_iff.1 hback with heq | hback
      · cases heq
        exact hplain
      · exact h.plain r' back hback

/-- A character goes into a literal that stands first, or else becomes a literal of its own. -/
theorem consLiteral_cases (c : Char) (ps : List Piece) :
    (∃ r back, ps = .literal r :: back ∧ Piece.consLiteral c ps = .literal (c :: r) :: back) ∨
      (∀ p ∈ ps.head?, p.isLiteral = false) ∧ Piece.consLiteral c ps = .literal [c] :: ps := by
  cases ps with
  | nil => exact Or.inr ⟨nofun, rfl⟩
  | cons p ps =>
    cases p with
    | token u => exact Or.inr ⟨fun _ hp => Option.some.inj hp ▸ rfl, rfl⟩
    | literal r => exact Or.inl ⟨r, ps, rfl, rfl⟩

/-- The split of a template with a character in front at which no placeholder starts. -/
theorem isSplit_cons_iff (hstart : ∀ token : Token, ¬token.text <+: c :: s) :
    IsSplit (c :: s) ps ↔ ∃ qs, ps = Piece.consLiteral c qs ∧ IsSplit s qs := by
  have hsuffix : ∀ {r back}, s = r ++ back →
      (∀ r', r' <:+ r → r' ≠ [] → ∀ token : Token, ¬token.text <+: r' ++ back) →
      ∀ r', r' <:+ c :: r → r' ≠ [] → ∀ token : Token, ¬token.text <+: r' ++ back := by
    rintro r back rfl hplain r' hr' hne
    rcases List.suffix_cons_iff.1 hr' with rfl | hr'
    · exact hstart
    · exact hplain r' hr' hne
  constructor
  · intro h
    cases ps with
    | nil => cases h.text
    | cons p back =>
      cases p with
      | token u => exact absurd (h.text ▸ List.prefix_append _ _) (hstart u)
      | literal r =>
        obtain ⟨htext, hne, hhead, hplain, htail⟩ := isSplit_literal_iff.1 h
        obtain ⟨d, r, rfl⟩ := List.exists_cons_of_ne_nil hne
        obtain ⟨rfl, rfl⟩ := List.cons.inj htext
        by_cases hr : r = []
        · subst hr
          refine ⟨back, ?_, htail⟩
          rcases consLiteral_cases c back with ⟨r, back', rfl, -⟩ | ⟨-, heq⟩
          · cases hhead _ rfl
          · exact heq.symm
        · refine ⟨.literal r :: back, rfl, isSplit_literal_iff.2 ⟨rfl, hr, hhead, ?_, htail⟩⟩
          exact fun r' hr' => hplain r' (hr'.trans (List.suffix_cons c r))
  · rintro ⟨qs, rfl, h⟩
    rcases consLiteral_cases c qs with ⟨r, back, rfl, heq⟩ | ⟨hhead, heq⟩
    · obtain ⟨htext, -, hhead, hplain, htail⟩ := isSplit_literal_iff.1 h
      rw [heq, isSplit_literal_iff]
      exact ⟨congrArg (c :: ·) htext, List.cons_ne_nil c r, hhead, hsuffix htext hplain, htail⟩
    · rw [heq, isSplit_literal_iff, h.text]
      refine ⟨rfl, List.cons_ne_nil c [], hhead, hsuffix rfl fun r' hr' hne => ?_, h⟩
      exact absurd (List.suffix_nil.1 hr') hne

/-- A template has one split, which is found by scanning it. -/
theorem isSplit_iff : IsSplit t ps ↔ ps = pieces t := by
  fun_induction pieces t generalizing ps with
  | case1 =>
    constructor
    · intro h
      cases ps with
      | nil => rfl
      | cons p ps =>
        have htext : p.text = [] := (List.append_eq_nil_iff.1 h.text).1
        cases p with
        | token u => exact absurd htext u.text_ne_nil
        | literal r => exact absurd htext (h.ne_nil r List.mem_cons_self)
    · rintro rfl
      exact ⟨rfl, nofun, List.isChain_nil, fun _ _ h => absurd (List.suffix_nil.1 h) nofun⟩
  | case2 c s token rest hfound ih =>
    rw [Token.leading?_eq_some hfound, isSplit_token_iff]
    constructor
    · rintro ⟨qs, rfl, h⟩
      rw [ih.1 h]
    · rintro rfl
      exact ⟨_, rfl, ih.2 rfl⟩
  | case3 c s hnone ih =>
    rw [isSplit_cons_iff (Token.leading?_eq_none_iff.1 hnone)]
    constructor
    · rintro ⟨qs, rfl, h⟩
      rw [ih.1 h]
    · rintro rfl
      exact ⟨_, rfl, ih.2 rfl⟩

theorem pieces_token_append (token : Token) (s : Text) :
    pieces (token.text ++ s) = .token token :: pieces s :=
  (isSplit_iff.1 (isSplit_token_iff.2 ⟨_, rfl, isSplit_iff.2 rfl⟩)).symm

theorem pieces_cons (hstart : ∀ token : Token, ¬token.text <+: c :: s) :
    pieces (c :: s) = Piece.consLiteral c (pieces s) :=
  (isSplit_iff.1 ((isSplit_cons_iff hstart).2 ⟨_, rfl, isSplit_iff.2 rfl⟩)).symm

/-! ## Resolved templates -/

theorem flatMap_value_consLiteral (v : Values) (c : Char) (ps : List Piece) :
    (Piece.consLiteral c ps).flatMap (Piece.value v) = c :: ps.flatMap (Piece.value v) := by
  rcases consLiteral_cases c ps with ⟨r, back, rfl, heq⟩ | ⟨-, heq⟩ <;> rw [heq] <;> rfl

/-- A resolved template is its pieces with the values in the place of the placeholders. -/
theorem resolve_eq_flatMap_pieces (v : Values) (t : Text) :
    resolve v t = (pieces t).flatMap (Piece.value v) := by
  fun_induction resolve v t with
  | case1 =>
    rw [pieces]
    rfl
  | case2 c s token rest hfound ih =>
    rw [Token.leading?_eq_some hfound, pieces_token_append, ih]
    rfl
  | case3 c s hnone ih =>
    rw [pieces_cons (Token.leading?_eq_none_iff.1 hnone), flatMap_value_consLiteral, ih]

/-- The value of a placeholder comes in front of what the rest of the template resolves to. -/
theorem resolve_token_append (v : Values) (token : Token) (s : Text) :
    resolve v (token.text ++ s) = v.get token ++ resolve v s := by
  rw [resolve_eq_flatMap_pieces, resolve_eq_flatMap_pieces, pieces_token_append]
  rfl

/-- What the placeholders stand for: the name of the source, the top directory of the project, and the
directory of the source, which is the build file's own if it has no name below that. -/
theorem Values.get_ofSource (stem directory : Text) :
    (Values.ofSource stem directory).get .fileName = stem ∧
      (Values.ofSource stem directory).get .projectDirectory =
        "$\x7bPROJECT_SOURCE_DIR\x7d".toList ∧
      (Values.ofSource stem directory).get .fileDirectory =
        if directory = [] then "$\x7bCMAKE_CURRENT_SOURCE_DIR\x7d".toList
        else "$\x7bCMAKE_CURRENT_SOURCE_DIR\x7d".toList ++ '/' :: directory :=
  ⟨rfl, rfl, rfl⟩

/-- For a source each placeholder is replaced by its own value, and the rest of the template is resolved
behind it. -/
theorem resolve_ofSource_append (stem directory s : Text) :
    let resolved := resolve (.ofSource stem directory)
    resolved ("%FILENAME%".toList ++ s) = stem ++ resolved s ∧
      resolved ("%PROJECT_DIR%".toList ++ s) =
        "$\x7bPROJECT_SOURCE_DIR\x7d".toList ++ resolved s ∧
      resolved ("%FILE_DIR%".toList ++ s) =
        (if directory = [] then "$\x7bCMAKE_CURRENT_SOURCE_DIR\x7d".toList
          else "$\x7bCMAKE_CURRENT_SOURCE_DIR\x7d".toList ++ '/' :: directory) ++ resolved s := by
  obtain ⟨hname, hproject, hdirectory⟩ := Values.get_ofSource stem directory
  refine ⟨?_, ?_, ?_⟩
  · exact (resolve_token_append _ .fileName s).trans (by rw [hname])
  · exact (resolve_token_append _ .projectDirectory s).trans (by rw [hproject])
  · exact (resolve_token_append _ .fileDirectory s).trans (by rw [hdirectory])

/-- A template has exactly one split, which depends on nothing else, and whatever the values are, the
resolved template is that split with each placeholder replaced by its value and each literal copied.
So the same placeholders are replaced for all values, and none that only the values spell. -/
theorem resolve_by_split (t : Text) :
    ∃ ps, (∀ qs, IsSplit t qs ↔ qs = ps) ∧
      ∀ v : Values, resolve v t = ps.flatMap (Piece.value v) :=
  ⟨pieces t, fun _ => isSplit_iff, fun v => resolve_eq_flatMap_pieces v t⟩

/-- A value that spells a placeholder together with the text behind it is not looked at again. -/
example : resolve (.ofSource "%FILE_DIR".toList []) "%%FILENAME%%".toList = "%%FILE_DIR%".toList := by
  decide +kernel

end BuildTargets.Template

import BuildTargets.Text.Line
import Mathlib.Data.List.Basic

/-!
# Lines that are written and read back

A sequence of ended lines is cut again at its terminators and nowhere else, whatever text follows it
(`split_join_append`).  One thing may move: a carriage return at the end of a content goes over to
the terminator where a bare line feed follows it (`Line.reread`).  Every text is such a sequence
with a rest in one line behind it (`exists_eq_join_append`); with that rest as its last line it is
read back line by line (`IsSequence.split_join`).  Contents and terminators that leave no carriage
return behind are therefore what the text that they spell is cut into, and no others are
(`split_decomposes_uniquely`).
-/

namespace BuildTargets

namespace Line

/-- A line that another one may follow: it has a terminator, and its content is in one line. -/
structure IsEnded (l : Line) : Prop where
  ending_ne : l.ending ≠ .eof
  newline_not_mem : '\n' ∉ l.content

/-- The line as it is read where it was written: a carriage return right in front of the line feed
belongs to the terminator. -/
def reread (l : Line) : Line :=
  if l.ending = .lf ∧ l.content.getLast? = some '\r' then ⟨l.content.dropLast, .crlf⟩ else l

@[simp] theorem join_nil : join [] = [] := rfl

@[simp] theorem join_cons (l : Line) (ls : List Line) : join (l :: ls) = l.text ++ join ls := rfl

@[simp] theorem join_append (ls ls' : List Line) : join (ls ++ ls') = join ls ++ join ls' := by
  simp [join]

/-! ## Cutting -/

/-- A character that ends no line goes to the content of the first line. -/
theorem split_cons {c : Char} {s : Text} (hc : c ≠ '\n') (hs : c = '\r' → s.head? ≠ some '\n') :
    split (c :: s) = consContent c (split s) := by
  rw [split]
  · intro r hr hs'
    exact hs hr (by rw [hs']; rfl)
  · exact hc

/-- No line holds a line feed. -/
theorem newline_not_mem_of_mem_split {s : Text} {l : Line} (hl : l ∈ split s) :
    '\n' ∉ l.content := by
  fun_induction split s generalizing l with
  | case1 => cases hl
  | case2 s ih | case3 s ih =>
    rcases List.mem_cons.1 hl with rfl | hl
    · exact List.not_mem_nil
    · exact ih hl
  | case4 c s _ hc ih =>
    have hcons : ∀ r : Text, '\n' ∉ r → '\n' ∉ c :: r := fun r hr =>
      List.not_mem_cons_of_ne_of_not_mem (Ne.symm hc) hr
    cases hsplit : split s with
    | nil =>
      rw [hsplit, consContent, List.mem_singleton] at hl
      rw [hl]
      exact hcons [] List.not_mem_nil
    | cons k ks =>
      rw [hsplit, consContent] at hl
      rcases List.mem_cons.1 hl with rfl | hl
      · exact hcons k.content (ih (by rw [hsplit]; exact List.mem_cons_self))
      · exact ih (by rw [hsplit]; exact List.mem_cons_of_mem k hl)

/-- A content without line feeds is one unended line. -/
theorem split_of_newline_not_mem {s : Text} (hne : s ≠ []) (hs : '\n' ∉ s) :
    split s = [⟨s, .eof⟩] := by
  induction s with
  | nil => exact absurd rfl hne
  | cons c s ih =>
    have hc : c ≠ '\n' := fun h => hs (h ▸ List.mem_cons_self)
    have hs' : '\n' ∉ s := fun h => hs (List.mem_cons_of_mem c h)
    rw [split_cons hc fun _ h => hs' (List.mem_of_mem_head? h)]
    cases s with
    | nil => rfl
    | cons d s => rw [ih (List.cons_ne_nil d s) hs']; rfl

/-- Reading back goes on with the content, except where that is the carriage return of the
terminator. -/
theorem reread_cons {c : Char} {s : Text} {e : LineEnd} (h : s ≠ [] ∨ c ≠ '\r' ∨ e ≠ .lf) :
    reread ⟨c :: s, e⟩ = ⟨c :: (reread ⟨s, e⟩).content, (reread ⟨s, e⟩).ending⟩ := by
  cases s with
  | nil =>
    have hneg : ¬(e = .lf ∧ c = '\r') := by
      rintro ⟨he, hc⟩
      rcases h with h | h | h
      · exact h rfl
      · exact h hc
      · exact h he
    simp [reread, hneg]
  | cons d s =>
    simp only [reread, List.getLast?_cons_cons, List.dropLast_cons_cons]
    split <;> rfl

/-- An ended line is cut off at its terminator. -/
theorem split_text_append {l : Line} (hl : l.IsEnded) (rest : Text) :
    split (l.text ++ rest) = l.reread :: split rest := by
  obtain ⟨s, e⟩ := l
  obtain ⟨he, hs⟩ := hl
  simp only at he hs
  induction s with
  | nil =>
    cases e with
    | lf => rfl
    | crlf => rfl
    | eof => exact absurd rfl he
  | cons c s ih =>
    have hc : c ≠ '\n' := fun h => hs (h ▸ List.mem_cons_self)
    have hs' : '\n' ∉ s := fun h => hs (List.mem_cons_of_mem c h)
    by_cases hlast : s = [] ∧ c = '\r' ∧ e = .lf
    · -- the carriage return and the line feed make one terminator
      obtain ⟨rfl, rfl, rfl⟩ := hlast
      rfl
    · have hhead : c = '\r' → (s ++ e.text ++ rest).head? ≠ some '\n' := by
        intro hr
        cases s with
        | cons d s =>
          intro h
          cases h
          exact hs' List.mem_cons_self
        | nil =>
          cases e with
          | lf => exact absurd ⟨rfl, hr, rfl⟩ hlast
          | crlf => exact fun h => absurd (Option.some.inj h) (by decide)
          | eof => exact absurd rfl he
      have hor : s ≠ [] ∨ c ≠ '\r' ∨ e ≠ .lf := by
        rwa [not_and_or, not_and_or] at hlast
      have ih' := ih hs'
      rw [text] at ih' ⊢
      rw [List.cons_append, List.cons_append, split_cons hc hhead, ih', consContent,
        reread_cons hor]

/-- Ended lines are cut off one after the other. -/
theorem split_join_append {ls : List Line} (hls : ∀ l ∈ ls, l.IsEnded) (rest : Text) :
    split (join ls ++ rest) = ls.map reread ++ split rest := by
  induction ls with
  | nil => rfl
  | cons l ls ih =>
    rw [join_cons, List.append_assoc, split_text_append (hls l List.mem_cons_self),
      ih fun k hk => hls k (List.mem_cons_of_mem l hk)]
    rfl

/-- Every text is a sequence of ended lines and a rest in one line. -/
theorem exists_eq_join_append (s : Text) :
    ∃ (ls : List Line) (r : Text), (∀ l ∈ ls, l.IsEnded) ∧ '\n' ∉ r ∧ s = join ls ++ r := by
  induction s with
  | nil => exact ⟨[], [], fun l hl => absurd hl List.not_mem_nil, List.not_mem_nil, rfl⟩
  | cons c s ih =>
    obtain ⟨ls, r, hls, hr, rfl⟩ := ih
    by_cases hc : c = '\n'
    · refine ⟨⟨[], .lf⟩ :: ls, r, ?_, hr, by rw [hc]; rfl⟩
      intro l hl
      rcases List.mem_cons.1 hl with rfl | hl
      · exact ⟨by decide, List.not_mem_nil⟩
      · exact hls l hl
    · have hcons : ∀ t : Text, '\n' ∉ t → '\n' ∉ c :: t := fun t ht =>
        List.not_mem_cons_of_ne_of_not_mem (Ne.symm hc) ht
      cases ls with
      | nil => exact ⟨[], c :: r, hls, hcons r hr, rfl⟩
      | cons l ls =>
        refine ⟨⟨c :: l.content, l.ending⟩ :: ls, r, ?_, hr, rfl⟩
        have hl := hls l List.mem_cons_self
        intro k hk
        rcases List.mem_cons.1 hk with rfl | hk
        · exact ⟨hl.ending_ne, hcons l.content hl.newline_not_mem⟩
        · exact hls k (List.mem_cons_of_mem l hk)

/-! ## Terminators in between -/

/-- What is read back spells the same. -/
@[simp] theorem text_reread (l : Line) : l.reread.text = l.text := by
  rw [reread]
  split
  · next h =>
    obtain ⟨s, hs⟩ := List.getLast?_eq_some_iff.1 h.2
    rw [text, text, hs, h.1, List.dropLast_concat]
    simp [LineEnd.text]
  · rfl

/-- Reading back turns no terminator into the end of the text. -/
theorem ending_reread_ne {l : Line} (hl : l.ending ≠ .eof) : l.reread.ending ≠ .eof := by
  rw [reread]
  split
  · exact fun h => by cases h
  · exact hl

/-- A line that does not end in a carriage return is read back as it is. -/
theorem reread_eq_self {l : Line} (hl : l.content.getLast? ≠ some '\r') : l.reread = l := by
  rw [reread, if_neg]
  exact fun h => hl h.2

/-- Lines read back spell the same text. -/
@[simp] theorem join_map_reread (ls : List Line) : join (ls.map reread) = join ls := by
  induction ls with
  | nil => rfl
  | cons l ls ih => rw [List.map_cons, join_cons, join_cons, text_reread, ih]

/-- A text is cut behind each of its line feeds. -/
theorem split_append_newline (s rest : Text) :
    split (s ++ '\n' :: rest) = split (s ++ ['\n']) ++ split rest := by
  obtain ⟨ls, r, hls, hr, rfl⟩ := exists_eq_join_append s
  have hended : ∀ l ∈ ls ++ [⟨r, .lf⟩], l.IsEnded := by
    intro l hl
    rcases List.mem_append.1 hl with hl | hl
    · exact hls l hl
    · rw [List.mem_singleton.1 hl]
      exact ⟨by simp, hr⟩
  have htext : ∀ t : Text, join ls ++ r ++ '\n' :: t = join (ls ++ [⟨r, .lf⟩]) ++ t := by
    intro t
    simp [text, LineEnd.text]
  rw [htext, htext, split_join_append hended, split_join_append hended]
  simp [split]

/-- A text that follows lines with terminators is cut by itself, whatever these hold. -/
theorem split_join_append_of_ending_ne {ls : List Line} (hls : ∀ l ∈ ls, l.ending ≠ .eof)
    (rest : Text) : split (join ls ++ rest) = split (join ls) ++ split rest := by
  rcases List.eq_nil_or_concat ls with rfl | ⟨front, ⟨s, e⟩, rfl⟩
  · rfl
  · cases e with
    | lf =>
      have htext : ∀ t : Text,
          join (front.concat ⟨s, .lf⟩) ++ t = join front ++ s ++ '\n' :: t := by
        intro t
        simp [text, LineEnd.text]
      have h := htext []
      rw [List.append_nil] at h
      rw [htext, h]
      exact split_append_newline _ rest
    | crlf =>
      have htext : ∀ t : Text,
          join (front.concat ⟨s, .crlf⟩) ++ t = join front ++ s ++ ['\r'] ++ '\n' :: t := by
        intro t
        simp [text, LineEnd.text]
      have h := htext []
      rw [List.append_nil] at h
      rw [htext, h]
      exact split_append_newline _ rest
    | eof => exact absurd rfl (hls ⟨s, .eof⟩ (by simp))

/-! ## Sequences of lines -/

/-- A sequence of lines that a text can fall into: only the last line may be without a terminator, and
then it is not empty. -/
inductive IsSequence : List Line → Prop where
  | nil : IsSequence []
  | rest {s : Text} (hne : s ≠ []) (hs : '\n' ∉ s) : IsSequence [⟨s, .eof⟩]
  | ended {l : Line} {ls : List Line} (hl : l.IsEnded) (h : IsSequence ls) : IsSequence (l :: ls)

/-- A text falls into a sequence of lines. -/
theorem isSequence_split (s : Text) : IsSequence (split s) := by
  fun_induction split s with
  | case1 => exact .nil
  | case2 s ih | case3 s ih => exact .ended ⟨by simp, List.not_mem_nil⟩ ih
  | case4 c s _ hc ih =>
    have hcons : ∀ {r : Text}, '\n' ∉ r → '\n' ∉ c :: r := fun hr =>
      List.not_mem_cons_of_ne_of_not_mem (Ne.symm hc) hr
    generalize split s = ls at ih
    cases ih with
    | nil => exact .rest (List.cons_ne_nil c []) (hcons List.not_mem_nil)
    | rest hne hs => exact .rest (List.cons_ne_nil c _) (hcons hs)
    | ended hl h => exact .ended ⟨hl.ending_ne, hcons hl.newline_not_mem⟩ h

/-- A sequence of lines is read back where it was written. -/
theorem IsSequence.split_join {ls : List Line} (h : IsSequence ls) :
    split (join ls) = ls.map reread := by
  induction h with
  | nil => rfl
  | @rest s hne hs =>
    have htext : join [⟨s, .eof⟩] = s := by simp [text, LineEnd.text]
    rw [htext, split_of_newline_not_mem hne hs]
    rfl
  | ended hl h ih => rw [join_cons, split_text_append hl, ih, List.map_cons]

/-! ## Contents and terminators -/

/-- A line as two texts: its content and its terminator. -/
def parts (l : Line) : Text × Text := (l.content, l.ending.text)

/-- Contents and terminators that a text can be cut into: a content holds no line feed, the last one
alone may be without a terminator and is then not empty, and a carriage return in front of a line feed
belongs to the terminator. -/
structure IsDecomposition (ps : List (Text × Text)) : Prop where
  newline_not_mem : ∀ p ∈ ps, '\n' ∉ p.1
  ended : ∀ p ∈ ps.dropLast, p.2 = ['\n'] ∨ p.2 = ['\r', '\n']
  last : ∀ p ∈ ps.getLast?, p.2 = ['\n'] ∨ p.2 = ['\r', '\n'] ∨ p.2 = [] ∧ p.1 ≠ []
  return_ne : ∀ p ∈ ps, p.2 = ['\n'] → p.1.getLast? ≠ some '\r'

theorem flatMap_parts (ls : List Line) :
    (ls.map parts).flatMap (fun p => p.1 ++ p.2) = join ls := by
  rw [List.flatMap_map]
  rfl

theorem isDecomposition_nil : IsDecomposition [] := by
  constructor <;> simp

/-- What is demanded of the first of several lines, and of the first one if it is the last. -/
theorem isDecomposition_cons_iff {p : Text × Text} {ps : List (Text × Text)} :
    IsDecomposition (p :: ps) ↔ '\n' ∉ p.1 ∧
      (p.2 = ['\n'] ∨ p.2 = ['\r', '\n'] ∨ ps = [] ∧ p.2 = [] ∧ p.1 ≠ []) ∧
      (p.2 = ['\n'] → p.1.getLast? ≠ some '\r') ∧ IsDecomposition ps := by
  constructor
  · rintro ⟨hnewline, hended, hlast, hreturn⟩
    rw [List.forall_mem_cons] at hnewline hreturn
    cases ps with
    | nil =>
      have hp := hlast p rfl
      refine ⟨hnewline.1, ?_, hreturn.1, isDecomposition_nil⟩
      exact hp.imp_right (Or.imp_right fun h => ⟨rfl, h⟩)
    | cons q ps =>
      rw [List.dropLast_cons_cons, List.forall_mem_cons] at hended
      rw [List.getLast?_cons_cons] at hlast
      exact ⟨hnewline.1, hended.1.imp_right Or.inl, hreturn.1, hnewline.2, hended.2, hlast,
        hreturn.2⟩
  · rintro ⟨hnewline, hp, hreturn, h⟩
    refine ⟨List.forall_mem_cons.2 ⟨hnewline, h.newline_not_mem⟩, ?_, ?_,
      List.forall_mem_cons.2 ⟨hreturn, h.return_ne⟩⟩
    · cases ps with
      | nil => exact fun _ hq => absurd hq List.not_mem_nil
      | cons q ps =>
        rw [List.dropLast_cons_cons, List.forall_mem_cons]
        refine ⟨hp.imp_right fun h => h.resolve_right ?_, h.ended⟩
        exact fun h => List.cons_ne_nil q ps h.1
    · cases ps with
      | nil =>
        rintro q ⟨⟩
        exact hp.imp_right (Or.imp_right And.right)
      | cons q ps =>
        rw [List.getLast?_cons_cons]
        exact h.last

/-- A line is read back as it is unless its content ends in the carriage return of its line feed. -/
theorem reread_eq_self_iff {l : Line} :
    l.reread = l ↔ (l.ending.text = ['\n'] → l.content.getLast? ≠ some '\r') := by
  obtain ⟨s, e⟩ := l
  cases e with
  | lf =>
    constructor
    · intro h _ hlast
      rw [reread, if_pos ⟨rfl, hlast⟩] at h
      exact LineEnd.noConfusion (Line.mk.inj h).2
    · intro h
      exact reread_eq_self (h rfl)
  | crlf => simp [reread, LineEnd.text]
  | eof => simp [reread, LineEnd.text]

/-- A text is cut so that each of its lines is read back as it is. -/
theorem reread_of_mem_split {s : Text} {l : Line} (hl : l ∈ split s) : l.reread = l := by
  have h : (split s).map reread = (split s).map id := by
    rw [← (isSequence_split s).split_join, join_split, List.map_id]
  exact List.map_inj_left.1 h l hl

/-- A sequence of lines that are read back as they are falls into contents and terminators. -/
theorem IsSequence.isDecomposition {ls : List Line} (h : IsSequence ls)
    (hls : ∀ l ∈ ls, l.reread = l) : IsDecomposition (ls.map parts) := by
  induction h with
  | nil => exact isDecomposition_nil
  | @rest s hne hs =>
    refine isDecomposition_cons_iff.2 ⟨hs, ?_, ?_, isDecomposition_nil⟩
    · exact Or.inr (Or.inr ⟨rfl, rfl, hne⟩)
    · rintro ⟨⟩
  | @ended l ls hl h ih =>
    obtain ⟨hself, hls⟩ := List.forall_mem_cons.1 hls
    refine isDecomposition_cons_iff.2 ⟨hl.newline_not_mem, ?_, reread_eq_self_iff.1 hself, ih hls⟩
    cases hending : l.ending with
    | lf => exact Or.inl (congrArg LineEnd.text hending)
    | crlf => exact Or.inr (Or.inl (congrArg LineEnd.text hending))
    | eof => exact absurd hending hl.ending_ne

/-- Contents and terminators of a decomposition belong to lines that are read back as they are. -/
theorem IsDecomposition.exists_isSequence {ps : List (Text × Text)} (h : IsDecomposition ps) :
    ∃ ls : List Line, ls.map parts = ps ∧ IsSequence ls ∧ ∀ l ∈ ls, l.reread = l := by
  induction ps with
  | nil => exact ⟨[], rfl, .nil, fun _ hl => absurd hl List.not_mem_nil⟩
  | cons p ps ih =>
    obtain ⟨s, e⟩ := p
    obtain ⟨hs, he, hreturn, h⟩ := isDecomposition_cons_iff.1 h
    obtain ⟨ls, rfl, hsequence, hls⟩ := ih h
    rcases he with he | he | ⟨hnil, he, hne⟩
    · refine ⟨⟨s, .lf⟩ :: ls, ?_, .ended ⟨by simp, hs⟩ hsequence, ?_⟩
      · rw [List.map_cons, parts, LineEnd.text, ← he]
      · exact List.forall_mem_cons.2 ⟨reread_eq_self_iff.2 fun _ => hreturn he, hls⟩
    · refine ⟨⟨s, .crlf⟩ :: ls, ?_, .ended ⟨by simp, hs⟩ hsequence, ?_⟩
      · rw [List.map_cons, parts, LineEnd.text, ← he]
      · exact List.forall_mem_cons.2 ⟨rfl, hls⟩
    · obtain rfl := List.map_eq_nil_iff.1 hnil
      refine ⟨[⟨s, .eof⟩], ?_, .rest hne hs, ?_⟩
      · rw [List.map_cons, parts, LineEnd.text, ← he]
      · exact List.forall_mem_singleton.2 rfl

/-- Cutting a text into lines is lossless and canonical: contents and terminators spell the text and
are a decomposition, and every decomposition is what the text that it spells is cut into. -/
theorem split_decomposes_uniquely :
    (∀ s : Text, ((split s).map parts).flatMap (fun p => p.1 ++ p.2) = s ∧
      IsDecomposition ((split s).map parts)) ∧
    ∀ ps : List (Text × Text), IsDecomposition ps →
      (split (ps.flatMap fun p => p.1 ++ p.2)).map parts = ps := by
  constructor
  · intro s
    rw [flatMap_parts, join_split]
    exact ⟨rfl, (isSequence_split s).isDecomposition fun _ => reread_of_mem_split⟩
  · intro ps h
    obtain ⟨ls, rfl, hsequence, hls⟩ := h.exists_isSequence
    have hmap : ls.map reread = ls := (List.map_congr_left hls).trans (List.map_id' ls)
    rw [flatMap_parts, hsequence.split_join, hmap]

/-- A carriage return in front of a terminator, an empty line, and a carriage return at the end of the
text. -/
theorem split_decomposes_uniquely_returns :
    IsDecomposition [(['a', '\r'], ['\r', '\n']), ([], ['\n']), (['b', '\r'], [])] ∧
      (split "a\r\r\n\nb\r".toList).map parts =
        [(['a', '\r'], ['\r', '\n']), ([], ['\n']), (['b', '\r'], [])] := by
  have h : IsDecomposition [(['a', '\r'], ['\r', '\n']), ([], ['\n']), (['b', '\r'], [])] :=
    ⟨by decide, by decide, by decide, by decide⟩
  exact ⟨h, split_decomposes_uniquely.2 _ h⟩

end Line

end BuildTargets

import BuildTargets.Proofs.Toml.Comments.Values

/-!
# Comments in the outline of a document

The outline of a text has a place for every comment: in front of an entry or a header, in a value, behind
a clause, or behind the last of them (`sameIf_of_outline`).  From the outline the comments go into tables
with the entries and headers that they stand at (`gains_of_ofOutline?`).
-/

namespace BuildTargets.Toml

/-! ## What an outline keeps -/

/-- The comments that are kept with an entry. -/
def Entry.comments (e : Entry) : List Text := e.key.last.comments ++ e.value.comments

/-- The comments that are kept with a header and the entries below it. -/
def Section.comments (s : Section) : List Text :=
  Toml.comments s.before ++ Toml.comments s.after ++ s.entries.flatMap Entry.comments

/-- All comments that an outline keeps, in order. -/
def Outline.comments (o : Outline) : List Text :=
  o.entries.flatMap Entry.comments ++ o.sections.flatMap Section.comments ++
    Toml.comments o.trailing

/-- A value makes no other comments than those that are kept with it, on a line of its own. -/
structure Value.IsSound (v : Value) : Prop where
  before : ∀ c ∈ v.before, isMark c = false
  spelling : SealedBefore NoQuote v.spelling
  noQuote : NoQuote v.after
  after : SealedBefore BeginsLine v.after

/-- What stands around a header makes the comments there, on a line of its own. -/
structure Header.IsSound (h : Header) : Prop where
  before : Sealed h.before
  after : SealedBefore BeginsLine h.after

/-- What holds of the tables of a document. -/
def Rule.document : Rule where
  key k := k.IsSound ∧ k.comments = []
  value k v := k.IsSound ∧ v.IsSound
  kind kind := ∀ h, kind = .headed h ∨ kind = .element h → h.IsSound

/-- An entry that can be put into a document. -/
structure Entry.IsSound (e : Entry) : Prop where
  leading : ∀ k ∈ e.key.leading, Rule.document.key k
  value : Rule.document.value e.key.last e.value

/-- A section that can be put into a document. -/
structure Section.IsSound (s : Section) : Prop where
  key : ∀ k ∈ s.key.parts, Rule.document.key k
  header : ∀ place, Header.IsSound ⟨place, s.before, s.after⟩
  entries : ∀ e ∈ s.entries, e.IsSound

/-- An outline that can be made into tables. -/
structure Outline.IsSound (o : Outline) : Prop where
  entries : ∀ e ∈ o.entries, e.IsSound
  sections : ∀ s ∈ o.sections, s.IsSound

/-! ## Order -/

/-- An entry has a key of one part, and no comment stands in braces. -/
structure Entry.IsOrderly (e : Entry) : Prop where
  leading : e.key.leading = []
  braces : '\x7b' ∈ e.value.spelling → Toml.comments e.value.spelling = []

/-- All entries of an outline, also those below headers, are orderly. -/
structure Outline.IsOrderly (o : Outline) : Prop where
  entries : ∀ e ∈ o.entries, e.IsOrderly
  sections : ∀ s ∈ o.sections, ∀ e ∈ s.entries, e.IsOrderly

instance (e : Entry) : Decidable e.IsOrderly :=
  decidable_of_iff
    (e.key.leading = [] ∧ ('\x7b' ∈ e.value.spelling → Toml.comments e.value.spelling = []))
    ⟨fun h => ⟨h.1, h.2⟩, fun h => ⟨h.leading, h.braces⟩⟩

instance (o : Outline) : Decidable o.IsOrderly :=
  decidable_of_iff
    ((∀ e ∈ o.entries, e.IsOrderly) ∧ ∀ s ∈ o.sections, ∀ e ∈ s.entries, e.IsOrderly)
    ⟨fun h => ⟨h.1, h.2⟩, fun h => ⟨h.entries, h.sections⟩⟩

/-! ## Reading an outline -/

/-- The rest of a line does not begin with a quote. -/
theorem noQuote_of_lineRest {s taken rest : Text} (h : lineRest false s = some (taken, rest)) :
    NoQuote taken := by
  have hhead := head?_of_lineRest h
  constructor
  · intro hquote
    exact absurd (hhead _ hquote) (by decide)
  · intro hquote
    exact absurd (hhead _ hquote) (by decide)

/-- What was read as an entry is sound, and keeps the comments in front of it and on its line. -/
theorem of_entry?_comments {before s rest : Text} (hbefore : Sealed before)
    {change : Outline → Outline} (h : Outline.entry? before s = some (change, rest)) :
    ∃ e : Entry, change = Outline.consEntry e ∧ e.IsSound ∧ ∃ cs,
      comments before ++ comments s = cs ++ comments rest ∧ SameIf e.IsOrderly cs e.comments := by
  unfold Outline.entry? at h
  obtain ⟨⟨key, s₁⟩, hkey, h⟩ := Option.bind_eq_some_iff.1 h
  obtain ⟨s₂, hequals, h⟩ := Option.bind_eq_some_iff.1 h
  obtain ⟨⟨datum, spelled, s₃⟩, hspelled, h⟩ := Option.bind_eq_some_iff.1 h
  obtain ⟨⟨after, s₄⟩, hafter, h⟩ := Option.bind_eq_some_iff.1 h
  cases h
  obtain rfl : s₁ = '=' :: s₂ := after?_eq_some_iff.1 hequals
  obtain ⟨hs, hsound⟩ := isSound_of_read? hbefore hkey (noQuote_cons (by decide) s₂)
  obtain ⟨hsealed, cs, hcs, hspells⟩ := (keepsComments_reading mostNested).copies hspelled
  refine ⟨⟨key, ⟨datum, spelled, (spaces s₂).1, after⟩⟩, rfl, ⟨hsound.leading, hsound.last,
    fun c hc => isMark_of_mem_spaces hc, hsealed, noQuote_of_lineRest hafter,
    sealed_of_lineRest hafter⟩, comments before ++ (cs ++ comments after), ?_, ?_⟩
  · have hvalue : comments (spaces s₂).2 = cs ++ comments s₃ := hcs
    rw [hs, comments_cons (by decide), ← comments_spaces s₂, hvalue, comments_of_lineRest hafter]
    simp only [List.append_assoc]
  · rw [Entry.comments, hsound.comments]
    refine (SameIf.refl _ _).append (SameIf.append ⟨hspells.1, fun ho => ?_⟩ (SameIf.refl _ _))
    by_cases hbrace : '\x7b' ∈ spelled
    · -- With braces there is nothing whose order could change.
      have hnone : comments spelled = [] := ho.braces hbrace
      have hperm := hspells.1
      rw [hnone] at hperm ⊢
      exact hperm.eq_nil
    · exact hspells.2 hbrace

/-- What was read as a header is sound, and keeps the comments on its line. -/
theorem of_header?_comments {isElement : Bool} {before s rest : Text} {change : Outline → Outline}
    (h : Outline.header? isElement before s = some (change, rest)) :
    ∃ key after, change = Outline.consHeader isElement key before after ∧
      (∀ k ∈ key.parts, Rule.document.key k) ∧ SealedBefore BeginsLine after ∧
      comments s = comments after ++ comments rest := by
  unfold Outline.header? at h
  obtain ⟨⟨key, s₁⟩, hkey, h⟩ := Option.bind_eq_some_iff.1 h
  obtain ⟨s₂, hbrackets, h⟩ := Option.bind_eq_some_iff.1 h
  obtain ⟨⟨after, s₃⟩, hafter, h⟩ := Option.bind_eq_some_iff.1 h
  cases h
  obtain ⟨hquote, hclosing⟩ : NoQuote s₁ ∧ comments s₁ = comments s₂ := by
    rw [after?_eq_some_iff.1 hbrackets]
    have hmark : ∀ c ∈ if isElement then [']', ']'] else [']'], isMark c = false :=
      isMark_of_any (by cases isElement <;> rfl)
    refine ⟨?_, comments_append_of_isMark hmark s₂⟩
    cases isElement <;> exact noQuote_cons (by decide) _
  obtain ⟨hs, hsound⟩ := isSound_of_read? sealed_nil hkey hquote
  have hlast : key.last.comments = [] := by rw [hsound.comments, comments_nil]
  refine ⟨key, after, rfl, ?_, sealed_of_lineRest hafter, ?_⟩
  · rw [DottedKey.parts, List.forall_mem_append, List.forall_mem_singleton]
    exact ⟨hsound.leading, hsound.last, hlast⟩
  · rw [hs, hclosing, comments_of_lineRest hafter]

/-- A clause in front of what follows it adds its comments in front of those that follow. -/
theorem of_clause?_comments {before s rest : Text} (hbefore : Sealed before)
    {change : Outline → Outline} (h : Outline.clause? before s = some (change, rest)) {o : Outline}
    (ho : o.IsSound) (hrest : SameIf o.IsOrderly (comments rest) o.comments) :
    (change o).IsSound ∧
      SameIf (change o).IsOrderly (comments before ++ comments s) (change o).comments := by
  have hheader : ∀ {isElement t}, comments t = comments s →
      Outline.header? isElement before t = some (change, rest) → (change o).IsSound ∧
        SameIf (change o).IsOrderly (comments before ++ comments s) (change o).comments := by
    intro isElement t ht h
    obtain ⟨key, after, rfl, hkey, hafter, hs⟩ := of_header?_comments h
    refine ⟨⟨List.forall_mem_nil _, List.forall_mem_cons.2
      ⟨⟨hkey, fun _ => ⟨hbefore, hafter⟩, ho.entries⟩, ho.sections⟩⟩, ?_⟩
    have horderly : (Outline.consHeader isElement key before after o).IsOrderly → o.IsOrderly :=
      fun h => ⟨h.sections _ List.mem_cons_self, fun s hs => h.sections s (List.mem_cons_of_mem _ hs)⟩
    have hsame := (SameIf.refl (Outline.consHeader isElement key before after o).IsOrderly
      (comments before ++ comments after)).append (hrest.mono horderly)
    have hcomments : (Outline.consHeader isElement key before after o).comments =
        comments before ++ comments after ++ o.comments := by
      simp [Outline.consHeader, Outline.comments, Section.comments]
    rw [hcomments, ← ht, hs, ← List.append_assoc]
    exact hsame
  unfold Outline.clause? at h
  split at h
  · exact hheader (by rw [comments_cons (by decide), comments_cons (by decide)]) h
  · exact hheader (by rw [comments_cons (by decide)]) h
  · obtain ⟨e, rfl, he, cs, hcs, hsame⟩ := of_entry?_comments hbefore h
    refine ⟨⟨List.forall_mem_cons.2 ⟨he, ho.entries⟩, ho.sections⟩, ?_⟩
    have horderly : (Outline.consEntry e o).IsOrderly → e.IsOrderly ∧ o.IsOrderly := fun h =>
      ⟨h.entries e List.mem_cons_self, fun e he => h.entries e (List.mem_cons_of_mem _ he), h.sections⟩
    have hcomments : (Outline.consEntry e o).comments = e.comments ++ o.comments := by
      simp [Outline.consEntry, Outline.comments]
    rw [hcs, hcomments]
    exact (hsame.mono fun h => (horderly h).1).append (hrest.mono fun h => (horderly h).2)

/-- The outline of a text keeps all its comments, and those of an orderly one are in their order. -/
theorem sameIf_of_outline {s : Text} {o : Outline} (h : Outline.read? s = some o) :
    o.IsSound ∧ SameIf o.IsOrderly (comments s) o.comments := by
  fun_induction Outline.read? s generalizing o with
  | case1 => cases h
  | case2 s trailing htrivia =>
    cases h
    refine ⟨⟨List.forall_mem_nil _, List.forall_mem_nil _⟩, ?_⟩
    rw [comments_of_trivia htrivia, comments_nil, List.append_nil]
    exact SameIf.refl _ _
  | case3 => cases h
  | case4 s before t hne htrivia change rest hclause _ ih =>
    obtain ⟨o', ho', rfl⟩ := Option.map_eq_some_iff.1 h
    obtain ⟨hsound, hsame⟩ := ih ho'
    have ht : t ≠ [] := fun ht => hne ht
    rw [comments_of_trivia htrivia]
    exact of_clause?_comments (sealed_of_trivia htrivia ht) hclause hsound hsame
  | case5 => cases h

/-! ## Making tables -/

namespace Table

/-- Entries bring their comments into a table. -/
theorem gains_of_insertAll? {entries : List Entry} (he : ∀ e ∈ entries, e.IsSound) {t t' : Table}
    (h : insertAll? entries t = some t') :
    Gains Rule.document (entries.flatMap Entry.comments) t t' := by
  have hdotted : Rule.document.kind .dotted := by
    rintro header (h | h) <;> cases h
  induction entries generalizing t with
  | nil =>
    cases h
    exact Gains.refl _
  | cons e entries ih =>
    rw [insertAll?, List.foldlM_cons] at h
    obtain ⟨t₁, ht₁, h⟩ := Option.bind_eq_some_iff.1 h
    have hfirst := he e List.mem_cons_self
    rw [List.flatMap_cons]
    exact (gains_of_insert? hfirst.leading hdotted hfirst.value ht₁).trans
      (ih (fun e he' => he e (List.mem_cons_of_mem _ he')) h)

/-- A section brings its comments into the tables of a document. -/
theorem gains_of_addSection? {place : Nat} {s : Section} (hs : s.IsSound) {root root' : Table}
    (h : addSection? place s root = some root') :
    Gains Rule.document s.comments root root' := by
  have himplied : Rule.document.kind .implied := by
    rintro header (h | h) <;> cases h
  have hleading : ∀ k ∈ s.key.leading, Rule.document.key k := fun k hk =>
    hs.key k (List.mem_append_left _ hk)
  have hlast : Rule.document.key s.key.last :=
    hs.key _ (List.mem_append_right _ (List.mem_singleton_self _))
  unfold addSection? at h
  refine (isCongruence_gains himplied).within? (fun t t' hchange => ?_) hleading h
  split at hchange
  · obtain ⟨inner, hinner, hadd⟩ := Option.bind_eq_some_iff.1 hchange
    have hgains := gains_of_insertAll? hs.entries hinner
    have hheader : Rule.document.kind (.element ⟨place, s.before, s.after⟩) := by
      rintro header (h | h) <;> cases h
      exact hs.header place
    have hadded := gains_of_addElement? hlast hheader (hgains.meets trivial) hadd
    refine ⟨hadded.meets, hadded.comments.trans (List.Perm.append_right _ ?_)⟩
    refine List.Perm.append_left _ (hgains.comments.trans ?_)
    rw [comments, List.append_nil]
  · obtain ⟨⟨found, t₁⟩, htake, hchange⟩ := Option.bind_eq_some_iff.1 hchange
    obtain ⟨inner, hinner, hchange⟩ := Option.bind_eq_some_iff.1 hchange
    cases hchange
    have hgains := gains_of_insertAll? hs.entries hinner
    have hheader : Rule.document.kind (.headed ⟨place, s.before, s.after⟩) := by
      rintro header (h | h) <;> cases h
      exact hs.header place
    obtain ⟨hmeets, hperm⟩ := of_takeImplied? (r := Rule.document) htake
    refine ⟨fun ht => ?_, List.perm_iff_count.2 fun c => ?_⟩
    · obtain ⟨hfound, hrest⟩ := hmeets ht
      exact meets_append hrest ⟨hlast, hheader, hgains.meets hfound, trivial⟩
    · have hcount := hgains.comments.count_eq c
      have htaken := hperm.count_eq c
      simp only [comments_append, comments, Section.comments, Kind.comments, List.count_append,
        List.count_nil] at hcount htaken ⊢
      omega

/-- The tables of an outline meet what is demanded of a document, and keep the comments of its entries
and sections. -/
theorem gains_of_ofOutline? {o : Outline} (ho : o.IsSound) {root : Table}
    (h : ofOutline? o = some root) :
    Gains Rule.document (o.entries.flatMap Entry.comments ++ o.sections.flatMap Section.comments)
      empty root := by
  unfold ofOutline? at h
  obtain ⟨t, ht, h⟩ := Option.bind_eq_some_iff.1 h
  refine (gains_of_insertAll? ho.entries ht).trans ?_
  have hsections := ho.sections
  clear ht ho
  generalize o.sections = sections at h hsections ⊢
  generalize 1 = place at h
  induction sections generalizing t place with
  | nil =>
    cases h
    exact Gains.refl _
  | cons s sections ih =>
    rw [List.zipIdx_cons, List.foldlM_cons] at h
    obtain ⟨t₁, ht₁, h⟩ := Option.bind_eq_some_iff.1 h
    rw [List.flatMap_cons]
    exact (gains_of_addSection? (hsections s List.mem_cons_self) ht₁).trans
      (ih _ (fun s hs => hsections s (List.mem_cons_of_mem _ hs)) _ h)

end Table

end BuildTargets.Toml

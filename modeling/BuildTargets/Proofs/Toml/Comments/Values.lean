import BuildTargets.Proofs.Toml.Comments.Tables

/-!
# Comments in values

Arrays may hold comments, and tables in braces hold those of their values.  A value keeps all comments of
the text that it was read from in its spelling (`keepsComments_reading`).  They keep their order too, but
for tables in braces, which are spelled with their entries in an order of their own.
-/

namespace BuildTargets.Toml

/-! ## Spellings -/

/-- Two lists are the same but for the order, and also in their order under a condition. -/
def SameIf (P : Prop) (l l' : List Text) : Prop := l.Perm l' ∧ (P → l = l')

theorem SameIf.refl (P : Prop) (l : List Text) : SameIf P l l := ⟨List.Perm.refl l, fun _ => rfl⟩

theorem SameIf.mono {P Q : Prop} {l l' : List Text} (h : SameIf P l l') (hPQ : Q → P) :
    SameIf Q l l' :=
  ⟨h.1, fun hQ => h.2 (hPQ hQ)⟩

theorem SameIf.append {P : Prop} {l₁ l₁' l₂ l₂' : List Text} (h₁ : SameIf P l₁ l₁')
    (h₂ : SameIf P l₂ l₂') : SameIf P (l₁ ++ l₂) (l₁' ++ l₂') :=
  ⟨h₁.1.append h₂.1, fun hP => by rw [h₁.2 hP, h₂.2 hP]⟩

/-- The given comments are those of a spelling, and stand there in their order unless there are braces. -/
def Spells (cs : List Text) (spelled : Text) : Prop :=
  SameIf ('\x7b' ∉ spelled) cs (comments spelled)

theorem Spells.append {cs cs' : List Text} {u v : Text} (hu : Spells cs u) (hv : Spells cs' v)
    (h : comments (u ++ v) = comments u ++ comments v) : Spells (cs ++ cs') (u ++ v) := by
  rw [Spells, h]
  have hbrace : '\x7b' ∉ u ++ v → '\x7b' ∉ u ∧ '\x7b' ∉ v := by
    intro hbrace
    rwa [List.mem_append, not_or] at hbrace
  exact (hu.mono fun h => (hbrace h).1).append (hv.mono fun h => (hbrace h).2)

/-- A piece has all comments that stand in a text in front of its rest, and is sealed before texts of a
kind. -/
def Copies (P : Text → Prop) (s rest u : Text) : Prop :=
  SealedBefore P u ∧ ∃ cs, comments s = cs ++ comments rest ∧ Spells cs u

theorem Copies.append {P Q : Text → Prop} {s t rest u v : Text} (hu : Copies P s t u)
    (hv : Copies Q t rest v) (h : ∀ r, Q r → P (v ++ r)) (hnil : P v) : Copies Q s rest (u ++ v) := by
  obtain ⟨husealed, cs, hs, hcs⟩ := hu
  obtain ⟨hvsealed, cs', ht, hcs'⟩ := hv
  refine ⟨husealed.append hvsealed h hnil, cs ++ cs', ?_, hcs.append hcs' (husealed v hnil)⟩
  rw [hs, ht, List.append_assoc]

theorem copies_cons {c : Char} (hc : isMark c = false) (s : Text) :
    Copies (fun _ => True) (c :: s) s [c] := by
  have hmark : ∀ d ∈ [c], isMark d = false := List.forall_mem_singleton.2 hc
  refine ⟨sealed_of_isMark hmark, comments [c], ?_, SameIf.refl _ _⟩
  rw [comments_of_isMark hmark, comments_cons hc, List.nil_append]

theorem copies_of_trivia {s taken rest : Text} (h : trivia false s = some (taken, rest))
    (hrest : rest ≠ []) : Copies (fun _ => True) s rest taken :=
  ⟨sealed_of_trivia h hrest, comments taken, comments_of_trivia h, SameIf.refl _ _⟩

/-- A reader of values keeps the comments of what it takes in the spelling, and needs something to read. -/
structure KeepsComments (read : Text → Reading) : Prop where
  nil : read [] = none
  copies : ∀ {s spelled rest : Text} {d : Datum}, read s = some (d, spelled, rest) →
    Copies NoQuote s rest spelled

/-! ## Arrays -/

/-- No quote stands between two clauses. -/
theorem noQuote_of_trivia {s taken rest : Text} (h : trivia false s = some (taken, rest)) :
    NoQuote taken := by
  unfold trivia at h
  split at h
  · cases h
    exact noQuote_nil
  · obtain ⟨t, -, rfl⟩ := consTaken_eq_some_iff.1 h
    exact noQuote_cons (by decide) t
  · next c s _ =>
    split at h
    · next hfeed =>
      obtain ⟨t, -, rfl⟩ := consTaken_eq_some_iff.1 h
      exact noQuote_cons (by rw [hfeed]; decide) t
    · rw [if_neg Bool.false_ne_true] at h
      split at h
      · next hhash =>
        obtain ⟨t, -, rfl⟩ := consTaken_eq_some_iff.1 h
        rw [hhash]
        exact ⟨by simp, by simp⟩
      · split at h
        · next hspace =>
          obtain ⟨t, -, rfl⟩ := consTaken_eq_some_iff.1 h
          exact noQuote_cons (isMark_of_isSpace hspace) t
        · cases h
          exact noQuote_nil

/-- What stands behind a member of an array, up to the bracket or the comma. -/
theorem copies_after {s after rest : Text} {c : Char} (h : trivia false s = some (after, c :: rest))
    (hc : isMark c = false) :
    Copies (fun _ => True) s rest (after ++ [c]) ∧ ∀ r, NoQuote (after ++ [c] ++ r) := by
  refine ⟨(copies_of_trivia h (List.cons_ne_nil c rest)).append (copies_cons hc rest)
    (fun _ _ => trivial) trivial, fun r => ?_⟩
  rw [List.append_assoc]
  exact (noQuote_of_trivia h).append (noQuote_cons hc r)

/-- A member of an array, with what stands around it. -/
theorem copies_member {read : Text → Reading} (hread : KeepsComments read) {s before s₁ : Text}
    (hbefore : trivia false s = some (before, s₁)) {d : Datum} {spelled s₂ : Text}
    (hspelled : read s₁ = some (d, spelled, s₂)) {after : Text} {c : Char} {rest : Text}
    (hafter : trivia false s₂ = some (after, c :: rest)) (hc : isMark c = false) :
    Copies (fun _ => True) s rest (before ++ (spelled ++ (after ++ [c]))) := by
  have hne : s₁ ≠ [] := by
    rintro rfl
    rw [hread.nil] at hspelled
    cases hspelled
  obtain ⟨hcopies, hquote⟩ := copies_after hafter hc
  have hnil : NoQuote (after ++ [c]) := by
    have h := hquote []
    rwa [List.append_nil] at h
  exact (copies_of_trivia hbefore hne).append
    ((hread.copies hspelled).append hcopies (fun r _ => hquote r) hnil) (fun _ _ => trivial) trivial

/-- An array keeps the comments between its members and those in them. -/
theorem copies_of_members? {read : Text → Reading} (hread : KeepsComments read) {s spelled rest : Text}
    (h : members? read s = some (spelled, rest)) : Copies (fun _ => True) s rest spelled := by
  fun_induction members? read s generalizing spelled with
  | case1 => cases h
  | case2 s before rest' hbefore =>
    cases h
    exact (copies_after hbefore (by decide)).1
  | case3 => cases h
  | case4 => cases h
  | case5 s before s₁ _ hbefore d spelled₁ s₂ hspelled after rest' hafter =>
    cases h
    have hmember := copies_member hread hbefore hspelled hafter (by decide)
    simpa using hmember
  | case6 s before s₁ _ hbefore d spelled₁ s₂ hspelled after s₃ hafter _ ih =>
    obtain ⟨⟨others, rest'⟩, hothers, he⟩ := Option.map_eq_some_iff.1 h
    cases he
    have hmember := copies_member hread hbefore hspelled hafter (by decide)
    have hall := hmember.append (ih hothers) (fun _ _ => trivial) trivial
    simpa using hall
  | case7 => cases h
  | case8 => cases h

/-! ## Tables in braces -/

/-- What holds of a table in braces: no comment stands around its keys or behind its values, and tables
in it have been made by dotted keys. -/
def Rule.inline : Rule where
  key k := k.IsSound ∧ k.comments = []
  value k v := (k.IsSound ∧ k.comments = []) ∧ (∀ c ∈ v.before, isMark c = false) ∧
    SealedBefore NoQuote v.spelling ∧ ∀ c ∈ v.after, isMark c = false
  kind kind := kind = .dotted

/-- An entry is written with its comments, before what may follow it. -/
theorem comments_entryText {e : List Key × Value} (hkeys : ∀ k ∈ e.1, k.IsSound)
    (hbefore : ∀ c ∈ e.2.before, isMark c = false) (hspelling : SealedBefore NoQuote e.2.spelling)
    {P : Text → Prop} (hafter : SealedBefore P e.2.after) {s : Text} (hs : P s)
    (hquote : NoQuote (e.2.after ++ s)) :
    comments (Table.entryText e ++ s) = Table.entryComments e ++ comments s := by
  have hspace : ∀ c ∈ [' '], isMark c = false := List.forall_mem_singleton.2 rfl
  have htext : Table.entryText e ++ s = Key.text ([], [' ']) e.1 ++
      '=' :: (e.2.before ++ (e.2.spelling ++ (e.2.after ++ s))) := by
    simp [Table.entryText]
  rw [htext, comments_keyText hkeys (List.forall_mem_nil _) hspace (noQuote_cons (by decide) _),
    comments_cons (by decide), comments_append_of_isMark hbefore, hspelling _ hquote, hafter s hs,
    Table.entryComments, Value.comments]
  simp only [List.append_assoc]

/-- What is read as an entry of a table in braces is as the table demands, and keeps its comments. -/
theorem of_pair? {read : Text → Reading} (hread : KeepsComments read) {s rest : Text}
    {key : DottedKey} {v : Value} (h : pair? read s = some (key, v, rest)) :
    (∀ k ∈ key.leading, Rule.inline.key k) ∧ Rule.inline.value key.last v ∧
      ∃ cs, comments s = cs ++ comments rest ∧ cs.Perm (key.last.comments ++ v.comments) := by
  unfold pair? at h
  split at h
  · next s₁ hkey =>
    simp only at h
    split at h
    · cases h
    · next datum spelled s₃ hspelled =>
      cases h
      obtain ⟨hs, hsound⟩ := isSound_of_read? sealed_nil hkey (noQuote_cons (by decide) s₁)
      obtain ⟨hsealed, cs, hcs, hspells⟩ := hread.copies hspelled
      have hlast : key.last.comments = [] := by rw [hsound.comments, comments_nil]
      have hafter : ∀ c ∈ (spaces s₃).1, isMark c = false := fun c hc => isMark_of_mem_spaces hc
      refine ⟨hsound.leading, ⟨⟨hsound.last, hlast⟩, fun c hc => isMark_of_mem_spaces hc, hsealed,
        hafter⟩, cs, ?_, ?_⟩
      · rw [hs, comments_cons (by decide), ← comments_spaces s₁, hcs, comments_spaces]
      · rw [hlast, Value.comments, comments_of_isMark hafter, List.nil_append, List.append_nil]
        exact hspells.1
  · cases h

/-- The entries of a table in braces bring their comments with them. -/
theorem of_pairs? {read : Text → Reading} (hread : KeepsComments read) {t t' : Table}
    (ht : t.Meets Rule.inline) {s rest : Text} (h : pairs? read t s = some (t', rest)) :
    t'.Meets Rule.inline ∧
      ∃ cs, comments s = cs ++ comments rest ∧ t'.comments.Perm (cs ++ t.comments) := by
  fun_induction pairs? read t s with
  | case1 => cases h
  | case2 t s key v t₁ rest' hinsert hpair =>
    cases h
    obtain ⟨hleading, hvalue, cs, hcs, hperm⟩ := of_pair? hread hpair
    have hgains := Table.gains_of_insert? hleading rfl hvalue hinsert
    refine ⟨hgains.meets ht, cs, by rw [hcs, comments_cons (by decide)], hgains.comments.trans ?_⟩
    exact hperm.symm.append_right _
  | case3 t s key v t₁ s₂ hinsert _ hpair ih =>
    obtain ⟨hleading, hvalue, cs, hcs, hperm⟩ := of_pair? hread hpair
    have hgains := Table.gains_of_insert? hleading rfl hvalue hinsert
    obtain ⟨hmeets, cs', hcs', hperm'⟩ := ih (hgains.meets ht) h
    refine ⟨hmeets, cs ++ cs', by rw [hcs, comments_cons (by decide), hcs', List.append_assoc], ?_⟩
    have hfirst : t₁.comments.Perm (cs ++ t.comments) :=
      hgains.comments.trans (hperm.symm.append_right _)
    rw [List.append_assoc]
    exact hperm'.trans (Table.perm_append_of_perm cs' hfirst)
  | case4 => cases h
  | case5 => cases h

/-- A table in braces holds nothing besides its values. -/
theorem ownComments_of_inline {t : Table} (ht : t.Meets Rule.inline) : t.ownComments = t.comments := by
  induction t with
  | empty => rfl
  | value k v rest ih => rw [Table.ownComments, Table.comments, ih ht.2]
  | table k kind inner rest ihInner ihRest =>
    obtain ⟨-, rfl, hinner, hrest⟩ := ht
    rw [Table.ownComments, Table.comments, if_pos rfl, Kind.comments, ihInner hinner, ihRest hrest,
      List.nil_append]

/-- Entries with commas between them are written with their comments, in front of a brace. -/
theorem comments_joinWith {l : List (List Key × Value)}
    (hl : ∀ e ∈ l, ∀ c s, isMark c = false →
      comments (Table.entryText e ++ c :: s) = Table.entryComments e ++ comments s) (s : Text) :
    comments (joinWith [','] (l.map Table.entryText) ++ '\x7d' :: s) =
      l.flatMap Table.entryComments ++ comments s := by
  induction l with
  | nil => exact comments_cons (by decide) s
  | cons e l ih =>
    have he := hl e List.mem_cons_self
    have ih := ih fun e he => hl e (List.mem_cons_of_mem _ he)
    cases l with
    | nil =>
      rw [List.flatMap_cons, List.flatMap_nil, List.append_nil]
      exact he _ s (by decide)
    | cons e' l =>
      have htext : joinWith [','] ((e :: e' :: l).map Table.entryText) ++ '\x7d' :: s =
          Table.entryText e ++ ',' :: (joinWith [','] ((e' :: l).map Table.entryText) ++ '\x7d' :: s) := by
        simp [joinWith]
      rw [htext, he _ _ (by decide), ih, List.flatMap_cons (x := e), List.append_assoc]

/-- A table in braces is written with its comments, whatever follows. -/
theorem comments_bracesText {t : Table} (ht : t.Meets Rule.inline) (s : Text) :
    comments (bracesText t ++ s) = t.comments ++ comments s := by
  have hvalues : ∀ e ∈ t.values [], ∀ c s, isMark c = false →
      comments (Table.entryText e ++ c :: s) = Table.entryComments e ++ comments s := by
    intro e he c s hc
    have hkey : ∀ k, Rule.inline.key k → k.IsSound := fun k hk => hk.1
    have hvalue : ∀ k v, Rule.inline.value k v → k.IsSound := fun k v hk => hk.1.1
    obtain ⟨hkeys, k, -, hbefore, hspelling, hafter⟩ :=
      Table.of_mem_values hkey hvalue ht (List.forall_mem_nil _) he
    rw [comments_entryText hkeys hbefore hspelling (sealed_of_isMark hafter) trivial
      (noQuote_append hafter (noQuote_cons hc s)), comments_cons hc]
  have htext : bracesText t ++ s =
      '\x7b' :: (joinWith [','] ((t.values []).map Table.entryText) ++ '\x7d' :: s) := by
    simp [bracesText]
  rw [htext, comments_cons (by decide), comments_joinWith hvalues, Table.flatMap_values,
    ownComments_of_inline ht]

/-- A table in braces keeps the comments of its values, though not in their order. -/
theorem copies_of_braces? {read : Text → Reading} (hread : KeepsComments read) {s spelled rest : Text}
    {d : Datum} (h : braces? read s = some (d, spelled, rest)) :
    Copies (fun _ => True) ('\x7b' :: s) rest spelled := by
  unfold braces? at h
  split at h
  · next blanks rest' hspaces =>
    cases h
    have hblanks : ∀ c ∈ '\x7b' :: blanks ++ ['\x7d'], isMark c = false := by
      have hmem : ∀ c ∈ (spaces s).1, isMark c = false := fun c hc => isMark_of_mem_spaces hc
      rw [hspaces] at hmem
      simp only [List.cons_append, List.forall_mem_cons, List.forall_mem_append]
      exact ⟨by decide, hmem, by decide, List.forall_mem_nil _⟩
    have hs : comments ('\x7b' :: s) = comments rest := by
      rw [comments_cons (by decide), ← comments_spaces s, hspaces, comments_cons (by decide)]
    refine ⟨sealed_of_isMark hblanks, [], by rw [hs, List.nil_append], ?_⟩
    have hspells : Spells (comments ('\x7b' :: blanks ++ ['\x7d'])) _ := SameIf.refl _ _
    rwa [comments_of_isMark hblanks] at hspells
  · obtain ⟨⟨t, rest'⟩, ht, he⟩ := Option.map_eq_some_iff.1 h
    cases he
    obtain ⟨hmeets, cs, hcs, hperm⟩ := of_pairs? hread (t := .empty) trivial ht
    have hwritten := comments_bracesText hmeets
    have halone : comments (bracesText t) = t.comments := by
      have h := hwritten []
      rwa [List.append_nil, comments_nil, List.append_nil] at h
    refine ⟨fun s _ => by rw [hwritten, halone], cs, by rw [comments_cons (by decide), hcs], ?_,
      fun hbrace => absurd List.mem_cons_self hbrace⟩
    rw [halone]
    exact (hperm.trans (by rw [Table.comments, List.append_nil])).symm

/-! ## All values -/

/-- A value that holds no others is spelled without comments. -/
theorem copies_of_scalar? {s spelled rest : Text} {d : Datum}
    (h : (scalar? s).map (fun (datum, rest) => (datum, spelling s rest, rest)) =
      some (d, spelled, rest)) : Copies NoQuote s rest spelled := by
  obtain ⟨⟨d', r⟩, hscalar, he⟩ := Option.map_eq_some_iff.1 h
  cases he
  obtain ⟨u, hu, hsilent, hs⟩ := exists_of_scalar?_comments hscalar
  have hspelled : spelling s rest = u := by rw [hu, spelling_append]
  have hspells : Spells (comments u) u := SameIf.refl _ _
  rw [hsilent.comments_eq_nil] at hspells
  rw [hspelled]
  exact ⟨hsilent.sealedBefore, [], by rw [hs, List.nil_append], hspells⟩

/-- A value keeps its comments in its spelling, however deep it is nested. -/
theorem keepsComments_reading (depth : Nat) : KeepsComments (reading depth) := by
  induction depth with
  | zero => exact ⟨rfl, fun h => copies_of_scalar? h⟩
  | succ depth ih =>
    refine ⟨rfl, fun {s spelled rest d} h => ?_⟩
    have hmono : ∀ {s rest u : Text}, Copies (fun _ => True) s rest u → Copies NoQuote s rest u :=
      fun hcopies => ⟨hcopies.1.mono fun _ _ => trivial, hcopies.2⟩
    rw [reading.eq_def] at h
    split at h
    · next depth' t heq =>
      cases heq
      obtain ⟨⟨members, r⟩, hmembers, he⟩ := Option.map_eq_some_iff.1 h
      cases he
      exact hmono ((copies_cons (by decide) t).append (copies_of_members? ih hmembers)
        (fun _ _ => trivial) trivial)
    · next depth' t heq =>
      cases heq
      exact hmono (copies_of_braces? ih h)
    · exact copies_of_scalar? h

end BuildTargets.Toml

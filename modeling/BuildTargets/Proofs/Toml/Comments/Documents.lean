import BuildTargets.Proofs.Toml.Comments.Outlines

/-!
# Comments of a written document

A document is written with all comments that its tables keep: first those of the values at its top, then
section by section in the order of the headers (`comments_documentText`).  So a text that is read and
written again has the comments that it had, though perhaps in another order (`perm_documentText`).
-/

namespace BuildTargets.Toml

open Table

/-! ## Sections -/

/-- Pieces one after the other have the comments of each. -/
theorem comments_flatMap {α : Type} {l : List α} {f : α → Text} {g : α → List Text}
    (hl : ∀ a ∈ l, ∀ s, comments (f a ++ s) = g a ++ comments s) (s : Text) :
    comments (l.flatMap f ++ s) = l.flatMap g ++ comments s := by
  induction l with
  | nil => rfl
  | cons a l ih =>
    rw [List.flatMap_cons, List.append_assoc, hl a List.mem_cons_self,
      ih fun a ha => hl a (List.mem_cons_of_mem _ ha), List.flatMap_cons, List.append_assoc]

/-- The entries of a table are written with their comments, whatever follows. -/
theorem comments_entriesText {t : Table} (ht : t.Meets Rule.document) (s : Text) :
    comments (Document.entriesText t ++ s) = t.ownComments ++ comments s := by
  have hline : ∀ e ∈ t.values [], ∀ s, comments (entryText e ++ ['\n'] ++ s) =
      entryComments e ++ comments s := by
    intro e he s
    have hkey : ∀ k, Rule.document.key k → k.IsSound := fun k hk => hk.1
    have hvalue : ∀ k v, Rule.document.value k v → k.IsSound := fun k v hk => hk.1
    obtain ⟨hkeys, k, -, hv⟩ := of_mem_values hkey hvalue ht (List.forall_mem_nil _) he
    have hquote : NoQuote (e.2.after ++ '\n' :: s) := hv.noQuote.append (noQuote_cons (by decide) s)
    rw [List.append_assoc, List.singleton_append,
      comments_entryText hkeys hv.before hv.spelling hv.after ⟨s, rfl⟩ hquote,
      comments_cons (by decide)]
  rw [← flatMap_values []]
  exact comments_flatMap hline s

/-- The path of a section is written without comments. -/
theorem comments_path {path : List Key} (hpath : ∀ k ∈ path, Rule.document.key k) {s : Text}
    (hs : NoQuote s) : comments (Key.text ([], []) path ++ s) = comments s := by
  rw [comments_keyText (fun k hk => (hpath k hk).1) (List.forall_mem_nil _) (List.forall_mem_nil _) hs]
  cases hlast : path.getLast? with
  | none => rfl
  | some k => rw [Option.elim_some, (hpath k (List.mem_of_getLast? hlast)).2, List.nil_append]

/-- A section is written with the comments around its header and those of its entries, whatever
follows. -/
theorem comments_sectionText {path : List Key} (hpath : ∀ k ∈ path, Rule.document.key k) {kind : Kind}
    (hkind : Rule.document.kind kind) (hdotted : kind ≠ .dotted) {t : Table}
    (ht : t.Meets Rule.document) (s : Text) :
    comments (Document.sectionText path kind t ++ s) = kind.comments ++ t.ownComments ++ comments s := by
  have hmark : isMark '[' = false ∧ isMark ']' = false ∧ isMark '\n' = false := by decide
  obtain ⟨hopen, hclose, hfeed⟩ := hmark
  have hentries := comments_entriesText ht s
  cases kind with
  | headed h =>
    have hh := hkind h (Or.inl rfl)
    have htext : Document.sectionText path (.headed h) t ++ s = h.before ++ '[' ::
        (Key.text ([], []) path ++ ']' :: (h.after ++ '\n' :: (Document.entriesText t ++ s))) := by
      simp [Document.sectionText]
    rw [htext, hh.before.comments_append, comments_cons hopen, comments_path hpath (noQuote_cons hclose _),
      comments_cons hclose, hh.after _ ⟨_, rfl⟩, comments_cons hfeed, hentries, Kind.comments]
    simp only [List.append_assoc]
  | element h =>
    have hh := hkind h (Or.inr rfl)
    have htext : Document.sectionText path (.element h) t ++ s = h.before ++ '[' :: '[' ::
        (Key.text ([], []) path ++ ']' :: ']' ::
          (h.after ++ '\n' :: (Document.entriesText t ++ s))) := by
      simp [Document.sectionText]
    rw [htext, hh.before.comments_append, comments_cons hopen, comments_cons hopen,
      comments_path hpath (noQuote_cons hclose _), comments_cons hclose, comments_cons hclose,
      hh.after _ ⟨_, rfl⟩, comments_cons hfeed, hentries, Kind.comments]
    simp only [List.append_assoc]
  | implied =>
    rw [Kind.comments, List.nil_append]
    by_cases hempty : t.values [] = []
    · have hnone : t.ownComments = [] := by rw [← flatMap_values [], hempty, List.flatMap_nil]
      rw [hnone]
      simp [Document.sectionText, hempty]
    · have htext : Document.sectionText path .implied t ++ s =
          '\n' :: '[' :: (Key.text ([], []) path ++ ']' :: '\n' :: (Document.entriesText t ++ s)) := by
        simp [Document.sectionText, hempty]
      rw [htext, comments_cons hfeed, comments_cons hopen, comments_path hpath (noQuote_cons hclose _),
        comments_cons hclose, comments_cons hfeed, hentries]
  | dotted => exact absurd rfl hdotted

/-! ## Whole documents -/

/-- The sections of a document in the order in which they are written, each with its place. -/
def Document.ordered (d : Document) : List (Nat × Text) :=
  (Document.placed 0 (d.root.sections [])).mergeSort fun a b => a.1 ≤ b.1

/-- The place of a section; one without a header has that of the section before. -/
def Kind.place (last : Nat) : Kind → Nat
  | headed h | element h => h.place
  | implied | dotted => last

theorem placed_cons (last : Nat) (s : List Key × Kind × Table) (l : List (List Key × Kind × Table)) :
    Document.placed last (s :: l) =
      (s.2.1.place last, Document.sectionText s.1 s.2.1 s.2.2) ::
        Document.placed (s.2.1.place last) l := by
  obtain ⟨path, kind, t⟩ := s
  cases kind <;> rfl

/-- The comments that are kept with sections, each with its place. -/
def placedComments (last : Nat) : List (List Key × Kind × Table) → List (Nat × List Text)
  | [] => []
  | s :: l => (s.2.1.place last, sectionComments s) :: placedComments (s.2.1.place last) l

theorem map_snd_placedComments (last : Nat) (l : List (List Key × Kind × Table)) :
    (placedComments last l).map (·.2) = l.map sectionComments := by
  induction l generalizing last with
  | nil => rfl
  | cons s l ih => rw [placedComments, List.map_cons, List.map_cons, ih]

/-- What is written for a section stands alone, and has the comments that are kept with it. -/
theorem map_placed (last : Nat) {l : List (List Key × Kind × Table)}
    (hl : ∀ s ∈ l, (∀ k ∈ s.1, Rule.document.key k) ∧ Rule.document.kind s.2.1 ∧ s.2.1 ≠ .dotted ∧
      s.2.2.Meets Rule.document) :
    (Document.placed last l).map (fun p => (p.1, comments p.2)) = placedComments last l ∧
      ∀ p ∈ Document.placed last l, Sealed p.2 := by
  induction l generalizing last with
  | nil => exact ⟨rfl, List.forall_mem_nil _⟩
  | cons s l ih =>
    obtain ⟨hpath, hkind, hdotted, ht⟩ := hl s List.mem_cons_self
    have hwritten := comments_sectionText hpath hkind hdotted ht
    have halone := hwritten []
    rw [List.append_nil, comments_nil, List.append_nil] at halone
    have hsealed : Sealed (Document.sectionText s.1 s.2.1 s.2.2) := fun r _ => by
      rw [hwritten, halone]
    obtain ⟨hmap, hall⟩ := ih (s.2.1.place last) fun s hs => hl s (List.mem_cons_of_mem _ hs)
    rw [placed_cons]
    refine ⟨?_, List.forall_mem_cons.2 ⟨hsealed, hall⟩⟩
    rw [List.map_cons, hmap, halone, placedComments, sectionComments]

/-- A document is written with the comments of the values at its top, of its sections in their order,
and of what stands behind the last of them. -/
theorem comments_documentText {d : Document} (hd : d.root.Meets Rule.document) :
    comments d.text = d.root.ownComments ++ (d.ordered.flatMap fun p => comments p.2) ++
      comments d.trailing := by
  have hsections := fun s hs => of_mem_sections (s := s) hd (List.forall_mem_nil _) hs
  have hordered : ∀ p ∈ d.ordered, ∀ s, comments (p.2 ++ s) = comments p.2 ++ comments s := by
    intro p hp s
    have hp' : p ∈ Document.placed 0 (d.root.sections []) := (List.mergeSort_perm _ _).mem_iff.1 hp
    exact ((map_placed 0 hsections).2 p hp').comments_append s
  have htext : d.text = Document.entriesText d.root ++ (d.ordered.flatMap (·.2) ++ d.trailing) := by
    simp [Document.text, Document.ordered]
  rw [htext, comments_entriesText hd, comments_flatMap hordered, List.append_assoc]

/-- A document is written with all comments that its tables keep. -/
theorem perm_documentText {d : Document} (hd : d.root.Meets Rule.document) :
    (comments d.text).Perm (d.root.comments ++ comments d.trailing) := by
  have hsections := fun s hs => of_mem_sections (s := s) hd (List.forall_mem_nil _) hs
  have hordered : (d.ordered.flatMap fun p => comments p.2).Perm
      ((d.root.sections []).flatMap sectionComments) := by
    have hplaced : (Document.placed 0 (d.root.sections [])).map (fun p => comments p.2) =
        (d.root.sections []).map sectionComments := by
      rw [← map_snd_placedComments 0, ← (map_placed 0 hsections).1, List.map_map]
      rfl
    rw [List.flatMap_def (f := sectionComments), ← hplaced, ← List.flatMap_def]
    exact (List.mergeSort_perm _ _).flatMap_right _
  rw [comments_documentText hd]
  exact ((hordered.append_left _).trans (perm_sections [] d.root).symm).append_right _

end BuildTargets.Toml

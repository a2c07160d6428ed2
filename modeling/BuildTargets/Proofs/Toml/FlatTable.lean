import BuildTargets.Proofs.Toml.Entries

/-!
# Flat documents

A document is flat if it holds nothing but values under keys of one part, which is the form of every
document that settings can be read from.  A flat table is a list of entries with different names
(`Table.flat`), and a text that spells one has an entry in it for each and no headers
(`exists_of_ofOutline?_flat`).  Putting a value into a flat document and writing it gives a text that
spells the document so changed (`read?_text_put`).
-/

namespace BuildTargets.Toml

namespace Table

/-! ## Flat tables -/

/-- The table that holds the given values. -/
def flat : List (Key × Value) → Table
  | [] => empty
  | e :: l => value e.1 e.2 (flat l)

/-- Whether a table holds values only. -/
def isFlat : Table → Bool
  | empty => true
  | value _ _ rest => isFlat rest
  | table .. => false

@[simp] theorem isFlat_flat (l : List (Key × Value)) : (flat l).isFlat = true := by
  induction l with
  | nil => rfl
  | cons e l ih => exact ih

/-- The values of a flat table stand in it themselves. -/
theorem values_flat (l : List (Key × Value)) :
    (flat l).values [] = l.map fun e => ([e.1], e.2) := by
  induction l with
  | nil => rfl
  | cons e l ih =>
    rw [flat, values, ih]
    rfl

/-- There is no table inside a flat one. -/
theorem sections_flat (l : List (Key × Value)) : (flat l).sections [] = [] := by
  induction l with
  | nil => rfl
  | cons e l ih => exact ih

/-! ## Adding a value -/

/-- A value under a new name goes to the end of a flat table. -/
theorem insert?_flat {l : List (Key × Value)} {k : Key} (hk : k.name ∉ l.map (·.1.name))
    (v : Value) : (flat l).insert? v [] k = some (flat (l ++ [(k, v)])) := by
  induction l with
  | nil => rfl
  | cons e l ih =>
    rw [List.map_cons, List.mem_cons, not_or] at hk
    have hne : ¬e.1.name = (([] : List Key).head?.getD k).name := fun h => hk.1 h.symm
    rw [flat, insert?, if_neg hne, ih hk.2]
    rfl

/-- A table that has become flat by the addition of a value was flat, and the value went to its end,
under a key of one part and a new name. -/
theorem exists_of_insert?_flat {t : Table} {v : Value} {leading : List Key} {last : Key}
    {l' : List (Key × Value)} (h : t.insert? v leading last = some (flat l')) :
    leading = [] ∧ ∃ l, t = flat l ∧ l' = l ++ [(last, v)] ∧ last.name ∉ l.map (·.1.name) := by
  induction t generalizing l' with
  | empty =>
    cases leading with
    | nil =>
      match l' with
      | [] => cases h
      | [e] =>
        cases h
        exact ⟨rfl, [], rfl, rfl, by simp⟩
      | e :: e' :: l' => cases h
    | cons k leading => cases l' <;> cases h
  | value k w rest ih =>
    rw [insert?] at h
    split at h
    · cases h
    · next hne =>
      obtain ⟨t', ht', he⟩ := Option.map_eq_some_iff.1 h
      cases l' with
      | nil => cases he
      | cons e l' =>
        cases he
        obtain ⟨rfl, l, rfl, rfl, hnew⟩ := ih ht'
        refine ⟨rfl, (e.1, e.2) :: l, rfl, rfl, ?_⟩
        rw [List.map_cons, List.mem_cons, not_or]
        exact ⟨fun h => hne h.symm, hnew⟩
  | table k kind inner rest ihInner ihRest =>
    have hnot : ∀ {o : Option Table} {f : Table → Table}, (∀ t, (f t).isFlat = false) →
        o.map f ≠ some (flat l') := by
      intro o f hf h
      obtain ⟨t', -, he⟩ := Option.map_eq_some_iff.1 h
      have hflat := hf t'
      rw [he, isFlat_flat] at hflat
      cases hflat
    unfold insert? at h
    split at h
    · split at h
      · cases h
      · exact absurd h (hnot fun _ => rfl)
    · split at h
      · split at h
        · exact absurd h (hnot fun _ => rfl)
        · cases h
      · exact absurd h (hnot fun _ => rfl)

/-! ## Sections -/

theorem isFlat_append_table (t : Table) (k : Key) (kind : Kind) (inner rest : Table) :
    (t.append (.table k kind inner rest)).isFlat = false := by
  induction t with
  | empty => rfl
  | value k v t ih => exact ih
  | table => rfl

/-- A table with an array of tables is not flat. -/
theorem isFlat_of_addElement? {t t' : Table} {key : Key} {header : Header} {inner : Table}
    (h : addElement? key header inner t = some t') : t'.isFlat = false := by
  induction t generalizing t' with
  | empty =>
    cases h
    rfl
  | value k v rest ih =>
    rw [addElement?] at h
    split at h
    · cases h
    · obtain ⟨u, hu, rfl⟩ := Option.map_eq_some_iff.1 h
      have hflat : u.isFlat = false := ih hu
      exact hflat
  | table k kind held rest =>
    rw [addElement?] at h
    split at h
    · split at h
      · cases h
      · split at h
        · obtain ⟨u, -, rfl⟩ := Option.map_eq_some_iff.1 h
          rfl
        · cases h
          rfl
    · obtain ⟨u, -, rfl⟩ := Option.map_eq_some_iff.1 h
      rfl

/-- A table on the way to which there are others is not in a flat one. -/
theorem isFlat_of_descend {change : Table → Option Table} {step : Key} {steps : List Key}
    {t t' : Table} (h : within?.descend change step steps t = some t') : t'.isFlat = false := by
  induction t generalizing t' with
  | empty =>
    rw [within?.descend] at h
    obtain ⟨u, -, rfl⟩ := Option.map_eq_some_iff.1 h
    rfl
  | value k v rest ih =>
    rw [within?.descend] at h
    split at h
    · cases h
    · obtain ⟨u, hu, rfl⟩ := Option.map_eq_some_iff.1 h
      have hflat : u.isFlat = false := ih hu
      exact hflat
  | table k kind inner rest =>
    unfold within?.descend at h
    split at h
    · obtain ⟨u, -, rfl⟩ := Option.map_eq_some_iff.1 h
      rfl
    · obtain ⟨u, -, rfl⟩ := Option.map_eq_some_iff.1 h
      rfl

/-- A table to which a section has been added is not flat. -/
theorem isFlat_of_addSection? {place : Nat} {s : Section} {root t : Table}
    (h : addSection? place s root = some t) : t.isFlat = false := by
  unfold addSection? at h
  cases hleading : s.key.leading with
  | cons step steps =>
    rw [hleading] at h
    exact isFlat_of_descend h
  | nil =>
    rw [hleading] at h
    simp only [within?] at h
    split at h
    · obtain ⟨inner, -, h⟩ := Option.bind_eq_some_iff.1 h
      exact isFlat_of_addElement? h
    · obtain ⟨⟨found, u⟩, -, h⟩ := Option.bind_eq_some_iff.1 h
      obtain ⟨inner, -, h⟩ := Option.bind_eq_some_iff.1 h
      cases h
      exact isFlat_append_table u _ _ _ _

/-- Once a section has been added a table is not flat any more. -/
theorem isFlat_of_foldlM_addSection? {sections : List (Section × Nat)} (hne : sections ≠ [])
    {root t : Table} (h : sections.foldlM (fun t (s, place) => t.addSection? place s) root = some t) :
    t.isFlat = false := by
  induction sections generalizing root with
  | nil => exact absurd rfl hne
  | cons s sections ih =>
    rw [List.foldlM_cons] at h
    obtain ⟨t₁, ht₁, h⟩ := Option.bind_eq_some_iff.1 h
    cases sections with
    | nil =>
      cases h
      exact isFlat_of_addSection? ht₁
    | cons s' sections => exact ih (List.cons_ne_nil s' sections) h

/-! ## Outlines of flat tables -/

/-- Values under new names go to the end of a flat table in their order. -/
theorem insertAll?_flat {l l' : List (Key × Value)}
    (h : ((l ++ l').map (·.1.name)).Nodup) :
    insertAll? (l'.map Entry.single) (flat l) = some (flat (l ++ l')) := by
  induction l' generalizing l with
  | nil =>
    rw [List.append_nil]
    rfl
  | cons e l' ih =>
    have hassoc : l ++ e :: l' = (l ++ [e]) ++ l' := by simp
    have hnew : e.1.name ∉ l.map (·.1.name) := by
      rw [List.map_append, List.map_cons, List.nodup_append] at h
      exact fun he => h.2.2 _ he _ List.mem_cons_self rfl
    rw [hassoc] at h ⊢
    have hstep : (flat l).insert? (Entry.single e).value (Entry.single e).key.leading
        (Entry.single e).key.last = some (flat (l ++ [e])) := insert?_flat hnew e.2
    rw [insertAll?, List.map_cons, List.foldlM_cons, hstep]
    exact ih h

/-- Entries that make up a flat table have keys of one part and different names. -/
theorem exists_of_insertAll?_flat {entries : List Entry} {t : Table} {l' : List (Key × Value)}
    (h : insertAll? entries t = some (flat l')) :
    ∃ l l₂, t = flat l ∧ entries = l₂.map Entry.single ∧ l' = l ++ l₂ ∧
      ((l.map (·.1.name)).Nodup → (l'.map (·.1.name)).Nodup) := by
  induction entries generalizing t with
  | nil =>
    cases h
    exact ⟨l', [], rfl, rfl, (List.append_nil l').symm, id⟩
  | cons e entries ih =>
    rw [insertAll?, List.foldlM_cons] at h
    obtain ⟨t₁, ht₁, h⟩ := Option.bind_eq_some_iff.1 h
    obtain ⟨l₁, l₂, rfl, rfl, rfl, hnodup⟩ := ih h
    obtain ⟨hleading, l, rfl, rfl, hnew⟩ := exists_of_insert?_flat ht₁
    refine ⟨l, (e.key.last, e.value) :: l₂, rfl, ?_, by simp, fun hl => hnodup ?_⟩
    · rw [List.map_cons, Entry.single, ← hleading]
    · rw [List.map_append, List.nodup_append]
      refine ⟨hl, by simp, fun a ha b hb hab => ?_⟩
      rw [List.map_cons, List.map_nil, List.mem_singleton] at hb
      exact hnew (hb ▸ hab ▸ ha)

/-- Entries with different names, each under a key of one part, make up a flat table. -/
theorem ofOutline?_flat {l : List (Key × Value)} (h : (l.map (·.1.name)).Nodup) (trailing : Text) :
    ofOutline? ⟨l.map Entry.single, [], trailing⟩ = some (flat l) := by
  have hall : insertAll? (l.map Entry.single) .empty = some (flat l) :=
    insertAll?_flat (l := []) h
  unfold ofOutline?
  rw [hall]
  rfl

/-- An outline of a flat table has no sections, and has an entry for each value in the table. -/
theorem exists_of_ofOutline?_flat {o : Outline} {l : List (Key × Value)}
    (h : ofOutline? o = some (flat l)) :
    o.sections = [] ∧ o.entries = l.map Entry.single ∧ (l.map (·.1.name)).Nodup := by
  unfold ofOutline? at h
  obtain ⟨root, hroot, h⟩ := Option.bind_eq_some_iff.1 h
  have hsections : o.sections = [] := by
    refine Decidable.byContradiction fun hne => ?_
    have hzip : o.sections.zipIdx 1 ≠ [] := by simpa using hne
    have hflat := isFlat_of_foldlM_addSection? hzip h
    rw [isFlat_flat] at hflat
    cases hflat
  rw [hsections] at h
  cases h
  obtain ⟨l₀, l₂, hempty, hentries, rfl, hnodup⟩ := exists_of_insertAll?_flat hroot
  cases l₀ with
  | cons e l₀ => cases hempty
  | nil => exact ⟨hsections, hentries, hnodup List.nodup_nil⟩

/-! ## Putting a value -/

/-- The values with one put in the place of whatever has its name, or at the end. -/
def putEntry (name : Text) (v : Value) : List (Key × Value) → List (Key × Value)
  | [] => [(.bare name, v)]
  | e :: l => if e.1.name = name then (e.1, v) :: l else e :: putEntry name v l

/-- A value is put into a flat table as into the list of its values. -/
theorem put_flat (name : Text) (v : Value) (l : List (Key × Value)) :
    (flat l).put name v = flat (putEntry name v l) := by
  induction l with
  | nil => rfl
  | cons e l ih =>
    rw [flat, put, putEntry]
    split
    · rfl
    · rw [ih]
      rfl

/-- No name is lost when a value is put, and one is added if it is new. -/
theorem names_putEntry (name : Text) (v : Value) (l : List (Key × Value)) :
    (putEntry name v l).map (·.1.name) =
      if name ∈ l.map (·.1.name) then l.map (·.1.name) else l.map (·.1.name) ++ [name] := by
  induction l with
  | nil => rfl
  | cons e l ih =>
    rw [putEntry]
    by_cases h : e.1.name = name
    · simp [h]
    · rw [if_neg h, List.map_cons, ih]
      by_cases hmem : name ∈ l.map (·.1.name)
      · simp [hmem]
      · simp [hmem, Ne.symm h]

/-- Names stay different when a value is put. -/
theorem nodup_names_putEntry {l : List (Key × Value)} (h : (l.map (·.1.name)).Nodup) (name : Text)
    (v : Value) : ((putEntry name v l).map (·.1.name)).Nodup := by
  rw [names_putEntry]
  split
  · exact h
  · next hnew =>
    rw [List.nodup_append]
    refine ⟨h, by simp, fun a ha b hb hab => ?_⟩
    rw [List.mem_singleton] at hb
    exact hnew (hb ▸ hab ▸ ha)

/-- What is true of the values in a list and their keys stays so if it holds of a value that is put,
both under a key of the list and under a bare one. -/
theorem forall_mem_putEntry {P : Key → Prop} {Q : Value → Prop} {l : List (Key × Value)} {name : Text}
    {v : Value} (hl : ∀ e ∈ l, P e.1 ∧ Q e.2) (hname : P (.bare name)) (hv : Q v) :
    ∀ e ∈ putEntry name v l, P e.1 ∧ Q e.2 := by
  induction l with
  | nil =>
    intro e he
    rw [putEntry, List.mem_singleton] at he
    rw [he]
    exact ⟨hname, hv⟩
  | cons e l ih =>
    have ihl := ih fun e he => hl e (List.mem_cons_of_mem _ he)
    intro e' he'
    rw [putEntry] at he'
    split at he'
    · rcases List.mem_cons.1 he' with rfl | he'
      · exact ⟨(hl e List.mem_cons_self).1, hv⟩
      · exact hl e' (List.mem_cons_of_mem _ he')
    · rcases List.mem_cons.1 he' with rfl | he'
      · exact hl e' List.mem_cons_self
      · exact ihl e' he'

end Table

namespace Document

open Table

/-- A flat document is written a line for each value. -/
theorem text_flat (l : List (Key × Value)) (trailing : Text) :
    (Document.mk (flat l) trailing).text = l.flatMap lineText ++ trailing := by
  rw [text, entriesText, values_flat, sections_flat, List.flatMap_map]
  simp only [placed, List.mergeSort_nil, List.flatMap_nil, List.append_nil]
  rfl

/-- A byte order mark is no part of an outline. -/
theorem read?_mark (s : Text) : Outline.read? ('\uFEFF' :: s) = none := by
  have htrivia : trivia false ('\uFEFF' :: s) = some ([], '\uFEFF' :: s) := by
    refine trivia_of_isSolid ?_
    rintro _ ⟨⟩
    decide
  rw [Outline.read?, htrivia]
  rfl

/-- A text that has an outline is read as a document from its first character on. -/
theorem read?_of_outline {s : Text} {o : Outline} (h : Outline.read? s = some o) :
    Document.read? s = (ofOutline? o).map fun root => ⟨root, o.trailing⟩ := by
  have hmark : withoutMark s = s := by
    cases s with
    | nil => rfl
    | cons c s =>
      rw [withoutMark, if_neg]
      rintro rfl
      rw [read?_mark] at h
      cases h
  unfold Document.read?
  rw [hmark, h, Option.bind_eq_bind, Option.bind_some]
  cases ofOutline? o <;> rfl

/-- A flat document was read from entries with different names, each under a key of one part. -/
theorem exists_of_read?_flat {s trailing : Text} {l : List (Key × Value)}
    (h : Document.read? s = some ⟨flat l, trailing⟩) :
    Outline.read? (withoutMark s) = some ⟨l.map Entry.single, [], trailing⟩ ∧
      (l.map (·.1.name)).Nodup := by
  unfold Document.read? at h
  obtain ⟨o, ho, h⟩ := Option.bind_eq_some_iff.1 h
  obtain ⟨root, hroot, h⟩ := Option.bind_eq_some_iff.1 h
  cases h
  obtain ⟨hsections, hentries, hnodup⟩ := exists_of_ofOutline?_flat hroot
  refine ⟨?_, hnodup⟩
  rw [ho, ← hentries, ← hsections]

/-- A flat document whose values are strings and truth values, and into which a value has been put that
reads back, is written as a text that is read with the values as they then are. -/
theorem read?_text_put {s trailing : Text} {l : List (Key × Value)}
    (h : Document.read? s = some ⟨flat l, trailing⟩) (hplain : ∀ e ∈ l, e.2.datum.IsPlain)
    {name : Text} (hname : (Key.bare name).ReadsBack) {v : Value} (hv : v.ReadsBack) :
    ∃ l', l'.map (fun e => (e.1.name, e.2)) =
        (putEntry name v l).map (fun e => (e.1.name, e.2)) ∧
      Document.read? ((Document.mk (flat l) trailing).put name v).text =
        some ⟨flat l', trailing⟩ := by
  obtain ⟨ho, hnodup⟩ := exists_of_read?_flat h
  obtain ⟨htrailing, hback⟩ := readsBack_of_mem_entries ho rfl
  have hl : ∀ e ∈ l, e.1.ReadsBack ∧ e.2.ReadsBack := by
    intro e he
    exact hback (Entry.single e) (List.mem_map_of_mem he) rfl (hplain e he)
  obtain ⟨l', hl', hread⟩ := read?_lines (forall_mem_putEntry hl hname hv) htrailing
  have hnames : (l'.map (·.1.name)).Nodup := by
    have hsame : l'.map (·.1.name) = (putEntry name v l).map (·.1.name) := by
      simpa [Function.comp_def] using congrArg (List.map Prod.fst) hl'
    rw [hsame]
    exact nodup_names_putEntry hnodup name v
  refine ⟨l', hl', ?_⟩
  rw [put, put_flat, text_flat, read?_of_outline hread, ofOutline?_flat hnames]
  rfl

end Document

end BuildTargets.Toml

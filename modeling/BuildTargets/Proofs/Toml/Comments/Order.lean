import Mathlib.Data.List.Flatten
import Mathlib.Data.List.Sort
import BuildTargets.Proofs.Toml.Comments.Documents

/-!
# The order of comments

Tables remember the headers by their places, and a document is written in the order of these.  If no entry
has a dotted key, every table of the document holds its own values in the order in which they were read
(`IsPlain`), so what is written section by section is what was read section by section
(`ofOutline?_blocks`).  Then the comments of a document to which nothing was added are written in the order
in which they stood (`sublist_ordered`).
-/

namespace BuildTargets.Toml

namespace Table

/-! ## Sections by their places -/

/-- What is written for a table of a kind with the given entries: the comments around its header and those
of the entries, with the place of the header. -/
def block (kind : Kind) (inner : Table) : List (Nat × List Text) :=
  match kind with
  | .headed h | .element h => [(h.place, kind.comments ++ inner.ownComments)]
  | .implied | .dotted => []

/-- What is written for each header in a table. -/
def blocks : Table → List (Nat × List Text)
  | empty => []
  | value _ _ rest => blocks rest
  | table _ kind inner rest => block kind inner ++ blocks inner ++ blocks rest

theorem block_headed (h : Header) (inner : Table) :
    block (.headed h) inner = [(h.place, Kind.comments (.headed h) ++ inner.ownComments)] := rfl

theorem blocks_element {inner : Table} (hinner : inner.blocks = []) (k : Key) (h : Header)
    (rest : Table) : (table k (.element h) inner rest).blocks =
      (h.place, Kind.comments (.element h) ++ inner.ownComments) :: rest.blocks := by
  rw [blocks, hinner, List.append_nil]
  rfl

/-- No table has been made by a dotted key, and those without a header hold no comments of their own. -/
def IsPlain : Table → Prop
  | empty => True
  | value _ _ rest => IsPlain rest
  | table _ kind inner rest =>
    kind ≠ .dotted ∧ (kind = .implied → inner.ownComments = []) ∧ IsPlain inner ∧ IsPlain rest

/-- A plain table has got some headers more, with the entries below them, and is otherwise the same. -/
def Extends (new : List (Nat × List Text)) (t t' : Table) : Prop :=
  t.IsPlain → t'.IsPlain ∧ t'.ownComments = t.ownComments ∧ t'.blocks.Perm (new ++ t.blocks)

variable {new : List (Nat × List Text)}

theorem Extends.refl (t : Table) : Extends [] t t := fun ht => ⟨ht, rfl, List.Perm.refl _⟩

theorem Extends.trans {new' : List (Nat × List Text)} {t t' t'' : Table} (h : Extends new t t')
    (h' : Extends new' t' t'') : Extends (new ++ new') t t'' := by
  intro ht
  obtain ⟨hplain, hown, hblocks⟩ := h ht
  obtain ⟨hplain', hown', hblocks'⟩ := h' hplain
  refine ⟨hplain', hown'.trans hown, hblocks'.trans ((hblocks.append_left _).trans ?_)⟩
  rw [← List.append_assoc]
  exact List.perm_append_comm.append_right _

theorem ownComments_table {k : Key} {kind : Kind} (hkind : kind ≠ .dotted) (inner rest : Table) :
    (table k kind inner rest).ownComments = rest.ownComments := by
  rw [ownComments, if_neg hkind, List.nil_append]

/-- What is added at one place is added on the whole. -/
theorem isCongruence_extends : IsCongruence (fun _ => True) (Extends new) where
  value k v t t' h := by
    intro ht
    obtain ⟨hplain, hown, hblocks⟩ := h ht
    exact ⟨hplain, by rw [ownComments, ownComments, hown], hblocks⟩
  rest k kind inner t t' h := by
    rintro ⟨hkind, himplied, hinner, ht⟩
    obtain ⟨hplain, hown, hblocks⟩ := h ht
    refine ⟨⟨hkind, himplied, hinner, hplain⟩, ?_, perm_append_of_perm _ hblocks⟩
    rw [ownComments_table hkind, ownComments_table hkind, hown]
  inner k kind rest t t' h := by
    rintro ⟨hkind, himplied, ht, hrest⟩
    obtain ⟨hplain, hown, hblocks⟩ := h ht
    refine ⟨⟨hkind, fun hk => hown.trans (himplied hk), hplain, hrest⟩, ?_, ?_⟩
    · rw [ownComments_table hkind, ownComments_table hkind]
    · have hblock : block kind t' = block kind t := by
        cases kind <;> simp only [block, hown]
      refine List.perm_iff_count.2 fun b => ?_
      have hcount := hblocks.count_eq b
      simp only [Table.blocks, hblock, List.count_append] at hcount ⊢
      omega
  implied := by
    intro k t _ h ht
    obtain ⟨hplain, hown, hblocks⟩ := h ht
    have himplied : Kind.implied ≠ .dotted := by decide
    refine ⟨⟨himplied, fun _ => hown, hplain, ht⟩, ownComments_table himplied t empty, ?_⟩
    simp only [Table.blocks, block, List.nil_append, List.append_nil] at hblocks ⊢
    exact hblocks

/-! ## Adding entries -/

theorem ownComments_append (t u : Table) :
    (t.append u).ownComments = t.ownComments ++ u.ownComments := by
  induction t with
  | empty => rfl
  | value k v rest ih => rw [append, ownComments, ih, ownComments, List.append_assoc _ rest.ownComments]
  | table k kind inner rest _ ih =>
    rw [append, ownComments, ih, ownComments, List.append_assoc _ rest.ownComments]

theorem blocks_append (t u : Table) : (t.append u).blocks = t.blocks ++ u.blocks := by
  induction t with
  | empty => rfl
  | value k v rest ih => exact ih
  | table k kind inner rest _ ih => rw [append, blocks, ih, blocks, List.append_assoc _ rest.blocks]

theorem isPlain_append {t u : Table} (ht : t.IsPlain) (hu : u.IsPlain) : (t.append u).IsPlain := by
  induction t with
  | empty => exact hu
  | value k v rest ih => exact ih ht
  | table k kind inner rest _ ih => exact ⟨ht.1, ht.2.1, ht.2.2.1, ih ht.2.2.2⟩

/-- A value under a key of one part goes to the end. -/
theorem eq_append_of_insert? {t t' : Table} {last : Key} {v : Value}
    (h : t.insert? v [] last = some t') : t' = t.append (value last v empty) := by
  induction t generalizing t' with
  | empty =>
    cases h
    rfl
  | value k w rest ih =>
    rw [insert?] at h
    split at h
    · cases h
    · obtain ⟨u, hu, rfl⟩ := Option.map_eq_some_iff.1 h
      rw [ih hu, append]
  | table k kind inner rest _ ih =>
    rw [insert?] at h
    split at h
    · cases h
    · obtain ⟨u, hu, rfl⟩ := Option.map_eq_some_iff.1 h
      rw [ih hu, append]

/-- Orderly entries go to the end of a table, in their order. -/
theorem of_insertAll?_orderly {entries : List Entry} (he : ∀ e ∈ entries, e.IsOrderly) {t t' : Table}
    (h : insertAll? entries t = some t') :
    (t.IsPlain → t'.IsPlain) ∧ t'.blocks = t.blocks ∧
      t'.ownComments = t.ownComments ++ entries.flatMap Entry.comments := by
  induction entries generalizing t with
  | nil =>
    cases h
    exact ⟨id, rfl, by rw [List.flatMap_nil, List.append_nil]⟩
  | cons e entries ih =>
    rw [insertAll?, List.foldlM_cons] at h
    obtain ⟨t₁, ht₁, h⟩ := Option.bind_eq_some_iff.1 h
    rw [(he e List.mem_cons_self).leading] at ht₁
    obtain rfl := eq_append_of_insert? ht₁
    obtain ⟨hplain, hblocks, hown⟩ := ih (fun e he' => he e (List.mem_cons_of_mem _ he')) h
    refine ⟨fun ht => hplain (isPlain_append ht trivial), ?_, ?_⟩
    · rw [hblocks, blocks_append, blocks, blocks, List.append_nil]
    · rw [hown, ownComments_append, ownComments, ownComments, List.append_nil, List.flatMap_cons,
        Entry.comments, List.append_assoc]

/-! ## Adding sections -/

/-- A table that is taken out of a plain one holds no comments of its own. -/
theorem of_takeImplied?_plain {name : Text} {t found rest : Table} (ht : t.IsPlain)
    (h : t.takeImplied? name = some (found, rest)) :
    found.IsPlain ∧ rest.IsPlain ∧ found.ownComments = [] ∧ rest.ownComments = t.ownComments ∧
      t.blocks.Perm (found.blocks ++ rest.blocks) := by
  induction t generalizing found rest with
  | empty =>
    cases h
    exact ⟨ht, ht, rfl, rfl, List.Perm.refl _⟩
  | value k v t ih =>
    rw [takeImplied?] at h
    split at h
    · cases h
    · obtain ⟨⟨found', rest'⟩, hu, he⟩ := Option.map_eq_some_iff.1 h
      cases he
      obtain ⟨hfound, hrest, hnone, hown, hblocks⟩ := ih ht hu
      exact ⟨hfound, hrest, hnone, by rw [ownComments, ownComments, hown], hblocks⟩
  | table k kind inner t _ ih =>
    obtain ⟨hkind, himplied, hinner, ht⟩ := ht
    rw [takeImplied?] at h
    split at h
    · split at h
      · next hk =>
        cases h
        refine ⟨hinner, ht, himplied hk, (ownComments_table hkind _ _).symm, ?_⟩
        rw [blocks, hk, block, List.nil_append]
      · cases h
    · obtain ⟨⟨found', rest'⟩, hu, he⟩ := Option.map_eq_some_iff.1 h
      cases he
      obtain ⟨hfound, hrest, hnone, hown, hblocks⟩ := ih ht hu
      refine ⟨hfound, ⟨hkind, himplied, hinner, hrest⟩, hnone, ?_, perm_append_of_perm _ hblocks⟩
      rw [ownComments_table hkind, ownComments_table hkind, hown]

/-- An element is added to an array of tables with the entries below its header. -/
theorem extends_of_addElement? {key : Key} {header : Header} {inner t t' : Table}
    (hplain : inner.IsPlain) (hinner : inner.blocks = [])
    (h : addElement? key header inner t = some t') :
    Extends [(header.place, Kind.comments (.element header) ++ inner.ownComments)] t t' := by
  have helement : Kind.element header ≠ .dotted := by rintro ⟨⟩
  have hnotImplied : Kind.element header = .implied → inner.ownComments = [] := by rintro ⟨⟩
  induction t generalizing t' with
  | empty =>
    cases h
    refine fun ht => ⟨⟨helement, hnotImplied, hplain, ht⟩, ownComments_table helement _ _, ?_⟩
    rw [blocks_element hinner]
    exact List.Perm.refl _
  | value k v rest ih =>
    rw [addElement?] at h
    split at h
    · cases h
    · obtain ⟨u, hu, rfl⟩ := Option.map_eq_some_iff.1 h
      exact isCongruence_extends.value k v (ih hu)
  | table k kind held rest _ ih =>
    rw [addElement?] at h
    split at h
    · split at h
      · cases h
      · split at h
        · obtain ⟨u, hu, rfl⟩ := Option.map_eq_some_iff.1 h
          exact isCongruence_extends.rest k kind held (ih hu)
        · cases h
          refine isCongruence_extends.rest k kind held fun ht => ⟨⟨helement, hnotImplied, hplain, ht⟩,
            ownComments_table helement _ _, ?_⟩
          rw [blocks_element hinner]
          exact List.Perm.refl _
    · obtain ⟨u, hu, rfl⟩ := Option.map_eq_some_iff.1 h
      exact isCongruence_extends.rest k kind held (ih hu)

/-- A section with orderly entries is added with its place. -/
theorem extends_of_addSection? {place : Nat} {s : Section} (hs : ∀ e ∈ s.entries, e.IsOrderly)
    {root root' : Table} (h : addSection? place s root = some root') :
    Extends [(place, s.comments)] root root' := by
  unfold addSection? at h
  refine isCongruence_extends.within? (fun t t' hchange => ?_) (fun _ _ => trivial) h
  split at hchange
  · obtain ⟨inner, hinner, hadd⟩ := Option.bind_eq_some_iff.1 hchange
    obtain ⟨hplain, hblocks, hown⟩ := of_insertAll?_orderly hs hinner
    have hadded := extends_of_addElement? (hplain trivial) hblocks hadd
    rw [hown] at hadded
    exact hadded
  · obtain ⟨⟨found, t₁⟩, htake, hchange⟩ := Option.bind_eq_some_iff.1 hchange
    obtain ⟨inner, hinner, hchange⟩ := Option.bind_eq_some_iff.1 hchange
    cases hchange
    intro ht
    obtain ⟨hfound, hrest, hnone, hown, hblocks⟩ := of_takeImplied?_plain ht htake
    obtain ⟨hplain, hsame, hentries⟩ := of_insertAll?_orderly hs hinner
    have hheaded : ∀ header : Header, Kind.headed header ≠ .dotted := by rintro _ ⟨⟩
    refine ⟨isPlain_append hrest ⟨hheaded _, by rintro ⟨⟩, hplain hfound, trivial⟩, ?_, ?_⟩
    · rw [ownComments_append, ownComments_table (hheaded _), ownComments, List.append_nil, hown]
    · have hblock : block (.headed ⟨place, s.before, s.after⟩) inner = [(place, s.comments)] := by
        rw [block_headed, hentries, hnone]
        rfl
      refine List.perm_iff_count.2 fun b => ?_
      have hcount := hblocks.count_eq b
      simp only [blocks_append, blocks, hblock, hsame, List.count_append, List.count_nil] at hcount ⊢
      omega

/-- The sections of an outline with their places, the first of them being number one. -/
def sectionBlocks (o : Outline) : List (Nat × List Text) :=
  (o.sections.zipIdx 1).map fun p => (p.2, p.1.comments)

theorem flatMap_sectionBlocks (o : Outline) :
    (sectionBlocks o).flatMap (·.2) = o.sections.flatMap Section.comments := by
  rw [sectionBlocks, List.flatMap_map, ← List.zipIdx_map_fst 1 o.sections, List.flatMap_map,
    List.zipIdx_map_fst]

/-- The places of sections rise. -/
theorem pairwise_sectionBlocks (o : Outline) :
    (sectionBlocks o).Pairwise fun a b => a.1 < b.1 := by
  rw [sectionBlocks, List.pairwise_map]
  have hplaces : ((o.sections.zipIdx 1).map Prod.snd).Pairwise (· < ·) := by
    rw [List.zipIdx_map_snd]
    exact List.pairwise_lt_range'
  exact List.pairwise_map.1 hplaces

/-- The tables of an orderly outline are plain, hold the entries in front of the first header in their
order, and below each header what stands below it. -/
theorem of_ofOutline?_orderly {o : Outline} (ho : o.IsOrderly) {root : Table}
    (h : ofOutline? o = some root) :
    root.IsPlain ∧ root.ownComments = o.entries.flatMap Entry.comments ∧
      root.blocks.Perm (sectionBlocks o) := by
  unfold ofOutline? at h
  obtain ⟨t, ht, h⟩ := Option.bind_eq_some_iff.1 h
  obtain ⟨hplain, hblocks, hown⟩ := of_insertAll?_orderly ho.entries ht
  have hextends : Extends (sectionBlocks o) t root := by
    have hsections := ho.sections
    unfold sectionBlocks
    clear ht ho hplain hblocks hown
    generalize o.sections = sections at h hsections ⊢
    generalize 1 = place at h ⊢
    induction sections generalizing t place with
    | nil =>
      cases h
      exact Extends.refl _
    | cons s sections ih =>
      rw [List.zipIdx_cons, List.foldlM_cons] at h
      obtain ⟨t₁, ht₁, h⟩ := Option.bind_eq_some_iff.1 h
      rw [List.zipIdx_cons, List.map_cons]
      exact (extends_of_addSection? (hsections s List.mem_cons_self) ht₁).trans
        (ih _ (fun s hs => hsections s (List.mem_cons_of_mem _ hs)) _ h)
  obtain ⟨hroot, hsame, hperm⟩ := hextends (hplain trivial)
  rw [hblocks, blocks, List.append_nil] at hperm
  exact ⟨hroot, hsame.trans hown, hperm⟩

/-! ## Putting a value -/

theorem isPlain_without {t : Table} (ht : t.IsPlain) (name : Text) :
    (put.without name t).IsPlain := by
  induction t with
  | empty => exact ht
  | value k v rest ih =>
    rw [put.without]
    split
    · exact ih ht
    · exact ih ht
  | table k kind inner rest _ ih =>
    rw [put.without]
    split
    · exact ih ht.2.2.2
    · exact ⟨ht.1, ht.2.1, ht.2.2.1, ih ht.2.2.2⟩

theorem isPlain_put {t : Table} (ht : t.IsPlain) (name : Text) (v : Value) :
    (t.put name v).IsPlain := by
  induction t with
  | empty => exact ht
  | value k w rest ih =>
    rw [put]
    split
    · exact ht
    · exact ih ht
  | table k kind inner rest _ ih =>
    rw [put]
    split
    · exact isPlain_without ht.2.2.2 name
    · exact ⟨ht.1, ht.2.1, ht.2.2.1, ih ht.2.2.2⟩

theorem sublist_without (name : Text) (t : Table) :
    (put.without name t).ownComments.Sublist t.ownComments ∧
      (put.without name t).blocks.Sublist t.blocks := by
  induction t with
  | empty => exact ⟨List.Sublist.refl _, List.Sublist.refl _⟩
  | value k v rest ih =>
    rw [put.without]
    split
    · exact ⟨List.sublist_append_of_sublist_right ih.1, ih.2⟩
    · exact ⟨ih.1.append_left _, ih.2⟩
  | table k kind inner rest _ ih =>
    rw [put.without]
    split
    · exact ⟨List.sublist_append_of_sublist_right ih.1, List.sublist_append_of_sublist_right ih.2⟩
    · exact ⟨ih.1.append_left _, ih.2.append_left _⟩

/-- Where a value without comments is put nothing is added, and nothing is moved. -/
theorem sublist_put {t : Table} (name : Text) {v : Value} (hv : v.comments = [])
    (ht : t.Meets Rule.document) :
    (t.put name v).ownComments.Sublist t.ownComments ∧ (t.put name v).blocks.Sublist t.blocks := by
  induction t with
  | empty => simp [put, ownComments, blocks, hv, Key.comments, Key.bare]
  | value k w rest ih =>
    rw [put]
    split
    · refine ⟨?_, List.Sublist.refl _⟩
      rw [ownComments, ownComments, hv, List.append_nil]
      exact (List.sublist_append_left _ _).append_right _
    · exact ⟨(ih ht.2).1.append_left _, (ih ht.2).2⟩
  | table k kind inner rest _ ih =>
    rw [put]
    split
    · obtain ⟨hown, hblocks⟩ := sublist_without name rest
      refine ⟨?_, List.sublist_append_of_sublist_right hblocks⟩
      rw [ownComments, ownComments, hv, ht.1.2]
      exact List.sublist_append_of_sublist_right hown
    · exact ⟨(ih ht.2.2.2).1.append_left _, (ih ht.2.2.2).2.append_left _⟩

/-! ## Writing -/

/-- The sections of a plain table that have comments are those of its headers. -/
theorem filter_placedComments {t : Table} (ht : t.IsPlain) (outer : List Key) (last : Nat)
    (l : List (List Key × Kind × Table)) :
    ∃ last', (placedComments last (t.sections outer ++ l)).filter (·.2 ≠ []) =
      t.blocks.filter (·.2 ≠ []) ++ (placedComments last' l).filter (·.2 ≠ []) := by
  induction t generalizing outer last l with
  | empty => exact ⟨last, rfl⟩
  | value k v rest ih => exact ih ht outer last l
  | table k kind inner rest ihInner ihRest =>
    obtain ⟨hkind, himplied, hinner, hrest⟩ := ht
    obtain ⟨last₁, h₁⟩ := ihInner hinner (outer ++ [k]) (kind.place last) (rest.sections outer ++ l)
    obtain ⟨last₂, h₂⟩ := ihRest hrest outer last₁ l
    refine ⟨last₂, ?_⟩
    have hsections : (table k kind inner rest).sections outer ++ l =
        (outer ++ [k], kind, inner) :: (inner.sections (outer ++ [k]) ++ (rest.sections outer ++ l)) := by
      rw [sections, if_neg hkind]
      simp
    have hblock : [(kind.place last, kind.comments ++ inner.ownComments)].filter (·.2 ≠ []) =
        (block kind inner).filter (·.2 ≠ []) := by
      cases kind with
      | headed h => rfl
      | element h => rfl
      | implied => simp [block, himplied rfl, Kind.comments]
      | dotted => exact absurd rfl hkind
    rw [hsections, placedComments, ← List.singleton_append, List.filter_append, h₁, h₂, blocks,
      List.filter_append, List.filter_append, ← hblock, List.append_assoc, List.append_assoc]
    rfl

/-- Sections without comments can be left out. -/
theorem flatMap_filter_ne_nil (l : List (Nat × List Text)) :
    (l.filter (·.2 ≠ [])).flatMap (·.2) = l.flatMap (·.2) := by
  induction l with
  | nil => rfl
  | cons b l ih =>
    rw [List.filter_cons, List.flatMap_cons]
    split
    · rw [List.flatMap_cons, ih]
    · next hb =>
      have hnone : b.2 = [] := by simpa using hb
      rw [ih, hnone, List.nil_append]

end Table

open Table

/-- Where the headers of a plain document are among given sections with rising places, its sections are
written with the comments of these, in their order. -/
theorem sublist_ordered {d : Document} (hd : d.root.Meets Rule.document) (hplain : d.root.IsPlain)
    {l : List (Nat × List Text)} (hl : l.Pairwise fun a b => a.1 < b.1) (h : d.root.blocks.Subperm l) :
    (d.ordered.flatMap fun p => comments p.2).Sublist (l.flatMap (·.2)) := by
  have hsections := fun s hs => of_mem_sections (s := s) hd (List.forall_mem_nil _) hs
  let written := (d.ordered.map fun p => (p.1, comments p.2)).filter (·.2 ≠ [])
  have hwritten : written.flatMap (·.2) = d.ordered.flatMap fun p => comments p.2 := by
    rw [flatMap_filter_ne_nil, List.flatMap_map]
  have hperm : written.Perm (d.root.blocks.filter (·.2 ≠ [])) := by
    obtain ⟨last, hfilter⟩ := filter_placedComments hplain [] 0 []
    rw [List.append_nil, ← (map_placed 0 hsections).1] at hfilter
    refine ((((List.mergeSort_perm _ _).map _).filter _).trans (.of_eq hfilter)).trans ?_
    rw [placedComments, List.filter_nil, List.append_nil]
  have hsubperm : written.Subperm l :=
    hperm.subperm.trans ((List.filter_sublist).subperm.trans h)
  -- The places of what is written do not fall, and as those of the given sections they are different.
  have hrising : written.Pairwise fun a b => a.1 ≤ b.1 := by
    refine List.Pairwise.filter _ (List.pairwise_map.2 ?_)
    have hsorted : d.ordered.Pairwise fun a b => decide (a.1 ≤ b.1) = true :=
      List.pairwise_mergeSort (fun a b c => by simpa using Nat.le_trans)
        (fun a b => by simpa using Nat.le_total a.1 b.1) _
    exact hsorted.imp fun hle => of_decide_eq_true hle
  have hdifferent : written.Pairwise fun a b => a.1 ≠ b.1 := by
    obtain ⟨l', hl', hsublist⟩ := hsubperm
    have hnodup : (l'.map (·.1)).Nodup :=
      (List.pairwise_map.2 (hl.imp Nat.ne_of_lt)).sublist (hsublist.map _)
    exact List.pairwise_map.1 ((hl'.map _).nodup hnodup)
  have hstrict : written.Pairwise fun a b => a.1 < b.1 :=
    (hrising.and hdifferent).imp fun hab => Nat.lt_of_le_of_ne hab.1 hab.2
  have : Std.Antisymm fun a b : Nat × List Text => a.1 < b.1 :=
    ⟨fun a b hab hba => absurd hab (Nat.lt_asymm hba)⟩
  rw [← hwritten]
  exact (List.sublist_of_subperm_of_pairwise hsubperm hstrict hl).flatMap _

/-! ## Documents with a value put -/

section Put

variable {s name : Text} {o : Outline} {root : Table} {v : Value}

theorem meets_document_put (hroot : root.Meets Rule.document) (hname : (Key.bare name).IsSound)
    (hv : v.IsSound) : (root.put name v).Meets Rule.document :=
  meets_put hroot ⟨hname, hv⟩ (fun _ _ hk => ⟨hk.1, hv⟩) fun _ hk => ⟨hk.1, hv⟩

/-- A document into which a value without comments has been put is written with the comments of the text
that it was read from, but for those displaced. -/
theorem perm_comments_put (ho : Outline.read? s = some o) (hroot : ofOutline? o = some root)
    (hname : (Key.bare name).IsSound) (hv : v.IsSound) (hnone : v.comments = []) :
    (comments s).Perm
      (root.displaced name ++ comments ((Document.mk root o.trailing).put name v).text) := by
  obtain ⟨hsound, hperm, -⟩ := sameIf_of_outline ho
  have hgains := gains_of_ofOutline? hsound hroot
  have hmeets : root.Meets Rule.document := hgains.meets trivial
  have hwritten := perm_documentText (d := (Document.mk root o.trailing).put name v)
    (meets_document_put hmeets hname hv)
  have hkept := perm_put name hnone hmeets fun k hk => hk.2
  have hread : o.comments.Perm (root.comments ++ comments o.trailing) := by
    have htables := hgains.comments
    rw [Table.comments, List.append_nil] at htables
    exact htables.symm.append_right _
  refine (hperm.trans (hread.trans (hkept.append_right _))).trans ?_
  rw [List.append_assoc]
  exact hwritten.symm.append_left _

/-- In a document without dotted keys, and without comments in braces, the comments that stay are written
in their order. -/
theorem sublist_comments_put (ho : Outline.read? s = some o) (hroot : ofOutline? o = some root)
    (horderly : o.IsOrderly) (hname : (Key.bare name).IsSound) (hv : v.IsSound)
    (hnone : v.comments = []) :
    (comments ((Document.mk root o.trailing).put name v).text).Sublist (comments s) := by
  obtain ⟨hsound, -, horder⟩ := sameIf_of_outline ho
  have hmeets : root.Meets Rule.document := (gains_of_ofOutline? hsound hroot).meets trivial
  obtain ⟨hplain, hown, hblocks⟩ := of_ofOutline?_orderly horderly hroot
  obtain ⟨hownPut, hblocksPut⟩ := sublist_put name hnone hmeets
  have hput := meets_document_put hmeets hname hv
  have hsections := sublist_ordered (d := (Document.mk root o.trailing).put name v) hput
    (isPlain_put hplain name v) (pairwise_sectionBlocks o) (hblocksPut.subperm.trans hblocks.subperm)
  rw [flatMap_sectionBlocks] at hsections
  rw [hown] at hownPut
  rw [comments_documentText (d := (Document.mk root o.trailing).put name v) hput, horder horderly]
  exact (hownPut.append hsections).append (List.Sublist.refl _)

end Put

end BuildTargets.Toml

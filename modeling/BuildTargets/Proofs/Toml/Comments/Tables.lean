import BuildTargets.Proofs.Toml.Comments.Keys
import BuildTargets.Toml.Document

/-!
# Comments in tables

A table keeps comments with its keys, its values and its headers.  Every operation that builds up a table
changes one place in it, so that a relation between tables which goes through all the places
(`IsCongruence`) is settled for an operation by the change that it makes there.  `Gains` is the relation
that a table has got some comments more; adding a value gains those of its key and its own
(`gains_of_insert?`).
-/

namespace BuildTargets.Toml

/-! ## What a table keeps -/

/-- The comments that are kept with a value: those in it and those behind it. -/
def Value.comments (v : Value) : List Text := Toml.comments v.spelling ++ Toml.comments v.after

/-- The comments that are kept with a table for its header. -/
def Kind.comments : Kind → List Text
  | headed h | element h => Toml.comments h.before ++ Toml.comments h.after
  | implied | dotted => []

namespace Table

/-- All comments that a table keeps. -/
def comments : Table → List Text
  | empty => []
  | value k v rest => k.comments ++ v.comments ++ comments rest
  | table _ kind inner rest => kind.comments ++ comments inner ++ comments rest

/-- The comments of the values that a table holds itself or through dotted keys. -/
def ownComments : Table → List Text
  | empty => []
  | value k v rest => k.comments ++ v.comments ++ ownComments rest
  | table _ kind inner rest => (if kind = .dotted then ownComments inner else []) ++ ownComments rest

end Table

/-- What is demanded of the parts of a table. -/
structure Rule where
  /-- Of the keys of tables. -/
  key : Key → Prop
  /-- Of a value and its key. -/
  value : Key → Value → Prop
  kind : Kind → Prop

/-- All parts of a table are as a rule demands. -/
def Table.Meets (R : Rule) : Table → Prop
  | empty => True
  | value k v rest => R.value k v ∧ Meets R rest
  | table k kind inner rest => R.key k ∧ R.kind kind ∧ Meets R inner ∧ Meets R rest

namespace Table

/-! ## Changes at one place -/

/-- A relation between tables that holds if it holds between what the tables have at one place, and
otherwise they are the same. The tables made on the way to a place have keys of a kind. -/
structure IsCongruence (K : Key → Prop) (R : Table → Table → Prop) : Prop where
  value : ∀ k v {t t'}, R t t' → R (.value k v t) (.value k v t')
  rest : ∀ k kind inner {t t'}, R t t' → R (.table k kind inner t) (.table k kind inner t')
  inner : ∀ k kind rest {t t'}, R t t' → R (.table k kind t rest) (.table k kind t' rest)
  implied : ∀ {k t}, K k → R .empty t → R .empty (.table k .implied t .empty)

variable {K : Key → Prop} {R : Table → Table → Prop}

/-- The tables that are missing on the way to a place are made one inside the other. -/
theorem IsCongruence.foldr_implied (hR : IsCongruence K R) {steps : List Key}
    (hsteps : ∀ k ∈ steps, K k) {o : Option Table} (ho : ∀ t, o = some t → R .empty t) {t : Table}
    (h : steps.foldr (fun k inner => inner.map fun i => table k .implied i empty) o = some t) :
    R .empty t := by
  induction steps generalizing t with
  | nil => exact ho t h
  | cons k steps ih =>
    obtain ⟨u, hu, rfl⟩ := Option.map_eq_some_iff.1 h
    exact hR.implied (hsteps k List.mem_cons_self)
      (ih (fun l hl => hsteps l (List.mem_cons_of_mem k hl)) hu)

theorem IsCongruence.descend (hR : IsCongruence K R) {change : Table → Option Table}
    (hchange : ∀ t t', change t = some t' → R t t') {step : Key} {steps : List Key}
    (hsteps : ∀ k ∈ step :: steps, K k) {t t' : Table}
    (h : within?.descend change step steps t = some t') : R t t' := by
  induction t generalizing step steps t' with
  | empty =>
    rw [within?.descend] at h
    obtain ⟨u, hu, rfl⟩ := Option.map_eq_some_iff.1 h
    refine hR.implied (hsteps step List.mem_cons_self) ?_
    exact hR.foldr_implied (fun k hk => hsteps k (List.mem_cons_of_mem step hk)) (hchange empty) hu
  | value k v rest ih =>
    rw [within?.descend] at h
    split at h
    · cases h
    · obtain ⟨u, hu, rfl⟩ := Option.map_eq_some_iff.1 h
      exact hR.value k v (ih hsteps hu)
  | table k kind inner rest ihInner ihRest =>
    unfold within?.descend at h
    split at h
    · obtain ⟨u, hu, rfl⟩ := Option.map_eq_some_iff.1 h
      refine hR.inner k kind rest ?_
      split at hu
      · exact hchange _ _ hu
      · exact ihInner (fun l hl => hsteps l (List.mem_cons_of_mem step hl)) hu
    · obtain ⟨u, hu, rfl⟩ := Option.map_eq_some_iff.1 h
      exact hR.rest k kind inner (ihRest hsteps hu)

/-- A change in a table that a path leads to changes the whole table as it changes that one. -/
theorem IsCongruence.within? (hR : IsCongruence K R) {change : Table → Option Table}
    (hchange : ∀ t t', change t = some t' → R t t') {path : List Key} (hpath : ∀ k ∈ path, K k)
    {t t' : Table} (h : within? change path t = some t') : R t t' := by
  cases path with
  | nil => exact hchange _ _ h
  | cons step steps => exact hR.descend hchange hpath h

/-! ## Gaining comments -/

variable {r : Rule}

/-- A table has got some comments more, and still meets a rule if it met it before. -/
structure Gains (r : Rule) (cs : List Text) (t t' : Table) : Prop where
  meets : t.Meets r → t'.Meets r
  comments : t'.comments.Perm (cs ++ t.comments)

variable {cs : List Text}

/-- Of what has been put in front, what is told apart is told apart too. -/
theorem perm_append_of_perm {α : Type} {l found rest : List α} (front : List α)
    (h : l.Perm (found ++ rest)) : (front ++ l).Perm (found ++ (front ++ rest)) :=
  (h.append_left front).trans (List.perm_append_comm_assoc front found rest)

theorem Gains.refl (t : Table) : Gains r [] t t := ⟨id, List.Perm.refl _⟩

theorem Gains.trans {cs' : List Text} {t t' t'' : Table} (h : Gains r cs t t')
    (h' : Gains r cs' t' t'') : Gains r (cs ++ cs') t t'' := by
  refine ⟨fun ht => h'.meets (h.meets ht), ?_⟩
  rw [List.append_assoc]
  exact h'.comments.trans (perm_append_of_perm cs' h.comments)

theorem Gains.value {t t' : Table} (h : Gains r cs t t') (k : Key) (v : Value) :
    Gains r cs (.value k v t) (.value k v t') :=
  ⟨fun ht => ⟨ht.1, h.meets ht.2⟩, perm_append_of_perm _ h.comments⟩

theorem Gains.rest {t t' : Table} (h : Gains r cs t t') (k : Key) (kind : Kind) (inner : Table) :
    Gains r cs (table k kind inner t) (table k kind inner t') :=
  ⟨fun ht => ⟨ht.1, ht.2.1, ht.2.2.1, h.meets ht.2.2.2⟩, perm_append_of_perm _ h.comments⟩

theorem Gains.inner {t t' : Table} (h : Gains r cs t t') (k : Key) (kind : Kind) (rest : Table) :
    Gains r cs (table k kind t rest) (table k kind t' rest) := by
  refine ⟨fun ht => ⟨ht.1, ht.2.1, h.meets ht.2.2.1, ht.2.2.2⟩, List.perm_iff_count.2 fun c => ?_⟩
  have hcount := h.comments.count_eq c
  simp only [Table.comments, List.count_append] at hcount ⊢
  omega

/-- A table made for what is missing gains what that has. -/
theorem Gains.new {t : Table} (h : Gains r cs empty t) {k : Key} {kind : Kind} (hk : r.key k)
    (hkind : r.kind kind) : Gains r (kind.comments ++ cs) empty (table k kind t empty) := by
  refine ⟨fun ht => ⟨hk, hkind, h.meets ht, ht⟩, List.perm_iff_count.2 fun c => ?_⟩
  have hcount := h.comments.count_eq c
  simp only [Table.comments, List.count_append, List.count_nil] at hcount ⊢
  omega

/-- What is gained at one place is gained on the whole. -/
theorem isCongruence_gains (himplied : r.kind .implied) : IsCongruence r.key (Gains r cs) where
  value k v _ _ h := h.value k v
  rest k kind inner _ _ h := h.rest k kind inner
  inner k kind rest _ _ h := h.inner k kind rest
  implied hk h := h.new hk himplied

/-! ## Adding to a table -/

/-- A value under a dotted key brings its comments and those of the key with it. -/
theorem gains_single {leading : List Key} {last : Key} {v : Value} (hleading : ∀ k ∈ leading, r.key k)
    (hdotted : r.kind .dotted) (hv : r.value last v) :
    Gains r (last.comments ++ v.comments) empty (single leading last v) := by
  induction leading with
  | nil => exact ⟨fun ht => ⟨hv, ht⟩, List.Perm.refl _⟩
  | cons k leading ih =>
    exact (ih fun l hl => hleading l (List.mem_cons_of_mem k hl)).new
      (hleading k List.mem_cons_self) hdotted

/-- A table to which a value has been added under a dotted key has gained the comments of both. -/
theorem gains_of_insert? {leading : List Key} {last : Key} {v : Value}
    (hleading : ∀ k ∈ leading, r.key k) (hdotted : r.kind .dotted) (hv : r.value last v) {t t' : Table}
    (h : t.insert? v leading last = some t') : Gains r (last.comments ++ v.comments) t t' := by
  induction t generalizing leading t' with
  | empty =>
    cases h
    exact gains_single hleading hdotted hv
  | value k w rest ih =>
    rw [insert?] at h
    split at h
    · cases h
    · obtain ⟨u, hu, rfl⟩ := Option.map_eq_some_iff.1 h
      exact (ih hleading hu).value k w
  | table k kind inner rest ihInner ihRest =>
    unfold insert? at h
    split at h
    · split at h
      · cases h
      · obtain ⟨u, hu, rfl⟩ := Option.map_eq_some_iff.1 h
        exact (ihRest hleading hu).rest k kind inner
    · next step steps =>
      split at h
      · split at h
        · obtain ⟨u, hu, rfl⟩ := Option.map_eq_some_iff.1 h
          exact (ihInner (fun l hl => hleading l (List.mem_cons_of_mem step hl)) hu).inner k kind rest
        · cases h
      · obtain ⟨u, hu, rfl⟩ := Option.map_eq_some_iff.1 h
        exact (ihRest hleading hu).rest k kind inner

theorem comments_append (t u : Table) : (t.append u).comments = t.comments ++ u.comments := by
  induction t with
  | empty => rfl
  | value k v rest ih => rw [append, comments, ih, comments, List.append_assoc _ rest.comments]
  | table k kind inner rest _ ih =>
    rw [append, comments, ih, comments, List.append_assoc _ rest.comments]

theorem meets_append {t u : Table} (ht : t.Meets r) (hu : u.Meets r) : (t.append u).Meets r := by
  induction t with
  | empty => exact hu
  | value k v rest ih => exact ⟨ht.1, ih ht.2⟩
  | table k kind inner rest _ ih => exact ⟨ht.1, ht.2.1, ht.2.2.1, ih ht.2.2.2⟩

/-- A table that is taken out takes its comments with it, and leaves the others. -/
theorem of_takeImplied? {name : Text} {t found rest : Table}
    (h : t.takeImplied? name = some (found, rest)) :
    (t.Meets r → found.Meets r ∧ rest.Meets r) ∧
      t.comments.Perm (found.comments ++ rest.comments) := by
  induction t generalizing found rest with
  | empty =>
    cases h
    exact ⟨fun ht => ⟨ht, ht⟩, List.Perm.refl _⟩
  | value k v t ih =>
    rw [takeImplied?] at h
    split at h
    · cases h
    · obtain ⟨⟨found', rest'⟩, hu, he⟩ := Option.map_eq_some_iff.1 h
      cases he
      obtain ⟨hmeets, hperm⟩ := ih hu
      exact ⟨fun ht => ⟨(hmeets ht.2).1, ht.1, (hmeets ht.2).2⟩, perm_append_of_perm _ hperm⟩
  | table k kind inner t _ ih =>
    rw [takeImplied?] at h
    split at h
    · split at h
      · next hkind =>
        cases h
        subst hkind
        exact ⟨fun ht => ⟨ht.2.2.1, ht.2.2.2⟩, List.Perm.refl _⟩
      · cases h
    · obtain ⟨⟨found', rest'⟩, hu, he⟩ := Option.map_eq_some_iff.1 h
      cases he
      obtain ⟨hmeets, hperm⟩ := ih hu
      refine ⟨fun ht => ?_, perm_append_of_perm _ hperm⟩
      obtain ⟨hfound, hrest⟩ := hmeets ht.2.2.2
      exact ⟨hfound, ht.1, ht.2.1, ht.2.2.1, hrest⟩

/-- A table to which an element of an array has been added has gained the comments of its header and
those in it. -/
theorem gains_of_addElement? {key : Key} {header : Header} {inner t t' : Table} (hkey : r.key key)
    (hheader : r.kind (.element header)) (hinner : inner.Meets r)
    (h : addElement? key header inner t = some t') :
    Gains r (Kind.comments (.element header) ++ inner.comments) t t' := by
  induction t generalizing t' with
  | empty =>
    cases h
    have hgains : Gains r inner.comments empty inner :=
      ⟨fun _ => hinner, by rw [comments, List.append_nil]⟩
    exact hgains.new hkey hheader
  | value k v rest ih =>
    rw [addElement?] at h
    split at h
    · cases h
    · obtain ⟨u, hu, rfl⟩ := Option.map_eq_some_iff.1 h
      exact (ih hu).value k v
  | table k kind held rest _ ih =>
    rw [addElement?] at h
    split at h
    · split at h
      · cases h
      · split at h
        · obtain ⟨u, hu, rfl⟩ := Option.map_eq_some_iff.1 h
          exact (ih hu).rest k kind held
        · cases h
          refine ⟨fun ht => ⟨ht.1, ht.2.1, ht.2.2.1, ht.1, hheader, hinner, ht.2.2.2⟩,
            List.perm_iff_count.2 fun c => ?_⟩
          simp only [comments, List.count_append]
          omega
    · obtain ⟨u, hu, rfl⟩ := Option.map_eq_some_iff.1 h
      exact (ih hu).rest k kind held

/-! ## Putting a value -/

/-- The comments that are lost when a value is put under a name: those kept with the value that has it,
or all those of the tables that have it. -/
def displaced (name : Text) : Table → List Text
  | empty => []
  | value k v rest => if k.name = name then v.comments else displaced name rest
  | table k kind inner rest =>
    if k.name = name then kind.comments ++ inner.comments ++ ofName rest else displaced name rest
where
  /-- The comments of all entries with the name. -/
  ofName : Table → List Text
    | empty => []
    | value k v rest => if k.name = name then k.comments ++ v.comments ++ ofName rest else ofName rest
    | table k kind inner rest =>
      if k.name = name then kind.comments ++ inner.comments ++ ofName rest else ofName rest

/-- A value under a new name displaces nothing. -/
theorem displaced_eq_nil {name : Text} {t : Table} (h : t.has name = false) :
    t.displaced name = [] := by
  induction t with
  | empty => rfl
  | value k v rest ih =>
    rw [has, Bool.or_eq_false_iff, decide_eq_false_iff_not] at h
    rw [displaced, if_neg h.1, ih h.2]
  | table k kind inner rest _ ih =>
    rw [has, Bool.or_eq_false_iff, decide_eq_false_iff_not] at h
    rw [displaced, if_neg h.1, ih h.2]

theorem meets_without {t : Table} (ht : t.Meets r) (name : Text) : (put.without name t).Meets r := by
  induction t with
  | empty => exact ht
  | value k v rest ih =>
    rw [put.without]
    split
    · exact ih ht.2
    · exact ⟨ht.1, ih ht.2⟩
  | table k kind inner rest _ ih =>
    rw [put.without]
    split
    · exact ih ht.2.2.2
    · exact ⟨ht.1, ht.2.1, ht.2.2.1, ih ht.2.2.2⟩

theorem perm_without (name : Text) (t : Table) :
    t.comments.Perm (displaced.ofName name t ++ (put.without name t).comments) := by
  induction t with
  | empty => exact List.Perm.refl _
  | value k v rest ih =>
    rw [put.without, displaced.ofName]
    split
    · rw [comments, List.append_assoc _ (displaced.ofName name rest)]
      exact ih.append_left _
    · exact perm_append_of_perm _ ih
  | table k kind inner rest _ ih =>
    rw [put.without, displaced.ofName]
    split
    · rw [comments, List.append_assoc _ (displaced.ofName name rest)]
      exact ih.append_left _
    · exact perm_append_of_perm _ ih

theorem meets_put {t : Table} (ht : t.Meets r) {name : Text} {v : Value}
    (hname : r.value (.bare name) v) (hvalue : ∀ k w, r.value k w → r.value k v)
    (hkey : ∀ k, r.key k → r.value k v) : (t.put name v).Meets r := by
  induction t with
  | empty => exact ⟨hname, ht⟩
  | value k w rest ih =>
    rw [put]
    split
    · exact ⟨hvalue k w ht.1, ht.2⟩
    · exact ⟨ht.1, ih ht.2⟩
  | table k kind inner rest _ ih =>
    rw [put]
    split
    · exact ⟨hkey k ht.1, meets_without ht.2.2.2 name⟩
    · exact ⟨ht.1, ht.2.1, ht.2.2.1, ih ht.2.2.2⟩

/-- A value without comments that is put under a name displaces what has the name, and all other
comments stay. -/
theorem perm_put {t : Table} (name : Text) {v : Value} (hv : v.comments = [])
    (ht : t.Meets r) (hkey : ∀ k, r.key k → k.comments = []) :
    t.comments.Perm (t.displaced name ++ (t.put name v).comments) := by
  induction t with
  | empty => simp [displaced, put, comments, hv, Key.comments, Key.bare]
  | value k w rest ih =>
    rw [put, displaced]
    split
    · refine List.perm_iff_count.2 fun c => ?_
      simp only [comments, hv, List.count_append, List.count_nil]
      omega
    · exact perm_append_of_perm _ (ih ht.2)
  | table k kind inner rest _ ih =>
    rw [put, displaced]
    split
    · rw [comments, comments, hv, hkey k ht.1, List.append_assoc _ (displaced.ofName name rest)]
      exact (perm_without name rest).append_left _
    · exact perm_append_of_perm _ (ih ht.2.2.2)

/-! ## Values and sections -/

/-- The comments that are written with an entry. -/
def entryComments (e : List Key × Value) : List Text :=
  e.1.getLast?.elim [] Key.comments ++ e.2.comments

/-- The comments that are written with a table that has a header. -/
def sectionComments (s : List Key × Kind × Table) : List Text := s.2.1.comments ++ s.2.2.ownComments

theorem flatMap_values (outer : List Key) (t : Table) :
    (t.values outer).flatMap entryComments = t.ownComments := by
  induction t generalizing outer with
  | empty => rfl
  | value k v rest ih =>
    rw [values, List.flatMap_cons, ih, entryComments, List.getLast?_concat, Option.elim_some,
      ownComments]
  | table k kind inner rest ihInner ihRest =>
    rw [values, ownComments]
    split
    · rw [List.flatMap_append, ihInner, ihRest]
    · rw [ihRest, List.nil_append]

/-- The values of a table are written under keys that are sound, if those of the table are. -/
theorem of_mem_values (hkey : ∀ k, r.key k → k.IsSound) (hvalue : ∀ k v, r.value k v → k.IsSound)
    {t : Table} (ht : t.Meets r) {outer : List Key} (houter : ∀ k ∈ outer, k.IsSound)
    {e : List Key × Value} (he : e ∈ t.values outer) :
    (∀ k ∈ e.1, k.IsSound) ∧ ∃ k, r.value k e.2 := by
  have hconcat : ∀ {outer : List Key} {k : Key}, (∀ k ∈ outer, k.IsSound) → k.IsSound →
      ∀ l ∈ outer ++ [k], l.IsSound := fun houter hk =>
    List.forall_mem_append.2 ⟨houter, List.forall_mem_singleton.2 hk⟩
  induction t generalizing outer with
  | empty => cases he
  | value k v rest ih =>
    rcases List.mem_cons.1 he with rfl | he
    · exact ⟨hconcat houter (hvalue k v ht.1), k, ht.1⟩
    · exact ih ht.2 houter he
  | table k kind inner rest ihInner ihRest =>
    rw [values] at he
    split at he
    · rcases List.mem_append.1 he with he | he
      · exact ihInner ht.2.2.1 (hconcat houter (hkey k ht.1)) he
      · exact ihRest ht.2.2.2 houter he
    · exact ihRest ht.2.2.2 houter he

/-- The sections in a table meet what is demanded of the table, and dotted keys have not made them. -/
theorem of_mem_sections {t : Table} (ht : t.Meets r) {outer : List Key} (houter : ∀ k ∈ outer, r.key k)
    {s : List Key × Kind × Table} (hs : s ∈ t.sections outer) :
    (∀ k ∈ s.1, r.key k) ∧ r.kind s.2.1 ∧ s.2.1 ≠ .dotted ∧ s.2.2.Meets r := by
  induction t generalizing outer with
  | empty => cases hs
  | value k v rest ih => exact ih ht.2 houter hs
  | table k kind inner rest ihInner ihRest =>
    obtain ⟨hk, hkind, hinner, hrest⟩ := ht
    have hpath : ∀ l ∈ outer ++ [k], r.key l :=
      List.forall_mem_append.2 ⟨houter, List.forall_mem_singleton.2 hk⟩
    rw [sections] at hs
    rcases List.mem_append.1 hs with hs | hs
    · split at hs
      · exact ihInner hinner hpath hs
      · next hnot =>
        rcases List.mem_cons.1 hs with rfl | hs
        · exact ⟨hpath, hkind, hnot, hinner⟩
        · exact ihInner hinner hpath hs
    · exact ihRest hrest houter hs

/-- Every comment that a table keeps belongs to one of its values or to a section in it. -/
theorem perm_sections (outer : List Key) (t : Table) :
    t.comments.Perm (t.ownComments ++ (t.sections outer).flatMap sectionComments) := by
  induction t generalizing outer with
  | empty => exact List.Perm.refl _
  | value k v rest ih =>
    rw [comments, sections, ownComments, List.append_assoc _ rest.ownComments]
    exact (ih outer).append_left _
  | table k kind inner rest ihInner ihRest =>
    have hinner := (ihInner (outer ++ [k])).count_eq
    have hrest := (ihRest outer).count_eq
    refine List.perm_iff_count.2 fun c => ?_
    have hinner := hinner c
    have hrest := hrest c
    rw [comments, sections, ownComments]
    by_cases hkind : kind = .dotted
    · subst hkind
      simp only [if_pos, Kind.comments, List.nil_append, List.flatMap_append, List.count_append]
        at hinner hrest ⊢
      omega
    · simp only [if_neg hkind, List.nil_append, List.flatMap_append, List.flatMap_cons, sectionComments,
        List.count_append] at hinner hrest ⊢
      omega

end Table

end BuildTargets.Toml

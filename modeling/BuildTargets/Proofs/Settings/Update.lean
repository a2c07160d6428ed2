import BuildTargets.Proofs.Request.Accepted
import BuildTargets.Proofs.Toml.FlatTable
import BuildTargets.Settings.File

/-!
# Setting one setting

Settings are read off the entries of a document one after the other, and an entry under one name does
not touch what another has set.  So when the value of one key is put into a document from which settings
can be read, the text that this gives holds the same settings but for that one
(`load_set`).  A raw value is refused for its key or for itself, and for nothing else
(`value_cases`).
-/

namespace BuildTargets

namespace Settings

open Toml Toml.Table

variable {s s' : Settings} {k k' : Key} {d d' : Datum}

/-! ## One setting -/

/-- Whether something denoted can be the value of a setting. -/
def Suits : Key → Datum → Prop
  | .targetName, .string _ | .outputDirectory, .string _ | .skipConfirmation, .boolean _ => True
  | _, _ => False

/-- The settings with one of them replaced by what is denoted, if that suits it. -/
def replaced (s : Settings) : Key → Datum → Settings
  | .targetName, .string t => { s with targetName := t }
  | .outputDirectory, .string t => { s with outputDirectory := t }
  | .skipConfirmation, .boolean b => { s with skipConfirmation := b }
  | _, _ => s

/-- An assignment succeeds for what suits a setting, and replaces it. -/
theorem assign_eq_ok_iff : s.assign k d = .ok s' ↔ Suits k d ∧ s' = s.replaced k d := by
  cases k <;> cases d <;> simp [assign, Suits, replaced, eq_comm]

theorem Suits.isPlain (h : Suits k d) : d.IsPlain := by
  cases k <;> cases d <;> first | exact h.elim | trivial

/-- Of two replacements of one setting the later counts. -/
theorem replaced_replaced (h : Suits k d') : (s.replaced k d).replaced k d' = s.replaced k d' := by
  cases k <;> cases d' <;> first | exact h.elim | (cases d <;> rfl)

/-- The result of an assignment to one setting does not depend on another. -/
theorem assign_replaced (hne : k ≠ k') :
    (s.replaced k d).assign k' d' = (s.assign k' d').map (·.replaced k d) := by
  cases k <;> cases k' <;> first | exact absurd rfl hne | (cases d <;> cases d' <;> rfl)

/-! ## All entries of a document -/

/-- The settings with the named ones replaced, one after the other. -/
def assignEach (s : Settings) (l : List (Text × Datum)) : Except SettingsProblem Settings :=
  l.foldlM (fun s e => s.assignNamed e.1 e.2) s

/-- The names of some values, and what they denote. -/
def denoted (l : List (Toml.Key × Value)) : List (Text × Datum) :=
  l.map fun e => (e.1.name, e.2.datum)

/-- The entries of a flat table are taken one after the other. -/
theorem assignAll_flat (s : Settings) (l : List (Toml.Key × Value)) :
    s.assignAll (flat l) = s.assignEach (denoted l) := by
  induction l generalizing s with
  | nil => rfl
  | cons e l ih => exact bind_congr fun s' => ih s'

/-- An assignment by name succeeds for what suits the setting of that name. -/
theorem exists_of_assignNamed {name : Text} (h : s.assignNamed name d = .ok s') :
    ∃ k, name = Key.text k ∧ s.assign k d = .ok s' := by
  unfold assignNamed at h
  split at h
  · next k hk => exact ⟨k, Key.ofText?_eq_some_iff.1 hk, h⟩
  · cases h

theorem assignNamed_text (s : Settings) (k : Key) (d : Datum) :
    s.assignNamed k.text d = s.assign k d := by
  rw [assignNamed, Key.ofText?_text]

/-- A table from which settings can be read holds strings and truth values only. -/
theorem exists_of_assignAll {t : Table} (h : s.assignAll t = .ok s') :
    ∃ l, t = flat l ∧ ∀ e ∈ l, e.2.datum.IsPlain := by
  induction t generalizing s with
  | empty => exact ⟨[], rfl, nofun⟩
  | value key v rest ih =>
    obtain ⟨s₁, hfirst, h⟩ := bind_eq_ok.1 h
    obtain ⟨l, rfl, hl⟩ := ih h
    obtain ⟨k, -, hassign⟩ := exists_of_assignNamed hfirst
    refine ⟨(key, v) :: l, rfl, fun e he => ?_⟩
    rcases List.mem_cons.1 he with rfl | he
    · exact (assign_eq_ok_iff.1 hassign).1.isPlain
    · exact hl e he
  | table key kind inner rest =>
    obtain ⟨s₁, hfirst, -⟩ := bind_eq_ok.1 h
    obtain ⟨k, -, hassign⟩ := exists_of_assignNamed hfirst
    have hplain := (assign_eq_ok_iff.1 hassign).1.isPlain
    split at hplain <;> exact hplain.elim

/-- Entries under other names leave a replaced setting as it is. -/
theorem assignEach_replaced {l : List (Text × Datum)} (hl : k.text ∉ l.map Prod.fst) :
    (s.replaced k d).assignEach l = (s.assignEach l).map (·.replaced k d) := by
  induction l generalizing s with
  | nil => rfl
  | cons e l ih =>
    obtain ⟨name, d'⟩ := e
    rw [List.map_cons, List.mem_cons, not_or] at hl
    have hstep : (s.replaced k d).assignNamed name d' =
        (s.assignNamed name d').map (·.replaced k d) := by
      unfold assignNamed
      cases hname : Key.ofText? name with
      | none => rfl
      | some k' =>
        have hne : k ≠ k' := by
          rintro rfl
          exact hl.1 (Key.ofText?_eq_some_iff.1 hname).symm
        exact assign_replaced hne
    simp only [assignEach, List.foldlM_cons, hstep]
    cases s.assignNamed name d' with
    | error problem => rfl
    | ok s₁ => exact ih hl.2

/-- When a value is put under the name of a setting, among values from which settings could be read,
that setting is replaced and the others stay. -/
theorem assignEach_putEntry {l : List (Toml.Key × Value)} {v : Value}
    (hnames : (l.map (·.1.name)).Nodup) (hv : Suits k v.datum)
    (h : s.assignEach (denoted l) = .ok s') :
    s.assignEach (denoted (putEntry k.text v l)) = .ok (s'.replaced k v.datum) := by
  induction l generalizing s with
  | nil =>
    have hassign : s.assignNamed (Key.text k) v.datum = .ok (s.replaced k v.datum) := by
      rw [assignNamed_text]
      exact assign_eq_ok_iff.2 ⟨hv, rfl⟩
    cases h
    simp only [denoted, putEntry, assignEach, List.map_cons, List.map_nil, List.foldlM_cons,
      Toml.Key.bare, hassign]
    rfl
  | cons e l ih =>
    rw [List.map_cons, List.nodup_cons] at hnames
    obtain ⟨s₁, hfirst, h⟩ := bind_eq_ok.1 h
    change s.assignNamed e.1.name e.2.datum = .ok s₁ at hfirst
    rw [putEntry]
    split
    · next hname =>
      -- The old value of the setting is overwritten, and nothing after it is for that setting.
      rw [hname, assignNamed_text] at hfirst
      obtain ⟨-, rfl⟩ := assign_eq_ok_iff.1 hfirst
      have hrest : k.text ∉ (denoted l).map Prod.fst := by
        rw [← hname, denoted, List.map_map]
        exact hnames.1
      have hassign : s.assignNamed e.1.name v.datum = .ok (s.replaced k v.datum) := by
        rw [hname, assignNamed_text]
        exact assign_eq_ok_iff.2 ⟨hv, rfl⟩
      have hlater : ((s.replaced k e.2.datum).replaced k v.datum).assignEach (denoted l) =
          ((s.replaced k e.2.datum).assignEach (denoted l)).map (·.replaced k v.datum) :=
        assignEach_replaced hrest
      rw [replaced_replaced hv, show assignEach _ (denoted l) = _ from h] at hlater
      simp only [denoted, assignEach, List.map_cons, List.foldlM_cons, hassign]
      exact hlater
    · simp only [denoted, assignEach, List.map_cons, List.foldlM_cons, hfirst]
      exact ih hnames.2 h

/-! ## Raw values -/

/-- Whether a raw value is one for a setting. -/
def Accepts (raw : Text) : Key → Prop
  | .targetName => Text.trim raw ≠ []
  | .outputDirectory => True
  | .skipConfirmation => raw = writtenBool true ∨ raw = writtenBool false

/-- What a raw value for a setting denotes. -/
def datum (raw : Text) : Key → Datum
  | .targetName | .outputDirectory => .string raw
  | .skipConfirmation => .boolean (raw = writtenBool true)

/-- The settings with one of them as a raw value says. -/
def updated (s : Settings) (raw : Text) : Key → Settings
  | .targetName => { s with targetName := raw }
  | .outputDirectory => { s with outputDirectory := raw }
  | .skipConfirmation => { s with skipConfirmation := raw = writtenBool true }

theorem suits_datum (raw : Text) (k : Key) : Suits k (datum raw k) := by
  cases k <;> trivial

theorem replaced_datum (s : Settings) (raw : Text) (k : Key) :
    s.replaced k (datum raw k) = s.updated raw k := by
  cases k <;> rfl

/-- A raw value for a setting is taken. -/
theorem value_of_accepts {raw : Text} (h : Accepts raw k) : value k.text raw = .ok (datum raw k) := by
  rw [value, Key.ofText?_text]
  cases k with
  | targetName => exact if_neg h
  | outputDirectory => rfl
  | skipConfirmation =>
    rcases h with rfl | rfl <;> decide

/-- A raw value is refused if it is not one for its setting. -/
theorem exists_of_not_accepts {raw : Text} (h : ¬Accepts raw k) :
    ∃ problem, value k.text raw = .error (.badSetting k.text raw problem) := by
  rw [value, Key.ofText?_text]
  cases k with
  | targetName => exact ⟨_, if_pos (Decidable.not_not.1 h)⟩
  | outputDirectory => exact absurd trivial h
  | skipConfirmation =>
    simp only
    rw [if_neg fun ht => h (Or.inl ht), if_neg fun hf => h (Or.inr hf)]
    exact ⟨_, rfl⟩

/-- A raw value is taken for its setting, or refused because there is no such setting or because it is
not a value for it. -/
theorem value_cases (key raw : Text) :
    (∃ k, key = Key.text k ∧ Accepts raw k ∧ value key raw = .ok (datum raw k)) ∨
      ((∀ k, key ≠ Key.text k) ∧ value key raw = .error (.unknownSetting key)) ∨
      ∃ k problem, key = Key.text k ∧ ¬Accepts raw k ∧
        value key raw = .error (.badSetting key raw problem) := by
  cases hkey : Key.ofText? key with
  | none =>
    refine Or.inr (Or.inl ⟨?_, by rw [value, hkey]⟩)
    rintro k rfl
    rw [Key.ofText?_text] at hkey
    cases hkey
  | some k =>
    obtain rfl := Key.ofText?_eq_some_iff.1 hkey
    by_cases h : Accepts raw k
    · exact Or.inl ⟨k, rfl, h, value_of_accepts h⟩
    · obtain ⟨problem, hproblem⟩ := exists_of_not_accepts h
      exact Or.inr (Or.inr ⟨k, problem, rfl, h, hproblem⟩)

/-! ## Fresh values -/

/-- The name of a setting is a bare word. -/
theorem readsBack_bare_text (k : Key) : (Toml.Key.bare k.text).ReadsBack :=
  readsBack_bare (by cases k <;> decide) (List.all_eq_true.1 (by cases k <;> rfl))

theorem isSpace_of_mem_before {c : Char} (h : c ∈ (fresh d).before) : isSpace c = true := by
  rw [List.mem_singleton.1 h]
  decide

/-- A fresh text reads back: it is written as a string, which begins with a quote. -/
theorem readsBack_fresh_string (t : Text) : (fresh (.string t)).ReadsBack := by
  obtain ⟨c, u, hwritten, hc⟩ : ∃ c u, writtenString t = c :: u ∧ (c = '"' ∨ c = '\'') := by
    have hread : string? (writtenString t ++ []) = some (t, []) :=
      string?_writtenString t nofun nofun
    rw [List.append_nil] at hread
    exact exists_cons_of_string? hread
  have hspelling : (fresh (.string t)).spelling = c :: u := hwritten
  refine readsBack_of_reading (fun _ => isSpace_of_mem_before) ?_ ?_ (fun rest hrest => ?_) fun _ => rfl
  · rw [hspelling]
    rintro _ ⟨⟩
    rcases hc with rfl | rfl <;> decide
  · rw [hspelling]
    exact List.cons_ne_nil c u
  · have hstring := string?_writtenString t hrest.1 hrest.2
    rw [hwritten, List.cons_append] at hstring
    rw [hspelling, List.cons_append,
      reading_of_isValueStart (hc.elim Or.inl fun h => Or.inr (Or.inl h)), scalar?_of_quote hc,
      hstring]
    exact congrArg (fun v => some (_, v, rest)) (spelling_append (c :: u) rest)

/-- A fresh truth value reads back. -/
theorem readsBack_fresh_boolean (b : Bool) : (fresh (.boolean b)).ReadsBack := by
  refine readsBack_of_reading (fun _ => isSpace_of_mem_before) ?_ ?_ (fun rest _ => ?_) fun _ => rfl
  · cases b <;> rintro _ ⟨⟩ <;> rfl
  · cases b <;> exact List.cons_ne_nil _ _
  · cases b with
    | true => exact congrArg (fun v => some (_, v, rest)) (spelling_append "true".toList rest)
    | false => exact congrArg (fun v => some (_, v, rest)) (spelling_append "false".toList rest)

/-- What a raw value denotes reads back when it is written afresh. -/
theorem readsBack_fresh_datum (raw : Text) (k : Key) : (fresh (datum raw k)).ReadsBack := by
  cases k with
  | targetName => exact readsBack_fresh_string raw
  | outputDirectory => exact readsBack_fresh_string raw
  | skipConfirmation => exact readsBack_fresh_boolean _

/-! ## The settings file -/

/-- An empty text is a document without entries. -/
theorem read?_nil : Document.read? [] = some ⟨flat [], []⟩ := by
  have houtline : Outline.read? [] = some ⟨[], [], []⟩ := by
    rw [Outline.read?]
    rfl
  exact (Document.read?_of_outline houtline).trans rfl

/-- The settings in a text are those of its document. -/
theorem load_of_read? {text : Text} {d : Document} (h : Document.read? text = some d) :
    load (.ok text) = (default.assignAll d.root).mapError .invalidSettings := by
  change (read text).mapError _ = _
  rw [read, h]

/-- There are no settings in a text that is no document. -/
theorem load_of_read?_eq_none {text : Text} (h : Document.read? text = none) :
    load (.ok text) = .error (.invalidSettings .malformed) := by
  change (read text).mapError _ = _
  rw [read, h]
  rfl

/-- Settings that could be loaded are those of a flat document: of the text of the settings file, or of
an empty one where there is none. -/
theorem exists_of_load {old : Except IoCause Text} (h : load old = .ok s) :
    ∃ text l trailing, Document.read? text = some ⟨flat l, trailing⟩ ∧
      (∀ e ∈ l, e.2.datum.IsPlain) ∧ default.assignEach (denoted l) = .ok s ∧
      ∀ file key raw, set file key raw old = (value key raw).map fun datum =>
        ((Document.mk (flat l) trailing).put key (fresh datum)).text := by
  cases old with
  | error cause =>
    cases cause with
    | notFound =>
      cases h
      refine ⟨[], [], [], read?_nil, nofun, rfl, fun file key raw => ?_⟩
      simp only [set, pure_bind, read?_nil]
      cases value key raw <;> rfl
    | _ => cases h
  | ok text =>
    cases hd : Document.read? text with
    | none =>
      rw [load_of_read?_eq_none hd] at h
      cases h
    | some d =>
    obtain ⟨root, trailing⟩ := d
    rw [load_of_read? hd] at h
    have hassign : default.assignAll root = .ok s := by
      cases hassign : default.assignAll root with
      | error problem =>
        rw [hassign] at h
        cases h
      | ok s' =>
        rw [hassign] at h
        exact congrArg Except.ok (Except.ok.inj h)
    obtain ⟨l, rfl, hplain⟩ := exists_of_assignAll hassign
    refine ⟨text, l, trailing, hd, hplain, (assignAll_flat _ _).symm.trans hassign,
      fun file key raw => ?_⟩
    simp only [set, pure_bind, hd]
    cases value key raw <;> rfl

/-- Settings that could be loaded are loaded again when one of them has been set, with that one as it was
set. -/
theorem load_set {old : Except IoCause Text} (h : load old = .ok s) {raw : Text}
    (hraw : Accepts raw k) (file : Path) :
    ∃ new, set file k.text raw old = .ok new ∧ load (.ok new) = .ok (s.updated raw k) := by
  obtain ⟨text, l, trailing, hd, hplain, hassign, hset⟩ := exists_of_load h
  obtain ⟨l', hl', hread⟩ :=
    Document.read?_text_put hd hplain (readsBack_bare_text k) (readsBack_fresh_datum raw k)
  refine ⟨_, by rw [hset, value_of_accepts hraw]; rfl, ?_⟩
  have hdenoted : denoted l' = denoted (putEntry k.text (fresh (datum raw k)) l) := by
    simpa [denoted, Function.comp_def] using
      congrArg (List.map fun p : Text × Value => (p.1, p.2.datum)) hl'
  have hafter : default.assignAll (flat l') = .ok (s.updated raw k) := by
    rw [assignAll_flat, hdenoted, ← replaced_datum]
    exact assignEach_putEntry (Document.exists_of_read?_flat hd).2 (suits_datum raw k) hassign
  rw [load_of_read? hread, hafter]
  rfl

end Settings

end BuildTargets

import BuildTargets.Proofs.Request.Consistent
import BuildTargets.Proofs.Statement.ReadBack
import BuildTargets.Sync

/-!
# Sources with one declared path

A source is declared under the names that lead down to it, and a name that is no text is declared under
the text that it shows as.  So two sources have one declared path exactly if their names show as the same
texts, one by one.  Names that are texts show as themselves, so among these a declared path belongs to one
source (`relativePath_eq_iff`).  Octets that are no characters all show as the same mark: the declaration
of one file may be taken for that of another whose name has other octets (`relativePath_not_injective`).
-/

namespace BuildTargets

namespace Utf8

/-- Octets that show without the mark for what is no character are a text. -/
theorem decode?_of_mark_not_mem {s : Bytes} (h : '\uFFFD' ∉ decodeLossy s) :
    (decode? s).isSome = true := by
  rw [decode?]
  fun_induction read s with
  | case1 => rfl
  | case2 a s ih =>
    rw [decodeLossy_cons, List.mem_cons, not_or] at h
    obtain ⟨t, ht⟩ := Option.isSome_iff_exists.1 (ih h.2)
    cases hnext : (next a s).1 with
    | none =>
      rw [hnext] at h
      exact absurd rfl h.1
    | some x =>
      rw [List.mapM_cons, ht]
      rfl

/-- Octets that are texts are the same if they show as the same text. -/
theorem eq_of_decodeLossy_eq {s s' : Bytes} (hs : (decode? s).isSome = true)
    (hs' : (decode? s').isSome = true) (h : decodeLossy s = decodeLossy s') : s = s' := by
  obtain ⟨t, ht⟩ := Option.isSome_iff_exists.1 hs
  obtain ⟨t', ht'⟩ := Option.isSome_iff_exists.1 hs'
  rw [eq_encode_of_decode? ht, eq_encode_of_decode? ht', ← decodeLossy_of_decode? ht,
    ← decodeLossy_of_decode? ht', h]

/-- Lists of texts are the same if they show as the same texts. -/
theorem eq_of_map_decodeLossy_eq {names names' : List Bytes}
    (hnames : ∀ n ∈ names, (decode? n).isSome = true)
    (hnames' : ∀ n ∈ names', (decode? n).isSome = true)
    (h : names.map decodeLossy = names'.map decodeLossy) : names = names' := by
  induction names generalizing names' with
  | nil => exact (List.map_eq_nil_iff.1 h.symm).symm
  | cons n names ih =>
    cases names' with
    | nil => cases h
    | cons m names' =>
      obtain ⟨hn, hrest⟩ := List.forall_mem_cons.1 hnames
      obtain ⟨hm, hrest'⟩ := List.forall_mem_cons.1 hnames'
      obtain ⟨hfirst, hothers⟩ := List.cons.inj h
      rw [eq_of_decodeLossy_eq hn hm hfirst, ih hrest hrest' hothers]

end Utf8

namespace Path

variable {base p q : Path} {names names' : List Bytes}

/-- Names lead down to one path only. -/
theorem LeadsDown.normalize_eq (hp : base.LeadsDown p names) (hq : base.LeadsDown q names) :
    p.normalize = q.normalize := by
  have hcomponents := hp.2.trans hq.2.symm
  rw [components_normalize, components_normalize] at hcomponents
  rw [normalize, normalize, hcomponents]

/-- Names that lead down are spelled by the same text exactly if they show as the same texts. -/
theorem LeadsDown.namesText_eq_iff (hp : base.LeadsDown p names) (hq : base.LeadsDown q names') :
    namesText names = namesText names' ↔ names.map Utf8.decodeLossy = names'.map Utf8.decodeLossy := by
  constructor
  · intro h
    rw [← hp.splitOn, h, hq.splitOn]
  · intro h
    rw [namesText, h, namesText]

/-- Names whose text is free of the mark are texts. -/
theorem LeadsDown.isSome_of_mark_not_mem (hp : base.LeadsDown p names)
    (h : '\uFFFD' ∉ namesText names) : ∀ n ∈ names, (Utf8.decode? n).isSome = true := by
  intro n hn
  refine Utf8.decode?_of_mark_not_mem fun hmark => h ?_
  have hslash : '\uFFFD' ∈ '/' :: namesText names := by
    rw [cons_namesText hp.1, List.mem_flatMap]
    exact ⟨n, hn, List.mem_cons_of_mem _ hmark⟩
  exact List.mem_of_ne_of_mem (by decide) hslash

end Path

namespace Statement

theorem needsQuotes_quote (value : Text) : needsQuotes (quote value) = needsQuotes value := by
  rw [quote]
  split
  · next h => simp_all [needsQuotes]
  · rfl

/-- A value is seen from its argument. -/
theorem quote_injective : Function.Injective quote := by
  intro value value' h
  have hneeds : needsQuotes value = needsQuotes value' := by
    rw [← needsQuotes_quote value, h, needsQuotes_quote]
  rw [quote, quote, hneeds] at h
  split at h
  · exact List.append_cancel_right (List.cons.inj h).2
  · exact h

/-- A declaration is the same line only for the same target and the same path. -/
theorem executableLine_eq_iff {target target' path path' : Text} (hn : Request.IsTargetName target)
    (hn' : Request.IsTargetName target') :
    executableLine target path = executableLine target' path' ↔ target = target' ∧ path = path' := by
  constructor
  · intro h
    rw [executableLine_eq, executableLine_eq] at h
    obtain ⟨-, rfl⟩ := eq_of_heading hn hn' Text.isBlank_nil Text.isBlank_nil Text.isBlank_nil
      Text.isBlank_nil (by decide) (by decide) h
    have hquoted := List.append_cancel_right (List.cons.inj (List.append_cancel_left h)).2
    exact ⟨rfl, quote_injective hquoted⟩
  · rintro ⟨rfl, rfl⟩
    rfl

end Statement

namespace Source

open Request Statement

variable {base p q : Path} {t u : Text}

/-- The path of a source is seen from a directory through its normal spelling. -/
theorem relativePath_normalize (base p : Path) (t : Text) :
    relativePath base p.normalize = .ok t ↔ relativePath base p = .ok t := by
  have hbelow : base.below? p.normalize = base.below? p := by
    rw [Path.below?, Path.below?, Path.normalComponents_normalize]
  rw [relativePath, relativePath, hbelow]
  cases base.below? p with
  | none => refine iff_of_false (fun h => ?_) (fun h => ?_) <;> cases h
  | some names => exact Iff.rfl

/-- Sources with the same normal path are one source. -/
theorem ofPath_congr (h : p.normalize = q.normalize) : ofPath p = ofPath q := by
  rw [ofPath, ofPath, h]

/-- The paths of two sources as seen from one directory are the same text exactly if the names that lead
down to the two show as the same texts, one by one.  Where this text is free of the mark for octets that
are no characters, or all of these names are texts, it belongs to one normal path.  Then requests for the
two declare the same path only for one source, and are declared in the same line only if the target is the
same too. -/
theorem relativePath_eq_iff (hp : relativePath base p = .ok t) (hq : relativePath base q = .ok u) :
    ∃ names names' : List Bytes, base.LeadsDown p names ∧ base.LeadsDown q names' ∧
      (t = u ↔ names.map Utf8.decodeLossy = names'.map Utf8.decodeLossy) ∧
      ('\uFFFD' ∉ t ∨ (∀ n ∈ names ++ names', (Utf8.decode? n).isSome = true) →
        (t = u ↔ p.normalize = q.normalize) ∧
        ∀ (settings settings' : Settings) (r r' : Request),
          ofPaths p base settings = .ok r → ofPaths q base settings' = .ok r' →
          (r.relativePath = r'.relativePath ↔ r.source = r'.source) ∧
          (executableLine r.targetName r.relativePath =
              executableLine r'.targetName r'.relativePath ↔
            r.targetName = r'.targetName ∧ r.source = r'.source)) := by
  obtain ⟨front, n, hnames, rfl⟩ := exists_of_relativePath hp
  obtain ⟨front', n', hnames', rfl⟩ := exists_of_relativePath hq
  generalize front ++ [n] = names, front' ++ [n'] = names' at hp hq hnames hnames'
  have hshown := hnames.namesText_eq_iff hnames'
  refine ⟨names, names', hnames, hnames', hshown, fun htext => ?_⟩
  have hnormal : Path.namesText names = Path.namesText names' ↔ p.normalize = q.normalize := by
    constructor
    · intro h
      have hall : (∀ n ∈ names, (Utf8.decode? n).isSome = true) ∧
          ∀ n ∈ names', (Utf8.decode? n).isSome = true := by
        rcases htext with hmark | htext
        · exact ⟨hnames.isSome_of_mark_not_mem hmark,
            hnames'.isSome_of_mark_not_mem (h ▸ hmark)⟩
        · exact List.forall_mem_append.1 htext
      obtain rfl := Utf8.eq_of_map_decodeLossy_eq hall.1 hall.2 (hshown.1 h)
      exact hnames.normalize_eq hnames'
    · intro h
      rw [← relativePath_normalize, h, relativePath_normalize, hq] at hp
      exact (Except.ok.inj hp).symm
  refine ⟨hnormal, fun settings settings' r r' hr hr' => ?_⟩
  obtain ⟨-, hsource, hpath, -, -, -, hname, -⟩ := exists_of_ofPaths hr
  obtain ⟨-, hsource', hpath', -, -, -, hname', -⟩ := exists_of_ofPaths hr'
  have hsame : r.relativePath = r'.relativePath ↔ r.source = r'.source := by
    rw [path_of_ofPath hsource, relativePath_normalize, hp] at hpath
    rw [path_of_ofPath hsource', relativePath_normalize, hq] at hpath'
    rw [← Except.ok.inj hpath, ← Except.ok.inj hpath', hnormal]
    constructor
    · intro h
      exact Except.ok.inj (hsource.symm.trans ((ofPath_congr h).trans hsource'))
    · intro h
      rw [← path_of_ofPath hsource, h, path_of_ofPath hsource']
  exact ⟨hsame, (executableLine_eq_iff hname hname').trans (and_congr_right' hsame)⟩

/-- Two spellings of one path. -/
theorem relativePath_eq_iff_spellings :
    let base := Path.ofText "/p/build/..".toList
    let p := Path.ofText "/p/é.c".toList
    let q := Path.ofText "/p/./d//../é.c".toList
    relativePath base p = .ok "é.c".toList ∧ relativePath base q = .ok "é.c".toList ∧
      p.normalize = q.normalize := by
  intro base p q
  have hp : relativePath base p = .ok "é.c".toList := by decide +kernel
  have hq : relativePath base q = .ok "é.c".toList := by decide +kernel
  obtain ⟨_, _, -, -, -, hone⟩ := relativePath_eq_iff hp hq
  exact ⟨hp, hq, (hone (Or.inl (by decide))).1.1 rfl⟩

/-- The request for a file in `/p` whose name shows as one that holds the mark. -/
def marked (file : Path) : Request where
  base := .ofText "/p".toList
  outputDirectory := none
  relativePath := "a\uFFFD.c".toList
  source :=
    { stem := "a\uFFFD".toList
      fileName := "a\uFFFD.c".toList
      directory := .ofText "/p".toList
      path := file }
  targetName := "a\uFFFD".toList

/-- A name with an octet that is no character shows as a name with the mark in its place.  The two files
are declared under one path: once a target is declared for the first, the second is taken to be declared
too. -/
theorem relativePath_not_injective :
    let base := Path.ofText "/p".toList
    let p : Path := ⟨Utf8.encode "/p/a".toList ++ 0xFF :: Utf8.encode ".c".toList⟩
    let q := Path.ofText "/p/a\uFFFD.c".toList
    relativePath base p = .ok "a\uFFFD.c".toList ∧ relativePath base q = .ok "a\uFFFD.c".toList ∧
      p.normalize.same q.normalize = false ∧
      ofPaths p base .default = .ok (marked p) ∧ ofPaths q base .default = .ok (marked q) ∧
      ∃ text, Sync.plan (marked p) [] = .insert text ∧ Sync.plan (marked q) text = .nothing := by
  intro base p q
  exact ⟨by decide +kernel, by decide +kernel, by decide +kernel, by decide +kernel,
    by decide +kernel, "\nadd_executable(a\uFFFD a\uFFFD.c)".toList, by decide +kernel,
    by decide +kernel⟩

end Source

end BuildTargets

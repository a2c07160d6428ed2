import BuildTargets.Proofs.Path.Below
import BuildTargets.Proofs.Text.Utf8
import BuildTargets.Source

/-!
# Relative paths lead back

The path of a source as seen from a directory is made up of the names that lead from that directory
down to the source.  It exists exactly for the sources strictly below the directory, and it names no step
that a build tool would have to resolve.  Seen from the directory it leads to the source again, if its
names are texts (`relativePath_leads_back`).
-/

namespace BuildTargets

/-! ## Joined texts -/

theorem joinWith_eq_intercalate {α : Type} (sep : List α) (xs : List (List α)) :
    joinWith sep xs = sep.intercalate xs := by
  induction xs with
  | nil => rfl
  | cons x xs ih =>
    cases xs with
    | nil => simp [joinWith, List.intercalate]
    | cons y xs => rw [joinWith, ih]; simp [List.intercalate]

theorem Utf8.encode_append (s t : Text) : Utf8.encode (s ++ t) = Utf8.encode s ++ Utf8.encode t :=
  List.flatMap_append

namespace Path

/-- Texts with slashes between them are written as paths with slashes between them. -/
theorem encode_joinWith (ts : List Text) :
    Utf8.encode (joinWith ['/'] ts) = joinWith [slash] (ts.map Utf8.encode) := by
  have hslash : Utf8.encode ['/'] = [slash] := by decide
  induction ts with
  | nil => rfl
  | cons t ts ih =>
    cases ts with
    | nil => rfl
    | cons u ts =>
      rw [joinWith, Utf8.encode_append, Utf8.encode_append, ih, hslash]
      rfl

/-- A text that begins with another character than a slash is written as a relative path. -/
theorem isAbsolute_ofText_cons {c : Char} (hc : c ≠ '/') (t : Text) :
    (ofText (c :: t)).isAbsolute = false := by
  rw [← Bool.not_eq_true, isAbsolute_iff]
  rintro ⟨s, hs⟩
  have hread : Utf8.decodeLossy (slash :: s) = c :: t := hs ▸ Utf8.decodeLossy_encode (c :: t)
  have hnext : Utf8.next slash s = (some '/', s) := rfl
  rw [Utf8.decodeLossy_cons, hnext] at hread
  exact hc (List.cons.inj hread).1.symm

/-! ## Names that lead down -/

/-- The names, at least one, lead from `base` down to `p`. -/
def LeadsDown (base p : Path) (names : List Bytes) : Prop :=
  names ≠ [] ∧ p.normalize.components = base.normalize.components ++ names.map .name

variable {base p : Path} {names : List Bytes}

theorem below?_eq_some_iff_leadsDown : base.below? p = some names ↔ base.LeadsDown p names := by
  rw [below?_eq_some_iff, LeadsDown, components_normalize, components_normalize]

/-- A name shows as a text that is no step of its own. -/
theorem decodeLossy_of_isName {n : Bytes} (hn : IsName n) :
    Utf8.decodeLossy n ≠ [] ∧ Utf8.decodeLossy n ≠ ['.'] ∧ Utf8.decodeLossy n ≠ ['.', '.'] ∧
      '/' ∉ Utf8.decodeLossy n := by
  refine ⟨decodeLossy_ne_nil hn.ne_nil, fun h => hn.ne_dot ?_, fun h => hn.ne_dots ?_, fun h => ?_⟩
  · exact Utf8.eq_encode_of_decodeLossy h (List.forall_mem_singleton.2 (by decide))
  · have hdots : ∀ x ∈ ['.', '.'], x.toNat < 0x80 :=
      List.forall_mem_cons.2 ⟨by decide, List.forall_mem_singleton.2 (by decide)⟩
    exact Utf8.eq_encode_of_decodeLossy h hdots
  · exact hn.slash_not_mem (Utf8.mem_of_mem_decodeLossy h (by decide))

/-- The names that lead down to a path can be names. -/
theorem LeadsDown.isName (h : base.LeadsDown p names) : ∀ n ∈ names, IsName n :=
  isName_of_mem_below? (below?_eq_some_iff_leadsDown.2 h)

/-- The names that lead down stand between the slashes of their text. -/
theorem LeadsDown.splitOn (h : base.LeadsDown p names) :
    (namesText names).splitOn '/' = names.map Utf8.decodeLossy := by
  rw [namesText, joinWith_eq_intercalate]
  refine List.splitOn_intercalate '/' (fun t ht => ?_) fun hnil => h.1 (List.map_eq_nil_iff.1 hnil)
  obtain ⟨n, hn, rfl⟩ := List.mem_map.1 ht
  exact (decodeLossy_of_isName (h.isName n hn)).2.2.2

/-- The text of names that lead down begins with a character other than a slash. -/
theorem LeadsDown.exists_namesText_eq_cons (h : base.LeadsDown p names) :
    ∃ c t, c ≠ '/' ∧ namesText names = c :: t := by
  obtain ⟨n, names, rfl⟩ := List.exists_cons_of_ne_nil h.1
  obtain ⟨hne, -, -, hslash⟩ := decodeLossy_of_isName (h.isName n List.mem_cons_self)
  obtain ⟨c, s, hs⟩ := List.exists_cons_of_ne_nil hne
  have hc : c ≠ '/' := fun heq => hslash (hs ▸ heq ▸ List.mem_cons_self)
  cases names with
  | nil => exact ⟨c, s, hc, hs⟩
  | cons m names =>
    refine ⟨c, s ++ ['/'] ++ namesText (m :: names), hc, ?_⟩
    rw [namesText, List.map_cons, List.map_cons, joinWith, hs]
    rfl

/-- Names that are texts are written as a relative path with these names. -/
theorem ofText_namesText (h : base.LeadsDown p names)
    (htext : ∀ n ∈ names, (Utf8.decode? n).isSome = true) :
    ofText (namesText names) = ofComponents (names.map .name) := by
  have hnames : (names.map Utf8.decodeLossy).map Utf8.encode = names := by
    rw [List.map_map]
    refine (List.map_congr_left fun n hn => ?_).trans (List.map_id names)
    obtain ⟨t, ht⟩ := Option.isSome_iff_exists.1 (htext n hn)
    rw [Function.comp_apply, Utf8.decodeLossy_of_decode? ht]
    exact (Utf8.eq_encode_of_decode? ht).symm
  have hbytes : (names.map Component.name).map stepBytes = names := by
    rw [List.map_map]
    exact List.map_id names
  rw [ofText, namesText, encode_joinWith, hnames]
  cases names with
  | nil => rfl
  | cons n names => exact congrArg (fun l => Path.mk (joinWith [slash] l)) hbytes.symm

/-- Seen from the directory that they lead down from, names that are texts lead to the path. -/
theorem normalize_join_namesText (h : base.LeadsDown p names)
    (htext : ∀ n ∈ names, (Utf8.decode? n).isSome = true) :
    (base.join (ofText (namesText names))).normalize = p.normalize := by
  have hcs : ∀ c ∈ names.map Component.name, c = .up ∨ ∃ n, c = .name n ∧ IsName n := by
    intro c hc
    obtain ⟨n, hn, rfl⟩ := List.mem_map.1 hc
    exact Or.inr ⟨n, rfl, h.isName n hn⟩
  have habs := (components_ofComponents hcs).1
  have hp := h.2
  rw [components_normalize, components_normalize] at hp
  rw [normalize, normalize, ofText_namesText h htext, normalComponents_join _ habs,
    steps_ofComponents hcs,
    foldl_settle_names, List.reverse_append, List.reverse_reverse, List.reverse_reverse, hp]

end Path

namespace Source

/-- The path of a source as seen from a directory exists exactly if names, at least one, lead from the
directory down to the source, both taken in their normal spelling; otherwise the two paths are refused as
they were given.  It is these names with slashes between them, so it is not empty or absolute and has no
empty part and no dots between its slashes.  If the names are texts, it leads from the directory to the
source. -/
theorem relativePath_leads_back (base source : Path) :
    (∀ t, relativePath base source = .ok t ↔ ∃ names, base.LeadsDown source names ∧
      t = joinWith ['/'] (names.map Utf8.decodeLossy)) ∧
    ((∀ names, ¬base.LeadsDown source names) ↔
      relativePath base source = .error (.outsideBase base source)) ∧
    ∀ names t, base.LeadsDown source names → relativePath base source = .ok t →
      t ≠ [] ∧ (Path.ofText t).isAbsolute = false ∧
      (∀ part ∈ t.splitOn '/', part ≠ [] ∧ part ≠ ['.'] ∧ part ≠ ['.', '.']) ∧
      ((∀ n ∈ names, (Utf8.decode? n).isSome = true) →
        (base.join (Path.ofText t)).normalize = source.normalize) := by
  have hbelow : ∀ names, base.below? source = some names ↔ base.LeadsDown source names :=
    fun _ => Path.below?_eq_some_iff_leadsDown
  cases hfound : base.below? source with
  | none =>
    have hnone : ∀ names, ¬base.LeadsDown source names := by
      intro names h
      rw [← hbelow, hfound] at h
      cases h
    have hrefused : relativePath base source = .error (.outsideBase base source) := by
      rw [relativePath, hfound]
    refine ⟨fun t => ?_, iff_of_true hnone hrefused, fun names t h => absurd h (hnone names)⟩
    rw [hrefused]
    exact iff_of_false nofun fun ⟨names, h, _⟩ => hnone names h
  | some names =>
    have hdown : base.LeadsDown source names := (hbelow names).1 hfound
    have hunique : ∀ names', base.LeadsDown source names' → names' = names := by
      intro names' h
      rw [← hbelow, hfound] at h
      exact (Option.some.inj h).symm
    have hok : relativePath base source = .ok (Path.namesText names) := by
      rw [relativePath, hfound]
    rw [hok]
    refine ⟨fun t => ⟨?_, ?_⟩, iff_of_false (fun h => h names hdown) nofun, ?_⟩
    · rintro ⟨⟩
      exact ⟨names, hdown, rfl⟩
    · rintro ⟨names', h, rfl⟩
      rw [hunique names' h]
      rfl
    · rintro names' _ h ⟨⟩
      obtain rfl := hunique names' h
      obtain ⟨c, t, hc, ht⟩ := hdown.exists_namesText_eq_cons
      refine ⟨ht ▸ List.cons_ne_nil c t, ht ▸ Path.isAbsolute_ofText_cons hc t, ?_,
        Path.normalize_join_namesText hdown⟩
      intro part hpart
      rw [hdown.splitOn] at hpart
      obtain ⟨n, hn, rfl⟩ := List.mem_map.1 hpart
      have hshown := Path.decodeLossy_of_isName (hdown.isName n hn)
      exact ⟨hshown.1, hshown.2.1, hshown.2.2.1⟩

/-- Two relative paths that both start above the working directory. -/
theorem relativePath_leads_back_stepped :
    let base := Path.ofText "../p/./build/..".toList
    let source := Path.ofText "../p//src/../d/a.c".toList
    base.LeadsDown source (["d".toList, "a.c".toList].map Utf8.encode) ∧
      relativePath base source = .ok "d/a.c".toList ∧
      (base.join (Path.ofText "d/a.c".toList)).normalize = source.normalize := by
  intro base source
  have hdown : base.LeadsDown source (["d".toList, "a.c".toList].map Utf8.encode) :=
    ⟨List.cons_ne_nil _ _, by decide +kernel⟩
  have hpath : relativePath base source = .ok "d/a.c".toList := by decide +kernel
  have hback := (relativePath_leads_back base source).2.2 _ _ hdown hpath
  exact ⟨hdown, hpath, hback.2.2.2 (by decide +kernel)⟩

end Source

end BuildTargets

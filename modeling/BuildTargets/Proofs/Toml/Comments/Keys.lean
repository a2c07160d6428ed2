import BuildTargets.Proofs.Toml.Comments.Scalars

/-!
# Comments around keys

There is no comment within a key, but there may be some in front of it: what stands there is kept with
the last part of the key.  A key that was read is sound (`isSound_of_read?`), which is all that is needed
to tell the comments of a key wherever it is written (`comments_keyText`).
-/

namespace BuildTargets.Toml

/-! ## What follows a piece -/

theorem noQuote_cons {c : Char} (hc : isMark c = false) (s : Text) : NoQuote (c :: s) := by
  simp only [isMark, Bool.or_eq_false_iff, decide_eq_false_iff_not] at hc
  simp [NoQuote, hc.1.2, hc.2]

theorem NoQuote.append {u s : Text} (hu : NoQuote u) (hs : NoQuote s) : NoQuote (u ++ s) := by
  cases u with
  | nil => exact hs
  | cons c u => exact hu

theorem noQuote_append {u s : Text} (hu : ∀ c ∈ u, isMark c = false) (hs : NoQuote s) :
    NoQuote (u ++ s) := by
  cases u with
  | nil => exact hs
  | cons c u => exact noQuote_cons (hu c List.mem_cons_self) (u ++ s)

theorem isMark_of_mem_spaces {s : Text} {c : Char} (hc : c ∈ (spaces s).1) : isMark c = false :=
  isMark_of_isSpace (List.all_eq_true.1 List.all_takeWhile c hc)

/-- The spaces at the beginning of a text make no comment. -/
theorem comments_spaces (s : Text) : comments (spaces s).2 = comments s := by
  have hsplit : s = (spaces s).1 ++ (spaces s).2 := List.takeWhile_append_dropWhile.symm
  rw [congrArg comments hsplit, comments_append_of_isMark fun c hc => isMark_of_mem_spaces hc]

/-! ## Keys as they are kept -/

/-- The comments that are kept with a part of a key: those in front of the key that it ends. -/
def Key.comments (k : Key) : List Text :=
  match k.around with
  | some (before, _) => Toml.comments before
  | none => []

/-- A part of a key makes no comment wherever it is written, and what is kept around its key makes those
that it made. -/
structure Key.IsSound (k : Key) : Prop where
  spelling : Silent k.spelling
  before : ∀ c ∈ k.before, isMark c = false
  after : ∀ c ∈ k.after, isMark c = false
  around : ∀ p ∈ k.around, Sealed p.1 ∧ ∀ c ∈ p.2, isMark c = false

/-- A key that was read with a text in front of it keeps the comments there with its last part. -/
structure DottedKey.IsSound (lead : Text) (key : DottedKey) : Prop where
  leading : ∀ k ∈ key.leading, k.IsSound ∧ k.comments = []
  last : key.last.IsSound
  comments : key.last.comments = comments lead

/-! ## Writing a key -/

theorem silent_joined {ks : List Key} (hks : ∀ k ∈ ks, k.IsSound) : Silent (Key.joined ks) := by
  induction ks with
  | nil => exact silent_of_isMark (List.forall_mem_nil _)
  | cons k ks ih =>
    have hk := hks k List.mem_cons_self
    cases ks with
    | nil => exact hk.spelling
    | cons l ks =>
      have hl := hks l (List.mem_cons_of_mem _ List.mem_cons_self)
      have hrest : Silent (Key.joined (l :: ks)) := ih fun m hm => hks m (List.mem_cons_of_mem k hm)
      intro s hs
      rw [Key.joined]
      simp only [List.append_assoc, List.cons_append]
      rw [hk.spelling _ (noQuote_append hk.after (noQuote_cons (by decide) _)),
        comments_append_of_isMark hk.after, comments_cons (by decide),
        comments_append_of_isMark hl.before, hrest s hs]

/-- A key is written with the comments that are kept with its last part. -/
theorem comments_keyText {usual : Text × Text} {ks : List Key} (hks : ∀ k ∈ ks, k.IsSound)
    (hbefore : ∀ c ∈ usual.1, isMark c = false) (hafter : ∀ c ∈ usual.2, isMark c = false)
    {s : Text} (hs : NoQuote s) :
    comments (Key.text usual ks ++ s) = ks.getLast?.elim [] Key.comments ++ comments s := by
  have hjoined := silent_joined hks
  have haround : Key.text usual ks ++ s = ((ks.getLast?.bind Key.around).getD usual).1 ++
      (Key.joined ks ++ (((ks.getLast?.bind Key.around).getD usual).2 ++ s)) := by
    simp [Key.text]
  rw [haround]
  have husual : comments (usual.1 ++ (Key.joined ks ++ (usual.2 ++ s))) = comments s := by
    rw [comments_append_of_isMark hbefore, hjoined _ (noQuote_append hafter hs),
      comments_append_of_isMark hafter]
  cases hlast : ks.getLast? with
  | none => exact husual
  | some k =>
    rw [Option.bind_some, Option.elim_some, Key.comments]
    have hk := hks k (List.mem_of_getLast? hlast)
    cases hk' : k.around with
    | none => exact husual
    | some p =>
      obtain ⟨hsealed, hspaces⟩ := hk.around p hk'
      rw [Option.getD_some, hsealed.comments_append, hjoined _ (noQuote_append hspaces hs),
        comments_append_of_isMark hspaces]

/-! ## Reading a key -/

theorem isMark_of_isBare {c : Char} (h : Key.isBare c = true) : isMark c = false :=
  isMark_eq_false (by decide) h

/-- A quoted part of a key is read as a string, unless another quote follows it. -/
theorem silent_of_basic? {u t : Text} (h : ∀ s, basic? (u ++ s) = some (t, s)) :
    Silent ('"' :: u) := by
  intro s hs
  refine comments_of_string? (t := t) ?_
  rw [List.cons_append, string?, h s]
  intro w hw
  -- Two quotes right away would end the part before the second of them.
  have hempty := h s
  rw [hw, basic?, if_pos rfl] at hempty
  cases hempty
  exact hs.1 rfl

/-- A part of a key between single quotes is read as a string, unless another quote follows it. -/
theorem silent_of_literal? {u t : Text} (h : ∀ s, literal? (u ++ s) = some (t, s)) :
    Silent ('\'' :: u) := by
  intro s hs
  refine comments_of_string? (t := t) ?_
  rw [List.cons_append, string?, h s]
  intro w hw
  have hempty := h s
  rw [hw, literal?, if_pos rfl] at hempty
  cases hempty
  exact hs.2 rfl

theorem silent_of_name? {s name rest : Text} (h : Key.name? s = some (name, rest)) :
    ∃ u, s = u ++ rest ∧ Silent u := by
  unfold Key.name? at h
  split at h
  · obtain ⟨u, rfl, hread⟩ := exists_of_basic? h
    exact ⟨'"' :: u, rfl, silent_of_basic? hread⟩
  · obtain ⟨u, rfl, hread⟩ := exists_of_literal? h
    exact ⟨'\'' :: u, rfl, silent_of_literal? hread⟩
  · split at h
    · cases h
    · cases h
      exact ⟨s.takeWhile Key.isBare, List.takeWhile_append_dropWhile.symm,
        silent_of_isMark fun c hc => isMark_of_isBare (List.all_eq_true.1 List.all_takeWhile c hc)⟩

/-- The parts of a key make no comment, and are sound. -/
theorem isSound_of_parts? {most : Nat} {s rest : Text} {ks : List Key}
    (h : Key.parts? most s = some (ks, rest)) (hrest : NoQuote rest) :
    comments s = comments rest ∧ ∀ k ∈ ks, k.IsSound ∧ k.around = none := by
  induction most generalizing s ks with
  | zero => cases h
  | succ most ih =>
    rw [Key.parts?] at h
    simp only at h
    split at h
    · cases h
    next name r hname =>
    obtain ⟨u, hu, hsilent⟩ := silent_of_name? hname
    have hkey : ∀ after : Text, (∀ c ∈ after, isMark c = false) →
        Key.IsSound { name := name, spelling := spelling (spaces s).2 r, before := (spaces s).1,
                      after := after } := by
      intro after hafter
      rw [hu, spelling_append]
      exact ⟨hsilent, fun c hc => isMark_of_mem_spaces hc, hafter, by rintro _ ⟨⟩⟩
    have hspaces : ∀ c ∈ (spaces r).1, isMark c = false := fun c hc => isMark_of_mem_spaces hc
    have hcomments : NoQuote (spaces r).2 → comments s = comments (spaces r).2 := by
      intro hquote
      have hr : NoQuote r := by
        rw [show r = (spaces r).1 ++ (spaces r).2 from List.takeWhile_append_dropWhile.symm]
        exact noQuote_append hspaces hquote
      rw [← comments_spaces s, hu, hsilent r hr, comments_spaces]
    split at h
    · next t hdot =>
      obtain ⟨⟨keys, v⟩, hkeys, he⟩ := Option.map_eq_some_iff.1 h
      cases he
      obtain ⟨hsame, hsound⟩ := ih hkeys
      refine ⟨?_, List.forall_mem_cons.2 ⟨⟨hkey _ hspaces, rfl⟩, hsound⟩⟩
      rw [hcomments (hdot ▸ noQuote_cons (by decide) t), hdot, comments_cons (by decide), hsame]
    · cases h
      exact ⟨hcomments hrest, List.forall_mem_singleton.2 ⟨hkey _ hspaces, rfl⟩⟩

/-- A key whose parts are sound is kept as a sound one. -/
theorem isSound_of_ofParts? {lead : Text} {ks : List Key} {key : DottedKey} (hlead : Sealed lead)
    (hks : ∀ k ∈ ks, k.IsSound ∧ k.around = none) (h : DottedKey.ofParts? lead ks = some key) :
    key.IsSound lead := by
  have hbefore : ∀ k ∈ ks, Sealed (lead ++ k.before) ∧ comments (lead ++ k.before) = comments lead := by
    intro k hk
    have hspaces := sealed_of_isMark (hks k hk).1.before
    refine ⟨hlead.append hspaces (fun _ _ => trivial) trivial, ?_⟩
    rw [hlead.comments_append, comments_of_isMark (hks k hk).1.before, List.append_nil]
  have hnone : ∀ k ∈ ks, k.comments = [] := by
    intro k hk
    rw [Key.comments, (hks k hk).2]
  unfold DottedKey.ofParts? at h
  split at h
  · cases h
  · next k =>
    cases h
    have hk := (hks k List.mem_cons_self).1
    obtain ⟨hsealed, hcomments⟩ := hbefore k List.mem_cons_self
    refine ⟨List.forall_mem_nil _, ⟨hk.spelling, List.forall_mem_nil _, List.forall_mem_nil _, ?_⟩,
      hcomments⟩
    rintro _ ⟨⟩
    exact ⟨hsealed, hk.after⟩
  · next k rest _ =>
    obtain ⟨last, hlast, rfl⟩ := Option.map_eq_some_iff.1 h
    have hmem : last ∈ k :: rest := List.mem_cons_of_mem k (List.mem_of_getLast? hlast)
    have hk := (hks k List.mem_cons_self).1
    have hl := (hks last hmem).1
    obtain ⟨hsealed, hcomments⟩ := hbefore k List.mem_cons_self
    refine ⟨List.forall_mem_cons.2 ⟨⟨⟨hk.spelling, List.forall_mem_nil _, hk.after, hk.around⟩, ?_⟩, ?_⟩,
      ⟨hl.spelling, hl.before, List.forall_mem_nil _, ?_⟩, hcomments⟩
    · exact hnone k List.mem_cons_self
    · intro m hm
      have hm' := List.mem_cons_of_mem k ((List.dropLast_sublist rest).subset hm)
      exact ⟨(hks m hm').1, hnone m hm'⟩
    · rintro _ ⟨⟩
      exact ⟨hsealed, hl.after⟩

/-- A key that was read makes no comment besides those in front of it, and is sound. -/
theorem isSound_of_read? {lead s rest : Text} {key : DottedKey} (hlead : Sealed lead)
    (h : DottedKey.read? lead s = some (key, rest)) (hrest : NoQuote rest) :
    comments s = comments rest ∧ key.IsSound lead := by
  unfold DottedKey.read? at h
  split at h
  · cases h
  · next hparts =>
    obtain ⟨key', hkey, he⟩ := Option.map_eq_some_iff.1 h
    cases he
    obtain ⟨hcomments, hsound⟩ := isSound_of_parts? hparts hrest
    exact ⟨hcomments, isSound_of_ofParts? hlead hsound hkey⟩

/-- A bare word is sound. -/
theorem isSound_bare {name : Text} (hname : ∀ c ∈ name, Key.isBare c = true) :
    (Key.bare name).IsSound :=
  ⟨silent_of_isMark fun c hc => isMark_of_isBare (hname c hc), List.forall_mem_nil _,
    List.forall_mem_nil _, by rintro _ ⟨⟩⟩

end BuildTargets.Toml

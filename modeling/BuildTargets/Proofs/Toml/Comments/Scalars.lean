import BuildTargets.Proofs.Toml.Comments.Basic
import BuildTargets.Toml.Value

/-!
# Values without comments

A value that holds no others makes no comment.  A string hides the number signs in it, and the numbers,
the dates and the words for truth values hold none and no quote either (`unmarked_of_moment?`,
`unmarked_of_float?`, `unmarked_of_integer?`).  So the comments of a text that begins with such a value
are those behind the value (`exists_of_scalar?_comments`).
-/

namespace BuildTargets.Toml

/-! ## Characters that are no marks -/

/-- A text has a given end, and nothing in front of that begins a comment or a string. -/
def Unmarked (s rest : Text) : Prop := ∃ u, s = u ++ rest ∧ ∀ c ∈ u, isMark c = false

theorem Unmarked.refl (s : Text) : Unmarked s s := ⟨[], rfl, List.forall_mem_nil _⟩

theorem Unmarked.trans {s t u : Text} (h : Unmarked s t) (h' : Unmarked t u) : Unmarked s u := by
  obtain ⟨v, rfl, hv⟩ := h
  obtain ⟨w, rfl, hw⟩ := h'
  refine ⟨v ++ w, (List.append_assoc v w u).symm, fun c hc => ?_⟩
  rcases List.mem_append.1 hc with hc | hc
  · exact hv c hc
  · exact hw c hc

instance : Trans Unmarked Unmarked Unmarked := ⟨Unmarked.trans⟩

theorem Unmarked.cons {c : Char} {s rest : Text} (hc : isMark c = false) (h : Unmarked s rest) :
    Unmarked (c :: s) rest := by
  obtain ⟨u, rfl, hu⟩ := h
  exact ⟨c :: u, rfl, List.forall_mem_cons.2 ⟨hc, hu⟩⟩

/-- A class of characters that leaves out the three marks. -/
theorem isMark_eq_false {p : Char → Bool} (hp : p '#' = false ∧ p '"' = false ∧ p '\'' = false)
    {c : Char} (hc : p c = true) : isMark c = false := by
  simp only [isMark, Bool.or_eq_false_iff, decide_eq_false_iff_not]
  refine ⟨⟨?_, ?_⟩, ?_⟩
  · rintro rfl
    simp [hp.1] at hc
  · rintro rfl
    simp [hp.2.1] at hc
  · rintro rfl
    simp [hp.2.2] at hc

theorem unmarked_dropWhile {p : Char → Bool}
    (hp : p '#' = false ∧ p '"' = false ∧ p '\'' = false) (s : Text) :
    Unmarked s (s.dropWhile p) :=
  ⟨s.takeWhile p, List.takeWhile_append_dropWhile.symm, fun _ hc =>
    isMark_eq_false hp (List.all_eq_true.1 List.all_takeWhile _ hc)⟩

theorem unmarked_of_after? {word s rest : Text} (hword : word.any isMark = false)
    (h : after? word s = some rest) : Unmarked s rest :=
  ⟨word, after?_eq_some_iff.1 h, isMark_of_any hword⟩

/-! ## Numbers -/

theorem unmarked_of_digitsFrom? {p : Char → Bool}
    (hp : p '#' = false ∧ p '"' = false ∧ p '\'' = false) {needed : Bool} {s digits rest : Text}
    (h : digitsFrom? p needed s = some (digits, rest)) : Unmarked s rest := by
  fun_induction digitsFrom? p needed s generalizing digits with
  | case1 => cases h
  | case2 =>
    cases h
    exact Unmarked.refl []
  | case3 needed c s hc ih =>
    obtain ⟨t, ht, -⟩ := consTaken_eq_some_iff.1 h
    exact (ih ht).cons (isMark_eq_false hp hc)
  | case4 => cases h
  | case5 _ s _ _ ih => exact (ih h).cons (by decide)
  | case6 =>
    cases h
    exact Unmarked.refl _

theorem unmarked_of_digits? {s digits rest : Text}
    (h : digits? Char.isDigit s = some (digits, rest)) : Unmarked s rest :=
  unmarked_of_digitsFrom? (by decide) h

theorem unmarked_of_whole? {s digits rest : Text} (h : whole? s = some (digits, rest)) :
    Unmarked s rest := by
  unfold whole? at h
  split at h
  · cases h
  · split at h
    · next hc =>
      cases h
      exact (Unmarked.refl _).cons (by rw [hc]; decide)
    · exact unmarked_of_digits? h

theorem unmarked_sign (s : Text) : Unmarked s (sign s).2 := by
  unfold sign
  split
  · exact Unmarked.refl []
  · split
    · next hc => exact (Unmarked.refl _).cons (by rw [hc]; decide)
    · split
      · next hc => exact (Unmarked.refl _).cons (by rw [hc]; decide)
      · exact Unmarked.refl _

theorem unmarked_of_based? {base : Nat} {s rest : Text} {n : Int}
    (h : based? base s = some (n, rest)) : Unmarked s rest := by
  unfold based? at h
  split at h
  · cases h
  · next hdigits =>
    simp only at h
    split at h
    · cases h
      exact unmarked_of_digitsFrom? ⟨rfl, rfl, rfl⟩ hdigits
    · cases h

theorem unmarked_of_integer? {s rest : Text} {n : Int} (h : integer? s = some (n, rest)) :
    Unmarked s rest := by
  unfold integer? at h
  split at h
  · exact ((unmarked_of_based? h).cons (by decide)).cons (by decide)
  · exact ((unmarked_of_based? h).cons (by decide)).cons (by decide)
  · exact ((unmarked_of_based? h).cons (by decide)).cons (by decide)
  · simp only at h
    split at h
    · cases h
    · next hwhole =>
      split at h
      · cases h
        exact (unmarked_sign s).trans (unmarked_of_whole? hwhole)
      · cases h

theorem unmarked_of_power? {s rest : Text} {e : Int} (h : power? s = some (e, rest)) :
    Unmarked s rest := by
  unfold power? at h
  split at h
  · cases h
  · split at h
    · next hc =>
      obtain ⟨⟨digits, r⟩, hdigits, he⟩ := Option.map_eq_some_iff.1 h
      cases he
      exact ((unmarked_sign _).trans (unmarked_of_digits? hdigits)).cons
        (isMark_eq_false (p := fun c => c = 'e' || c = 'E') (by decide) hc)
    · cases h

theorem unmarked_of_float? {s rest : Text} {x : Binary64} (h : float? s = some (x, rest)) :
    Unmarked s rest := by
  refine (unmarked_sign s).trans ?_
  unfold float? at h
  simp only at h
  split at h
  · next hinf =>
    cases h
    exact unmarked_of_after? (by decide) hinf
  split at h
  · next hnan =>
    cases h
    exact unmarked_of_after? (by decide) hnan
  split at h
  · cases h
  · next front u hwhole =>
    refine (unmarked_of_whole? hwhole).trans (Unmarked.cons (by decide) ?_)
    split at h
    · cases h
    · next back r hback =>
      obtain ⟨_, _, he⟩ := Option.map_eq_some_iff.1 h
      cases he
      refine (unmarked_of_digits? hback).trans ?_
      cases hpower : power? r with
      | none => exact Unmarked.refl r
      | some p => exact unmarked_of_power? hpower
  · next front u _ hwhole =>
    refine (unmarked_of_whole? hwhole).trans ?_
    split at h
    · cases h
    · next hpower =>
      obtain ⟨_, _, he⟩ := Option.map_eq_some_iff.1 h
      cases he
      exact unmarked_of_power? hpower

/-! ## Dates and times -/

theorem unmarked_of_fixed? {count n : Nat} {s rest : Text} (h : fixed? count s = some (n, rest)) :
    Unmarked s rest := by
  unfold fixed? at h
  simp only at h
  split at h
  · next hdigits =>
    cases h
    rw [Bool.and_eq_true] at hdigits
    exact ⟨s.take count, (List.take_append_drop count s).symm, fun c hc =>
      isMark_eq_false (by decide) (List.all_eq_true.1 hdigits.2 c hc)⟩
  · cases h

theorem unmarked_of_twoDigits? {low high n : Nat} {s rest : Text}
    (h : twoDigits? low high s = some (n, rest)) : Unmarked s rest := by
  unfold twoDigits? at h
  split at h
  · next hfixed =>
    split at h
    · cases h
      exact unmarked_of_fixed? hfixed
    · cases h
  · cases h

theorem unmarked_of_date? {s rest : Text} (h : date? s = some rest) : Unmarked s rest := by
  unfold date? at h
  obtain ⟨⟨year, s₁⟩, hyear, h⟩ := Option.bind_eq_some_iff.1 h
  obtain ⟨s₂, hfirst, h⟩ := Option.bind_eq_some_iff.1 h
  obtain ⟨⟨month, s₃⟩, hmonth, h⟩ := Option.bind_eq_some_iff.1 h
  obtain ⟨s₄, hsecond, h⟩ := Option.bind_eq_some_iff.1 h
  obtain ⟨⟨day, s₅⟩, hday, h⟩ := Option.bind_eq_some_iff.1 h
  cases h
  have hdash : ['-'].any isMark = false := rfl
  calc
    Unmarked s s₁ := unmarked_of_fixed? hyear
    Unmarked _ s₂ := unmarked_of_after? hdash hfirst
    Unmarked _ s₃ := unmarked_of_twoDigits? hmonth
    Unmarked _ s₄ := unmarked_of_after? hdash hsecond
    Unmarked _ rest := unmarked_of_twoDigits? hday

theorem unmarked_of_minutes? {s rest : Text} (h : minutes? s = some rest) : Unmarked s rest := by
  unfold minutes? at h
  obtain ⟨⟨hour, s₁⟩, hhour, h⟩ := Option.bind_eq_some_iff.1 h
  obtain ⟨s₂, hcolon, h⟩ := Option.bind_eq_some_iff.1 h
  obtain ⟨⟨minute, s₃⟩, hminute, h⟩ := Option.bind_eq_some_iff.1 h
  cases h
  exact ((unmarked_of_twoDigits? hhour).trans (unmarked_of_after? (by decide) hcolon)).trans
    (unmarked_of_twoDigits? hminute)

theorem unmarked_withoutFraction (s : Text) : Unmarked s (withoutFraction s) := by
  unfold withoutFraction
  split
  · split
    · exact (unmarked_dropWhile (by decide) _).cons (by decide)
    · exact Unmarked.refl _
  · exact Unmarked.refl _

theorem unmarked_of_time? {s rest : Text} (h : time? s = some rest) : Unmarked s rest := by
  unfold time? at h
  obtain ⟨s₁, hminutes, h⟩ := Option.bind_eq_some_iff.1 h
  obtain ⟨s₂, hcolon, h⟩ := Option.bind_eq_some_iff.1 h
  obtain ⟨⟨second, s₃⟩, hsecond, h⟩ := Option.bind_eq_some_iff.1 h
  cases h
  calc
    Unmarked s s₁ := unmarked_of_minutes? hminutes
    Unmarked _ s₂ := unmarked_of_after? (by decide) hcolon
    Unmarked _ s₃ := unmarked_of_twoDigits? hsecond
    Unmarked _ _ := unmarked_withoutFraction s₃

theorem unmarked_withoutOffset (s : Text) : Unmarked s (withoutOffset s) := by
  unfold withoutOffset
  split
  · exact Unmarked.refl []
  · next c t =>
    split
    · next hc =>
      exact (Unmarked.refl t).cons
        (isMark_eq_false (p := fun c => c = 'Z' || c = 'z') (by decide) hc)
    · split
      · next hc =>
        cases hminutes : minutes? t with
        | none => exact Unmarked.refl _
        | some rest =>
          exact (unmarked_of_minutes? hminutes).cons
            (isMark_eq_false (p := fun c => c = '+' || c = '-') (by decide) hc)
      · exact Unmarked.refl _

theorem unmarked_of_timeOfDay? {s rest : Text} (h : timeOfDay? s = some rest) :
    Unmarked s rest := by
  unfold timeOfDay? at h
  split at h
  · cases h
  · split at h
    · next hc =>
      obtain ⟨t, htime, rfl⟩ := Option.map_eq_some_iff.1 h
      exact ((unmarked_of_time? htime).trans (unmarked_withoutOffset t)).cons
        (isMark_eq_false (p := fun c => c = 'T' || c = 't' || c = ' ') (by decide) hc)
    · cases h

theorem unmarked_of_moment? {s rest : Text} (h : moment? s = some rest) : Unmarked s rest := by
  unfold moment? at h
  split at h
  · next r hdate =>
    cases h
    refine (unmarked_of_date? hdate).trans ?_
    cases htime : timeOfDay? r with
    | none => exact Unmarked.refl r
    | some rest => exact unmarked_of_timeOfDay? htime
  · exact unmarked_of_time? h

/-! ## Scalars -/

/-- A text makes no comment, before anything but a quote. -/
def Silent (u : Text) : Prop := ∀ s, NoQuote s → comments (u ++ s) = comments s

theorem noQuote_nil : NoQuote [] := ⟨by simp, by simp⟩

theorem Silent.comments_eq_nil {u : Text} (h : Silent u) : comments u = [] := by
  have hempty := h [] noQuote_nil
  rwa [List.append_nil, comments_nil] at hempty

theorem Silent.sealedBefore {u : Text} (h : Silent u) : SealedBefore NoQuote u := by
  intro s hs
  rw [h s hs, h.comments_eq_nil, List.nil_append]

theorem silent_of_isMark {u : Text} (hu : ∀ c ∈ u, isMark c = false) : Silent u :=
  fun s _ => comments_append_of_isMark hu s

/-- A string, a number or another value that holds no others is silent, and the comments of the text
it begins are those of what follows it. -/
theorem exists_of_scalar?_comments {s rest : Text} {d : Datum} (h : scalar? s = some (d, rest)) :
    ∃ u, s = u ++ rest ∧ Silent u ∧ comments s = comments rest := by
  have hunmarked : ∀ r, Unmarked s r → ∃ u, s = u ++ r ∧ Silent u ∧ comments s = comments r := by
    rintro r ⟨u, rfl, hu⟩
    exact ⟨u, rfl, silent_of_isMark hu, comments_append_of_isMark hu r⟩
  unfold scalar? at h
  split at h
  · cases h
  split at h
  · obtain ⟨⟨t, r⟩, hstring, he⟩ := Option.map_eq_some_iff.1 h
    cases he
    obtain ⟨u, hu, hread⟩ := exists_of_string? hstring
    exact ⟨u, hu, fun s hs => comments_of_string? (hread s hs.1 hs.2), comments_of_string? hstring⟩
  split at h
  · obtain ⟨r, hafter, he⟩ := Option.map_eq_some_iff.1 h
    cases he
    exact hunmarked _ (unmarked_of_after? (by decide) hafter)
  split at h
  · obtain ⟨r, hafter, he⟩ := Option.map_eq_some_iff.1 h
    cases he
    exact hunmarked _ (unmarked_of_after? (by decide) hafter)
  split at h
  · next hmoment =>
    cases h
    exact hunmarked _ (unmarked_of_moment? hmoment)
  split at h
  · next hfloat =>
    cases h
    exact hunmarked _ (unmarked_of_float? hfloat)
  · obtain ⟨⟨n, r⟩, hinteger, he⟩ := Option.map_eq_some_iff.1 h
    cases he
    exact hunmarked _ (unmarked_of_integer? hinteger)

end BuildTargets.Toml

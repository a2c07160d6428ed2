import BuildTargets.Text.Blank
import Mathlib.Data.List.DropRight

/-!
# Blanks at the ends of a text

`Text.trim` takes off the longest run of blanks at either end and nothing else: every text is its
trimmed form between two runs of blanks (`exists_eq_trim`), the trimmed form neither begins nor ends
with a blank (`isTrimmed_trim`), and a text with this property is its own trimmed form
(`trim_eq_self_iff`).  Blanks that are put in front of a text or behind it make no difference
(`trim_append`).
-/

namespace BuildTargets

/-- Taking members off the end is the library's right-hand `dropWhile`. -/
theorem dropEndWhile_eq_rdropWhile {α : Type} (p : α → Bool) (s : List α) :
    dropEndWhile p s = s.rdropWhile p := by
  induction s with
  | nil => rfl
  | cons c s ih =>
    have hrev : (c :: s).rdropWhile p =
        (s.reverse.dropWhile p ++ if (s.reverse.dropWhile p).isEmpty then [c].dropWhile p
          else [c]).reverse := by
      rw [List.rdropWhile, List.reverse_cons, List.dropWhile_append]
      split
      · next h => rw [List.isEmpty_iff.1 h, List.nil_append]
      · rfl
    rw [dropEndWhile, hrev, List.reverse_append, ih, List.rdropWhile]
    cases h : s.reverse.dropWhile p with
    | nil => by_cases hc : p c = true <;> simp [hc]
    | cons d r =>
      rw [show (if (d :: r).isEmpty = true then [c].dropWhile p else [c]) = [c] from rfl]
      cases hr : (d :: r).reverse with
      | nil => simp at hr
      | cons e t => rfl

namespace Text

/-- A text that holds blanks only. -/
def IsBlank (s : Text) : Prop := ∀ c ∈ s, isBlank c = true

/-- A text that neither begins nor ends with a blank. -/
structure IsTrimmed (s : Text) : Prop where
  head : ∀ c ∈ s.head?, isBlank c = false
  last : ∀ c ∈ s.getLast?, isBlank c = false

instance (s : Text) : Decidable s.IsBlank :=
  decidable_of_iff (s.all isBlank = true) List.all_eq_true

theorem isBlank_nil : IsBlank [] := by
  intro c hc
  cases hc

theorem isBlank_cons {c : Char} {s : Text} : IsBlank (c :: s) ↔ isBlank c = true ∧ IsBlank s :=
  List.forall_mem_cons

theorem isBlank_append {s t : Text} : IsBlank (s ++ t) ↔ IsBlank s ∧ IsBlank t :=
  List.forall_mem_append

/-! ### Leading blanks -/

/-- Leading blanks are taken off one after the other. -/
@[simp] theorem trimStart_append_of_isBlank {b : Text} (hb : b.IsBlank) (s : Text) :
    trimStart (b ++ s) = trimStart s :=
  List.dropWhile_append_of_pos hb

@[simp] theorem trimStart_cons_of_not_isBlank {c : Char} (hc : isBlank c = false) (s : Text) :
    trimStart (c :: s) = c :: s := by
  simp [trimStart, hc]

/-- What is taken off the beginning holds blanks only. -/
theorem exists_eq_trimStart (s : Text) : ∃ b : Text, b.IsBlank ∧ s = b ++ trimStart s := by
  refine ⟨s.takeWhile isBlank, ?_, List.takeWhile_append_dropWhile.symm⟩
  intro c hc
  exact List.mem_takeWhile_imp hc

/-- What is left does not begin with a blank. -/
theorem head?_trimStart (s : Text) : ∀ c ∈ (trimStart s).head?, isBlank c = false := by
  intro c hc
  have h := List.head?_dropWhile_not isBlank s
  rw [show s.dropWhile isBlank = trimStart s from rfl, Option.mem_def.1 hc] at h
  simpa using h

/-- A text that does not begin with a blank keeps its beginning. -/
theorem trimStart_eq_self {s : Text} (hs : ∀ c ∈ s.head?, isBlank c = false) : trimStart s = s := by
  cases s with
  | nil => rfl
  | cons c s => exact trimStart_cons_of_not_isBlank (hs c rfl) s

/-- In front of a character that is no blank, the rest of a text keeps out of the way. -/
theorem trimStart_append_cons (s t : Text) {c : Char} (hc : isBlank c = false) :
    trimStart (s ++ c :: t) = trimStart s ++ c :: t := by
  obtain ⟨b, hb, hs⟩ := exists_eq_trimStart s
  have hhead := head?_trimStart s
  rw [hs, List.append_assoc, trimStart_append_of_isBlank hb, trimStart_append_of_isBlank hb,
    trimStart_eq_self (s := trimStart s) hhead]
  cases h : trimStart s with
  | nil => exact trimStart_cons_of_not_isBlank hc t
  | cons d r =>
    rw [h] at hhead
    exact trimStart_cons_of_not_isBlank (hhead d rfl) _

/-! ### Trailing blanks -/

/-- Trailing blanks make no difference to what is left in front of them. -/
@[simp] theorem trimEnd_append_of_isBlank {b : Text} (hb : b.IsBlank) (s : Text) :
    trimEnd (s ++ b) = trimEnd s := by
  have hrev : ∀ c ∈ b.reverse, isBlank c = true := fun c hc => hb c (List.mem_reverse.1 hc)
  rw [trimEnd, trimEnd, dropEndWhile_eq_rdropWhile, dropEndWhile_eq_rdropWhile, List.rdropWhile,
    List.rdropWhile, List.reverse_append, List.dropWhile_append_of_pos hrev]

/-- What is taken off the end holds blanks only. -/
theorem exists_eq_trimEnd (s : Text) : ∃ b : Text, b.IsBlank ∧ s = trimEnd s ++ b := by
  obtain ⟨b, hs, hb⟩ := dropEndWhile_append isBlank s
  exact ⟨b, List.all_eq_true.1 hb, hs⟩

/-- What is left does not end with a blank. -/
theorem getLast?_trimEnd (s : Text) : ∀ c ∈ (trimEnd s).getLast?, isBlank c = false :=
  getLast?_dropEndWhile isBlank s

/-- A text that does not end with a blank keeps its end. -/
theorem trimEnd_eq_self {s : Text} (hs : ∀ c ∈ s.getLast?, isBlank c = false) : trimEnd s = s := by
  rw [trimEnd, dropEndWhile_eq_rdropWhile, List.rdropWhile_eq_self_iff]
  intro hne hlast
  have h := hs _ (List.getLast?_eq_some_getLast hne)
  rw [hlast] at h
  cases h

/-! ### Both ends -/

/-- A text is its trimmed form between two runs of blanks. -/
theorem exists_eq_trim (s : Text) :
    ∃ b b' : Text, b.IsBlank ∧ b'.IsBlank ∧ s = b ++ trim s ++ b' := by
  obtain ⟨b, hb, hs⟩ := exists_eq_trimStart s
  obtain ⟨b', hb', hs'⟩ := exists_eq_trimEnd (trimStart s)
  refine ⟨b, b', hb, hb', ?_⟩
  rw [trim, List.append_assoc, ← hs', ← hs]

/-- The trimmed form of a text neither begins nor ends with a blank. -/
theorem isTrimmed_trim (s : Text) : (trim s).IsTrimmed := by
  refine ⟨?_, getLast?_trimEnd _⟩
  intro c hc
  obtain ⟨b, -, hs⟩ := exists_eq_trimEnd (trimStart s)
  have hmem : c ∈ (trimStart s).head? := by
    rw [hs, List.head?_append, ← trim, Option.mem_def.1 hc]
    rfl
  exact head?_trimStart s c hmem

/-- Trimming changes nothing exactly where there is nothing to take off. -/
theorem trim_eq_self_iff {s : Text} : trim s = s ↔ s.IsTrimmed := by
  constructor
  · intro h
    rw [← h]
    exact isTrimmed_trim s
  · intro h
    rw [trim, trimStart_eq_self h.head, trimEnd_eq_self h.last]

instance (s : Text) : Decidable s.IsTrimmed := decidable_of_iff (trim s = s) trim_eq_self_iff

/-- Blanks at either end make no difference to the trimmed form. -/
theorem trim_append {b b' : Text} (hb : b.IsBlank) (hb' : b'.IsBlank) (s : Text) :
    trim (b ++ s ++ b') = trim s := by
  rw [trim, trim, List.append_assoc, trimStart_append_of_isBlank hb]
  by_cases hs : s.IsBlank
  · have h : ∀ t : Text, t.IsBlank → trimStart t = [] := fun t ht =>
      List.dropWhile_eq_nil_iff.2 ht
    rw [h _ (isBlank_append.2 ⟨hs, hb'⟩), h _ hs]
  · obtain ⟨a, ha, hsa⟩ := exists_eq_trimStart s
    cases ht : trimStart s with
    | nil =>
      rw [ht, List.append_nil] at hsa
      exact absurd (hsa ▸ ha) hs
    | cons c t =>
      have hc : isBlank c = false := head?_trimStart s c (by rw [ht]; rfl)
      rw [hsa, ht, List.append_assoc, trimStart_append_of_isBlank ha, List.cons_append,
        trimStart_cons_of_not_isBlank hc, ← List.cons_append, trimEnd_append_of_isBlank hb']

/-- Nothing is left of blanks. -/
theorem trim_eq_nil_iff {s : Text} : trim s = [] ↔ s.IsBlank := by
  constructor
  · intro h
    obtain ⟨b, b', hb, hb', hs⟩ := exists_eq_trim s
    rw [hs, h, List.append_nil]
    exact isBlank_append.2 ⟨hb, hb'⟩
  · intro h
    have := trim_append h isBlank_nil []
    rwa [List.append_nil, List.append_nil] at this

end Text

end BuildTargets

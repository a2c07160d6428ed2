/-!
# Texts

A text is a list of characters, so that every scanner of this library is a recursion on its input.
This module holds the operations that the scanners share: taking a fixed beginning off, looking for
a text inside another, and cutting at the last occurrence of a character. Each comes with the
equation that says what it does in terms of concatenation.
-/

namespace BuildTargets

/-- A text, character by character. -/
abbrev Text := List Char

/-- A sequence of octets: the content of a file, or a path as the system sees it. -/
abbrev Bytes := List UInt8

section Lists

variable {α : Type} [DecidableEq α]

/-- What follows `lead` in `s`, if `s` begins with `lead`. -/
def after? : (lead s : List α) → Option (List α)
  | [], s => some s
  | _ :: _, [] => none
  | a :: lead, b :: s => if a = b then after? lead s else none

theorem after?_eq_some_iff {lead s rest : List α} :
    after? lead s = some rest ↔ s = lead ++ rest := by
  induction lead generalizing s with
  | nil => simp [after?, eq_comm]
  | cons a lead ih =>
    cases s with
    | nil => simp [after?]
    | cons b s =>
      by_cases h : a = b
      · simp [after?, h, ih]
      · simp [after?, h, Ne.symm h]

@[simp] theorem after?_append (lead rest : List α) : after? lead (lead ++ rest) = some rest :=
  after?_eq_some_iff.2 rfl

theorem after?_length {lead s rest : List α} (h : after? lead s = some rest) :
    s.length = lead.length + rest.length := by
  simp [after?_eq_some_iff.1 h]

/-- Whether `part` occurs somewhere in `s`, as consecutive members. -/
def occursIn (part : List α) : List α → Bool
  | [] => part.isEmpty
  | c :: s => (after? part (c :: s)).isSome || occursIn part s

theorem occursIn_iff {part s : List α} : occursIn part s = true ↔ part <:+: s := by
  induction s with
  | nil => simp [occursIn]
  | cons c s ih =>
    rw [occursIn, Bool.or_eq_true, ih, List.infix_cons_iff, Option.isSome_iff_exists]
    refine or_congr_left ⟨?_, ?_⟩
    · rintro ⟨rest, h⟩
      exact ⟨rest, (after?_eq_some_iff.1 h).symm⟩
    · rintro ⟨rest, h⟩
      exact ⟨rest, after?_eq_some_iff.2 h.symm⟩

/-- The parts before and after the last occurrence of `sep`. -/
def cutLast (sep : α) : List α → Option (List α × List α)
  | [] => none
  | c :: s =>
    match cutLast sep s with
    | some (front, back) => some (c :: front, back)
    | none => if c = sep then some ([], s) else none

theorem cutLast_eq_none_iff {sep : α} {s : List α} : cutLast sep s = none ↔ sep ∉ s := by
  induction s with
  | nil => simp [cutLast]
  | cons c s ih =>
    rw [cutLast]
    split
    · next h => simp [show sep ∈ s by rw [← Decidable.not_not (p := sep ∈ s), ← ih, h]; simp]
    · next h => by_cases hc : c = sep <;> simp_all [eq_comm]

theorem cutLast_eq_some_iff {sep : α} {s front back : List α} :
    cutLast sep s = some (front, back) ↔ s = front ++ sep :: back ∧ sep ∉ back := by
  induction s generalizing front back with
  | nil => simp [cutLast]
  | cons c s ih =>
    rw [cutLast]
    split
    · next front' back' h =>
      have ⟨hs, hb⟩ := ih.1 h
      constructor
      · rintro ⟨⟩
        exact ⟨by simp [hs], hb⟩
      · rintro ⟨heq, hnb⟩
        cases front with
        | nil =>
          simp only [List.nil_append, List.cons.injEq] at heq
          exact absurd (by simp [← heq.2, hs]) hnb
        | cons d front =>
          simp only [List.cons_append, List.cons.injEq] at heq
          rw [ih.2 ⟨heq.2, hnb⟩] at h
          cases h
          rw [heq.1]
    · next h =>
      have hns : sep ∉ s := cutLast_eq_none_iff.1 h
      constructor
      · intro heq
        split at heq
        · next hc => cases heq; exact ⟨by simp [hc], hns⟩
        · cases heq
      · rintro ⟨heq, -⟩
        cases front with
        | nil => simp_all
        | cons d front => simp_all

end Lists

section Ends

variable {α : Type}

/-- The list without the members satisfying `p` at its end. -/
def dropEndWhile (p : α → Bool) : List α → List α
  | [] => []
  | c :: s =>
    match dropEndWhile p s with
    | [] => if p c then [] else [c]
    | d :: r => c :: d :: r

/-- Nothing but members satisfying `p` is taken off the end. -/
theorem dropEndWhile_append (p : α → Bool) (s : List α) :
    ∃ b : List α, s = dropEndWhile p s ++ b ∧ b.all p := by
  induction s with
  | nil => exact ⟨[], by simp [dropEndWhile]⟩
  | cons c s ih =>
    obtain ⟨b, hs, hb⟩ := ih
    rw [dropEndWhile]
    split
    · next h =>
      rw [h, List.nil_append] at hs
      split
      · next hc => exact ⟨c :: s, by simp, by simp [hc, hs, hb]⟩
      · exact ⟨s, by simp, by rw [hs]; exact hb⟩
    · next d r h => exact ⟨b, by rw [List.cons_append, ← h, ← hs], hb⟩

/-- What is left does not end in a member satisfying `p`. -/
theorem getLast?_dropEndWhile (p : α → Bool) (s : List α) :
    ∀ c ∈ (dropEndWhile p s).getLast?, p c = false := by
  induction s with
  | nil => simp [dropEndWhile]
  | cons c s ih =>
    rw [dropEndWhile]
    split
    · split
      · simp
      · next hc => simpa using hc
    · next d r h =>
      rw [h] at ih
      simpa [List.getLast?_cons_cons] using ih

end Ends

/-- The members of `xs`, with `sep` between neighbours. -/
def joinWith {α : Type} (sep : List α) : List (List α) → List α
  | [] => []
  | [x] => x
  | x :: y :: xs => x ++ sep ++ joinWith sep (y :: xs)

end BuildTargets

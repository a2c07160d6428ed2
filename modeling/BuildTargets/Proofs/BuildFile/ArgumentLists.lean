import BuildTargets.BuildFile.Status
import BuildTargets.Proofs.Statement.Grammar
import BuildTargets.Proofs.Text.Lines

/-!
# What a build file says about a target

`argumentLists kind target text` lists the arguments of all statements of one kind about one target,
in the order of the lines.  It is the view of a text that matters to a target: the status of a
target depends on it alone (`classify_fst`), and it is put together from the views of the parts of a
text that a line feed separates (`argumentLists_append_newline`), however these were ended before.
-/

namespace BuildTargets

namespace BuildFile

open Statement

/-- The arguments of the statements of a kind about a target, in the order of the lines. -/
def argumentLists (kind : Kind) (target text : Text) : List Text :=
  (Line.split text).filterMap fun l => read? kind target l.content

section

variable {kind : Kind} {target : Text}

/-- An empty line is no statement. -/
@[simp] theorem read?_nil (kind : Kind) (target : Text) : read? kind target [] = none := by
  cases kind <;> rfl

/-- The same is read off a line whether a carriage return belongs to it or to its terminator. -/
theorem read?_reread (hn : Request.IsTargetName target) (l : Line) :
    read? kind target l.reread.content = read? kind target l.content := by
  rw [Line.reread]
  split
  · next h =>
    obtain ⟨s, hs⟩ := List.getLast?_eq_some_iff.1 h.2
    rw [hs, List.dropLast_concat]
    exact (read?_append_isBlank hn kind s (by decide)).symm
  · rfl

/-- A text in one line makes one statement at most. -/
theorem argumentLists_of_newline_not_mem {s : Text} (hs : '\n' ∉ s) :
    argumentLists kind target s = (read? kind target s).toList := by
  by_cases hne : s = []
  · rw [hne, read?_nil]
    rfl
  · rw [argumentLists, Line.split_of_newline_not_mem hne hs]
    cases h : read? kind target s <;> simp [h]

/-- Ended lines add what is read off them to what follows. -/
theorem argumentLists_join_append (hn : Request.IsTargetName target) {ls : List Line}
    (hls : ∀ l ∈ ls, l.IsEnded) (rest : Text) :
    argumentLists kind target (Line.join ls ++ rest) =
      ls.filterMap (fun l => read? kind target l.content) ++ argumentLists kind target rest := by
  rw [argumentLists, Line.split_join_append hls, List.filterMap_append, List.filterMap_map]
  have hread : (fun l : Line => read? kind target l.content) ∘ Line.reread =
      fun l => read? kind target l.content := by
    funext l
    exact read?_reread hn l
  rw [hread]
  rfl

/-- A line feed separates what is said before it from what is said behind it. -/
theorem argumentLists_append_newline (hn : Request.IsTargetName target) (s t : Text) :
    argumentLists kind target (s ++ '\n' :: t) =
      argumentLists kind target s ++ argumentLists kind target t := by
  obtain ⟨ls, r, hls, hr, rfl⟩ := Line.exists_eq_join_append s
  have hended : ∀ l ∈ ls ++ [⟨r, .lf⟩], l.IsEnded := by
    intro l hl
    rcases List.mem_append.1 hl with hl | hl
    · exact hls l hl
    · rw [List.mem_singleton.1 hl]
      exact ⟨by simp, hr⟩
  have htext : Line.join ls ++ r ++ '\n' :: t = Line.join (ls ++ [⟨r, .lf⟩]) ++ t := by
    simp [Line.text, LineEnd.text]
  rw [htext, argumentLists_join_append hn hended, argumentLists_join_append hn hls,
    argumentLists_of_newline_not_mem hr, List.filterMap_append]
  cases h : read? kind target r <;> simp [h]

/-- A carriage return at the end of a text changes no statement. -/
theorem argumentLists_append_return (hn : Request.IsTargetName target) (s : Text) :
    argumentLists kind target (s ++ ['\r']) = argumentLists kind target s := by
  obtain ⟨ls, r, hls, hr, rfl⟩ := Line.exists_eq_join_append s
  have hr' : '\n' ∉ r ++ ['\r'] := by
    intro h
    rcases List.mem_append.1 h with h | h
    · exact hr h
    · exact absurd (List.mem_singleton.1 h) (by decide)
  rw [List.append_assoc, argumentLists_join_append hn hls, argumentLists_join_append hn hls,
    argumentLists_of_newline_not_mem hr', argumentLists_of_newline_not_mem hr,
    read?_append_isBlank hn kind r (by decide)]

/-- A line with a terminator says what its content says, be it one line or more. -/
theorem argumentLists_text_append (hn : Request.IsTargetName target) {l : Line}
    (hl : l.ending ≠ .eof) (rest : Text) :
    argumentLists kind target (l.text ++ rest) =
      argumentLists kind target l.content ++ argumentLists kind target rest := by
  obtain ⟨s, e⟩ := l
  cases e with
  | lf =>
    rw [Line.text, LineEnd.text, List.append_assoc]
    exact argumentLists_append_newline hn s rest
  | crlf =>
    have htext : Line.text ⟨s, .crlf⟩ ++ rest = s ++ ['\r'] ++ '\n' :: rest := by
      simp [Line.text, LineEnd.text]
    rw [htext, argumentLists_append_newline hn, argumentLists_append_return hn]
  | eof => exact absurd rfl hl

/-- A sequence of lines with terminators says what their contents say. -/
theorem argumentLists_join (hn : Request.IsTargetName target) {ls : List Line}
    (hls : ∀ l ∈ ls, l.ending ≠ .eof) :
    argumentLists kind target (Line.join ls) =
      ls.flatMap fun l => argumentLists kind target l.content := by
  induction ls with
  | nil => rfl
  | cons l ls ih =>
    rw [Line.join_cons, argumentLists_text_append hn (hls l List.mem_cons_self),
      ih fun k hk => hls k (List.mem_cons_of_mem l hk), List.flatMap_cons]

/-- The lines of a text say together what the text says. -/
theorem flatMap_argumentLists_split (kind : Kind) (target s : Text) :
    (Line.split s).flatMap (fun l => argumentLists kind target l.content) =
      argumentLists kind target s := by
  rw [argumentLists, List.filterMap_eq_flatMap_toList]
  refine List.flatMap_congr ?_
  intro l hl
  exact argumentLists_of_newline_not_mem (Line.newline_not_mem_of_mem_split hl)

/-- Arguments are in one line. -/
theorem newline_not_mem_of_mem_argumentLists (hn : Request.IsTargetName target) {s arguments : Text}
    (h : arguments ∈ argumentLists kind target s) : '\n' ∉ arguments := by
  obtain ⟨l, hl, hread⟩ := List.mem_filterMap.1 h
  have hspelling := (read?_eq_some_iff hn).1 hread
  have hline := Line.newline_not_mem_of_mem_split hl
  generalize l.content = line at hspelling hline
  obtain ⟨-, -, -, -, -, -, -⟩ := hspelling
  intro hmem
  exact hline (by simp [hmem])

end

/-! ## The status of a target -/

/-- The first line that declares a target holds the first of its argument lists. -/
theorem declaration?_map_snd (target : Text) (ls : List Line) :
    (declaration? target ls).map Prod.snd =
      (ls.filterMap fun l => read? .executable target l.content).head? := by
  induction ls with
  | nil => rfl
  | cons l ls ih =>
    rw [declaration?]
    cases h : read? .executable target l.content with
    | some arguments => simp [h]
    | none => simpa [h, Option.map_map, Function.comp_def] using ih

/-- The status of a target depends on the first of its argument lists. -/
theorem classify_fst (text target path : Text) :
    (classify text target path).1 =
      match (argumentLists .executable target text).head? with
      | none => Status.absent
      | some arguments => if occursIn path arguments then .same else .different := by
  rw [argumentLists, ← declaration?_map_snd, classify]
  cases declaration? target (Line.split text) with
  | none => rfl
  | some d => rfl

/-- A target that is not declared has no argument list. -/
theorem argumentLists_eq_nil_of_absent {text target path : Text}
    (h : (classify text target path).1 = .absent) : argumentLists .executable target text = [] := by
  rw [classify_fst] at h
  cases hlists : argumentLists .executable target text with
  | nil => rfl
  | cons arguments lists =>
    rw [hlists] at h
    simp only [List.head?_cons] at h
    split at h <;> cases h

end BuildFile

end BuildTargets

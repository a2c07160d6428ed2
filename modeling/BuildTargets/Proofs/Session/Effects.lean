import BuildTargets.Proofs.Session.Step
import BuildTargets.Proofs.Sync.Plan
import BuildTargets.Proofs.Sync.Run

/-!
# What runs do in the course of a session

Whatever has happened before, and whatever the store refuses, a run changes a session in one way only:
a run that inserts or overwrites replaces the text once by what was planned for it
(`HasEffect`).  A question is asked where an overwrite is planned and questions are not skipped, and
nowhere else.  So in a whole session, with changes from outside in between, as many texts are written
as runs end with an insertion or an overwrite (`session_effects`).
-/

namespace BuildTargets

namespace Session

open Sync

variable {location : Path} {x : Run} {s s' : Session} {result : Except Fault Outcome}

/-! ## What is observed -/

/-- Whether the result of a run tells of a new text. -/
def wrote : Except Fault Outcome → Bool
  | .ok .inserted | .ok .overwritten => true
  | _ => false

/-- A run asks its question: it reads a text in which the declaration has to be replaced, and questions
are not skipped. -/
def Run.Asks (x : Run) (s : Session) : Prop :=
  x.skip = false ∧ x.CanRead ∧ ∃ text new, s.text = some text ∧
    plan x.request text = .overwrite new

/-- The answer to the question of a run. -/
def Run.answer (x : Run) (s : Session) : Bool := (confirm x.answerer (question x.request) s).1

/-- The status of the target of a run in the text of a session. -/
def Run.Finds (x : Run) (s : Session) (status : BuildFile.Status) : Prop :=
  ∃ text, s.text = some text ∧
    (BuildFile.classify text x.request.targetName x.request.relativePath).1 = status

/-- What a run does to a session. -/
structure HasEffect (location : Path) (x : Run) (s : Session) (result : Except Fault Outcome)
    (s' : Session) : Prop where
  /-- Without a result that tells of it, no text is written. -/
  kept : wrote result = false → s'.text = s.text ∧ s'.writes = s.writes
  /-- A text that is written is the one that was planned for the text before. -/
  written : wrote result = true → s'.writes = s.writes + 1 ∧
    ∃ old new, s.text = some old ∧ Changes x.request old new ∧ s'.text = some new
  /-- The question is asked once. -/
  asked : x.Asks s → s'.asked = s.asked ++ [question x.request]
  /-- No other question is asked. -/
  silent : ¬x.Asks s → s'.asked = s.asked
  /-- An overwrite is declined exactly if the answer to the question is no. -/
  declined : result = .ok .declined ↔ x.Asks s ∧ x.answer s = false
  /-- Only a target that was absent is inserted. -/
  absent : result = .ok .inserted → x.Finds s .absent
  /-- Only a conflicting declaration is overwritten, or is left alone after a question. -/
  conflicting : result = .ok .overwritten ∨ result = .ok .declined → x.Finds s .different
  /-- A run fails because there is no build file, or because the store refuses. -/
  failed : ∀ fault, result = .error fault →
    s.text = none ∧ fault = .noBuildFile [location] ∨
      x.refusal = some (.read fault) ∨ x.refusal = some (.write fault)

/-! ## The store -/

/-- A text that was read is the text of the session, in which nothing has changed. -/
theorem eq_of_run_read {found : Option Text}
    (h : (store location x.refusal).read.run s = (.ok found, s')) :
    x.CanRead ∧ s.text = found ∧ s' = s := by
  rw [Run.CanRead]
  cases hrefusal : x.refusal with
  | none =>
    rw [hrefusal] at h
    cases h
    exact ⟨fun _ => nofun, rfl, rfl⟩
  | some refusal =>
    rw [hrefusal] at h
    cases refusal with
    | read fault => cases h
    | write fault =>
      cases h
      exact ⟨fun _ => nofun, rfl, rfl⟩

/-- A text that was not read was refused, and nothing has changed. -/
theorem eq_of_run_read_error {fault : Fault}
    (h : (store location x.refusal).read.run s = (.error fault, s')) :
    x.refusal = some (.read fault) ∧ s' = s := by
  cases hrefusal : x.refusal with
  | none =>
    rw [hrefusal] at h
    cases h
  | some refusal =>
    rw [hrefusal] at h
    cases refusal with
    | read fault' =>
      cases h
      exact ⟨rfl, rfl⟩
    | write fault' => cases h

/-- A new text that was taken is written once. -/
theorem eq_of_run_replace {new : Text} {done : Unit}
    (h : ((store location x.refusal).replace new).run s = (.ok done, s')) : s' = s.written new := by
  cases hrefusal : x.refusal with
  | none =>
    rw [hrefusal] at h
    cases h
    rfl
  | some refusal =>
    rw [hrefusal] at h
    cases refusal with
    | read fault =>
      cases h
      rfl
    | write fault => cases h

/-- A new text that was not taken was refused, and nothing has changed. -/
theorem eq_of_run_replace_error {new : Text} {fault : Fault}
    (h : ((store location x.refusal).replace new).run s = (.error fault, s')) :
    x.refusal = some (.write fault) ∧ s' = s := by
  cases hrefusal : x.refusal with
  | none =>
    rw [hrefusal] at h
    cases h
  | some refusal =>
    rw [hrefusal] at h
    cases refusal with
    | read fault' => cases h
    | write fault' =>
      cases h
      exact ⟨rfl, rfl⟩

/-! ## One run -/

/-- A text for which no overwrite is planned raises no question. -/
theorem not_asks_of_plan_ne {text : Text} (hs : s.text = some text)
    (hplan : ∀ new, plan x.request text ≠ .overwrite new) : ¬x.Asks s := by
  rintro ⟨-, -, text', new, hs', hoverwrite⟩
  rw [hs] at hs'
  cases hs'
  exact hplan new hoverwrite

/-- A run that neither asks nor writes leaves the session as it is. -/
theorem hasEffect_self (hnot : ¬x.Asks s) (hwrote : wrote result = false)
    (hdeclined : result ≠ .ok .declined)
    (hfailed : ∀ fault, result = .error fault →
      s.text = none ∧ fault = .noBuildFile [location] ∨
        x.refusal = some (.read fault) ∨ x.refusal = some (.write fault)) :
    HasEffect location x s result s where
  kept := fun _ => ⟨rfl, rfl⟩
  written := fun h => by
    rw [hwrote] at h
    cases h
  asked := fun h => absurd h hnot
  silent := fun _ => rfl
  declined := iff_of_false hdeclined fun h => hnot h.1
  absent := fun h => by
    rw [h] at hwrote
    cases hwrote
  conflicting := fun h => by
    rcases h with h | h
    · rw [h] at hwrote
      cases hwrote
    · exact absurd h hdeclined
  failed := hfailed

/-- What a decision on an overwrite leaves: the same text, and the question on record if it was
asked. -/
structure IsDecided (x : Run) (s : Session) (allowed : Bool) (s' : Session) : Prop where
  text : s'.text = s.text
  writes : s'.writes = s.writes
  asked : x.Asks s → s'.asked = s.asked ++ [question x.request]
  silent : ¬x.Asks s → s'.asked = s.asked
  refused : allowed = false ↔ x.Asks s ∧ x.answer s = false

theorem isDecided_of_decides {text new : Text} {allowed : Bool} (hread : x.CanRead)
    (hs : s.text = some text) (hplan : plan x.request text = .overwrite new)
    (h : Decides (confirm x.answerer) x.request x.skip s allowed s') : IsDecided x s allowed s' := by
  cases h with
  | skipped hskip =>
    have hnot : ¬x.Asks s := by
      rintro ⟨hask, -⟩
      rw [hskip] at hask
      cases hask
    exact ⟨rfl, rfl, fun h => absurd h hnot, fun _ => rfl,
      iff_of_false (by decide) fun h => hnot h.1⟩
  | asked hskip =>
    have hasks : x.Asks s := ⟨hskip, hread, text, new, hs, hplan⟩
    exact ⟨rfl, rfl, fun _ => rfl, fun h => absurd hasks h, (and_iff_right hasks).symm⟩

/-- Each of the runs that there are has its effect. -/
theorem hasEffect_of_takes
    (h : Takes (store location x.refusal) (confirm x.answerer) x.request x.skip s result s') :
    HasEffect location x s result s' := by
  cases h with
  | unreadable hread =>
    obtain ⟨hrefusal, rfl⟩ := eq_of_run_read_error hread
    refine hasEffect_self (fun h => h.2.1 _ hrefusal) rfl (fun h => by cases h) ?_
    rintro _ ⟨⟩
    exact Or.inr (Or.inl hrefusal)
  | missing hread =>
    obtain ⟨-, hs, rfl⟩ := eq_of_run_read hread
    refine hasEffect_self ?_ rfl (fun h => by cases h) ?_
    · rintro ⟨-, -, text, new, hs', -⟩
      rw [hs] at hs'
      cases hs'
    · rintro _ ⟨⟩
      exact Or.inl ⟨hs, rfl⟩
  | present hread hplan =>
    obtain ⟨-, hs, rfl⟩ := eq_of_run_read hread
    exact hasEffect_self (not_asks_of_plan_ne hs (by simp [hplan])) rfl (fun h => by cases h)
      fun _ h => by cases h
  | inserted hread hplan hreplace =>
    obtain ⟨-, hs, rfl⟩ := eq_of_run_read hread
    cases eq_of_run_replace hreplace
    have hnot := not_asks_of_plan_ne (x := x) hs (by simp [hplan])
    exact {
      kept := fun h => by cases h
      written := fun _ => ⟨rfl, _, _, hs, Or.inl hplan, rfl⟩
      asked := fun h => absurd h hnot
      silent := fun _ => rfl
      declined := iff_of_false (fun h => by cases h) fun h => hnot h.1
      absent := fun _ => ⟨_, hs, classify_of_plan_eq_insert hplan⟩
      conflicting := fun h => by rcases h with h | h <;> cases h
      failed := fun _ h => by cases h }
  | notInserted hread hplan hreplace =>
    obtain ⟨-, hs, rfl⟩ := eq_of_run_read hread
    obtain ⟨hrefusal, rfl⟩ := eq_of_run_replace_error hreplace
    refine hasEffect_self (not_asks_of_plan_ne hs (by simp [hplan])) rfl (fun h => by cases h) ?_
    rintro _ ⟨⟩
    exact Or.inr (Or.inr hrefusal)
  | declined hread hplan hdecides =>
    obtain ⟨hserved, hs, rfl⟩ := eq_of_run_read hread
    have hdecided := isDecided_of_decides hserved hs hplan hdecides
    exact {
      kept := fun _ => ⟨hdecided.text, hdecided.writes⟩
      written := fun h => by cases h
      asked := hdecided.asked
      silent := hdecided.silent
      declined := iff_of_true rfl (hdecided.refused.1 rfl)
      absent := fun h => by cases h
      conflicting := fun _ => ⟨_, hs, classify_of_plan_eq_overwrite hplan⟩
      failed := fun _ h => by cases h }
  | overwritten hread hplan hdecides hreplace =>
    obtain ⟨hserved, hs, rfl⟩ := eq_of_run_read hread
    have hdecided := isDecided_of_decides hserved hs hplan hdecides
    cases eq_of_run_replace hreplace
    exact {
      kept := fun h => by cases h
      written := fun _ =>
        ⟨congrArg (· + 1) hdecided.writes, _, _, hs, Or.inr hplan, rfl⟩
      asked := hdecided.asked
      silent := hdecided.silent
      declined := iff_of_false (fun h => by cases h) fun h =>
        absurd (hdecided.refused.2 h) (by decide)
      absent := fun h => by cases h
      conflicting := fun _ => ⟨_, hs, classify_of_plan_eq_overwrite hplan⟩
      failed := fun _ h => by cases h }
  | notOverwritten hread hplan hdecides hreplace =>
    obtain ⟨hserved, hs, rfl⟩ := eq_of_run_read hread
    have hdecided := isDecided_of_decides hserved hs hplan hdecides
    obtain ⟨hrefusal, rfl⟩ := eq_of_run_replace_error hreplace
    exact {
      kept := fun _ => ⟨hdecided.text, hdecided.writes⟩
      written := fun h => by cases h
      asked := hdecided.asked
      silent := hdecided.silent
      declined := iff_of_false (fun h => by cases h) fun h =>
        absurd (hdecided.refused.2 h) (by decide)
      absent := fun h => by cases h
      conflicting := fun h => by rcases h with h | h <;> cases h
      failed := by
        rintro _ ⟨⟩
        exact Or.inr (Or.inr hrefusal) }

/-- A run has its effect on any session. -/
theorem hasEffect_perform (location : Path) (x : Run) (s : Session) :
    HasEffect location x s (perform location x s).1 (perform location x s).2 :=
  hasEffect_of_takes (takes_run _ _ _ _ s)

/-! ## Whole sessions -/

/-- The results of the runs among some events, in order. -/
def results (location : Path) : List Event → Session → List (Except Fault Outcome)
  | [], _ => []
  | .setText text :: events, s => results location events (after location s (.setText text))
  | .run x :: events, s => (perform location x s).1 :: results location events (after location s (.run x))

/-- A run writes once if its result tells of a new text, and not at all otherwise. -/
theorem writes_perform (location : Path) (x : Run) (s : Session) :
    (perform location x s).2.writes =
      s.writes + if wrote (perform location x s).1 = true then 1 else 0 := by
  have heffect := hasEffect_perform location x s
  cases hwrote : wrote (perform location x s).1 with
  | false => exact (heffect.kept hwrote).2
  | true => exact (heffect.written hwrote).1

/-- Every text that has been written is told of by a result. -/
theorem writes_foldl_after (location : Path) (events : List Event) (s : Session) :
    (events.foldl (after location) s).writes =
      s.writes + (results location events s).countP wrote := by
  induction events generalizing s with
  | nil => rfl
  | cons event events ih =>
    rw [List.foldl_cons, ih]
    cases event with
    | setText text => rfl
    | run x =>
      rw [results, List.countP_cons, after, writes_perform]
      omega

/-- After any events from outside and any runs, of which the store may have refused some, there have
been as many writes as insertions and overwrites were reported, and the next run has its effect and
no other. -/
theorem session_effects (location : Path) (text : Option Text) (events : List Event) (x : Run) :
    (events.foldl (after location) { text := text }).writes =
        (results location events { text := text }).countP wrote ∧
      HasEffect location x (events.foldl (after location) { text := text })
        (perform location x (events.foldl (after location) { text := text })).1
        (after location (events.foldl (after location) { text := text }) (.run x)) := by
  refine ⟨?_, hasEffect_perform location x _⟩
  rw [writes_foldl_after]
  exact Nat.zero_add _

end Session

end BuildTargets

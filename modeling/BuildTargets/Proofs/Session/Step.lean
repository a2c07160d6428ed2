import BuildTargets.Proofs.Fault.Bind
import BuildTargets.Session

/-!
# What a run does to a session

A run reads first and then does what was planned for the text it has read.  Where nothing is planned
the session stays as it is, and otherwise the new text is written once, unless the overwrite is
refused.  A declaration is only overwritten with leave (`Run.MayOverwrite`).
-/

namespace BuildTargets

namespace Session

/-- The store of a run lets its text be read. -/
def Run.CanRead (x : Run) : Prop := ∀ fault, x.refusal ≠ some (.read fault)

/-- A run may overwrite a declaration: nobody is asked, or the answer is yes. -/
def Run.MayOverwrite (x : Run) : Prop :=
  x.skip = true ∨ ∀ s, (confirm x.answerer (Sync.question x.request) s).1 = true

/-- The session after a new text was written. -/
def written (s : Session) (new : Text) : Session :=
  { s with text := some new, writes := s.writes + 1 }

@[simp] theorem text_written (s : Session) (new : Text) : (s.written new).text = some new := rfl

@[simp] theorem writes_written (s : Session) (new : Text) :
    (s.written new).writes = s.writes + 1 := rfl

variable {location : Path} {x : Run} {s : Session} {text new : Text}

theorem Run.canRead_of_refusal_eq_none (hx : x.refusal = none) : x.CanRead := by
  intro fault h
  rw [hx] at h
  cases h

theorem run_read (hread : x.CanRead) :
    (store location x.refusal).read.run s = (.ok s.text, s) := by
  cases hrefusal : x.refusal with
  | none => rfl
  | some refusal =>
    cases refusal with
    | read fault => exact absurd hrefusal (hread fault)
    | write fault => rfl

theorem run_replace (hx : x.refusal = none) (new : Text) :
    ((store location x.refusal).replace new).run s = (.ok (), s.written new) := by
  rw [hx]
  rfl

/-- Nothing happens where nothing is planned. -/
theorem perform_of_nothing (location : Path) (hread : x.CanRead) (hs : s.text = some text)
    (h : Sync.plan x.request text = .nothing) :
    perform location x s = (.ok .alreadyPresent, s) := by
  unfold perform Sync.run
  rw [run_bind_of_ok (run_read hread)]
  simp only [hs, h]
  rfl

/-- A planned insertion is written. -/
theorem perform_of_insert (location : Path) (hx : x.refusal = none) (hs : s.text = some text)
    (h : Sync.plan x.request text = .insert new) :
    perform location x s = (.ok .inserted, s.written new) := by
  unfold perform Sync.run
  rw [run_bind_of_ok (run_read (Run.canRead_of_refusal_eq_none hx))]
  simp only [hs, h]
  rw [run_bind_of_ok (run_replace hx new)]
  rfl

/-- A question is answered and recorded, and nothing else changes. -/
theorem run_confirm (answerer : Answerer) (q : Question) :
    (ExceptT.lift (confirm answerer q) : ExceptT Fault (StateM Session) Bool).run s =
      (.ok (confirm answerer q s).1, { s with asked := s.asked ++ [q] }) := rfl

/-- A planned overwrite that is allowed is written, after a question unless these are skipped. -/
theorem perform_of_overwrite (location : Path) (hx : x.refusal = none) (hallow : x.MayOverwrite)
    (hs : s.text = some text) (h : Sync.plan x.request text = .overwrite new) :
    ∃ asked, perform location x s = (.ok .overwritten, { s with asked := asked }.written new) := by
  have hread := Run.canRead_of_refusal_eq_none hx
  cases hskip : x.skip with
  | true =>
    refine ⟨s.asked, ?_⟩
    unfold perform Sync.run
    rw [run_bind_of_ok (run_read hread)]
    simp only [hs, h, hskip, if_true, pure_bind]
    rw [run_bind_of_ok (run_replace hx new)]
    rfl
  | false =>
    have hyes : (confirm x.answerer (Sync.question x.request) s).1 = true := by
      rcases hallow with htrue | hyes
      · rw [hskip] at htrue
        cases htrue
      · exact hyes s
    refine ⟨s.asked ++ [Sync.question x.request], ?_⟩
    unfold perform Sync.run
    rw [run_bind_of_ok (run_read hread)]
    simp only [hs, h, hskip, Bool.false_eq_true, if_false]
    rw [run_bind_of_ok (run_confirm _ _), if_pos hyes, run_bind_of_ok (run_replace hx new)]
    rfl

end Session

end BuildTargets

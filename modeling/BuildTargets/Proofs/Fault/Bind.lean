import BuildTargets.Fault

/-!
# Programs that may stop with a fault

A program over a state runs its first step and goes on from the state that this leaves: with the
value of the step if there is one (`run_bind_of_ok`), and not at all after a fault
(`run_bind_of_error`).  A program whose steps only look at the state is a calculation
(`run_bind_of_unchanged`).
-/

namespace BuildTargets

variable {σ α β : Type} {f : ExceptT Fault (StateM σ) α} {g : α → ExceptT Fault (StateM σ) β}
  {s s' : σ}

/-- A program goes on from where its first step has led. -/
theorem run_bind_of_ok {a : α} (h : f.run s = (.ok a, s')) :
    (f >>= g).run s = (g a).run s' := by
  change (match f.run s with | (b, t) => ExceptT.bindCont g b t) = (g a).run s'
  rw [h]
  rfl

/-- A program ends where its first step fails. -/
theorem run_bind_of_error {fault : Fault} (h : f.run s = (.error fault, s')) :
    (f >>= g).run s = (.error fault, s') := by
  change (match f.run s with | (b, t) => ExceptT.bindCont g b t) = (.error fault, s')
  rw [h]
  rfl

/-- Where neither a step nor what follows it changes the state, the program only works out its
result. -/
theorem run_bind_of_unchanged {a : Except Fault α} {b : α → Except Fault β}
    (hf : f.run s = (a, s)) (hg : ∀ x, (g x).run s = (b x, s)) :
    (f >>= g).run s = (a >>= b, s) := by
  cases a with
  | error fault => exact run_bind_of_error hf
  | ok x =>
    rw [run_bind_of_ok hf]
    exact hg x

/-- A program that cannot fail runs one step after the other. -/
theorem bind_apply (x : StateM σ α) (f : α → StateM σ β) (s : σ) :
    (x >>= f) s = f (x s).1 (x s).2 := rfl

/-- A step that cannot fail gives its value. -/
theorem run_lift (x : StateM σ α) (s : σ) :
    (ExceptT.lift x : ExceptT Fault (StateM σ) α).run s = (.ok (x s).1, (x s).2) := rfl

end BuildTargets

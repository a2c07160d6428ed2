import BuildTargets.Proofs.Fault.Bind
import BuildTargets.Sync

/-!
# What one run can do

A run looks at a text and then carries out what it has planned for it (`run_eq_look_bind_carryOut`).
Over any kind of store it is one of eight: the store cannot be read, or holds no build file; the target
is declared as wanted; a declaration is inserted, or cannot be; an overwrite is declined, is made, or
cannot be.  `Takes` lists them with all that leads there, and `takes_run` says that there are no
others.  What holds after a run is shown case by case from here.
-/

namespace BuildTargets

namespace Sync

/-! ## A run in two steps -/

section Steps

variable {m : Type → Type} [Monad m]

/-- The first step of a run: the text is read, and a change is planned for it. -/
def look (store : Store m) (r : Request) : ExceptT Fault m Plan := do
  match ← store.read with
  | none => throw (.noBuildFile [store.location])
  | some text => return plan r text

/-- The second step of a run: what has been planned is carried out, an overwrite only if it is
allowed. -/
def carryOut (store : Store m) (confirm : Question → m Bool) (r : Request) (skip : Bool) :
    Plan → ExceptT Fault m Outcome
  | .nothing => return .alreadyPresent
  | .insert new => do
    store.replace new
    return .inserted
  | .overwrite new => do
    let allowed ← if skip then pure true else ExceptT.lift (confirm (question r))
    if allowed then
      store.replace new
      return .overwritten
    else
      return .declined

/-- A run looks, and carries out what it has planned. -/
theorem run_eq_look_bind_carryOut [LawfulMonad m] (store : Store m) (confirm : Question → m Bool)
    (r : Request) (skip : Bool) :
    run store confirm r skip = look store r >>= carryOut store confirm r skip := by
  unfold run look
  rw [bind_assoc]
  refine bind_congr fun found => ?_
  cases found with
  | none => simp
  | some text =>
    refine Eq.trans ?_ (pure_bind (plan r text) (carryOut store confirm r skip)).symm
    simp only
    cases plan r text <;> rfl

end Steps

/-! ## The cases of a run -/

variable {σ : Type} (store : Store (StateM σ)) (confirm : Question → StateM σ Bool) (r : Request)
  (skip : Bool)

/-- How a planned overwrite is decided on: it is allowed where questions are skipped, and otherwise
the answer to one question counts. -/
inductive Decides : σ → Bool → σ → Prop where
  | skipped {s : σ} (hskip : skip = true) : Decides s true s
  | asked {s : σ} (hskip : skip = false) :
      Decides s (confirm (question r) s).1 (confirm (question r) s).2

/-- The state and the result that a run leads to. -/
inductive Takes : σ → Except Fault Outcome → σ → Prop where
  | unreadable {s s' : σ} {fault : Fault} (hread : store.read.run s = (.error fault, s')) :
      Takes s (.error fault) s'
  | missing {s s' : σ} (hread : store.read.run s = (.ok none, s')) :
      Takes s (.error (.noBuildFile [store.location])) s'
  | present {s s' : σ} {text : Text} (hread : store.read.run s = (.ok (some text), s'))
      (hplan : plan r text = .nothing) : Takes s (.ok .alreadyPresent) s'
  | inserted {s s₁ s' : σ} {text new : Text} (hread : store.read.run s = (.ok (some text), s₁))
      (hplan : plan r text = .insert new) (hreplace : (store.replace new).run s₁ = (.ok (), s')) :
      Takes s (.ok .inserted) s'
  | notInserted {s s₁ s' : σ} {text new : Text} {fault : Fault}
      (hread : store.read.run s = (.ok (some text), s₁)) (hplan : plan r text = .insert new)
      (hreplace : (store.replace new).run s₁ = (.error fault, s')) : Takes s (.error fault) s'
  | declined {s s₁ s' : σ} {text new : Text} (hread : store.read.run s = (.ok (some text), s₁))
      (hplan : plan r text = .overwrite new) (hdecides : Decides confirm r skip s₁ false s') :
      Takes s (.ok .declined) s'
  | overwritten {s s₁ s₂ s' : σ} {text new : Text}
      (hread : store.read.run s = (.ok (some text), s₁)) (hplan : plan r text = .overwrite new)
      (hdecides : Decides confirm r skip s₁ true s₂)
      (hreplace : (store.replace new).run s₂ = (.ok (), s')) : Takes s (.ok .overwritten) s'
  | notOverwritten {s s₁ s₂ s' : σ} {text new : Text} {fault : Fault}
      (hread : store.read.run s = (.ok (some text), s₁)) (hplan : plan r text = .overwrite new)
      (hdecides : Decides confirm r skip s₁ true s₂)
      (hreplace : (store.replace new).run s₂ = (.error fault, s')) : Takes s (.error fault) s'

/-- Every planned overwrite is decided on. -/
theorem exists_decides (s : σ) : ∃ allowed s', Decides confirm r skip s allowed s' := by
  cases skip with
  | true => exact ⟨_, _, .skipped rfl⟩
  | false => exact ⟨_, _, .asked rfl⟩

/-- A text that has been read is planned for. -/
theorem run_look_of_ok {s s' : σ} {text : Text}
    (hread : store.read.run s = (.ok (some text), s')) :
    (look store r).run s = (.ok (plan r text), s') := by
  unfold look
  rw [run_bind_of_ok hread]
  rfl

/-- A planned overwrite is carried out from where the decision has led. -/
theorem carryOut_of_decides {s s' : σ} {allowed : Bool}
    (hdecides : Decides confirm r skip s allowed s') (new : Text) :
    (carryOut store confirm r skip (.overwrite new)).run s =
      (if allowed then do store.replace new; return .overwritten else return .declined :
        ExceptT Fault (StateM σ) Outcome).run s' := by
  unfold carryOut
  cases hdecides with
  | skipped hskip =>
    rw [hskip]
    rfl
  | asked hskip =>
    rw [hskip]
    exact run_bind_of_ok (run_lift _ s)

/-- A run that has to overwrite goes on from what is decided. -/
theorem run_of_decides {s s₁ s₂ : σ} {text new : Text} {allowed : Bool}
    (hread : store.read.run s = (.ok (some text), s₁)) (hplan : plan r text = .overwrite new)
    (hdecides : Decides confirm r skip s₁ allowed s₂) :
    (run store confirm r skip).run s =
      (if allowed then do store.replace new; return .overwritten else return .declined :
        ExceptT Fault (StateM σ) Outcome).run s₂ := by
  rw [run_eq_look_bind_carryOut, run_bind_of_ok (run_look_of_ok store r hread), hplan,
    carryOut_of_decides store confirm r skip hdecides new]

/-- Every run is one of the runs listed. -/
theorem takes_run (s : σ) :
    Takes store confirm r skip s ((run store confirm r skip).run s).1
      ((run store confirm r skip).run s).2 := by
  rw [run_eq_look_bind_carryOut]
  cases hread : store.read.run s with
  | mk result s₁ =>
  cases result with
  | error fault =>
    have hlook : (look store r).run s = (.error fault, s₁) := run_bind_of_error hread
    rw [run_bind_of_error hlook]
    exact .unreadable hread
  | ok found =>
  cases found with
  | none =>
    have hlook : (look store r).run s = (.error (.noBuildFile [store.location]), s₁) :=
      run_bind_of_ok hread
    rw [run_bind_of_error hlook]
    exact .missing hread
  | some text =>
  rw [run_bind_of_ok (run_look_of_ok store r hread)]
  cases hplan : plan r text with
  | nothing => exact .present hread hplan
  | insert new =>
    rw [carryOut]
    cases hreplace : (store.replace new).run s₁ with
    | mk result s₂ =>
    cases result with
    | error fault =>
      rw [run_bind_of_error hreplace]
      exact .notInserted hread hplan hreplace
    | ok done =>
      rw [run_bind_of_ok hreplace]
      exact .inserted hread hplan hreplace
  | overwrite new =>
    obtain ⟨allowed, s₂, hdecides⟩ := exists_decides confirm r skip s₁
    rw [carryOut_of_decides store confirm r skip hdecides new]
    cases allowed with
    | false => exact .declined hread hplan hdecides
    | true =>
      simp only [if_true]
      cases hreplace : (store.replace new).run s₂ with
      | mk result s₃ =>
      cases result with
      | error fault =>
        rw [run_bind_of_error hreplace]
        exact .notOverwritten hread hplan hdecides hreplace
      | ok done =>
        rw [run_bind_of_ok hreplace]
        exact .overwritten hread hplan hdecides hreplace

end Sync

end BuildTargets

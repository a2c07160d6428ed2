import BuildTargets.Proofs.Session.Convergence
import BuildTargets.Proofs.Session.Effects
import Mathlib.Logic.Function.Basic

/-!
# Two runs at the same time

A run reads the text and plans, and then, in a step of its own, carries out what it has planned
(`next_next`).  Two runs on one build file can take their steps in any order.  As long as no two plans
are held at the same time, each plan is made for the text that it replaces, so both requests are met in
the end.  If both runs hold a plan at some moment, the run that is later to carry it out does not know of
the other, whose declaration is lost (`met_iff_not_clashes`).
-/

namespace BuildTargets

namespace Session

open Sync

/-! ## The steps of one run -/

/-- How far a run has come. -/
inductive Stage where
  /-- It has not begun. -/
  | waiting
  /-- It has read a text and planned a change. -/
  | holding (plan : Plan)
  | ended (result : Except Fault Outcome)
  deriving DecidableEq, Repr

/-- A run has met its request, or so it says: it has not failed, and it was not refused. -/
def Stage.Completed (stage : Stage) : Prop :=
  ∃ outcome, stage = .ended (.ok outcome) ∧ outcome ≠ .declined

/-- The next step of a run.  A run that has read a text for which there is nothing to do has ended. -/
def next (location : Path) (x : Run) : Stage → Session → Stage × Session
  | .waiting, s =>
    match (look (store location x.refusal) x.request).run s with
    | (.error fault, s) => (.ended (.error fault), s)
    | (.ok .nothing, s) => (.ended (.ok .alreadyPresent), s)
    | (.ok plan, s) => (.holding plan, s)
  | .holding plan, s =>
    let done := (carryOut (store location x.refusal) (confirm x.answerer) x.request x.skip plan).run s
    (.ended done.1, done.2)
  | .ended result, s => (.ended result, s)

variable {location : Path} {x : Run} {s s' : Session} {text new : Text} {stage stage' : Stage}

/-- Two steps are a run. -/
theorem next_next (location : Path) (x : Run) (s : Session) :
    next location x (next location x .waiting s).1 (next location x .waiting s).2 =
      (.ended (perform location x s).1, (perform location x s).2) := by
  rw [perform, run_eq_look_bind_carryOut]
  cases hlook : (look (store location x.refusal) x.request).run s with
  | mk result s' =>
  cases result with
  | error fault =>
    rw [run_bind_of_error hlook]
    simp only [next, hlook]
  | ok plan =>
    rw [run_bind_of_ok hlook]
    cases plan with
    | nothing =>
      simp only [next, hlook]
      rfl
    | insert new => simp only [next, hlook]
    | overwrite new => simp only [next, hlook]

/-- What one step of a run can do. -/
inductive Moves (x : Run) (s : Session) : Stage → Stage → Session → Prop where
  /-- A change is planned for the text. -/
  | planned {text : Text} (hs : s.text = some text) (hplan : plan x.request text ≠ .nothing) :
      Moves x s .waiting (.holding (plan x.request text)) s
  /-- There is nothing to do for the text. -/
  | present {text : Text} (hs : s.text = some text) (hplan : plan x.request text = .nothing) :
      Moves x s .waiting (.ended (.ok .alreadyPresent)) s
  /-- The text cannot be read. -/
  | unread (fault : Fault) : Moves x s .waiting (.ended (.error fault)) s
  /-- What has been planned replaces the text. -/
  | replaced {p : Plan} {new : Text} {result : Except Fault Outcome} {s' : Session}
      (hp : p = .insert new ∨ p = .overwrite new) (htext : s'.text = some new) :
      Moves x s (.holding p) (.ended result) s'
  /-- What has been planned is left, because it is refused, or because it is nothing. -/
  | left {p : Plan} {result : Except Fault Outcome} {s' : Session} (htext : s'.text = s.text)
      (hresult : p ≠ .nothing → ¬(Stage.ended result).Completed) :
      Moves x s (.holding p) (.ended result) s'
  /-- The run has ended. -/
  | rested (result : Except Fault Outcome) : Moves x s (.ended result) (.ended result) s

theorem not_completed_error (fault : Fault) : ¬(Stage.ended (.error fault)).Completed := by
  rintro ⟨_, ⟨⟩, -⟩

theorem not_completed_declined : ¬(Stage.ended (.ok .declined)).Completed := by
  rintro ⟨_, ⟨⟩, hnot⟩
  exact hnot rfl

/-- The decision on an overwrite leaves the text as it is. -/
theorem text_of_decides {request : Request} {allowed : Bool}
    (h : Decides (confirm x.answerer) request x.skip s allowed s') : s'.text = s.text := by
  cases h with
  | skipped => rfl
  | asked => rfl

/-- A run that reads plans for the text of the session, and changes nothing. -/
theorem of_run_look {result : Except Fault Plan}
    (h : (look (store location x.refusal) x.request).run s = (result, s')) :
    s' = s ∧ ∀ p, result = .ok p → ∃ text, s.text = some text ∧ p = plan x.request text := by
  unfold look at h
  cases hread : (store location x.refusal).read.run s with
  | mk found s₁ =>
  cases found with
  | error fault =>
    obtain ⟨-, rfl⟩ := eq_of_run_read_error hread
    rw [run_bind_of_error hread] at h
    cases h
    exact ⟨rfl, nofun⟩
  | ok found =>
    obtain ⟨-, hs, rfl⟩ := eq_of_run_read hread
    rw [run_bind_of_ok hread] at h
    cases found with
    | none =>
      cases h
      exact ⟨rfl, nofun⟩
    | some text =>
      cases h
      refine ⟨rfl, ?_⟩
      rintro _ ⟨⟩
      exact ⟨text, hs, rfl⟩

/-- A change that is carried out replaces the text, or leaves it because the store refuses. -/
theorem moves_of_replace {outcome : Outcome} {p : Plan} (hp : p = .insert new ∨ p = .overwrite new)
    (htext : s.text = s'.text) :
    Moves x s' (.holding p)
      (.ended ((do (store location x.refusal).replace new; return outcome :
        ExceptT Fault (StateM Session) Outcome).run s).1)
      ((do (store location x.refusal).replace new; return outcome :
        ExceptT Fault (StateM Session) Outcome).run s).2 := by
  cases hreplace : ((store location x.refusal).replace new).run s with
  | mk result s₁ =>
  cases result with
  | error fault =>
    rw [run_bind_of_error hreplace]
    obtain ⟨-, rfl⟩ := eq_of_run_replace_error hreplace
    exact .left htext fun _ => not_completed_error fault
  | ok done =>
    rw [run_bind_of_ok hreplace]
    cases eq_of_run_replace hreplace
    exact .replaced hp rfl

/-- Every step of a run is one of these. -/
theorem moves_next (location : Path) (x : Run) (stage : Stage) (s : Session) :
    Moves x s stage (next location x stage s).1 (next location x stage s).2 := by
  cases stage with
  | ended result => exact .rested result
  | waiting =>
    cases hlook : (look (store location x.refusal) x.request).run s with
    | mk result s' =>
    obtain ⟨rfl, hplan⟩ := of_run_look hlook
    cases result with
    | error fault =>
      simp only [next, hlook]
      exact .unread fault
    | ok p =>
      obtain ⟨text, hs, rfl⟩ := hplan p rfl
      cases hp : plan x.request text with
      | nothing =>
        simp only [next, hlook, hp]
        exact .present hs hp
      | insert new =>
        simp only [next, hlook, hp]
        rw [← hp]
        exact .planned hs (by simp [hp])
      | overwrite new =>
        simp only [next, hlook, hp]
        rw [← hp]
        exact .planned hs (by simp [hp])
  | holding p =>
    simp only [next]
    cases p with
    | nothing => exact .left rfl fun hne => absurd rfl hne
    | insert new => exact moves_of_replace (Or.inl rfl) rfl
    | overwrite new =>
      obtain ⟨allowed, s₁, hdecides⟩ := exists_decides (confirm x.answerer) x.request x.skip s
      rw [carryOut_of_decides _ _ _ _ hdecides new]
      have htext := text_of_decides hdecides
      cases allowed with
      | false => exact .left htext fun _ => not_completed_declined
      | true => exact moves_of_replace (Or.inr rfl) htext

/-! ## The steps of two runs -/

/-- The two runs. -/
inductive Side where
  | first
  | second
  deriving DecidableEq, Repr

/-- The run on the other side. -/
def Side.other : Side → Side
  | first => second
  | second => first

theorem Side.other_ne (i : Side) : i.other ≠ i := by cases i <;> decide

theorem Side.eq_or_eq_other (i j : Side) : j = i ∨ j = i.other := by
  revert i j
  rintro (_ | _) (_ | _) <;> decide

/-- Two runs on one build file, each as far as it has come. -/
structure Race where
  session : Session
  stage : Side → Stage

namespace Race

/-- Two runs that have not begun. -/
def start (s : Session) : Race := ⟨s, fun _ => .waiting⟩

/-- One side takes its next step. -/
def step (location : Path) (x : Side → Run) (c : Race) (i : Side) : Race where
  session := (next location (x i) (c.stage i) c.session).2
  stage := Function.update c.stage i (next location (x i) (c.stage i) c.session).1

/-- The sides take steps in the order of a schedule. -/
def along (location : Path) (x : Side → Run) (c : Race) (schedule : List Side) : Race :=
  schedule.foldl (step location x) c

/-- Both runs hold a plan. -/
def Clashes (c : Race) : Prop := ∀ i, ∃ p, c.stage i = .holding p

/-- A run holds a plan when the other has ended. -/
def Outlasted (c : Race) (i : Side) : Prop :=
  (∃ p, c.stage i = .holding p) ∧ ∃ result, c.stage i.other = .ended result

/-- Both runs have completed. -/
def Completed (c : Race) : Prop := ∀ i, (c.stage i).Completed

/-- The request of a run is met by the text. -/
def Meets (x : Side → Run) (c : Race) (i : Side) : Prop :=
  ∃ text, c.session.text = some text ∧
    (BuildFile.classify text (x i).request.targetName (x i).request.relativePath).1 = .same

variable {location : Path} {x : Side → Run} {c : Race} {i j : Side} {text new : Text}
  {schedule : List Side}

theorem stage_step_self (location : Path) (x : Side → Run) (c : Race) (i : Side) :
    (c.step location x i).stage i = (next location (x i) (c.stage i) c.session).1 :=
  Function.update_self ..

theorem stage_step_other (location : Path) (x : Side → Run) (c : Race) (i : Side) :
    (c.step location x i).stage i.other = c.stage i.other :=
  Function.update_of_ne i.other_ne ..

/-- A step of one side is a step of its run. -/
theorem moves_step (location : Path) (x : Side → Run) (c : Race) (i : Side) :
    Moves (x i) c.session (c.stage i) ((c.step location x i).stage i)
      (c.step location x i).session := by
  rw [stage_step_self]
  exact moves_next location (x i) (c.stage i) c.session

/-- The requests of the two runs can share a build file. -/
abbrev AreCompatible (x : Side → Run) : Prop :=
  Request.AreCompatible [(x .first).request, (x .second).request]

theorem mem_requests (x : Side → Run) (i : Side) :
    (x i).request ∈ [(x .first).request, (x .second).request] := by
  cases i <;> simp

theorem request_ne_other (h : AreCompatible x) (i : Side) :
    (x i).request ≠ (x i.other).request := by
  have hne : (x .first).request ≠ (x .second).request := fun heq =>
    List.rel_of_pairwise_cons h.distinct List.mem_cons_self (congrArg Request.targetName heq)
  cases i with
  | first => exact hne
  | second => exact hne.symm

/-- A change for one run meets its request. -/
theorem met_of_changes (h : AreCompatible x) (hchange : Changes (x i).request text new) :
    plan (x i).request new = .nothing :=
  plan_eq_nothing_of_changes h (mem_requests x i) hchange

/-- A change for one run neither meets nor loses the request of the other. -/
theorem met_other_iff_of_changes (h : AreCompatible x) (hchange : Changes (x i).request text new) :
    plan (x i.other).request new = .nothing ↔ plan (x i.other).request text = .nothing :=
  plan_eq_nothing_iff_of_changes_of_ne h (mem_requests x i) (mem_requests x i.other)
    (request_ne_other h i) hchange

/-! ## While no plan is stale -/

/-- Every plan that is held is for the text as it stands, and every run that has completed has met its
request. -/
structure IsCurrent (x : Side → Run) (c : Race) (text : Text) : Prop where
  reads : c.session.text = some text
  held : ∀ i p, c.stage i = .holding p → p = plan (x i).request text ∧ p ≠ .nothing
  met : ∀ i, (c.stage i).Completed → plan (x i).request text = .nothing

theorem isCurrent_start {s : Session} (hs : s.text = some text) : IsCurrent x (start s) text where
  reads := hs
  held := nofun
  met := by
    rintro i ⟨outcome, ⟨⟩, -⟩

/-- A step leaves plans current if what it comes to is, and so is what the other side has come to. -/
theorem isCurrent_step (hreads : (c.step location x i).session.text = some new)
    (hheld : ∀ p, (c.step location x i).stage i = .holding p →
      p = plan (x i).request new ∧ p ≠ .nothing)
    (hmet : ((c.step location x i).stage i).Completed → plan (x i).request new = .nothing)
    (hheld' : ∀ p, c.stage i.other = .holding p → p = plan (x i.other).request new ∧ p ≠ .nothing)
    (hmet' : (c.stage i.other).Completed → plan (x i.other).request new = .nothing) :
    IsCurrent x (c.step location x i) new where
  reads := hreads
  held := by
    intro j p hj
    rcases i.eq_or_eq_other j with rfl | rfl
    · exact hheld p hj
    · rw [stage_step_other] at hj
      exact hheld' p hj
  met := by
    intro j hj
    rcases i.eq_or_eq_other j with rfl | rfl
    · exact hmet hj
    · rw [stage_step_other] at hj
      exact hmet' hj

/-- Where at most one plan is held, a step leaves no plan stale. -/
theorem exists_isCurrent_step (hcompat : AreCompatible x) (h : IsCurrent x c text)
    (hnot : ¬c.Clashes) (location : Path) (i : Side) :
    ∃ new, IsCurrent x (c.step location x i) new := by
  have hmoves := moves_step location x c i
  generalize hstage : c.stage i = stage at hmoves
  generalize hstage' : (c.step location x i).stage i = stage' at hmoves
  generalize hsession : (c.step location x i).session = s' at hmoves
  cases hmoves with
  | @planned text' hs hplan =>
    cases h.reads.symm.trans hs
    refine ⟨text, isCurrent_step (hsession ▸ hs) ?_ ?_ (h.held _) (h.met _)⟩
    · intro p hp
      cases hstage'.symm.trans hp
      exact ⟨rfl, hplan⟩
    · rintro ⟨outcome, hended, -⟩
      cases hstage'.symm.trans hended
  | @present text' hs hplan =>
    cases h.reads.symm.trans hs
    refine ⟨text, isCurrent_step (hsession ▸ hs) ?_ (fun _ => hplan) (h.held _) (h.met _)⟩
    intro p hp
    cases hstage'.symm.trans hp
  | unread fault =>
    refine ⟨text, isCurrent_step (hsession ▸ h.reads) ?_ ?_ (h.held _) (h.met _)⟩
    · intro p hp
      cases hstage'.symm.trans hp
    · intro hcompleted
      exact absurd (hstage' ▸ hcompleted) (not_completed_error fault)
  | rested result =>
    refine ⟨text, isCurrent_step (hsession ▸ h.reads) ?_ ?_ (h.held _) (h.met _)⟩
    · intro p hp
      cases hstage'.symm.trans hp
    · intro hcompleted
      rw [hstage', ← hstage] at hcompleted
      exact h.met i hcompleted
  | @left p result _ htext hresult =>
    refine ⟨text, isCurrent_step (hsession ▸ htext.trans h.reads) ?_ ?_ (h.held _) (h.met _)⟩
    · intro p hp
      cases hstage'.symm.trans hp
    · intro hcompleted
      exact absurd (hstage' ▸ hcompleted) (hresult (h.held i p hstage).2)
  | @replaced p new result _ hp htext =>
    -- the plan was made for the text that it replaces, and the other run holds none
    have hchange : Changes (x i).request text new := by
      rw [Changes, ← (h.held i p hstage).1]
      exact hp
    refine ⟨new, isCurrent_step (hsession ▸ htext) ?_ (fun _ => met_of_changes hcompat hchange) ?_ ?_⟩
    · intro p hp
      cases hstage'.symm.trans hp
    · intro q hq
      refine absurd (fun j => ?_) hnot
      rcases i.eq_or_eq_other j with rfl | rfl
      · exact ⟨p, hstage⟩
      · exact ⟨q, hq⟩
    · intro hcompleted
      exact (met_other_iff_of_changes hcompat hchange).2 (h.met _ hcompleted)

theorem along_append (location : Path) (x : Side → Run) (c : Race) (early late : List Side) :
    c.along location x (early ++ late) = (c.along location x early).along location x late :=
  List.foldl_append ..

/-- Where two plans are never held at the same time, no plan becomes stale. -/
theorem exists_isCurrent_along (hcompat : AreCompatible x) (h : IsCurrent x c text)
    (hnever : ∀ early, early <+: schedule → ¬(c.along location x early).Clashes) :
    ∃ new, IsCurrent x (c.along location x schedule) new := by
  induction schedule generalizing c text with
  | nil => exact ⟨text, h⟩
  | cons i rest ih =>
    have hnot : ¬c.Clashes := hnever [] List.nil_prefix
    obtain ⟨new, hnext⟩ := exists_isCurrent_step hcompat h hnot location i
    exact ih hnext fun early hearly => hnever (i :: early) (List.cons_prefix_cons.2 ⟨rfl, hearly⟩)

/-- When two plans are held at the same time for the first time, neither is stale yet. -/
theorem exists_isCurrent_clashes (hcompat : AreCompatible x) (h : IsCurrent x c text)
    {early : List Side} (hclashes : (c.along location x early).Clashes) :
    ∃ first new, first <+: early ∧ (c.along location x first).Clashes ∧
      IsCurrent x (c.along location x first) new := by
  induction early generalizing c text with
  | nil => exact ⟨[], text, List.prefix_rfl, hclashes, h⟩
  | cons i rest ih =>
    by_cases hnow : c.Clashes
    · exact ⟨[], text, List.nil_prefix, hnow, h⟩
    · obtain ⟨new, hnext⟩ := exists_isCurrent_step hcompat h hnow location i
      obtain ⟨first, last, hfirst, hclash, hcurrent⟩ := ih hnext hclashes
      exact ⟨i :: first, last, List.cons_prefix_cons.2 ⟨rfl, hfirst⟩, hclash, hcurrent⟩

/-! ## After a clash -/

/-- A run that has ended takes no more steps. -/
theorem step_of_ended {result : Except Fault Outcome} (h : c.stage i = .ended result)
    (location : Path) (x : Side → Run) : c.step location x i = c := by
  have hnext : next location (x i) (c.stage i) c.session = (c.stage i, c.session) := by
    rw [h]
    rfl
  rw [step, hnext, Function.update_eq_self]

/-- A run holds the plan that it has made for a text while the other has ended, or it has carried it
out. -/
structure Trails (x : Side → Run) (i : Side) (text : Text) (c : Race) : Prop where
  other : ∃ result, c.stage i.other = .ended result
  self : c.stage i = .holding (plan (x i).request text) ∨ ∃ result, c.stage i = .ended result ∧
    ((c.stage i).Completed →
      ∃ new, Changes (x i).request text new ∧ c.session.text = some new)

theorem Trails.step (h : Trails x i text c) (hplan : plan (x i).request text ≠ .nothing)
    (location : Path) (j : Side) : Trails x i text (c.step location x j) := by
  obtain ⟨result', hother⟩ := h.other
  rcases i.eq_or_eq_other j with rfl | rfl
  · rcases h.self with hholding | ⟨result, hended, hcompleted⟩
    · refine ⟨⟨result', (stage_step_other ..).trans hother⟩, Or.inr ?_⟩
      have hmoves := moves_step location x c j
      rw [hholding] at hmoves
      generalize (c.step location x j).stage j = stage' at hmoves ⊢
      generalize (c.step location x j).session = s' at hmoves ⊢
      cases hmoves with
      | replaced hp htext => exact ⟨_, rfl, fun _ => ⟨_, hp, htext⟩⟩
      | left htext hresult => exact ⟨_, rfl, fun hdone => absurd hdone (hresult hplan)⟩
    · rw [step_of_ended hended]
      exact h
  · rw [step_of_ended hother]
    exact h

theorem Trails.along (h : Trails x i text c) (hplan : plan (x i).request text ≠ .nothing)
    (location : Path) (schedule : List Side) : Trails x i text (c.along location x schedule) := by
  induction schedule generalizing c with
  | nil => exact h
  | cons j rest ih => exact ih (h.step hplan location j)

/-- When one of two plans is carried out, the run that holds the other trails. -/
theorem trails_of_clashes (h : IsCurrent x c text) (hclashes : c.Clashes) (location : Path)
    (i : Side) : Trails x i.other text (c.step location x i) ∧
      (c.step location x i).Outlasted i.other := by
  obtain ⟨p, hp⟩ := hclashes i
  obtain ⟨q, hq⟩ := hclashes i.other
  have hheld := (stage_step_other location x c i).trans hq
  have hended : ∃ result, (c.step location x i).stage i.other.other = .ended result := by
    have hback : i.other.other = i := by cases i <;> rfl
    rw [hback, stage_step_self, hp]
    exact ⟨_, rfl⟩
  rw [(h.held _ _ hq).1] at hheld
  exact ⟨⟨hended, Or.inl hheld⟩, ⟨_, hheld⟩, hended⟩

/-! ## In the end -/

theorem meets_iff (hreads : c.session.text = some text) :
    Meets x c i ↔ plan (x i).request text = .nothing := by
  rw [plan_eq_nothing_iff]
  constructor
  · rintro ⟨text', hreads', hsame⟩
    cases hreads.symm.trans hreads'
    exact hsame
  · intro hsame
    exact ⟨text, hreads, hsame⟩

/-- Of two runs that have clashed only the one that trailed meets its request. -/
theorem Trails.meets_iff_eq (hcompat : AreCompatible x) (h : Trails x i text c)
    (hother : plan (x i.other).request text ≠ .nothing) (hcompleted : c.Completed) (j : Side) :
    Meets x c j ↔ j = i := by
  have hself := hcompleted i
  rcases h.self with hholding | ⟨result, -, hnew⟩
  · obtain ⟨outcome, hended, -⟩ := hself
    cases hholding.symm.trans hended
  obtain ⟨new, hchange, hreads⟩ := hnew hself
  rw [meets_iff hreads]
  rcases i.eq_or_eq_other j with rfl | rfl
  · exact iff_of_true (met_of_changes hcompat hchange) rfl
  · exact iff_of_false ((met_other_iff_of_changes hcompat hchange).not.2 hother) i.other_ne

/-- Two runs with compatible requests take their steps in any order, and complete.  Both requests are met
in the end exactly if there was no moment at which both held a plan.  If there was, only the request of
the run that held its plan longer is met. -/
theorem met_iff_not_clashes (location : Path) {x : Side → Run} (hcompat : AreCompatible x)
    {s : Session} {text : Text} (hs : s.text = some text) (schedule : List Side)
    (hcompleted : ((start s).along location x schedule).Completed) :
    ((∀ i, Meets x ((start s).along location x schedule) i) ↔
      ∀ early, early <+: schedule → ¬((start s).along location x early).Clashes) ∧
    ∀ early, early <+: schedule → ((start s).along location x early).Clashes →
      ∃ i late, late <+: schedule ∧ ((start s).along location x late).Outlasted i ∧
        ∀ j, Meets x ((start s).along location x schedule) j ↔ j = i := by
  have hstart : IsCurrent x (start s) text := isCurrent_start hs
  have hclash : ∀ early, early <+: schedule → ((start s).along location x early).Clashes →
      ∃ i late, late <+: schedule ∧ ((start s).along location x late).Outlasted i ∧
        ∀ j, Meets x ((start s).along location x schedule) j ↔ j = i := by
    intro early hearly hclashes
    obtain ⟨first, new, hfirst, hclashes, hcurrent⟩ :=
      exists_isCurrent_clashes hcompat hstart hclashes
    obtain ⟨rest, rfl⟩ := hfirst.trans hearly
    rw [along_append] at hcompleted ⊢
    cases rest with
    | nil =>
      -- a run that holds a plan has not completed
      obtain ⟨p, hp⟩ := hclashes .first
      obtain ⟨outcome, hended, -⟩ := hcompleted .first
      cases hp.symm.trans hended
    | cons i rest =>
      have hplan : ∀ k, plan (x k).request new ≠ .nothing := by
        intro k
        obtain ⟨p, hp⟩ := hclashes k
        obtain ⟨rfl, hplan⟩ := hcurrent.held k p hp
        exact hplan
      obtain ⟨htrails, houtlasted⟩ := trails_of_clashes hcurrent hclashes location i
      refine ⟨i.other, first ++ [i], ?_, ?_, ?_⟩
      · exact (List.prefix_append_right_inj first).2 (List.cons_prefix_cons.2 ⟨rfl, List.nil_prefix⟩)
      · rw [along_append]
        exact houtlasted
      · exact (htrails.along (hplan _) location rest).meets_iff_eq hcompat (hplan _) hcompleted
  refine ⟨⟨fun hmet early hearly hclashes => ?_, fun hnever i => ?_⟩, hclash⟩
  · obtain ⟨i, -, -, -, honly⟩ := hclash early hearly hclashes
    exact i.other_ne ((honly i.other).1 (hmet i.other))
  · obtain ⟨new, hcurrent⟩ := exists_isCurrent_along hcompat hstart hnever
    exact (meets_iff hcurrent.reads).2 (hcurrent.met i (hcompleted i))

/-- Runs for two sources in different directories; the second is asked, and agrees at a terminal. -/
def spacedAndPlain : Side → Run
  | .first => ⟨.spaced, true, .fixed false, none⟩
  | .second => ⟨.plain, false, .typed (Utf8.encode "y\n".toList), none⟩

/-- Both runs read, then both write. -/
def crossed : List Side := [.first, .second, .second, .first]

/-- The build file that both runs are about. -/
def sharedFile : Path := .ofText buildFileName

/-- Two conflicting declarations are overwritten at the same time, and one of them is lost. -/
theorem met_iff_not_clashes_crossed :
    ((start conflicting).along sharedFile spacedAndPlain crossed).Completed ∧
      ∃ i, ∀ j, Meets spacedAndPlain
        ((start conflicting).along sharedFile spacedAndPlain crossed) j ↔ j = i := by
  have hcompleted : ((start conflicting).along sharedFile spacedAndPlain crossed).Completed := by
    intro i
    refine ⟨.overwritten, ?_, by decide⟩
    cases i <;> decide +kernel
  have hclashes : ((start conflicting).along sharedFile spacedAndPlain
      [.first, .second]).Clashes := by
    intro i
    refine ⟨plan (spacedAndPlain i).request (conflicting.text.getD []), ?_⟩
    cases i <;> decide +kernel
  obtain ⟨i, -, -, -, honly⟩ := (met_iff_not_clashes sharedFile areCompatible_spaced_plain
    (s := conflicting) rfl crossed hcompleted).2 [.first, .second] ⟨[.second, .first], rfl⟩ hclashes
  exact ⟨hcompleted, i, honly⟩

/-- Both runs insert into an empty build file, and the source of the second is absent in the end. -/
theorem inserted_lost_crossed :
    let c := (start { text := some [] }).along sharedFile spacedAndPlain crossed
    AreCompatible spacedAndPlain ∧ (∀ i, (spacedAndPlain i).request.relativePath.IsTrimmed) ∧
      (∀ i, c.stage i = .ended (.ok .inserted)) ∧
      ∃ last, c.session.text = some last ∧
        (BuildFile.classify last Request.spaced.targetName Request.spaced.relativePath).1 = .same ∧
        (BuildFile.classify last Request.plain.targetName Request.plain.relativePath).1 = .absent := by
  refine ⟨areCompatible_spaced_plain, ?_, ?_, _, rfl, ?_⟩
  · rintro (_ | _) <;> decide
  · rintro (_ | _) <;> decide +kernel
  · decide +kernel

end Race

end Session

end BuildTargets

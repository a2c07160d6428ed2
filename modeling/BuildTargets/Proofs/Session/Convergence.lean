import BuildTargets.Proofs.Session.Step
import BuildTargets.Proofs.Sync.Plan
import Mathlib.Data.List.Pairwise

/-!
# Requests that share a build file

Some requests for different targets are run again and again on one build file, in any order.  A run
meets its own request and loses no other (`Sync.Advances`), so each write is paid for by a request
that was not met before.  There are at most as many writes as requests, and nothing is left to do
when each request has had its turn.
-/

namespace BuildTargets

/-- Accepted requests that can share a build file: they are about different targets, and what they
write stays in its line and is found again. -/
structure Request.AreCompatible (requests : List Request) : Prop where
  accepted : ∀ r ∈ requests, r.IsAccepted
  distinct : requests.Pairwise fun r r' => r.targetName ≠ r'.targetName
  recoverable : ∀ r ∈ requests, Statement.IsRecoverable r.relativePath
  directory : ∀ r ∈ requests, ∀ d ∈ r.outputDirectory, '\n' ∉ d

namespace Sync

variable {requests : List Request} {r r' : Request} {text new last : Text} {m n : Nat}

/-- How many requests are not met by a text. -/
def unmet (requests : List Request) (text : Text) : Nat :=
  requests.countP fun r => plan r text ≠ .nothing

theorem unmet_append (requests requests' : List Request) (text : Text) :
    unmet (requests ++ requests') text = unmet requests text + unmet requests' text :=
  List.countP_append

theorem unmet_cons_of_met (requests : List Request) (h : plan r text = .nothing) :
    unmet (r :: requests) text = unmet requests text := by
  rw [unmet, List.countP_cons_of_neg, unmet]
  simp [h]

theorem unmet_cons_of_not_met (requests : List Request) (h : plan r text ≠ .nothing) :
    unmet (r :: requests) text = unmet requests text + 1 := by
  rw [unmet, List.countP_cons_of_pos, unmet]
  simp [h]

/-- A text that loses no request leaves at most as many of them unmet. -/
theorem unmet_le_of_kept (h : ∀ r ∈ requests, plan r text = .nothing → plan r new = .nothing) :
    unmet requests new ≤ unmet requests text := by
  refine List.countP_mono_left fun r hr hunmet => ?_
  simp only [decide_eq_true_eq] at hunmet ⊢
  exact fun hmet => hunmet (h r hr hmet)

/-- From one text to another in some number of writes: no request is lost, and every write is paid
for by a request that was not met before. -/
structure Advances (requests : List Request) (text new : Text) (writes : Nat) : Prop where
  kept : ∀ r ∈ requests, plan r text = .nothing → plan r new = .nothing
  paid : writes + unmet requests new ≤ unmet requests text

theorem Advances.refl (requests : List Request) (text : Text) : Advances requests text text 0 where
  kept := fun _ _ h => h
  paid := (Nat.zero_add _).le

theorem Advances.trans (h : Advances requests text new m) (h' : Advances requests new last n) :
    Advances requests text last (m + n) where
  kept := fun r hr hmet => h'.kept r hr (h.kept r hr hmet)
  paid := by
    have hfirst := h.paid
    have hsecond := h'.paid
    omega

/-- There are never more writes than requests. -/
theorem Advances.writes_le (h : Advances requests text new n) : n ≤ requests.length := by
  have hpaid := h.paid
  have hcount : unmet requests text ≤ requests.length := List.countP_le_length
  omega

/-- Different requests of a compatible list are about different targets. -/
theorem targetName_ne_of_areCompatible (h : Request.AreCompatible requests) (hr : r ∈ requests)
    (hr' : r' ∈ requests) (hne : r ≠ r') : r.targetName ≠ r'.targetName := by
  have : Std.Symm fun r r' : Request => r.targetName ≠ r'.targetName := ⟨fun _ _ => Ne.symm⟩
  exact h.distinct.forall hr hr' hne

/-- A change meets the request that it was made for. -/
theorem plan_eq_nothing_of_changes (h : Request.AreCompatible requests) (hr : r ∈ requests)
    (hchange : Changes r text new) : plan r new = .nothing := by
  have haccepted := h.accepted r hr
  have hrecoverable := h.recoverable r hr
  have hread := hrecoverable.trim_quote_ne_nil haccepted.relativePath_ne_nil
  exact (plan_eq_nothing_iff_of_changes haccepted.isTargetName hread hchange).2 hrecoverable

/-- A change for one request neither meets nor loses another. -/
theorem plan_eq_nothing_iff_of_changes_of_ne (h : Request.AreCompatible requests) (hr : r ∈ requests)
    (hr' : r' ∈ requests) (hne : r ≠ r') (hchange : Changes r text new) :
    plan r' new = .nothing ↔ plan r' text = .nothing := by
  have hlists : BuildFile.argumentLists .executable r'.targetName new =
      BuildFile.argumentLists .executable r'.targetName text :=
    argumentLists_of_changes (h.accepted r hr).isTargetName (h.accepted r' hr').isTargetName
      (targetName_ne_of_areCompatible h hr hr' hne) (h.recoverable r hr).1 (h.directory r hr)
      hchange
  rw [plan_eq_nothing_iff, plan_eq_nothing_iff, classify_fst_congr hlists]

/-- A change advances by one write. -/
theorem advances_of_changes (h : Request.AreCompatible requests) (hr : r ∈ requests)
    (hchange : Changes r text new) : Advances requests text new 1 := by
  have hkept : ∀ r' ∈ requests, plan r' text = .nothing → plan r' new = .nothing := by
    intro r' hr' hmet
    by_cases hne : r = r'
    · rw [← hne]
      exact plan_eq_nothing_of_changes h hr hchange
    · exact (plan_eq_nothing_iff_of_changes_of_ne h hr hr' hne hchange).2 hmet
  refine ⟨hkept, ?_⟩
  have hbefore : plan r text ≠ .nothing := by
    rcases hchange with hplan | hplan <;> simp [hplan]
  have hafter : plan r new = .nothing := plan_eq_nothing_of_changes h hr hchange
  -- the request itself is counted before and not after, all others at most as before
  obtain ⟨others, others', hsplit⟩ := List.append_of_mem hr
  have hleft : unmet others new ≤ unmet others text :=
    unmet_le_of_kept fun r' hr' => hkept r' (by simp [hsplit, hr'])
  have hright : unmet others' new ≤ unmet others' text :=
    unmet_le_of_kept fun r' hr' => hkept r' (by simp [hsplit, hr'])
  rw [hsplit, unmet_append, unmet_append, unmet_cons_of_met others' hafter,
    unmet_cons_of_not_met others' hbefore]
  omega

end Sync

namespace Session

open Sync

variable {location : Path} {requests : List Request} {x : Run} {runs : List Run} {s : Session}
  {text : Text}

/-- Performs runs one after the other and gives their outcomes. -/
def performAll (location : Path) : List Run → Session → List (Except Fault Outcome) × Session
  | [], s => ([], s)
  | x :: runs, s =>
    let first := perform location x s
    let others := performAll location runs first.2
    (first.1 :: others.1, others.2)

/-- Runs that are free to act: each is for one of the requests, its store refuses nothing, and it
may overwrite. -/
def AreFree (requests : List Request) (runs : List Run) : Prop :=
  ∀ x ∈ runs, x.request ∈ requests ∧ x.refusal = none ∧ x.MayOverwrite

/-- A free run meets its request, and the text advances by what it writes. -/
theorem exists_advances_of_perform (location : Path) (h : Request.AreCompatible requests)
    (hmem : x.request ∈ requests) (hserved : x.refusal = none) (hallow : x.MayOverwrite)
    (hs : s.text = some text) :
    ∃ new n, (perform location x s).2.text = some new ∧
      (perform location x s).2.writes = s.writes + n ∧
      Advances requests text new n ∧ plan x.request new = .nothing := by
  cases hplan : plan x.request text with
  | nothing =>
    rw [perform_of_nothing location (Run.canRead_of_refusal_eq_none hserved) hs hplan]
    exact ⟨text, 0, hs, rfl, Advances.refl requests text, hplan⟩
  | insert new =>
    have hchange : Changes x.request text new := Or.inl hplan
    rw [perform_of_insert location hserved hs hplan]
    exact ⟨new, 1, text_written _ new, writes_written _ new, advances_of_changes h hmem hchange,
      plan_eq_nothing_of_changes h hmem hchange⟩
  | overwrite new =>
    have hchange : Changes x.request text new := Or.inr hplan
    obtain ⟨asked, hperform⟩ := perform_of_overwrite location hserved hallow hs hplan
    rw [hperform]
    exact ⟨new, 1, text_written _ new, writes_written _ new, advances_of_changes h hmem hchange,
      plan_eq_nothing_of_changes h hmem hchange⟩

/-- Free runs meet their requests, and the text advances by what they write. -/
theorem exists_advances_of_performAll (location : Path) (h : Request.AreCompatible requests)
    (hfree : AreFree requests runs) (hs : s.text = some text) :
    ∃ new n, (performAll location runs s).2.text = some new ∧
      (performAll location runs s).2.writes = s.writes + n ∧
      Advances requests text new n ∧ ∀ x ∈ runs, plan x.request new = .nothing := by
  induction runs generalizing s text with
  | nil =>
    refine ⟨text, 0, hs, rfl, Advances.refl requests text, ?_⟩
    intro x hx
    cases hx
  | cons x runs ih =>
    obtain ⟨hmem, hserved, hallow⟩ := hfree x List.mem_cons_self
    obtain ⟨middle, m, htext, hwrites, hfirst, hmet⟩ :=
      exists_advances_of_perform location h hmem hserved hallow hs
    obtain ⟨new, n, htext', hwrites', hothers, hmet'⟩ :=
      ih (fun y hy => hfree y (List.mem_cons_of_mem x hy)) htext
    refine ⟨new, m + n, htext', ?_, hfirst.trans hothers, ?_⟩
    · rw [performAll, hwrites', hwrites, Nat.add_assoc]
    · intro y hy
      rcases List.mem_cons.1 hy with rfl | hy
      · exact hothers.kept _ hmem hmet
      · exact hmet' y hy

/-- Runs whose requests are met find nothing to do and leave the session as it is. -/
theorem performAll_of_met (location : Path) (hs : s.text = some text)
    (hread : ∀ x ∈ runs, x.CanRead) (hmet : ∀ x ∈ runs, plan x.request text = .nothing) :
    performAll location runs s = (runs.map fun _ => .ok .alreadyPresent, s) := by
  induction runs with
  | nil => rfl
  | cons x runs ih =>
    have hfirst : perform location x s = (.ok .alreadyPresent, s) :=
      perform_of_nothing location (hread x List.mem_cons_self) hs (hmet x List.mem_cons_self)
    have hothers := ih (fun y hy => hread y (List.mem_cons_of_mem x hy))
      (fun y hy => hmet y (List.mem_cons_of_mem x hy))
    rw [performAll, hfirst, hothers]
    rfl

/-- Runs over compatible requests converge.  There are at most as many writes as requests.  When
each request has been run, the text declares them all, and all further runs find their declaration
present and ask and write nothing. -/
theorem runs_converge (location : Path) (h : Request.AreCompatible requests)
    (hfree : AreFree requests runs) (hs : s.text = some text) :
    (performAll location runs s).2.writes ≤ s.writes + requests.length ∧
      ((∀ r ∈ requests, ∃ x ∈ runs, x.request = r) →
        (∃ last, (performAll location runs s).2.text = some last ∧ ∀ r ∈ requests,
          (BuildFile.classify last r.targetName r.relativePath).1 = .same) ∧
        ∀ further : List Run, (∀ x ∈ further, x.request ∈ requests ∧ x.CanRead) →
          performAll location further (performAll location runs s).2 =
            (further.map fun _ => .ok .alreadyPresent, (performAll location runs s).2)) := by
  obtain ⟨last, n, htext, hwrites, hadvances, hmet⟩ :=
    exists_advances_of_performAll location h hfree hs
  refine ⟨?_, ?_⟩
  · rw [hwrites]
    exact Nat.add_le_add_left hadvances.writes_le s.writes
  · intro hall
    have hmetAll : ∀ r ∈ requests, plan r last = .nothing := by
      intro r hr
      obtain ⟨x, hx, rfl⟩ := hall r hr
      exact hmet x hx
    refine ⟨⟨last, htext, fun r hr => plan_eq_nothing_iff.1 (hmetAll r hr)⟩, ?_⟩
    intro further hfurther
    exact performAll_of_met location htext (fun x hx => (hfurther x hx).2)
      fun x hx => hmetAll x.request (hfurther x hx).1

/-- A session that begins with declarations of other sources. -/
def conflicting : Session where
  text := some "add_executable(a old.c)\nadd_executable(app b.c)\r".toList

/-- A run that is asked and agrees at a terminal, and a run that is not asked. -/
def agreed : List Run :=
  [⟨.plain, false, .typed (Utf8.encode "y\n".toList), none⟩, ⟨.spaced, true, .fixed false, none⟩]

theorem areFree_agreed : AreFree [.spaced, .plain] agreed := by
  have hyes : (Prompt.confirm Prompt.Terminal.console (Sync.question .plain)
      { input := Utf8.encode "y\n".toList }).1 = true := by
    decide +kernel
  intro x hx
  rw [agreed, List.mem_cons, List.mem_singleton] at hx
  rcases hx with rfl | rfl
  · exact ⟨by decide, rfl, Or.inr fun _ => hyes⟩
  · exact ⟨by decide, rfl, Or.inl rfl⟩

theorem areCompatible_spaced_plain : Request.AreCompatible [.spaced, .plain] where
  accepted := by simp [Request.isAccepted_spaced, Request.isAccepted_plain]
  distinct := by decide
  recoverable := by decide
  directory := by decide

/-- Two conflicting declarations are replaced, and running the requests again in the other order
changes nothing. -/
theorem runs_converge_agreed :
    Request.AreCompatible [.spaced, .plain] ∧ AreFree [.spaced, .plain] agreed ∧
      (performAll (.ofText "CMakeLists.txt".toList) agreed conflicting).2.writes ≤ 2 ∧
      performAll (.ofText "CMakeLists.txt".toList) agreed.reverse
          (performAll (.ofText "CMakeLists.txt".toList) agreed conflicting).2 =
        ([.ok .alreadyPresent, .ok .alreadyPresent],
          (performAll (.ofText "CMakeLists.txt".toList) agreed conflicting).2) := by
  obtain ⟨hwrites, hsettled⟩ := runs_converge (.ofText "CMakeLists.txt".toList)
    areCompatible_spaced_plain areFree_agreed (s := conflicting) rfl
  have hall : ∀ r ∈ [Request.spaced, .plain], ∃ x ∈ agreed, x.request = r := by
    intro r hr
    rw [List.mem_cons, List.mem_singleton] at hr
    rcases hr with rfl | rfl
    · exact ⟨⟨.spaced, true, .fixed false, none⟩, by decide, rfl⟩
    · exact ⟨⟨.plain, false, .typed (Utf8.encode "y\n".toList), none⟩, by decide, rfl⟩
  refine ⟨areCompatible_spaced_plain, areFree_agreed, hwrites, (hsettled hall).2 agreed.reverse ?_⟩
  intro x hx
  obtain ⟨hmem, hserved, -⟩ := areFree_agreed x (List.mem_reverse.1 hx)
  exact ⟨hmem, Run.canRead_of_refusal_eq_none hserved⟩

end Session

end BuildTargets

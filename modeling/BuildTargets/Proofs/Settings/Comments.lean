import BuildTargets.Proofs.Settings.Update
import BuildTargets.Proofs.Toml.Comments.Order

/-!
# Comments of the settings file

When a setting is set, the comments of the settings file stay, whatever else the file holds, but for those
that are kept with what had the name of the setting: a comment behind the old value or in it is lost with
it, and if the name was that of tables so are all of theirs (`comments_of_set`).  The comments that
stay keep their order in a file without dotted keys; entries with these are written next to each other.
-/

namespace BuildTargets

namespace Settings

open Toml Toml.Table

variable {file : Path} {key raw text new : Text}

/-! ## Fresh values -/

/-- A written text makes no comment, whatever it holds. -/
theorem silent_writtenString (t : Text) : Silent (writtenString t) := fun _ hs =>
  comments_of_string? (string?_writtenString t hs.1 hs.2)

theorem silent_writtenBool (b : Bool) : Silent (writtenBool b) := by
  have hword : (writtenBool b).any isMark = false := by cases b <;> decide
  exact silent_of_isMark (isMark_of_any hword)

/-- A fresh value makes no comment. -/
theorem silent_fresh (raw : Text) (k : Key) : Silent (fresh (datum raw k)).spelling := by
  cases k with
  | targetName => exact silent_writtenString raw
  | outputDirectory => exact silent_writtenString raw
  | skipConfirmation => exact silent_writtenBool _

theorem isSound_fresh (raw : Text) (k : Key) : (fresh (datum raw k)).IsSound where
  before _ hc := isMark_of_isSpace (isSpace_of_mem_before hc)
  spelling := (silent_fresh raw k).sealedBefore
  noQuote := noQuote_nil
  after := sealed_nil.mono fun _ _ => trivial

theorem comments_fresh (raw : Text) (k : Key) : (fresh (datum raw k)).comments = [] := by
  rw [Value.comments, (silent_fresh raw k).comments_eq_nil]
  exact comments_nil

theorem isSound_bare_text (k : Key) : (Toml.Key.bare k.text).IsSound := by
  have hbare : k.text.all Toml.Key.isBare = true := by cases k <;> rfl
  exact isSound_bare (List.all_eq_true.1 hbare)

/-! ## The settings file -/

/-- A setting that has been set was put into the document that the text of the file spells. -/
theorem exists_of_set (h : set file key raw (.ok text) = .ok new) :
    ∃ k o root, key = Key.text k ∧ Outline.read? (withoutMark text) = some o ∧
      ofOutline? o = some root ∧
      new = ((Document.mk root o.trailing).put key (fresh (datum raw k))).text := by
  obtain ⟨k, rfl, hvalue⟩ : ∃ k, key = Key.text k ∧ value key raw = .ok (datum raw k) := by
    rcases value_cases key raw with ⟨k, hk, -, hvalue⟩ | ⟨-, hvalue⟩ | ⟨k, problem, -, -, hvalue⟩
    · exact ⟨k, hk, hvalue⟩
    · simp only [set, hvalue] at h
      cases h
    · simp only [set, hvalue] at h
      cases h
  simp only [set, hvalue, pure_bind] at h
  cases hd : Document.read? text with
  | none =>
    simp only [hd] at h
    cases h
  | some d =>
    simp only [hd] at h
    cases h
    unfold Document.read? at hd
    obtain ⟨o, ho, hd⟩ := Option.bind_eq_some_iff.1 hd
    obtain ⟨root, hroot, hd⟩ := Option.bind_eq_some_iff.1 hd
    cases hd
    exact ⟨k, o, root, rfl, ho, hroot, rfl⟩

/-- Setting a setting loses the comments that are kept with what has its name, and no others; it adds
none.  So nothing is lost where the setting is new to the file.  The comments that stay are in their order,
if no entry of the file has a dotted key and there is no comment in a table in braces. -/
theorem comments_of_set (h : set file key raw (.ok text) = .ok new) :
    ∃ o root, Outline.read? (withoutMark text) = some o ∧ ofOutline? o = some root ∧
      (comments text).Perm (root.displaced key ++ comments new) ∧
      (root.has key = false → (comments text).Perm (comments new)) ∧
      (o.IsOrderly → (comments new).Sublist (comments text)) := by
  obtain ⟨k, o, root, rfl, ho, hroot, rfl⟩ := exists_of_set h
  have hname := isSound_bare_text k
  have hfresh := isSound_fresh raw k
  have hnone := comments_fresh raw k
  have hperm := perm_comments_put ho hroot hname hfresh hnone
  rw [comments_withoutMark] at hperm
  refine ⟨o, root, ho, hroot, hperm, fun hnew => ?_, fun horderly => ?_⟩
  · rwa [displaced_eq_nil hnew, List.nil_append] at hperm
  · have hsublist := sublist_comments_put ho hroot horderly hname hfresh hnone
    rwa [comments_withoutMark] at hsublist

/-- A settings file with a comment in every position: in front of an entry, behind one, between two,
behind a header, in an array and at the end. -/
def commentedText : Text :=
  ("# a\nexecutable_name = \"x#y\" # b\n# c\n[t] # d\n# e\nz = [ # f\n1]\n# g\n").toList

theorem comments_of_set_commentedText :
    ∃ new, set (.ofText []) "executable_name".toList "w".toList (.ok commentedText) = .ok new ∧
      (comments commentedText).Perm ("# b".toList :: comments new) ∧
      (comments new).Sublist (comments commentedText) := by
  obtain ⟨new, hset⟩ : ∃ new, set (.ofText []) "executable_name".toList "w".toList
      (.ok commentedText) = .ok new := by
    have hok : (set (.ofText []) "executable_name".toList "w".toList
        (.ok commentedText)).toOption.isSome = true := by decide +kernel
    cases hset : set (.ofText []) "executable_name".toList "w".toList (.ok commentedText) with
    | ok new => exact ⟨new, rfl⟩
    | error fault =>
      rw [hset] at hok
      cases hok
  obtain ⟨o, root, ho, hroot, hperm, -, horder⟩ := comments_of_set hset
  have hdisplaced : ((Outline.read? (withoutMark commentedText)).bind ofOutline?).map
      (·.displaced "executable_name".toList) = some ["# b".toList] := by decide +kernel
  have horderly : (Outline.read? (withoutMark commentedText)).any (fun o => o.IsOrderly) = true := by
    decide +kernel
  rw [ho, Option.bind_some, hroot, Option.map_some, Option.some.injEq] at hdisplaced
  rw [ho, Option.any_some, decide_eq_true_eq] at horderly
  rw [hdisplaced] at hperm
  exact ⟨new, hset, hperm, horder horderly⟩

/-- A comment behind the value of a setting is lost when the setting is set. -/
theorem set_drops_comment_behind_value :
    "# why".toList ∈ comments "executable_name = \"a\" # why\n".toList ∧
      (set (.ofText []) "executable_name".toList "b".toList
        (.ok "executable_name = \"a\" # why\n".toList)).toOption =
          some "executable_name = \"b\"\n".toList ∧
      "# why".toList ∉ comments "executable_name = \"b\"\n".toList := by
  decide +kernel

/-- Entries whose keys begin with the same part are written next to each other, with their comments. -/
example : (set (.ofText []) "executable_name".toList "b".toList
    (.ok "a.b = 1 # x\nc = 2 # y\na.d = 3 # z\n".toList)).toOption.map Toml.comments =
      some ["# x".toList, "# z".toList, "# y".toList] := by
  decide +kernel

end Settings

end BuildTargets

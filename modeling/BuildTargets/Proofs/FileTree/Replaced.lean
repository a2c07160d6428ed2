import BuildTargets.FileTree.Access
import Mathlib.Data.List.Fold
import Mathlib.Data.List.MinMax

/-!
# Replacements that fail

A replacement is staged under a name that no entry of the tree bears, so the tree without the staged
file is the tree from before (`erase_of_stage`).  Whichever step of a replacement fails, it leaves the
tree as it was (`eq_of_replace_error`).
-/

namespace BuildTargets.FileTree

variable {t t' : FileTree} {cwd l staged : Location} {n : Node} {p : Path} {content : Bytes}
  {cause : IoCause}

/-- A tree without an entry at a location loses nothing there. -/
theorem erase_eq_self (h : l ∉ t.nodes.map Prod.fst) : t.erase l = t := by
  have hkept : ∀ e ∈ t.nodes, decide (e.1 ≠ l) = true := by
    intro e he
    rw [decide_eq_true_eq]
    rintro rfl
    exact h (List.mem_map_of_mem he)
  rw [erase, List.filter_eq_self.2 hkept]

/-- What has been put at a location is gone when that location is emptied. -/
theorem erase_set (t : FileTree) (l : Location) (n : Node) : (t.set l n).erase l = t.erase l := by
  simp [set, erase, List.filter_filter]

/-- The fresh name of a tree is longer than every name in it. -/
theorem length_lt_length_freshName (h : l ∈ t.nodes.map Prod.fst) {name : Bytes} (hname : name ∈ l) :
    name.length < t.freshName.length := by
  obtain ⟨e, he, rfl⟩ := List.mem_map.1 h
  have hlocation : name.length ≤ (e.1.map List.length).foldl max 0 := by
    rw [List.foldl_eq_foldr]
    exact List.le_max_of_le' 0 (List.mem_map_of_mem hname) le_rfl
  have htree : (e.1.map List.length).foldl max 0 ≤
      (t.nodes.map fun e => (e.1.map List.length).foldl max 0).foldl max 0 := by
    rw [List.foldl_eq_foldr (l := t.nodes.map _)]
    exact List.le_max_of_le' 0 (List.mem_map_of_mem he) le_rfl
  rw [freshName, List.length_cons, List.length_replicate]
  omega

/-- No entry of a tree bears its fresh name. -/
theorem append_freshName_not_mem (t : FileTree) (l : Location) :
    l ++ [t.freshName] ∉ t.nodes.map Prod.fst := by
  intro h
  have hmem : t.freshName ∈ l ++ [t.freshName] := List.mem_append_right l List.mem_cons_self
  exact absurd (length_lt_length_freshName h hmem) (lt_irrefl _)

/-- A file is staged under the fresh name, and nothing else changes. -/
theorem exists_of_stage (h : t.stage cwd p content = .ok (staged, t')) :
    ∃ l, staged = l ++ [t.freshName] ∧ t' = t.set staged (.file privateMode content) := by
  unfold stage at h
  split at h
  · cases h
  · split at h
    · next l _ _ =>
      split at h
      · cases h
        exact ⟨l, rfl, rfl⟩
      · cases h
    · cases h
    · cases h
    · cases h

/-- Without the staged file a tree is what it was. -/
theorem erase_of_stage (h : t.stage cwd p content = .ok (staged, t')) : t'.erase staged = t := by
  obtain ⟨l, rfl, rfl⟩ := exists_of_stage h
  rw [erase_set, erase_eq_self (t.append_freshName_not_mem l)]

/-- A replacement that fails leaves the tree as it was. -/
theorem eq_of_replace_error (h : t.replace cwd p content = (.error cause, t')) : t' = t := by
  unfold replace at h
  split at h
  · cases h
    rfl
  · simp only at h
    split at h
    · cases h
      rfl
    · next staged t₁ hstage =>
      split at h
      · cases h
        exact erase_of_stage hstage
      · cases h

end BuildTargets.FileTree

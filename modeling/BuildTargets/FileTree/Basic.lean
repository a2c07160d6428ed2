import BuildTargets.Path.Basic

/-!
# File trees

A file tree as a value: regular files, directories and symbolic links, each at a location. A location
spells the names that lead to it from the root, without links. Looking up what has just been put or
removed is settled by `get?_set` and `get?_erase`.
-/

namespace BuildTargets

/-- The names that lead from the root to an entry. -/
abbrev Location := List Bytes

/-- An entry of a file tree. -/
inductive Node where
  | file (mode : Nat) (content : Bytes)
  | directory (mode : Nat)
  /-- A symbolic link. -/
  | link (target : Bytes)
  deriving DecidableEq, Repr

/-- What the owner of an entry may do with it. Who asks for access is taken to be the owner. -/
inductive Right where
  | read
  | write
  /-- To look up the names in a directory. -/
  | search
  deriving DecidableEq, Repr

/-- The bit of a mode that grants a right to the owner. -/
def Right.bit : Right → Nat
  | read => 0o400
  | write => 0o200
  | search => 0o100

/-- Whether an entry grants a right. A link grants all: what it leads to decides. -/
def Node.permits (r : Right) : Node → Bool
  | file mode _ | directory mode => mode / r.bit % 2 = 1
  | link _ => true

/-- Whether an entry is a directory. -/
def Node.isDirectory : Node → Bool
  | directory _ => true
  | _ => false

/-- The entries of a file system. The root is a directory whether it is listed or not. -/
structure FileTree where
  nodes : List (Location × Node)
  deriving DecidableEq, Repr, Inhabited

namespace FileTree

/-- The entry at a location. -/
def get? (t : FileTree) (l : Location) : Option Node :=
  if l = [] then some (.directory 0o755) else t.nodes.lookup l

/-- Whether the entry at a location grants a right. -/
def permits (t : FileTree) (r : Right) (l : Location) : Bool := (t.get? l).any (Node.permits r)

/-- The tree without an entry at `l`. -/
def erase (t : FileTree) (l : Location) : FileTree := ⟨t.nodes.filter fun e => e.1 ≠ l⟩

/-- The tree with the entry `n` at `l`. -/
def set (t : FileTree) (l : Location) (n : Node) : FileTree := ⟨(l, n) :: (t.erase l).nodes⟩

theorem lookup_filter_ne (l k : Location) (nodes : List (Location × Node)) :
    (nodes.filter fun e => e.1 ≠ l).lookup k = if k = l then none else nodes.lookup k := by
  induction nodes with
  | nil => simp
  | cons e nodes ih =>
    obtain ⟨a, n⟩ := e
    rw [List.filter_cons]
    by_cases ha : a = l
    · subst ha
      simp only [ne_eq, not_true_eq_false, decide_false, Bool.false_eq_true, if_false, ih]
      by_cases hk : k = a
      · simp [hk]
      · simp [hk, List.lookup_cons, beq_eq_false_iff_ne.2 hk]
    · simp only [ne_eq, ha, not_false_eq_true, decide_true, if_true, List.lookup_cons, ih]
      by_cases hk : k = a
      · simp [hk, ha]
      · simp [beq_eq_false_iff_ne.2 hk]

theorem get?_erase (t : FileTree) {l : Location} (k : Location) (hl : l ≠ []) :
    (t.erase l).get? k = if k = l then none else t.get? k := by
  by_cases hk : k = []
  · simp [get?, hk, Ne.symm hl]
  · simp only [get?, hk, if_false, erase, lookup_filter_ne]

theorem get?_set (t : FileTree) {l : Location} (k : Location) (n : Node) (hl : l ≠ []) :
    (t.set l n).get? k = if k = l then some n else t.get? k := by
  by_cases hk : k = []
  · simp [get?, hk, Ne.symm hl]
  · by_cases h : k = l
    · simp [get?, set, h, hl]
    · simp only [get?, set, hk, h, List.lookup_cons, beq_eq_false_iff_ne.2 h, erase,
        lookup_filter_ne, if_false]

/-- The path of a location. -/
def pathOf (l : Location) : Path := ⟨Path.slash :: joinWith [Path.slash] l⟩

end FileTree

end BuildTargets

import Mathlib.Data.List.Basic

/-!
# Authentication paths in a tree with carried nodes

A tree over a list of leaves of any length, built level by level:
neighbours are joined by `node`, and a last node without a neighbour is
carried up as it is. The path of a leaf holds, for each level below the
top, the sibling and the side it stands on; a level on which the node has
no sibling leaves no entry.

`climb_siblings` is the round trip: following the path of a leaf from that
leaf ends at the top of the tree, for every number of leaves and every
`node`.
-/

namespace MerklePaths

variable {α : Type} (node : α → α → α)

/-- One level up. -/
def pairUp : List α → List α
  | [] => []
  | [a] => [a]
  | a :: b :: rest => node a b :: pairUp rest

/-- The levels from the leaves upwards, for at most `rounds` joins. -/
def levels : Nat → List α → List (List α)
  | 0, level => [level]
  | rounds + 1, level =>
    if level.length ≤ 1 then [level] else level :: levels rounds (pairUp node level)

/-- The first node of the last level. -/
def top (tree : List (List α)) : Option α := tree.getLast?.bind List.head?

def siblingIdx (idx : Nat) : Nat := if idx % 2 = 0 then idx + 1 else idx - 1

/-- The siblings of the node at `idx` and its ancestors, each with the side
of the node it is the sibling of (0 for left). -/
def siblings : Nat → List (List α) → List (α × Nat)
  | idx, level :: above :: rest =>
    match level[siblingIdx idx]? with
    | some sibling => (sibling, idx % 2) :: siblings (idx / 2) (above :: rest)
    | none => siblings (idx / 2) (above :: rest)
  | _, _ => []

/-- One step up: the node joined with its sibling. -/
def join (current : α) (step : α × Nat) : α :=
  if step.2 = 0 then node current step.1 else node step.1 current

/-- The node reached from `leaf` along a path. -/
def climb (leaf : α) (path : List (α × Nat)) : α := path.foldl (join node) leaf

@[simp] theorem climb_nil (leaf : α) : climb node leaf [] = leaf := rfl

@[simp] theorem climb_cons (leaf : α) (step : α × Nat) (path : List (α × Nat)) :
    climb node leaf (step :: path) = climb node (join node leaf step) path := rfl

theorem pairUp_length (level : List α) : (pairUp node level).length = (level.length + 1) / 2 := by
  fun_induction pairUp node level with
  | case1 => simp
  | case2 => simp
  | case3 a b rest ih =>
    simp only [List.length_cons, ih]
    omega

theorem siblingIdx_add_two (idx : Nat) : siblingIdx (idx + 2) = siblingIdx idx + 2 := by
  unfold siblingIdx
  rw [Nat.add_mod_right]
  split <;> omega

variable {level : List α} {idx : Nat} {a : α}

theorem getElem?_pairUp_of_sibling {b : α} (ha : level[idx]? = some a)
    (hb : level[siblingIdx idx]? = some b) :
    (pairUp node level)[idx / 2]? = some (join node a (b, idx % 2)) := by
  fun_induction pairUp node level generalizing idx with
  | case1 => simp at ha
  | case2 =>
    -- a level of one node has no siblings
    rcases idx with _ | idx
    · simp [siblingIdx] at hb
    · simp at ha
  | case3 x y rest ih =>
    rcases idx with _ | _ | idx
    · simp_all [siblingIdx, join]
    · simp_all [siblingIdx, join]
    · rw [siblingIdx_add_two] at hb
      rw [Nat.add_div_right idx Nat.zero_lt_two, Nat.add_mod_right _ 2, List.getElem?_cons_succ]
      exact ih ha hb

theorem getElem?_pairUp_of_alone (ha : level[idx]? = some a) (hb : level[siblingIdx idx]? = none) :
    (pairUp node level)[idx / 2]? = some a := by
  fun_induction pairUp node level generalizing idx with
  | case1 => simp at ha
  | case2 =>
    rcases idx with _ | idx
    · exact ha
    · simp at ha
  | case3 x y rest ih =>
    rcases idx with _ | _ | idx
    · simp [siblingIdx] at hb
    · simp [siblingIdx] at hb
    · rw [siblingIdx_add_two] at hb
      rw [Nat.add_div_right idx Nat.zero_lt_two, List.getElem?_cons_succ]
      exact ih ha hb

theorem exists_levels_eq_cons (rounds : Nat) (level : List α) :
    ∃ above, levels node rounds level = level :: above := by
  cases rounds with
  | zero => exact ⟨[], rfl⟩
  | succ =>
    unfold levels
    split
    · exact ⟨[], rfl⟩
    · exact ⟨_, rfl⟩

variable {rounds : Nat}

theorem levels_succ_of_lt (h : 1 < level.length) :
    levels node (rounds + 1) level = level :: levels node rounds (pairUp node level) := by
  conv_lhs => unfold levels
  exact if_neg (by omega)

theorem levels_of_le (h : level.length ≤ 1) : levels node rounds level = [level] := by
  cases rounds with
  | zero => rfl
  | succ =>
    exact if_pos h

variable {leaves : List α} {leaf : α}

theorem top_singleton (h : leaves.length ≤ 1) (hleaf : leaves[idx]? = some leaf) :
    top [leaves] = some leaf := by
  have hidx := (List.getElem?_eq_some_iff.mp hleaf).1
  obtain rfl : idx = 0 := by omega
  rwa [top, List.getLast?_singleton, Option.bind_some, List.head?_eq_getElem?]

theorem top_levels_succ (h : 1 < level.length) :
    top (levels node (rounds + 1) level) = top (levels node rounds (pairUp node level)) := by
  obtain ⟨_, habove⟩ := exists_levels_eq_cons node rounds (pairUp node level)
  rw [levels_succ_of_lt _ h, habove]
  simp [top]

theorem climb_siblings (hrounds : leaves.length ≤ rounds + 1) (hleaf : leaves[idx]? = some leaf) :
    top (levels node rounds leaves)
      = some (climb node leaf (siblings idx (levels node rounds leaves))) := by
  induction rounds generalizing leaves idx leaf with
  | zero =>
    rw [levels_of_le _ hrounds, top_singleton hrounds hleaf]
    simp [siblings]
  | succ rounds ih =>
    rcases Nat.lt_or_ge 1 leaves.length with hlong | hshort
    · have hhalf := pairUp_length node leaves
      obtain ⟨_, habove⟩ := exists_levels_eq_cons node rounds (pairUp node leaves)
      -- the path of the parent is what remains of the path of the leaf
      rw [top_levels_succ _ hlong, levels_succ_of_lt _ hlong]
      rcases hsibling : leaves[siblingIdx idx]? with _ | sibling
      · have hparent := getElem?_pairUp_of_alone node hleaf hsibling
        rw [ih (by omega) hparent, habove]
        simp only [siblings, hsibling]
      have hparent := getElem?_pairUp_of_sibling node hleaf hsibling
      rw [ih (by omega) hparent, habove]
      simp only [siblings, hsibling, climb_cons]
    · rw [levels_of_le _ hshort, top_singleton hshort hleaf]
      simp [siblings]

end MerklePaths

import Mathlib.Algebra.Ring.Nat
import Quantos.MerklePaths

/-!
# Trees of hashes

Two ways to hash a family of leaves to one root, over any type of hashes
and any function `node` that joins two of them.

`levelUp` joins the neighbours in a list, and a last one with itself, until
one is left (`root`). `path` holds the siblings of a position and of those
above it, `climb` goes up along such a list, the bits of the index telling
left from right. A path leads to the root (`climb_path`), another list of
its length does so only from the same leaf or by a collision
(`leaf_of_climb`), and lists of one length with one root are equal or
contain a collision (`eq_of_root_eq`).

`complete` is the root of a complete tree of a given height, with a leaf
for each number below a power of two.

A collision is two pairs that `node` sends to one hash, one from each of
the two computations compared (`Collide`).
-/

namespace HashTrees

open List

variable {α : Type} (node : α → α → α)

/-- A pair of the first list and another one of the second with one hash. -/
def Collide (ps qs : List (α × α)) : Prop :=
  ∃ p ∈ ps, ∃ q ∈ qs, p ≠ q ∧ node p.1 p.2 = node q.1 q.2

variable {node} {ps qs ps' qs' : List (α × α)}

theorem Collide.mono (h : Collide node ps qs) (hps : ps ⊆ ps') (hqs : qs ⊆ qs') :
    Collide node ps' qs' := by
  obtain ⟨p, hp, q, hq, hne, heq⟩ := h
  exact ⟨p, hps hp, q, hqs hq, hne, heq⟩

/-- Lists of pairs with the same hashes are equal, or two pairs collide. -/
theorem eq_of_map_eq (h : ps.map (fun p => node p.1 p.2) = qs.map fun q => node q.1 q.2) :
    ps = qs ∨ Collide node ps qs := by
  induction ps generalizing qs with
  | nil => exact .inl (map_eq_nil_iff.mp h.symm).symm
  | cons p ps ih =>
    cases qs with
    | nil => cases h
    | cons q =>
      rw [map_cons, map_cons, List.cons.injEq] at h
      by_cases hpq : p = q
      · subst hpq
        rcases ih h.2 with rfl | hcollide
        · exact .inl rfl
        · exact .inr (hcollide.mono (subset_cons_self _ _) (subset_cons_self _ _))
      · exact .inr ⟨p, mem_cons_self, q, mem_cons_self, hpq, h.1⟩

/-! ## Lists with the last one doubled -/

/-- The pairs joined on one level. -/
def pairs : List α → List (α × α)
  | [] => []
  | [a] => [(a, a)]
  | a :: b :: rest => (a, b) :: pairs rest

variable (node) (level : List α) (idx : Nat)

def levelUp : List α := (pairs level).map fun p => node p.1 p.2

/-- The hash that is left after at most `rounds` levels. -/
def root : Nat → List α → Option α
  | 0, level => level.head?
  | rounds + 1, level => if level.length ≤ 1 then level.head? else root rounds (levelUp node level)

/-- The pairs joined on the way to the root. -/
def joined : Nat → List α → List (α × α)
  | 0, _ => []
  | rounds + 1, level =>
    if level.length ≤ 1 then [] else pairs level ++ joined rounds (levelUp node level)

/-- The levels from the leaves to the root. -/
def levels : Nat → List α → List (List α)
  | 0, level => [level]
  | rounds + 1, level =>
    if level.length ≤ 1 then [level] else level :: levels rounds (levelUp node level)

/-- The neighbour in the pair, or the hash itself where it is the last one. -/
def sibling : Option α :=
  level[MerklePaths.siblingIdx idx]?.or level[idx]?

def path : Nat → List α → Nat → List α
  | 0, _, _ => []
  | rounds + 1, level, idx =>
    if level.length ≤ 1 then []
    else (sibling level idx).toList ++ path rounds (levelUp node level) (idx / 2)

/-- The two in their order. -/
def side (current sibling : α) : α × α :=
  if idx % 2 = 0 then (current, sibling) else (sibling, current)

def climb : α → Nat → List α → α
  | current, _, [] => current
  | current, idx, sibling :: siblings =>
    climb (node (side idx current sibling).1 (side idx current sibling).2) (idx / 2) siblings

/-- The pairs joined on the way up. -/
def climbed : α → Nat → List α → List (α × α)
  | _, _, [] => []
  | current, idx, sibling :: siblings =>
    side idx current sibling
      :: climbed (node (side idx current sibling).1 (side idx current sibling).2) (idx / 2) siblings

theorem length_pairs : (pairs level).length = (level.length + 1) / 2 := by
  fun_induction pairs level with
  | case1 => simp
  | case2 => simp
  | case3 a b rest ih =>
    simp only [length_cons, ih]
    omega

theorem length_levelUp : (levelUp node level).length = (level.length + 1) / 2 := by
  rw [levelUp, length_map, length_pairs]

theorem levels_ne_nil (rounds : Nat) : levels node rounds level ≠ [] := by
  cases rounds with
  | zero => exact cons_ne_nil _ _
  | succ =>
    unfold levels
    split <;> exact cons_ne_nil _ _

theorem length_levels_le (rounds : Nat) (level : List α) :
    (levels node rounds level).length ≤ rounds + 1 := by
  induction rounds generalizing level with
  | zero => exact Nat.le_refl 1
  | succ rounds ih =>
    unfold levels
    split
    · exact Nat.le_add_left 1 _
    · exact Nat.succ_le_succ (ih _)

variable {level level' : List α}

theorem length_levels_le_log {k : Nat} (rounds : Nat) (h : level.length ≤ 2 ^ k) :
    (levels node rounds level).length ≤ k + 1 := by
  induction rounds generalizing level k with
  | zero => exact Nat.le_add_left 1 k
  | succ rounds ih =>
    unfold levels
    split
    · exact Nat.le_add_left 1 k
    cases k with
    | zero =>
      rw [Nat.pow_zero] at h
      omega
    | succ k =>
      have hup := length_levelUp node level
      rw [Nat.pow_succ] at h
      exact Nat.succ_le_succ (ih (by omega))

theorem pairs_inj (hlength : level.length = level'.length) (h : pairs level = pairs level') :
    level = level' := by
  fun_induction pairs level generalizing level' with
  | case1 => exact (length_eq_zero_iff.mp hlength.symm).symm
  | case2 =>
    obtain ⟨b, rfl⟩ := length_eq_one_iff.mp hlength.symm
    simp_all [pairs]
  | case3 a b rest ih =>
    match level', hlength with
    | c :: d :: rest', hlength =>
      simp only [pairs, List.cons.injEq, Prod.mk.injEq] at h
      simp only [length_cons, Nat.add_right_cancel_iff] at hlength
      rw [h.1.1, h.1.2, ih hlength h.2]

theorem eq_of_head?_eq (hshort : level.length ≤ 1) (hlength : level.length = level'.length)
    (h : level.head? = level'.head?) : level = level' := by
  match level, level', hlength with
  | [], [], _ => rfl
  | [_], [_], _ => simpa using h
  | _ :: _ :: _, _, _ => simp at hshort

variable {idx : Nat} {a : α}

/-- Everyone has a sibling, and the two are a pair of the level. -/
theorem exists_sibling (h : level[idx]? = some a) :
    ∃ b, sibling level idx = some b ∧ (pairs level)[idx / 2]? = some (side idx a b) := by
  fun_induction pairs level generalizing idx with
  | case1 => simp at h
  | case2 =>
    rcases idx with _ | idx
    · exact ⟨a, by simp_all [sibling, MerklePaths.siblingIdx], by simp_all [side]⟩
    · simp at h
  | case3 x y rest ih =>
    rcases idx with _ | _ | idx
    · exact ⟨y, by simp [sibling, MerklePaths.siblingIdx], by simp_all [side]⟩
    · exact ⟨x, by simp [sibling, MerklePaths.siblingIdx], by simp_all [side]⟩
    · obtain ⟨b, hb, hpair⟩ := ih (by simpa using h)
      refine ⟨b, ?_, ?_⟩
      · rw [← hb, sibling, MerklePaths.siblingIdx_add_two]
        simp [sibling]
      · rw [show (idx + 1 + 1) / 2 = idx / 2 + 1 by omega, getElem?_cons_succ, hpair,
          side, side, show (idx + 1 + 1) % 2 = idx % 2 by omega]

theorem exists_parent (h : level[idx]? = some a) :
    ∃ b, sibling level idx = some b ∧ side idx a b ∈ pairs level ∧
      (levelUp node level)[idx / 2]? = some (node (side idx a b).1 (side idx a b).2) := by
  obtain ⟨b, hb, hpair⟩ := exists_sibling h
  refine ⟨b, hb, mem_of_getElem? hpair, ?_⟩
  rw [levelUp, getElem?_map, hpair]
  rfl

variable {rounds : Nat}

theorem root_of_short (hshort : level.length ≤ 1) (h : level[idx]? = some a) :
    root node rounds level = some a ∧ path node rounds level idx = [] := by
  have hidx := (List.getElem?_eq_some_iff.mp h).1
  obtain rfl : idx = 0 := by omega
  rw [← head?_eq_getElem?] at h
  cases rounds <;> simp [root, path, hshort, h]

theorem climb_path {level : List α} {rounds idx : Nat} {a : α}
    (hrounds : level.length ≤ rounds + 1) (h : level[idx]? = some a) :
    root node rounds level = some (climb node a idx (path node rounds level idx)) := by
  by_cases hshort : level.length ≤ 1
  · obtain ⟨hroot, hpath⟩ := root_of_short node hshort h
    rw [hroot, hpath]
    rfl
  obtain ⟨rounds, rfl⟩ : ∃ n, rounds = n + 1 := ⟨rounds - 1, by omega⟩
  obtain ⟨b, hb, -, hparent⟩ := exists_parent node h
  have hup := length_levelUp node level
  rw [root, path, if_neg hshort, if_neg hshort, climb_path (by omega) hparent, hb]
  rfl

/-- A list of the length of the path leads to the root only from the hash at
its position, unless a pair of it collides with a pair of the tree. -/
theorem leaf_of_climb {level siblings : List α} {rounds idx : Nat} {a b : α}
    (hrounds : level.length ≤ rounds + 1) (h : level[idx]? = some a)
    (hlength : siblings.length = (path node rounds level idx).length)
    (hclimb : root node rounds level = some (climb node b idx siblings)) :
    b = a ∨ Collide node (climbed node b idx siblings) (joined node rounds level) := by
  by_cases hshort : level.length ≤ 1
  · obtain ⟨hroot, hpath⟩ := root_of_short node hshort h
    rw [hpath] at hlength
    obtain rfl := length_eq_zero_iff.mp hlength
    rw [hroot] at hclimb
    exact .inl (Option.some.inj hclimb).symm
  · obtain ⟨rounds, rfl⟩ : ∃ n, rounds = n + 1 := ⟨rounds - 1, by omega⟩
    obtain ⟨s, hs, hmem, hparent⟩ := exists_parent node h
    have hup := length_levelUp node level
    rw [root, if_neg hshort] at hclimb
    rw [path, if_neg hshort, hs] at hlength
    rw [joined, if_neg hshort]
    cases siblings with
    | nil => simp at hlength
    | cons t =>
      rcases leaf_of_climb (by omega) hparent (by simpa using hlength) hclimb with
        heq | hcollide
      · by_cases hsides : side idx b t = side idx a s
        · refine .inl ?_
          unfold side at hsides
          split at hsides
          · exact (Prod.mk.inj hsides).1
          · exact (Prod.mk.inj hsides).2
        · exact .inr ⟨_, mem_cons_self, _, mem_append_left _ hmem, hsides, heq⟩
      · exact .inr (hcollide.mono (subset_cons_self _ _) (subset_append_right _ _))

theorem eq_of_root_eq (hrounds : level.length ≤ rounds + 1) (hlength : level.length = level'.length)
    (h : root node rounds level = root node rounds level') :
    level = level' ∨ Collide node (joined node rounds level) (joined node rounds level') := by
  induction rounds generalizing level level' with
  | zero => exact .inl (eq_of_head?_eq hrounds hlength h)
  | succ rounds ih =>
    rw [root, root, ← hlength] at h
    rw [joined, joined, ← hlength]
    split at h
    · rename_i hshort
      exact .inl (eq_of_head?_eq hshort hlength h)
    rename_i hlong
    have hup := length_levelUp node level
    have hup' := length_levelUp node level'
    rw [if_neg hlong, if_neg hlong]
    rcases ih (by omega) (by omega) h with heq | hcollide
    · rcases eq_of_map_eq heq with hpairs | hcollide
      · exact .inl (pairs_inj hlength hpairs)
      · exact .inr (hcollide.mono (subset_append_left _ _) (subset_append_left _ _))
    · exact .inr (hcollide.mono (subset_append_right _ _) (subset_append_right _ _))

/-! ### Lists of any length with one root

Nothing in a root tells how high its tree is or how long its levels are, so
two lists can have one root without a collision: one is a level inside the
tree of the other, or at some height the two trees differ in nothing but a
last hash that one has doubled in its level and the other doubles itself. -/

/-- The level `k` above the leaves. -/
def levelAt : List α → Nat → List α
  | level, 0 => level
  | level, k + 1 => levelAt (levelUp node level) k

/-- The list is a level of the other's tree, above its leaves. -/
def Inside (level level' : List α) : Prop :=
  ∃ k, 1 < (levelAt node level' k).length ∧ levelAt node level' (k + 1) = level

/-- Two different levels are joined in the same pairs. -/
def Doubled (level level' : List α) : Prop :=
  ∃ j k, 1 < (levelAt node level j).length ∧ 1 < (levelAt node level' k).length ∧
    levelAt node level j ≠ levelAt node level' k ∧
    pairs (levelAt node level j) = pairs (levelAt node level' k)

/-- Lists that have one root by the shape of their trees. -/
def Alike (level level' : List α) : Prop :=
  Inside node level level' ∨ Inside node level' level ∨ Doubled node level level'

variable {node}

theorem levelUp_levelAt (level : List α) (k : Nat) :
    levelUp node (levelAt node level k) = levelAt node level (k + 1) := by
  induction k generalizing level with
  | zero => rfl
  | succ k ih => exact ih (levelUp node level)

theorem levelAt_add (level : List α) (j k : Nat) :
    levelAt node level (j + k) = levelAt node (levelAt node level j) k := by
  induction j generalizing level with
  | zero => rw [Nat.zero_add, levelAt]
  | succ j ih => rw [Nat.succ_add, levelAt, ih, levelAt]

theorem length_levelAt_le (node : α → α → α) (level : List α) (k : Nat) :
    (levelAt node level k).length ≤ level.length := by
  induction k generalizing level with
  | zero => exact Nat.le_refl _
  | succ k ih =>
    have hup := length_levelUp node level
    have hrest := ih (levelUp node level)
    rw [levelAt]
    omega

theorem Collide.symm (h : Collide node ps qs) : Collide node qs ps := by
  obtain ⟨p, hp, q, hq, hne, heq⟩ := h
  exact ⟨q, hq, p, hp, hne.symm, heq.symm⟩

theorem Alike.symm (h : Alike node level level') : Alike node level' level := by
  rcases h with h | h | ⟨j, k, hj, hk, hne, hpairs⟩
  · exact .inr (.inl h)
  · exact .inl h
  · exact .inr (.inr ⟨k, j, hk, hj, hne.symm, hpairs.symm⟩)

section Roots

variable {rounds' k : Nat}

/-- Enough rounds all give the same. -/
theorem root_eq_root (hrounds : level.length ≤ rounds + 1) (hrounds' : level.length ≤ rounds' + 1) :
    root node rounds level = root node rounds' level := by
  induction rounds generalizing level rounds' with
  | zero => cases rounds' <;> simp [root, hrounds]
  | succ rounds ih =>
    by_cases hshort : level.length ≤ 1
    · cases rounds' <;> simp [root, hshort]
    · obtain ⟨rounds', rfl⟩ : ∃ n, rounds' = n + 1 := ⟨rounds' - 1, by omega⟩
      have hup := length_levelUp node level
      rw [root, root, if_neg hshort, if_neg hshort]
      exact ih (by omega) (by omega)

theorem root_levelUp (hlong : 1 < level.length) (hrounds : level.length ≤ rounds + 1) :
    root node rounds (levelUp node level) = root node rounds level := by
  obtain ⟨rounds, rfl⟩ : ∃ n, rounds = n + 1 := ⟨rounds - 1, by omega⟩
  have hup := length_levelUp node level
  conv_rhs => rw [root, if_neg (Nat.not_le.mpr hlong)]
  exact root_eq_root (by omega) (by omega)

/-- A level of the tree has the root of the tree. -/
theorem root_levelAt_succ (hlong : 1 < (levelAt node level k).length)
    (hrounds : level.length ≤ rounds + 1) :
    root node rounds (levelAt node level (k + 1)) = root node rounds level := by
  induction k generalizing level with
  | zero => exact root_levelUp hlong hrounds
  | succ k ih =>
    have hup := length_levelUp node level
    have hle := length_levelAt_le node (levelUp node level) k
    rw [levelAt] at hlong ⊢
    rw [ih hlong (by omega), root_levelUp (by omega) hrounds]

/-- The top of a tree of several leaves is a level inside it. -/
theorem inside_of_root {a : α} (hlong : 1 < level.length) (hrounds : level.length ≤ rounds + 1)
    (h : root node rounds level = some a) : Inside node [a] level := by
  induction rounds generalizing level with
  | zero => omega
  | succ rounds ih =>
    have hup := length_levelUp node level
    rw [root, if_neg (Nat.not_le.mpr hlong)] at h
    by_cases hshort : (levelUp node level).length ≤ 1
    · obtain ⟨b, hb⟩ := length_eq_one_iff.mp (show (levelUp node level).length = 1 by omega)
      have hroot : root node rounds [b] = some b := by cases rounds <;> rfl
      rw [hb, hroot] at h
      obtain rfl := Option.some.inj h
      exact ⟨0, hlong, hb⟩
    · obtain ⟨k, hk, heq⟩ := ih (Nat.not_le.mp hshort) (by omega) h
      exact ⟨k + 1, hk, heq⟩

/-- The pairs of a level are joined on the way to the root. -/
theorem pairs_levelAt_subset (hlong : 1 < (levelAt node level k).length)
    (hrounds : level.length ≤ rounds + 1) :
    pairs (levelAt node level k) ⊆ joined node rounds level := by
  have hle := length_levelAt_le node level k
  obtain ⟨rounds, rfl⟩ : ∃ n, rounds = n + 1 := ⟨rounds - 1, by omega⟩
  rw [joined, if_neg (by omega)]
  induction k generalizing level rounds with
  | zero => exact subset_append_left _ _
  | succ k ih =>
    have hup := length_levelUp node level
    have hle' := length_levelAt_le node (levelUp node level) k
    rw [levelAt] at hlong hle ⊢
    refine List.Subset.trans ?_ (subset_append_right _ _)
    obtain ⟨rounds, rfl⟩ : ∃ n, rounds = n + 1 := ⟨rounds - 1, by omega⟩
    rw [joined, if_neg (by omega)]
    exact ih hlong hle' rounds (by omega)

/-- Two levels with the same hashes above them are one, or the trees are
alike, or a pair collides. -/
theorem eq_or_alike {j : Nat} (hj : 1 < (levelAt node level j).length)
    (hk : 1 < (levelAt node level' k).length) (hrounds : level.length ≤ rounds + 1)
    (hrounds' : level'.length ≤ rounds' + 1)
    (h : levelAt node level (j + 1) = levelAt node level' (k + 1)) :
    levelAt node level j = levelAt node level' k ∨ Alike node level level' ∨
      Collide node (joined node rounds level) (joined node rounds' level') := by
  rw [← levelUp_levelAt, ← levelUp_levelAt] at h
  rcases eq_of_map_eq h with hpairs | hcollide
  · by_cases heq : levelAt node level j = levelAt node level' k
    · exact .inl heq
    · exact .inr (.inl (.inr (.inr ⟨j, k, hj, hk, heq, hpairs⟩)))
  · exact .inr (.inr (hcollide.mono (pairs_levelAt_subset hj hrounds)
      (pairs_levelAt_subset hk hrounds')))

/-- From the levels above the leaves to the leaves. -/
theorem alike_of_inside_levelUp (hrounds : level.length ≤ rounds + 1)
    (hrounds' : level'.length ≤ rounds' + 1) (hlong : 1 < level.length)
    (h : Inside node (levelUp node level) (levelUp node level')) :
    Alike node level level' ∨
      Collide node (joined node rounds level) (joined node rounds' level') := by
  obtain ⟨k, hk, heq⟩ := h
  replace hk : 1 < (levelAt node level' (k + 1)).length := hk
  have hk' : 1 < (levelAt node level' k).length := by
    have hup := length_levelUp node (levelAt node level' k)
    rw [levelUp_levelAt] at hup
    omega
  have hlong' : 1 < (levelAt node level 0).length := hlong
  rcases eq_or_alike hlong' hk hrounds hrounds' heq.symm with heq | h
  · exact .inl (.inl ⟨k, hk', heq.symm⟩)
  · exact h

theorem eq_singleton_of_root {a : α} (hshort : level.length ≤ 1)
    (h : root node rounds level = some a) : level = [a] := by
  have hhead : root node rounds level = level.head? := by cases rounds <;> simp [root, hshort]
  match level, hshort with
  | [], _ =>
    rw [hhead] at h
    cases h
  | [b], _ =>
    rw [hhead] at h
    cases h
    rfl

theorem exists_root (node : α → α → α) (hempty : level ≠ [])
    (hrounds : level.length ≤ rounds + 1) : ∃ a, root node rounds level = some a := by
  obtain ⟨a, rest, rfl⟩ := exists_cons_of_ne_nil hempty
  exact ⟨_, climb_path node hrounds (getElem?_cons_zero (a := a))⟩

theorem inside_of_short (hshort : level.length ≤ 1) (hempty : level ≠ [])
    (hrounds' : level'.length ≤ rounds' + 1)
    (h : root node rounds level = root node rounds' level') :
    level = level' ∨ Inside node level level' := by
  obtain ⟨a, ha⟩ : ∃ a, root node rounds level = some a := exists_root node hempty (by omega)
  obtain rfl := eq_singleton_of_root hshort ha
  rw [ha] at h
  by_cases hshort' : level'.length ≤ 1
  · exact .inl (eq_singleton_of_root hshort' h.symm).symm
  · exact .inr (inside_of_root (Nat.not_le.mp hshort') hrounds' h.symm)

/-- Lists with one root are equal, or alike, or two of the pairs joined for
them collide. -/
theorem alike_of_root_eq (hrounds : level.length ≤ rounds + 1)
    (hrounds' : level'.length ≤ rounds' + 1) (hempty : level ≠ []) (hempty' : level' ≠ [])
    (h : root node rounds level = root node rounds' level') :
    level = level' ∨ Alike node level level' ∨
      Collide node (joined node rounds level) (joined node rounds' level') := by
  -- down both trees at once, from the level above the leaves to the leaves
  induction rounds generalizing level level' rounds' with
  | zero => exact (inside_of_short hrounds hempty hrounds' h).imp_right fun h => .inl (.inl h)
  | succ rounds ih =>
    by_cases hshort : level.length ≤ 1
    · exact (inside_of_short hshort hempty hrounds' h).imp_right fun h => .inl (.inl h)
    by_cases hshort' : level'.length ≤ 1
    · rcases inside_of_short hshort' hempty' hrounds h.symm with heq | h
      · exact .inl heq.symm
      · exact .inr (.inl (.inr (.inl h)))
    obtain ⟨rounds', rfl⟩ : ∃ n, rounds' = n + 1 := ⟨rounds' - 1, by omega⟩
    have hlong : 1 < level.length := Nat.not_le.mp hshort
    have hlong' : 1 < level'.length := Nat.not_le.mp hshort'
    have hup := length_levelUp node level
    have hup' := length_levelUp node level'
    have hne : levelUp node level ≠ [] := ne_nil_of_length_pos (by omega)
    have hne' : levelUp node level' ≠ [] := ne_nil_of_length_pos (by omega)
    rw [root, root, if_neg hshort, if_neg hshort'] at h
    rcases ih (by omega) (by omega) hne hne' h with heq | (h | h | ⟨j, k, hj, hk, hdoubled⟩) | h
    · have h₀ : 1 < (levelAt node level 0).length := hlong
      have h₀' : 1 < (levelAt node level' 0).length := hlong'
      exact eq_or_alike h₀ h₀' hrounds hrounds' heq
    · exact .inr (alike_of_inside_levelUp hrounds hrounds' hlong h)
    · exact .inr ((alike_of_inside_levelUp hrounds' hrounds hlong' h).imp .symm .symm)
    · exact .inr (.inl (.inr (.inr ⟨j + 1, k + 1, hj, hk, hdoubled⟩)))
    · refine .inr (.inr ?_)
      rw [joined, joined, if_neg hshort, if_neg hshort']
      exact h.mono (subset_append_right _ _) (subset_append_right _ _)

end Roots

/-- Lists that are alike have one root. -/
theorem Alike.root_eq {rounds' : Nat} (h : Alike node level level')
    (hrounds : level.length ≤ rounds + 1) (hrounds' : level'.length ≤ rounds' + 1) :
    root node rounds level = root node rounds' level' := by
  have hmax : level.length ≤ max rounds rounds' + 1 := by omega
  have hmax' : level'.length ≤ max rounds rounds' + 1 := by omega
  rw [root_eq_root hrounds hmax, root_eq_root hrounds' hmax']
  rcases h with ⟨k, hk, heq⟩ | ⟨k, hk, heq⟩ | ⟨j, k, hj, hk, -, hpairs⟩
  · rw [← heq, root_levelAt_succ hk hmax']
  · rw [← heq, root_levelAt_succ hk hmax]
  · rw [← root_levelAt_succ hj hmax, ← root_levelAt_succ hk hmax', ← levelUp_levelAt,
      ← levelUp_levelAt, levelUp, levelUp, hpairs]

theorem Inside.length_lt (h : Inside node level level') : level.length < level'.length := by
  obtain ⟨k, hk, rfl⟩ := h
  have hup := length_levelUp node (levelAt node level' k)
  have hle := length_levelAt_le node level' k
  rw [levelUp_levelAt] at hup
  omega

/-- Levels of one tree that are joined in the same pairs are the same. -/
theorem levelAt_eq_of_pairs {j k : Nat} (hjk : j ≤ k) (hk : 1 < (levelAt node level k).length)
    (hpairs : pairs (levelAt node level j) = pairs (levelAt node level k)) : j = k := by
  by_contra hne
  obtain ⟨d, rfl⟩ : ∃ d, k = j + 1 + d := ⟨k - (j + 1), by omega⟩
  have hlength := congrArg List.length hpairs
  have hup := length_levelUp node (levelAt node level j)
  have hle := length_levelAt_le node (levelAt node level (j + 1)) d
  rw [length_pairs, length_pairs] at hlength
  rw [levelUp_levelAt] at hup
  rw [← levelAt_add] at hle
  omega

theorem Alike.ne (h : Alike node level level') : level ≠ level' := by
  rintro rfl
  rcases h with h | h | ⟨j, k, hj, hk, hne, hpairs⟩
  · exact absurd h.length_lt (Nat.lt_irrefl _)
  · exact absurd h.length_lt (Nat.lt_irrefl _)
  · rcases Nat.le_total j k with hjk | hjk
    · exact hne (levelAt_eq_of_pairs hjk hk hpairs ▸ rfl)
    · exact hne (levelAt_eq_of_pairs hjk hj hpairs.symm ▸ rfl)

variable (node)

/-! ## Complete trees -/

/-- The root over the leaves from `idx * 2 ^ height` on. -/
def complete (leaf : Nat → α) : Nat → Nat → α
  | 0, idx => leaf idx
  | height + 1, idx =>
    node (complete leaf height (2 * idx)) (complete leaf height (2 * idx + 1))

/-- The children of the node over `idx` at `height + 1`. -/
def children (leaf : Nat → α) (height idx : Nat) : α × α :=
  (complete node leaf height (2 * idx), complete node leaf height (2 * idx + 1))

/-- Trees with one root have the same leaves, or two nodes collide. -/
theorem leaf_eq_of_complete_eq {leaf leaf' : Nat → α} {height idx : Nat}
    (h : complete node leaf height idx = complete node leaf' height idx) {i : Nat}
    (hi : i / 2 ^ height = idx) :
    leaf i = leaf' i ∨ ∃ k < height, ∃ j, Collide node [children node leaf k j]
      [children node leaf' k j] := by
  induction height generalizing idx with
  | zero =>
    rw [Nat.pow_zero, Nat.div_one] at hi
    exact .inl (hi ▸ h)
  | succ height ih =>
    by_cases hne : children node leaf height idx = children node leaf' height idx
    · obtain ⟨hleft, hright⟩ := Prod.mk.inj hne
      have hhalf : i / 2 ^ height / 2 = idx := by
        rw [Nat.div_div_eq_div_mul, ← Nat.pow_succ, hi]
      have hchild : leaf i = leaf' i ∨ ∃ k < height, ∃ j, Collide node
          [children node leaf k j] [children node leaf' k j] := by
        rcases Nat.mod_two_eq_zero_or_one (i / 2 ^ height) with hparity | hparity
        · exact ih hleft (by omega)
        · exact ih hright (by omega)
      exact hchild.imp_right fun ⟨k, hk, hcollide⟩ => ⟨k, by omega, hcollide⟩
    · exact .inr ⟨height, by omega, idx, _, mem_singleton_self _, _,
        mem_singleton_self _, hne, h⟩

end HashTrees

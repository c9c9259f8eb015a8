import Quantos.HashTrees
import Quantos.L0Proof

/-!
# Merkle roots and inclusion proofs

`merkle_root` with its tree, its proofs and their verification
(`crypto/hash.rs`), and the same root for the shielded pool
(`privacy/mod.rs`): the trees of `HashTrees` with the last hash of an odd
level doubled.

A proof of inclusion says what is at its index. A root does not say what
the list is: a list that ends in a doubled hash has the root of the list
without the double, and every level of a tree has the root of the tree. Up to
collisions these are all the lists that a root confuses
(`merkle_roots_bind_iff`).
-/

namespace Quantos

open HashTrees List

section Merkle

variable (hashData : Bytes → Hash)

/-- A string of the first list and another one of the second with one hash. -/
def Collision (xs ys : List Bytes) : Prop :=
  ∃ x ∈ xs, ∃ y ∈ ys, x ≠ y ∧ hashData x = hashData y

theorem joinBytes_injective : Function.Injective joinBytes := by
  intro p q h
  obtain ⟨hleft, hright⟩ := append_inj h (by simp)
  exact Prod.ext (arrayBytes_injective hleft) (arrayBytes_injective hright)

variable {hashData}

theorem Collision.of_collide {ps qs : List (Hash × Hash)}
    (h : HashTrees.Collide (joinHash hashData) ps qs) :
    Collision hashData (ps.map joinBytes) (qs.map joinBytes) := by
  obtain ⟨p, hp, q, hq, hne, heq⟩ := h
  exact ⟨_, mem_map_of_mem hp, _, mem_map_of_mem hq, joinBytes_injective.ne hne, heq⟩

variable (hashData)

/-! ## The functions of the source -/

variable (leaves : List Hash)

/-- `merkle_root` of `privacy/mod.rs`: the loop is the same, without a case
of its own for one leaf. -/
def Privacy.merkleRoot : Hash :=
  if leaves.isEmpty then 0 else merkleRounds hashData leaves.length leaves

/-- The loop over the siblings, then the comparison. -/
def verifyMerkleProof (current : Hash) : (proof : List Hash) → (idx : Nat) → (root : Hash) → Bool
  | [], _, root => current == root
  | sibling :: proof, idx, root =>
    let combined :=
      if idx % 2 = 0 then arrayBytes current ++ arrayBytes sibling
      else arrayBytes sibling ++ arrayBytes current
    verifyMerkleProof (hashData combined) proof (idx / 2) root

structure MerkleProof where
  leaf : Hash
  siblings : List Hash
  index : Nat

def MerkleProof.verify (proof : MerkleProof) (root : Hash) : Bool :=
  verifyMerkleProof hashData proof.leaf proof.siblings proof.index root

/-- The `while` loop of `build_merkle_tree`, for at most `rounds` levels. -/
def buildLevels : (rounds : Nat) → List Hash → List (List Hash)
  | 0, level => [level]
  | rounds + 1, level =>
    if level.length ≤ 1 then [level]
    else level :: buildLevels rounds (merkleLevel hashData level)

def buildMerkleTree : Hash × List (List Hash) :=
  if leaves.isEmpty then (0, [])
  else
    let levels := buildLevels hashData leaves.length leaves
    ((levels.getLast?.bind List.head?).getD 0, levels)

/-- The siblings on the levels below the last one. `level[idx]` is read on
every level and panics out of range, which is `none`. -/
def collectSiblings : (idx : Nat) → List (List Hash) → Option (List Hash)
  | idx, level :: above :: rest => do
    let own ← level[idx]?
    let siblings ← collectSiblings (idx / 2) (above :: rest)
    pure (level[MerklePaths.siblingIdx idx]?.getD own :: siblings)
  | _, _ => some []

/-- `none` is a panic. -/
def generateMerkleProof (index : Nat) : Option (Option MerkleProof) :=
  if index ≥ leaves.length then some none
  else do
    let siblings ← collectSiblings index (buildMerkleTree hashData leaves).2
    let leaf ← leaves[index]?
    pure (some ⟨leaf, siblings, index⟩)

/-! ## As trees of hashes -/

variable (rounds : Nat) (level : List Hash)

theorem merkleLevel_eq : merkleLevel hashData level = levelUp (joinHash hashData) level := by
  fun_induction merkleLevel hashData level with
  | case1 => rfl
  | case2 => rfl
  | case3 h h' rest ih =>
    rw [ih]
    rfl

theorem merkleRounds_eq : merkleRounds hashData rounds level
      = (root (joinHash hashData) rounds level).getD 0 := by
  fun_induction merkleRounds hashData rounds level with
  | case1 rounds => cases rounds <;> rfl
  | case2 rounds => cases rounds <;> rfl
  | case3 => rfl
  | case4 rounds level hnil hone ih =>
    have hlong : ¬ level.length ≤ 1 := by
      match level with
      | [] => exact absurd rfl hnil
      | [h] => exact absurd rfl (hone h)
      | _ :: _ :: _ => simp
    rw [ih, merkleLevel_eq, root, if_neg hlong]

theorem verifyMerkleProof_eq (current : Hash) (proof : List Hash) (idx : Nat) (root : Hash) :
    verifyMerkleProof hashData current proof idx root
      = decide (climb (joinHash hashData) current idx proof = root) := by
  induction proof generalizing current idx with
  | nil => rfl
  | cons sibling proof ih =>
    rw [verifyMerkleProof, ih, climb, side]
    split <;> rfl

variable {rounds level}

theorem collectSiblings_eq {idx : Nat} {leaf : Hash} (hrounds : level.length ≤ rounds + 1)
    (h : level[idx]? = some leaf) :
    collectSiblings idx (buildLevels hashData rounds level)
      = some (path (joinHash hashData) rounds level idx) := by
  induction rounds generalizing level idx leaf with
  | zero => rfl
  | succ rounds ih =>
    rw [buildLevels, path]
    split
    · rfl
    obtain ⟨b, hb, -, hparent⟩ := exists_parent (joinHash hashData) h
    rw [← merkleLevel_eq] at hparent ⊢
    have hup := merkleLevel_length hashData level
    have hrest := ih (by omega) hparent
    obtain ⟨above, rest, hcons⟩ : ∃ above rest,
        buildLevels hashData rounds (merkleLevel hashData level) = above :: rest := by
      cases rounds with
      | zero => exact ⟨_, _, rfl⟩
      | succ =>
        rw [buildLevels]
        split <;> exact ⟨_, _, rfl⟩
    rw [hcons] at hrest ⊢
    have hsibling : level[MerklePaths.siblingIdx idx]?.getD leaf = b := by
      rw [sibling, h] at hb
      cases hread : level[MerklePaths.siblingIdx idx]? <;> simp_all
    rw [collectSiblings, h, hrest, hb]
    simp [hsibling]

/-! ## What a proof says -/

/-- The strings hashed for a root. -/
def rootStrings (leaves : List Hash) : List Bytes :=
  (joined (joinHash hashData) leaves.length leaves).map joinBytes

/-- The strings hashed for a verification. -/
def proofStrings (leaf : Hash) (index : Nat) (siblings : List Hash) : List Bytes :=
  (climbed (joinHash hashData) leaf index siblings).map joinBytes

/-- The proof of an index in range verifies, and with as many siblings
nothing else does at that index, or a collision is at hand. -/
theorem merkle_inclusion (leaves : List Hash) (index : Fin leaves.length) :
    ∃ proof, generateMerkleProof hashData leaves index = some (some proof) ∧
      proof.verify hashData (merkleRoot hashData leaves) = true ∧
      ∀ (leaf : Hash) (siblings : List Hash), siblings.length = proof.siblings.length →
        verifyMerkleProof hashData leaf siblings index (merkleRoot hashData leaves) = true →
        leaf = leaves[index] ∨ Collision hashData (proofStrings hashData leaf index siblings)
          (rootStrings hashData leaves) := by
  have hleaf : leaves[index.val]? = some leaves[index] := getElem?_eq_getElem index.isLt
  have hrounds : leaves.length ≤ leaves.length + 1 := Nat.le_succ _
  have hroot := climb_path (joinHash hashData) hrounds hleaf
  have hmerkle : root (joinHash hashData) leaves.length leaves
      = some (merkleRoot hashData leaves) := by
    rw [merkleRoot, merkleRounds_eq, hroot]
    rfl
  have hnonempty : leaves.isEmpty = false := by
    cases leaves with
    | nil => exact index.elim0
    | cons => rfl
  refine ⟨⟨leaves[index], path (joinHash hashData) leaves.length leaves index, index⟩,
    ?_, ?_, fun leaf siblings hlength hverify => ?_⟩
  · rw [generateMerkleProof, if_neg (Nat.not_le.mpr index.isLt), buildMerkleTree, hnonempty]
    simp only [Bool.false_eq_true, if_false]
    rw [collectSiblings_eq _ hrounds hleaf, hleaf]
    rfl
  · rw [MerkleProof.verify, verifyMerkleProof_eq, decide_eq_true_eq]
    exact Option.some.inj (hroot.symm.trans hmerkle)
  · rw [verifyMerkleProof_eq, decide_eq_true_eq] at hverify
    rw [← hverify] at hmerkle
    exact (leaf_of_climb _ hrounds hleaf hlength hmerkle).imp_right .of_collide

/-! ## What a root says -/

theorem Privacy.merkleRoot_eq (leaves : List Hash) :
    Privacy.merkleRoot hashData leaves = Quantos.merkleRoot hashData leaves := by
  cases leaves <;> rfl

theorem root_eq_some {hashes : List Hash} (h : hashes ≠ []) :
    root (joinHash hashData) hashes.length hashes = some (merkleRoot hashData hashes) := by
  obtain ⟨first, _, rfl⟩ := exists_cons_of_ne_nil h
  rw [merkleRoot, merkleRounds_eq, climb_path (joinHash hashData) (Nat.le_succ _)
    (getElem?_cons_zero (a := first))]
  rfl

theorem merkleRoot_eq_iff {hashes hashes' : List Hash} (hne : hashes ≠ []) (hne' : hashes' ≠ []) :
    merkleRoot hashData hashes = merkleRoot hashData hashes' ↔
      root (joinHash hashData) hashes.length hashes
        = root (joinHash hashData) hashes'.length hashes' := by
  rw [root_eq_some hashData hne, root_eq_some hashData hne', Option.some.injEq]

/-- Equal roots, for checkpoints and for the pool, give equal lists or a
collision: exactly where there is a collision among the strings hashed for the
two roots, or neither list is a level of the other's tree and no two levels
differ only by a last hash that one of them doubles. -/
theorem merkle_roots_bind_iff {hashes hashes' : List Hash} (hne : hashes ≠ [])
    (hne' : hashes' ≠ []) :
    ((merkleRoot hashData hashes = merkleRoot hashData hashes' ∨
        Privacy.merkleRoot hashData hashes = Privacy.merkleRoot hashData hashes') →
      hashes = hashes' ∨
        Collision hashData (rootStrings hashData hashes) (rootStrings hashData hashes')) ↔
    ¬ HashTrees.Alike (joinHash hashData) hashes hashes' ∨
      Collision hashData (rootStrings hashData hashes) (rootStrings hashData hashes') := by
  rw [Privacy.merkleRoot_eq, Privacy.merkleRoot_eq, or_self,
    merkleRoot_eq_iff hashData hne hne']
  by_cases hcollision :
      Collision hashData (rootStrings hashData hashes) (rootStrings hashData hashes')
  · exact iff_of_true (fun _ => .inr hcollision) (.inr hcollision)
  rw [or_iff_left hcollision, or_iff_left hcollision]
  constructor
  · intro hbind halike
    exact halike.ne (hbind (halike.root_eq (Nat.le_succ _) (Nat.le_succ _)))
  · intro hshapes hroots
    rcases alike_of_root_eq (Nat.le_succ _) (Nat.le_succ _) hne hne' hroots with
      heq | halike | hcollide
    · exact heq
    · exact absurd halike hshapes
    · exact absurd (.of_collide hcollide) hcollision

/-- Two leaves and four other ones: the roots differ, and so do the shapes. -/
theorem merkle_roots_bind_two_four :
    merkleRoot digitHash [1, 2] ≠ merkleRoot digitHash [3, 4, 5, 6] ∧
      ¬ HashTrees.Alike (joinHash digitHash) [1, 2] [3, 4, 5, 6] := by
  have hroots : merkleRoot digitHash [1, 2] ≠ merkleRoot digitHash [3, 4, 5, 6] := by
    decide +kernel
  have hcollision : ¬ Collision digitHash (rootStrings digitHash [1, 2])
      (rootStrings digitHash [3, 4, 5, 6]) := by
    unfold Collision
    decide +kernel
  have hbind := merkle_roots_bind_iff digitHash (cons_ne_nil 1 [2]) (cons_ne_nil 3 [4, 5, 6])
  rw [Privacy.merkleRoot_eq, Privacy.merkleRoot_eq, or_self] at hbind
  exact ⟨hroots, (hbind.mp fun h => absurd h hroots).resolve_right hcollision⟩

/-- A last hash that is doubled by the caller and not by the tree: the same
strings are hashed. And a list of one hash that is the join of two. -/
theorem merkle_roots_not_binding :
    (merkleRoot digitHash [1, 2, 3] = merkleRoot digitHash [1, 2, 3, 3] ∧
      Privacy.merkleRoot digitHash [1, 2, 3] = Privacy.merkleRoot digitHash [1, 2, 3, 3] ∧
      ¬ Collision digitHash (rootStrings digitHash [1, 2, 3])
          (rootStrings digitHash [1, 2, 3, 3])) ∧
    merkleRoot digitHash [joinHash digitHash 1 2] = merkleRoot digitHash [1, 2] ∧
      ¬ Collision digitHash (rootStrings digitHash [joinHash digitHash 1 2])
          (rootStrings digitHash [1, 2]) := by
  unfold Collision
  decide +kernel

end Merkle

end Quantos

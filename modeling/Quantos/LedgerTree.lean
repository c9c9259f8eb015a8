import Mathlib.Data.Nat.Bitwise
import Quantos.HashTrees
import Quantos.L0Proof
import Quantos.StateRoot

/-!
# The sparse root is the root of the whole tree

The tree of depth 256 with a leaf for every address (`HashTrees.complete`),
and `sparse_merkle_root`, which only ever holds the nodes with an account
below them. After `k` levels the map has, under the first `256 - k` bits of
an address, the node over all addresses with these bits (`OnLevel`), and a
node that is not in the map is the default of its level.

Since the whole tree fixes the place of everything, equal roots mean equal
leaves, leaves tell their account hashes and these the accounts, up to a
collision (`ledger_committed`).
-/

namespace Quantos

open Table List Nat

section

variable (hashData : Bytes → Hash) (hashes : List (Address × Hash)) (k i : Nat)

/-- The leaf at a position: the hash of the account listed there, or the
empty leaf. -/
def leafAt : Hash :=
  (hashes.find? fun e => e.1.toNat = i).elim (hashData SMT_EMPTY_LEAF_DOMAIN)
    fun e => smtHashLeaf hashData e.1 e.2

/-- The node over the addresses that start with the bits of `i`, all but the
last `k`. -/
def nodeAt : Hash :=
  HashTrees.complete (smtHashNode hashData) (leafAt hashData hashes) k i

theorem nodeAt_succ : nodeAt hashData hashes (k + 1) i
      = smtHashNode hashData (nodeAt hashData hashes k (2 * i))
          (nodeAt hashData hashes k (2 * i + 1)) := rfl

/-- The root of the complete tree. The bits of an address, the most
significant one first, lead from the root to its leaf. -/
def fullRoot : Hash := nodeAt hashData hashes 256 0

/-- Some listed address lies below the node. -/
def Occupied : Prop := ∃ e ∈ hashes, e.1.toNat / 2 ^ k = i

variable {hashes} {k i : Nat} (nodes : HashIndex) (key : Address)

theorem occupied_succ (h : Occupied hashes (k + 1) i) :
    Occupied hashes k (2 * i) ∨ Occupied hashes k (2 * i + 1) := by
  obtain ⟨e, he, rfl⟩ := h
  have hhalf : e.1.toNat / 2 ^ (k + 1) = e.1.toNat / 2 ^ k / 2 := by
    rw [Nat.div_div_eq_div_mul, ← Nat.pow_succ]
  rcases Nat.mod_two_eq_zero_or_one (e.1.toNat / 2 ^ k) with hbit | hbit
  · exact .inl ⟨e, he, by omega⟩
  · exact .inr ⟨e, he, by omega⟩

theorem Occupied.half (h : Occupied hashes k i) : Occupied hashes (k + 1) (i / 2) := by
  obtain ⟨e, he, rfl⟩ := h
  exact ⟨e, he, by rw [Nat.div_div_eq_div_mul, ← Nat.pow_succ]⟩

theorem nodeAt_of_not_occupied (h : ¬ Occupied hashes k i) :
    nodeAt hashData hashes k i = smtDefaultHash hashData k := by
  induction k generalizing i with
  | zero =>
    have hnone : (hashes.find? fun e => e.1.toNat = i) = none := by
      rw [find?_eq_none]
      intro e he heq
      exact h ⟨e, he, by simpa using heq⟩
    rw [nodeAt, HashTrees.complete, leafAt, hnone]
    rfl
  | succ k ih =>
    have hleft : ¬ Occupied hashes k (2 * i) := fun hk => h (by simpa using hk.half)
    have hright : ¬ Occupied hashes k (2 * i + 1) := fun hk => h (by
      have := hk.half
      rwa [show (2 * i + 1) / 2 = i by omega] at this)
    rw [nodeAt_succ, ih hleft, ih hright]
    rfl

/-- The map holds the occupied nodes of a level. -/
def OnLevel (hashes : List (Address × Hash)) (k : Nat) (nodes : HashIndex) : Prop :=
  ∀ key e, nodes.get key = some e ↔
    Occupied hashes k key.toNat ∧ e = (key, nodeAt hashData hashes k key.toNat)

/-! ## One level -/

theorem toNat_toggleLowestBit :
    (toggleLowestBit key).toNat = if key.toNat % 2 = 0 then key.toNat + 1 else key.toNat - 1 := by
  rw [toggleLowestBit, BitVec.toNat_xor]
  split
  · rename_i h
    exact xor_one_of_even (even_iff.mpr h)
  · rename_i h
    exact xor_one_of_odd (odd_iff.mpr (by omega))

theorem toNat_shiftRightOne : (shiftRightOne key).toNat = key.toNat / 2 := by
  rw [shiftRightOne_eq, BitVec.toNat_ushiftRight, shiftRight_eq_div_pow, pow_one]

theorem and_one_eq_zero_iff : key &&& 1#256 = 0#256 ↔ key.toNat % 2 = 0 := by
  rw [← BitVec.toNat_inj, BitVec.toNat_and]
  exact iff_of_eq (congrArg (· = 0) (and_one_is_mod _))

/-- What a node adds to the map of the parents. -/
def parentOf (default : Hash) (nodes : HashIndex) (e : Address × Hash) : Address × Hash :=
  let siblingHash := ((nodes.get (toggleLowestBit e.1)).map Prod.snd).getD default
  (shiftRightOne e.1,
    if e.1 &&& 1#256 = 0#256 then smtHashNode hashData e.2 siblingHash
    else smtHashNode hashData siblingHash e.2)

/-- A right node whose left sibling is there adds nothing. -/
def skipped : Bool :=
  toggleLowestBit key < key ∧ (nodes.get (toggleLowestBit key)).isSome

theorem smtParents_eq (default : Hash) (nodes : HashIndex) :
    smtParents hashData default nodes = Table.empty.putAll
      ((nodes.toSorted.filter fun e => ¬ skipped nodes e.1).map
        (parentOf hashData default nodes)) := by
  rw [smtParents, Table.putAll, foldl_map, foldl_filter]
  congr 1
  funext parents e
  simp only [skipped, parentOf, decide_not, decide_eq_true_eq, Bool.not_eq_true']
  split <;> split <;> simp_all

variable {k : Nat} {nodes : HashIndex}

theorem Occupied.lt {i : Nat} (h : Occupied hashes k i) : i < 2 ^ 256 := by
  obtain ⟨e, -, rfl⟩ := h
  exact lt_of_le_of_lt (div_le_self _ _) e.1.isLt

namespace OnLevel

variable {hashData} (h : OnLevel hashData hashes k nodes)
include h

theorem of_mem {e : Address × Hash} (he : e ∈ nodes.rows) :
    Occupied hashes k e.1.toNat ∧ e = (e.1, nodeAt hashData hashes k e.1.toNat) :=
  (h e.1 e).mp (get_of_mem he)

/-- Present or absent, a node reads as the node of the whole tree. -/
theorem read (key : Address) : ((nodes.get key).map Prod.snd).getD (smtDefaultHash hashData k)
      = nodeAt hashData hashes k key.toNat := by
  cases hget : nodes.get key with
  | none =>
    refine (nodeAt_of_not_occupied hashData fun hoccupied => ?_).symm
    cases hget.symm.trans ((h key _).mpr ⟨hoccupied, rfl⟩)
  | some e => rw [((h key e).mp hget).2, Option.map_some, Option.getD_some]

theorem parentOf_eq {e : Address × Hash} (he : e ∈ nodes.rows) :
    parentOf hashData (smtDefaultHash hashData k) nodes e
      = (shiftRightOne e.1, nodeAt hashData hashes (k + 1) (e.1.toNat / 2)) := by
  have hown := congrArg Prod.snd (h.of_mem he).2
  have hsibling := h.read (toggleLowestBit e.1)
  rw [toNat_toggleLowestBit] at hsibling
  simp only [parentOf, and_one_eq_zero_iff, hsibling, hown]
  split
  · rename_i heven
    rw [nodeAt_succ, show 2 * (e.1.toNat / 2) = e.1.toNat by omega]
  rename_i hodd
  rw [nodeAt_succ, show 2 * (e.1.toNat / 2) = e.1.toNat - 1 by omega,
    show e.1.toNat - 1 + 1 = e.1.toNat by omega]

/-- An occupied parent has a child that is not skipped. -/
theorem exists_child {i : Nat} (hi : Occupied hashes (k + 1) i) :
    ∃ e ∈ nodes.rows, skipped nodes e.1 = false ∧ e.1.toNat / 2 = i := by
  have hrow : ∀ j, Occupied hashes k j → ∃ e ∈ nodes.rows, e.1.toNat = j := by
    intro j hj
    have hkey : (BitVec.ofNat 256 j).toNat = j := mod_eq_of_lt hj.lt
    exact ⟨_, mem_rows_of_get ((h (BitVec.ofNat 256 j) _).mpr ⟨hkey.symm ▸ hj, rfl⟩), hkey⟩
  by_cases hleft : Occupied hashes k (2 * i)
  · obtain ⟨e, he, hkey⟩ := hrow _ hleft
    refine ⟨e, he, ?_, by omega⟩
    simp only [skipped, BitVec.lt_def, toNat_toggleLowestBit, decide_eq_false_iff_not, not_and]
    intro hlt
    split at hlt <;> omega
  · obtain ⟨e, he, hkey⟩ := hrow _ ((occupied_succ hi).resolve_left hleft)
    refine ⟨e, he, ?_, by omega⟩
    simp only [skipped, decide_eq_false_iff_not, not_and, Option.isSome_iff_exists, h _]
    rintro - ⟨_, hsibling, -⟩
    rw [toNat_toggleLowestBit, if_neg (by omega), hkey] at hsibling
    exact hleft hsibling

theorem step : OnLevel hashData hashes (k + 1)
    (smtParents hashData (smtDefaultHash hashData k) nodes) := by
  have hrows : ∀ {e}, e ∈ nodes.toSorted.filter (fun e => ¬ skipped nodes e.1) ↔
      e ∈ nodes.rows ∧ skipped nodes e.1 = false := by
    simp [nodes.toSorted_perm.mem_iff]
  intro key e
  rw [smtParents_eq,
    get_putAll_eq_some_iff (f := fun key => nodeAt hashData hashes (k + 1) key.toNat)]
  · refine and_congr_left fun _ => ⟨fun hmem => ?_, fun hoccupied => ?_⟩
    · rw [map_map, mem_map] at hmem
      obtain ⟨child, hchild, rfl⟩ := hmem
      show Occupied hashes (k + 1) (shiftRightOne child.1).toNat
      rw [toNat_shiftRightOne]
      exact (h.of_mem (hrows.mp hchild).1).1.half
    · obtain ⟨child, hchild, hskip, hhalf⟩ := h.exists_child hoccupied
      rw [map_map]
      refine mem_map.mpr ⟨child, hrows.mpr ⟨hchild, hskip⟩, BitVec.eq_of_toNat_eq ?_⟩
      exact (toNat_shiftRightOne child.1).trans hhalf
  · intro e he
    obtain ⟨child, hchild, rfl⟩ := mem_map.mp he
    rw [h.parentOf_eq (hrows.mp hchild).1, toNat_shiftRightOne]

theorem fold (fuel : Nat) : OnLevel hashData hashes (k + fuel)
    (smtFold hashData fuel (smtDefaultHash hashData k) nodes) := by
  induction fuel generalizing k nodes with
  | zero => exact h
  | succ fuel ih =>
    rw [show k + (fuel + 1) = k + 1 + fuel by omega]
    exact ih h.step

end OnLevel

/-! ## The whole tree -/

omit hashData in
theorem nodup_toNat (hnodup : (hashes.map Prod.fst).Nodup) :
    (hashes.map fun e => e.1.toNat).Nodup := by
  have hnumbers := hnodup.map (f := BitVec.toNat) fun _ _ => BitVec.eq_of_toNat_eq
  rwa [map_map] at hnumbers

theorem onLevel_leaves (hnodup : (hashes.map Prod.fst).Nodup) : OnLevel hashData hashes 0
      (Table.empty.putAll (hashes.map fun e => (e.1, smtHashLeaf hashData e.1 e.2))) := by
  intro key e
  rw [get_putAll_eq_some_iff (f := fun key => nodeAt hashData hashes 0 key.toNat)]
  · refine and_congr_left fun _ => ?_
    simp [Occupied, BitVec.toNat_inj]
  · intro e he
    obtain ⟨_, hrow, rfl⟩ := mem_map.mp he
    rw [nodeAt, HashTrees.complete, leafAt, find?_key_of_mem (nodup_toNat hnodup) hrow]
    rfl

theorem sparseMerkleRoot_eq (hnodup : (hashes.map Prod.fst).Nodup) :
    sparseMerkleRoot hashData hashes = fullRoot hashData hashes := by
  unfold sparseMerkleRoot
  split
  · rename_i hempty
    refine (nodeAt_of_not_occupied hashData ?_).symm
    rintro ⟨e, he, -⟩
    rw [isEmpty_iff.mp hempty] at he
    cases he
  · rename_i hne
    have hlevel := (onLevel_leaves hashData hnodup).fold 256
    rw [Table.putAll, foldl_map] at hlevel
    obtain ⟨e, he⟩ := exists_mem_of_ne_nil hashes (by simpa using hne)
    have hzero : ∀ a : Address, a.toNat / 2 ^ 256 = 0 := fun a => div_eq_of_lt a.isLt
    simp only
    split
    · rename_i key hash rest hsorted
      have hmem := (toSorted_perm _).mem_iff.mp (hsorted ▸ mem_cons_self)
      obtain ⟨⟨e, -, hkey⟩, heq⟩ := hlevel.of_mem hmem
      rw [(Prod.mk.inj heq).2, ← hkey, hzero]
      rfl
    · rename_i hsorted
      have hget := (hlevel 0 _).mpr ⟨⟨e, he, hzero e.1⟩, rfl⟩
      have hmem := (toSorted_perm _).mem_iff.mpr (mem_rows_of_get hget)
      rw [hsorted] at hmem
      cases hmem

/-- Distinct addresses, listed in any order. -/
theorem sparse_root_is_full_root {hashes' : List (Address × Hash)}
    (hnodup : (hashes.map Prod.fst).Nodup) (hperm : hashes'.Perm hashes) :
    sparseMerkleRoot hashData hashes' = fullRoot hashData hashes := by
  have hleaves : leafAt hashData hashes' = leafAt hashData hashes := by
    funext i
    exact congrArg (Option.elim · _ _)
      (find?_of_perm (t := ⟨hashes, nodup_toNat hnodup⟩) hperm i)
  rw [sparseMerkleRoot_eq _ ((hperm.map Prod.fst).nodup_iff.mpr hnodup), fullRoot, fullRoot,
    nodeAt, nodeAt, hleaves]

theorem sparse_root_is_full_root_pair :
    sparseMerkleRoot digitHash [(4, 8), (5, 7)] = fullRoot digitHash [(5, 7), (4, 8)] :=
  sparse_root_is_full_root digitHash (by decide) (.swap _ _ _)

end

/-! ## What the root says about the ledger -/

/-- The account serialization can be read back: the length tells whether
there is a code hash. -/
theorem Account.encode_injective : Function.Injective Account.encode := by
  intro a b h
  unfold Account.encode at h
  obtain ⟨h, _⟩ := append_inj' h rfl
  obtain ⟨h, hstake⟩ := append_inj' h (by rw [length_leBytes, length_leBytes])
  obtain ⟨h, hstorage⟩ := append_inj' h (by simp)
  simp only [append_assoc] at h
  obtain ⟨haddress, h⟩ := arrayBytes_append_inj h
  obtain ⟨hbalance, h⟩ := amount_append_inj h
  obtain ⟨hnonce, h⟩ := u64_append_inj h
  have hcode : a.codeHash = b.codeHash := by
    cases ha : a.codeHash <;> cases hb : b.codeHash <;> rw [ha, hb] at h
    · simpa using congrArg List.length h
    · simpa using congrArg List.length h
    · exact congrArg some (arrayBytes_injective h)
  have hflag : a.isValidator = b.isValidator := by
    cases ha : a.isValidator <;> cases hb : b.isValidator <;> simp_all
  cases a
  cases b
  simp only [Account.mk.injEq]
  exact ⟨haddress, hbalance, hnonce, hcode, arrayBytes_injective hstorage,
    Amount.toNat_inj (eq_of_leBytes_eq hstake (Amount.toNat_lt _) (Amount.toNat_lt _)), hflag⟩

variable (hashData : Bytes → Hash)

/-- The string hashed for the leaf of an address. -/
def leafString (a : Address) (account : Option Account) : Bytes :=
  account.elim SMT_EMPTY_LEAF_DOMAIN fun acc =>
    SMT_LEAF_DOMAIN ++ arrayBytes a ++ arrayBytes (acc.hash hashData)

/-- The strings hashed for the root of a ledger. -/
inductive HashedFor (accounts : AccountTable) : Bytes → Prop
  | account (a : Account) : a ∈ accounts.rows → HashedFor accounts a.encode
  | leaf (a : Address) : HashedFor accounts (leafString hashData a (accounts.get a))
  | node (k i : Nat) : k < 256 →
      HashedFor accounts (SMT_NODE_DOMAIN
        ++ arrayBytes (nodeAt hashData (indexOf hashData accounts).toSorted k (2 * i))
        ++ arrayBytes (nodeAt hashData (indexOf hashData accounts).toSorted k (2 * i + 1)))

/-- Two of these strings, one for each ledger, with one hash. -/
def LedgerCollision (accounts accounts' : AccountTable) : Prop :=
  ∃ x y, HashedFor hashData accounts x ∧ HashedFor hashData accounts' y ∧ x ≠ y ∧
    hashData x = hashData y

variable {accounts accounts' : AccountTable}

theorem leafAt_indexOf (accounts : AccountTable) (a : Address) :
    leafAt hashData (indexOf hashData accounts).toSorted a.toNat
      = hashData (leafString hashData a (accounts.get a)) := by
  have hfind : ((indexOf hashData accounts).toSorted.find? fun e => e.1.toNat = a.toNat)
      = (accounts.get a).map fun acc => (a, acc.hash hashData) := by
    simp only [BitVec.toNat_inj]
    rw [find?_of_perm (toSorted_perm _), get_indexOf]
  rw [leafAt, hfind]
  cases accounts.get a <;> rfl

variable {hashData}

theorem eq_or_collision {x y : Bytes} (hx : HashedFor hashData accounts x)
    (hy : HashedFor hashData accounts' y) (h : hashData x = hashData y) :
    x = y ∨ LedgerCollision hashData accounts accounts' := by
  by_cases hxy : x = y
  · exact .inl hxy
  · exact .inr ⟨x, y, hx, hy, hxy, h⟩

theorem get_eq_of_leaf_eq {a : Address}
    (h : leafString hashData a (accounts.get a) = leafString hashData a (accounts'.get a)) :
    accounts.get a = accounts'.get a ∨ LedgerCollision hashData accounts accounts' := by
  have hempty : ∀ hash : Hash,
      SMT_EMPTY_LEAF_DOMAIN ≠ SMT_LEAF_DOMAIN ++ arrayBytes a ++ arrayBytes hash := by
    intro hash heq
    have hlength := congrArg List.length heq
    simp [SMT_EMPTY_LEAF_DOMAIN, SMT_LEAF_DOMAIN, asciiBytes] at hlength
  cases hacc : accounts.get a <;> cases hacc' : accounts'.get a <;> rw [hacc, hacc'] at h
  · exact .inl rfl
  · exact absurd h (hempty _)
  · exact absurd h.symm (hempty _)
  · exact (eq_or_collision (.account _ (mem_rows_of_get hacc))
      (.account _ (mem_rows_of_get hacc'))
      (arrayBytes_injective (append_cancel_left h))).imp_left fun hencode =>
        congrArg some (Account.encode_injective hencode)

variable (hashData)

/-- Ledgers with one root hold the same accounts. -/
theorem ledger_committed (accounts accounts' : AccountTable)
    (h : ledgerRoot hashData accounts = ledgerRoot hashData accounts') :
    (∀ a, accounts.get a = accounts'.get a) ∨ LedgerCollision hashData accounts accounts' := by
  have hdistinct : ∀ t : HashIndex, (t.toSorted.map Prod.fst).Nodup := fun t =>
    (t.toSorted_perm.map Prod.fst).nodup_iff.mpr t.nodup
  rw [ledgerRoot, ledgerRoot, sparseMerkleRoot_eq _ (hdistinct _),
    sparseMerkleRoot_eq _ (hdistinct _)] at h
  by_cases hcollision : LedgerCollision hashData accounts accounts'
  · exact .inr hcollision
  refine .inl fun a => ?_
  rcases HashTrees.leaf_eq_of_complete_eq _ h (div_eq_of_lt a.isLt) with hleaf | hnodes
  · rw [leafAt_indexOf, leafAt_indexOf] at hleaf
    have hstring := (eq_or_collision (.leaf a) (.leaf a) hleaf).resolve_right hcollision
    exact (get_eq_of_leaf_eq hstring).resolve_right hcollision
  obtain ⟨k, hk, i, p, hp, q, hq, hne, heq⟩ := hnodes
  obtain rfl := mem_singleton.mp hp
  obtain rfl := mem_singleton.mp hq
  rcases eq_or_collision (.node k i hk) (.node k i hk) heq with hstring | hfound
  · refine absurd ?_ hne
    obtain ⟨hleft, hright⟩ := append_inj hstring (by simp)
    exact Prod.ext (arrayBytes_injective (append_cancel_left hleft))
      (arrayBytes_injective hright)
  · exact absurd hfound hcollision

/-- Under a hash that collides everywhere. -/
theorem ledger_committed_constant : (∀ a, (Table.empty.put (Account.new 1) : AccountTable).get a
        = (Table.empty.put (Account.new 2) : AccountTable).get a) ∨
      LedgerCollision (fun _ => 0) (Table.empty.put (Account.new 1))
        (Table.empty.put (Account.new 2)) :=
  ledger_committed (fun _ => 0) _ _ (by decide +kernel)

end Quantos

import Mathlib.Tactic.Ring
import Quantos.Types

/-!
# The sparse Merkle root of the ledger

The state commitment of `state/manager.rs`: every account is hashed, the
hashes sit at the leaves of a binary tree of depth 256 addressed by the
account address, and the tree is folded bottom-up one level at a time over
the occupied positions only, absent siblings being read from a table of
default hashes.

`BTreeMap<Address, Hash>` is a `HashIndex`; its iteration is `toSorted`.
-/

namespace Quantos

open List

abbrev HashIndex := Table (Prod.fst : Address × Hash → Address)

section

variable (hashData : Bytes → Hash)

def SMT_EMPTY_LEAF_DOMAIN : Bytes := asciiBytes "QUANTOS_STATE_SMT_EMPTY_LEAF_V1"

def SMT_LEAF_DOMAIN : Bytes := asciiBytes "QUANTOS_STATE_SMT_LEAF_V1"

def SMT_NODE_DOMAIN : Bytes := asciiBytes "QUANTOS_STATE_SMT_NODE_V1"

variable (index : HashIndex) (accounts : List Account)

def smtHashLeaf (address : Address) (accountHash : Hash) : Hash :=
  hashData (SMT_LEAF_DOMAIN ++ arrayBytes address ++ arrayBytes accountHash)

def smtHashNode (left right : Hash) : Hash :=
  hashData (SMT_NODE_DOMAIN ++ arrayBytes left ++ arrayBytes right)

/-- The hash of an empty subtree of height `level`. -/
def smtDefaultHash : Nat → Hash
  | 0 => hashData SMT_EMPTY_LEAF_DOMAIN
  | level + 1 => smtHashNode hashData (smtDefaultHash level) (smtDefaultHash level)

/-- The loop of `shift_right_one`, from the most significant byte on. -/
def shiftBytes (carry : UInt8) : Bytes → Bytes
  | [] => []
  | byte :: bytes => (byte >>> 1 ||| carry <<< 7) :: shiftBytes (byte &&& 1) bytes

def shiftRightOne (key : Address) : Address := arrayOfBytes (shiftBytes 0 (arrayBytes key))

/-- `key[31] ^= 1`: byte 31 is the least significant one. -/
def toggleLowestBit (key : Address) : Address := key ^^^ 1#256

/-- One pass of the level loop: the parents of the occupied nodes. A right
node whose left sibling is occupied is skipped, the sibling emits the parent. -/
def smtParents (default : Hash) (nodes : HashIndex) : HashIndex :=
  nodes.toSorted.foldl (fun parents (key, hash) =>
    let siblingKey := toggleLowestBit key
    if siblingKey < key ∧ (nodes.get siblingKey).isSome then parents
    else
      let siblingHash := ((nodes.get siblingKey).map Prod.snd).getD default
      let (left, right) :=
        if key &&& 1#256 = 0#256 then (hash, siblingHash) else (siblingHash, hash)
      parents.put (shiftRightOne key, smtHashNode hashData left right)) Table.empty

/-- `for level in 0..256`, from `level` on with `fuel` levels to go; the
default of the current level is carried along. -/
def smtFold : Nat → Hash → HashIndex → HashIndex
  | 0, _, nodes => nodes
  | fuel + 1, default, nodes =>
    smtFold fuel (smtHashNode hashData default default) (smtParents hashData default nodes)

def sparseMerkleRoot (accountHashes : List (Address × Hash)) : Hash :=
  if accountHashes.isEmpty then smtDefaultHash hashData 256
  else
    let leaves : HashIndex := accountHashes.foldl (fun nodes (address, accountHash) =>
      nodes.put (address, smtHashLeaf hashData address accountHash)) Table.empty
    match (smtFold hashData 256 (smtDefaultHash hashData 0) leaves).toSorted with
    | (_, hash) :: _ => hash
    | [] => smtDefaultHash hashData 256

/-! ## The shift -/

theorem toNat_shifted (byte : UInt8) {carry : UInt8} (h : carry.toNat ≤ 1) :
    (byte >>> 1 ||| carry <<< 7).toNat = 128 * carry.toNat + byte.toNat / 2 := by
  have hcarry : carry.toNat <<< 7 % 2 ^ 8 = 2 ^ 7 * carry.toNat := by
    rw [Nat.shiftLeft_eq]
    omega
  have hbyte := byte.toNat_lt
  rw [UInt8.toNat_or, UInt8.toNat_shiftRight, UInt8.toNat_shiftLeft, Nat.or_comm]
  simp only [UInt8.reduceToNat, Nat.reduceMod, hcarry, Nat.shiftRight_eq_div_pow]
  exact (Nat.two_pow_add_eq_or_of_lt (by omega) _).symm

theorem length_shiftBytes (carry : UInt8) (bytes : Bytes) :
    (shiftBytes carry bytes).length = bytes.length := by
  induction bytes generalizing carry with
  | nil => rfl
  | cons byte bytes ih => rw [shiftBytes, length_cons, ih, length_cons]

theorem leValue_concat (bytes : Bytes) (byte : UInt8) :
    leValue (bytes ++ [byte]) = leValue bytes + byte.toNat * 256 ^ bytes.length := by
  induction bytes with
  | nil => simp [leValue]
  | cons b bytes ih =>
    rw [cons_append, leValue, ih, leValue, length_cons, Nat.pow_succ']
    rw [Nat.mul_add, Nat.mul_left_comm, Nat.add_assoc]

/-- A carry is the byte in front of the array, as far as the shift goes. -/
theorem leValue_shiftBytes (bytes : Bytes) (carry : UInt8) (h : carry.toNat ≤ 1) :
    leValue (shiftBytes carry bytes).reverse
      = (carry.toNat * 256 ^ bytes.length + leValue bytes.reverse) / 2 := by
  induction bytes generalizing carry with
  | nil =>
    rw [shiftBytes, length_nil, reverse_nil, leValue]
    omega
  | cons byte bytes ih =>
    have hlow : (byte &&& 1).toNat = byte.toNat % 2 := by
      rw [UInt8.toNat_and]
      exact Nat.and_one_is_mod _
    have hsplit : carry.toNat * 256 ^ (bytes.length + 1) + byte.toNat * 256 ^ bytes.length
        = 2 * ((128 * carry.toNat + byte.toNat / 2) * 256 ^ bytes.length)
          + byte.toNat % 2 * 256 ^ bytes.length := by
      conv_lhs => rw [← Nat.div_add_mod byte.toNat 2]
      ring
    rw [shiftBytes, reverse_cons, leValue_concat, ih _ (by omega), toNat_shifted byte h, hlow,
      reverse_cons, leValue_concat, length_cons, length_reverse, length_reverse,
      length_shiftBytes]
    omega

theorem shiftRightOne_eq (key : Address) : shiftRightOne key = key >>> 1 := by
  have hvalue := leValue_shiftBytes (arrayBytes key) 0 (Nat.zero_le 1)
  rw [leValue_arrayBytes, UInt8.toNat_zero, Nat.zero_mul, Nat.zero_add] at hvalue
  have hlt := key.isLt
  apply BitVec.eq_of_toNat_eq
  rw [shiftRightOne, arrayOfBytes, hvalue, BitVec.toNat_ofNat, Nat.mod_eq_of_lt (by omega),
    BitVec.toNat_ushiftRight, Nat.shiftRight_eq_div_pow, Nat.pow_one]

/-! ## The index of account hashes -/

/-- The index rebuilt from durable storage (`iter_accounts` in key order). -/
def indexOf (accounts : AccountTable) : HashIndex :=
  accounts.toSorted.foldl (fun index a => index.put (a.address, a.hash hashData)) Table.empty

/-- Recording the hashes of a list of accounts. -/
def indexAccounts : HashIndex :=
  accounts.foldl (fun index a => index.put (a.address, a.hash hashData)) index

/-- The root of the accounts held by a table. -/
def ledgerRoot (accounts : AccountTable) : Hash :=
  sparseMerkleRoot hashData (indexOf hashData accounts).toSorted

theorem indexAccounts_eq_putAll : indexAccounts hashData index accounts
      = index.putAll (accounts.map fun a => (a.address, a.hash hashData)) := by
  rw [indexAccounts, Table.putAll, foldl_map]

theorem get_indexAccounts (a : Address) : (indexAccounts hashData index accounts).get a
      = ((accounts.reverse.find? fun acc => acc.address = a).map
          fun acc => (a, acc.hash hashData)).or (index.get a) := by
  rw [indexAccounts_eq_putAll, Table.get_putAll, ← map_reverse, find?_map]
  congr 1
  have hpred : ((fun v : Address × Hash => decide (v.1 = a))
      ∘ fun acc : Account => (acc.address, acc.hash hashData))
      = fun acc => decide (acc.address = a) := rfl
  rw [hpred]
  cases hf : accounts.reverse.find? fun acc => acc.address = a with
  | none => rfl
  | some acc =>
    have hk : acc.address = a := by simpa using find?_some hf
    simp [hk]

theorem get_indexOf (accounts : AccountTable) (a : Address) : (indexOf hashData accounts).get a
      = (accounts.get a).map fun acc => (a, acc.hash hashData) := by
  have h := get_indexAccounts hashData Table.empty accounts.toSorted a
  rw [Table.find?_of_perm ((reverse_perm _).trans accounts.toSorted_perm)] at h
  simpa [indexAccounts, indexOf] using h

theorem ledgerRoot_congr {accounts accounts' : AccountTable}
    (h : ∀ a, accounts.get a = accounts'.get a) :
    ledgerRoot hashData accounts = ledgerRoot hashData accounts' := by
  unfold ledgerRoot
  rw [Table.toSorted_congr fun a => ?_]
  rw [get_indexOf, get_indexOf, h]

end

end Quantos

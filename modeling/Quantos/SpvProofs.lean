import Quantos.Bincode
import Quantos.ClientRegistry
import Quantos.HashTrees

/-!
# Bitcoin inclusion proofs

What Bitcoin means by the Merkle root of a block and by the path of a
transaction, against the walk of `verify_bitcoin`. The ids are the leaves;
neighbours are joined by double SHA-256, the last one of an odd level with
itself, and the header holds the root as it is.

The walk goes up the right way (`climbMerkle_eq`): from an id, along its
path, it would end at the root. But the client starts from the double hash
of the id and compares the bytes of the result back to front, so a proof is
accepted exactly when these two cancel out (`spv_inclusion_iff`).
-/

namespace Quantos

open Panics

namespace LightClient

variable (env : ClientPlatform)

def bitcoinNode (left right : Hash) : Hash :=
  doubleSha256 env (arrayBytes left ++ arrayBytes right)

/-- The root of a block with these transactions. -/
def bitcoinMerkleRoot (ids : List Hash) : Hash :=
  (HashTrees.root (bitcoinNode env) ids.length ids).getD 0

/-- The siblings of a position. -/
def bitcoinPath (ids : List Hash) (position : Nat) : List Hash :=
  HashTrees.path (bitcoinNode env) ids.length ids position

theorem climbMerkle_eq (current : Hash) (idx : UInt32) (siblings : List Hash) :
    climbMerkle env current idx siblings
      = HashTrees.climb (bitcoinNode env) current idx.toNat siblings := by
  induction siblings generalizing current idx with
  | nil => rfl
  | cons sibling siblings ih =>
    have hbit : idx &&& 1 = 0 ↔ idx.toNat % 2 = 0 := by
      rw [← UInt32.toNat_inj, UInt32.toNat_and, UInt32.toNat_one, Nat.and_one_is_mod,
        UInt32.toNat_zero]
    have hshift : (idx >>> 1).toNat = idx.toNat / 2 := by
      rw [UInt32.toNat_shiftRight, UInt32.toNat_one, Nat.shiftRight_eq_div_pow]
    rw [climbMerkle, ih, hshift, HashTrees.climb, HashTrees.side]
    simp only [hbit]
    split <;> rfl

/-- A checkpoint for the block of a header, with the path of a transaction. -/
def spvCheckpoint (cp : ExternalCheckpoint) (ids : List Hash) (header : Bytes)
    (confirmations : UInt32) (txid : Hash) (txPos : UInt32) : ExternalCheckpoint :=
  { cp with
    blockHash := reversed (doubleSha256 env header)
    proof := .bitcoin header confirmations (some (bitcoinPath env ids txPos.toNat)) cp.blockNumber
      (some txid) (some txPos) }

/-- The path of a transaction leads from its id to the root, and its proof
is accepted if and only if it leads to the reversed root from the double
hash of the id. -/
theorem spv_inclusion_iff (cp : ExternalCheckpoint) (ids : List Hash) (header : Bytes)
    (confirmations : UInt32) (txid : Hash) (txPos : UInt32)
    (htxid : ids[txPos.toNat]? = some txid) (hheader : header.length = 80)
    (hroot : (header.drop 36).take 32 = arrayBytes (bitcoinMerkleRoot env ids))
    (hconfirmations : 6 ≤ confirmations) :
    climbMerkle env txid txPos (bitcoinPath env ids txPos.toNat) = bitcoinMerkleRoot env ids ∧
      (Returns (verifyBitcoin env (spvCheckpoint env cp ids header confirmations txid txPos))
          .accepted ↔ reversed (climbMerkle env (doubleSha256 env (arrayBytes txid)) txPos
            (bitcoinPath env ids txPos.toNat)) = bitcoinMerkleRoot env ids) := by
  constructor
  · rw [climbMerkle_eq, bitcoinMerkleRoot,
      HashTrees.climb_path (bitcoinNode env) (Nat.le_succ _) htxid]
    rfl
  · have hslice : slice header 36 68 = some (arrayBytes (bitcoinMerkleRoot env ids)) := by
      rw [slice_eq (by omega) (by omega), hroot]
    have hcopy : copyFromSlice (arrayBytes (bitcoinMerkleRoot env ids))
        = some (bitcoinMerkleRoot env ids) := by
      rw [copyFromSlice, if_pos (length_arrayBytes _), arrayOfBytes_arrayBytes]
    simp only [verifyBitcoin, spvCheckpoint, hheader, ne_eq, not_true_eq_false, if_false,
      UInt32.not_lt.mpr hconfirmations, hslice, hcopy, found_some_bind]
    split
    · rename_i hne
      exact iff_of_false nofun hne
    · rename_i heq
      exact iff_of_true rfl (not_not.mp heq)

/-- A header with a root and otherwise zeros. -/
def headerWithRoot (root : Hash) : Bytes :=
  List.replicate 36 0 ++ arrayBytes root ++ List.replicate 12 0

/-- The hash of a string is its largest byte, 32 times. -/
def largestByte : ClientPlatform :=
  { samplePlatform with
    sha256 := fun bytes => arrayOfBytes (List.replicate 32 (bytes.foldl max 0)) }

/-- The second of three transactions, under a hash that is its own reverse and
that no walk notices to have been taken once more. -/
theorem spv_inclusion_inner :
    Returns (verifyBitcoin largestByte (spvCheckpoint largestByte approvedBlock [1, 5, 3]
      (headerWithRoot (bitcoinMerkleRoot largestByte [1, 5, 3])) 6 5 1)) .accepted :=
  (spv_inclusion_iff largestByte approvedBlock [1, 5, 3] _ 6 5 1 rfl rfl
    (by decide +kernel) (by decide)).2.mpr (by decide +kernel)

/-- A block with one transaction: its root is the id. -/
theorem spv_inclusion_refused :
    bitcoinMerkleRoot samplePlatform [5] = 5 ∧
      ((headerWithRoot 5).drop 36).take 32 = arrayBytes 5 ∧
      Returns (verifyBitcoin samplePlatform (spvCheckpoint samplePlatform approvedBlock [5]
          (headerWithRoot 5) 6 5 0))
        (.invalid "Bitcoin SPV Merkle proof invalid: computed root does not match header") := by
  decide +kernel

end LightClient

end Quantos

import Quantos.L0Proof
import Quantos.LightClient
import Quantos.Rlp

/-!
# Light clients that look into the header

The remaining three families of `l0/light_client.rs`. The EVM client hashes
the header and reads two of its fields, the Bitcoin client hashes it and
checks an inclusion proof against the root in it, the ICP client checks one
threshold signature. None of them uses a validator set.

They index into what the relayer sent, so each of them is a `Call` that
may panic; `verifyEvm_answers` and its siblings say that none does.
-/

namespace Quantos

open Panics

/-- What the clients call out to, with the hashes of the header families
and the formatting of a chain. -/
structure ClientPlatform extends ChainCrypto where
  keccak256 : Bytes → Hash
  sha256 : Bytes → Hash
  /-- `{:?}` of a chain. -/
  debugChainId : ChainId → String

/-- `copy_from_slice` into a 32-byte array, which panics on another length. -/
def copyFromSlice (bytes : Bytes) : Option Hash :=
  if bytes.length = 32 then some (arrayOfBytes bytes) else none

/-- The array back to front. -/
def reversed (h : Hash) : Hash := arrayOfBytes (arrayBytes h).reverse

namespace LightClient

variable (env : ClientPlatform)

def doubleSha256 (data : Bytes) : Hash := env.sha256 (arrayBytes (env.sha256 data))

/-- The execution payload hash is compared with the hash of the same
header; a sync committee signature is never accepted. -/
def verifyEvm (cp : ExternalCheckpoint) : Call L0Error VerificationResult :=
  match cp.proof with
  | .evm blockHeaderRlp syncCommitteeSignature executionPayloadHash =>
    if env.keccak256 blockHeaderRlp ≠ cp.blockHash then
      pure (.invalid "EVM header hash mismatch")
    else do
      let items ← ExceptT.adapt (fun e => L0Error.invalidCheckpoint ("RLP: " ++ e))
        (Rlp.decodeList blockHeaderRlp)
      if items.length < 4 then pure (.invalid "EVM header too short")
      else do
        let sr ← found items[3]?
        if sr.length ≠ 32 then pure (.invalid "EVM state_root len != 32")
        else do
          let arr ← found (copyFromSlice sr)
          if arr ≠ cp.stateRoot then pure (.invalid "EVM state_root mismatch")
          else do
            let pr ← found items[0]?
            if pr.length ≠ 32 then pure (.invalid "EVM parent_hash len != 32")
            else do
              let parentArr ← found (copyFromSlice pr)
              if parentArr ≠ cp.parentBlockHash then pure (.invalid "EVM parent_hash mismatch")
              else if executionPayloadHash.any (fun h => env.keccak256 blockHeaderRlp ≠ h) then
                pure (.invalid "EVM execution_payload_hash mismatch")
              else
                match syncCommitteeSignature with
                | none => pure .accepted
                | some sig =>
                  if sig.isEmpty then pure (.invalid "EVM sync_committee_signature empty")
                  else pure (.invalid
                    "EVM sync_committee_signature present but no sync committee pubkey registered")
  | _ => pure (.invalid "Expected EVM ChainProof")

/-- From the leaf to the root; the bits of the index say on which side the
sibling stands. -/
def climbMerkle : (current : Hash) → (idx : UInt32) → List Hash → Hash
  | current, _, [] => current
  | current, idx, sibling :: siblings =>
    let combined :=
      if idx &&& 1 = 0 then arrayBytes current ++ arrayBytes sibling
      else arrayBytes sibling ++ arrayBytes current
    climbMerkle (doubleSha256 env combined) (idx >>> 1) siblings

/-- The inclusion proof is checked when all its three parts are there. The
number of confirmations is the relayer's word. -/
def verifyBitcoin (cp : ExternalCheckpoint) : Call L0Error VerificationResult :=
  match cp.proof with
  | .bitcoin blockHeader confirmations txMerkleProof blockHeight txHash txIndex =>
    if blockHeader.length ≠ 80 then
      pure (.invalid ("Bitcoin header must be 80 bytes, got " ++ toString blockHeader.length))
    else if reversed (doubleSha256 env blockHeader) ≠ cp.blockHash then
      pure (.invalid "Bitcoin header hash mismatch")
    else if confirmations < 6 then
      pure (.invalid ("Bitcoin confs " ++ toString confirmations.toNat ++ " < 6"))
    else if blockHeight ≠ cp.blockNumber then pure (.invalid "Bitcoin height mismatch")
    else
      match txMerkleProof, txHash, txIndex with
      | some proofNodes, some txid, some txPos => do
        let rootBytes ← found (slice blockHeader 36 68)
        let merkleRoot ← found (copyFromSlice rootBytes)
        if reversed (climbMerkle env (doubleSha256 env (arrayBytes txid)) txPos proofNodes)
            ≠ merkleRoot then
          pure (.invalid
            "Bitcoin SPV Merkle proof invalid: computed root does not match header")
        else pure .accepted
      | _, _, _ => pure .accepted
  | _ => pure (.invalid "Expected Bitcoin ChainProof")

/-- The key is the one the relayer sent. -/
def verifyIcp (cp : ExternalCheckpoint) : Call L0Error VerificationResult :=
  match cp.proof with
  | .icp blockHeader thresholdSignature subnetPublicKey =>
    if blockHeader.isEmpty then pure (.invalid "ICP block_header empty")
    else if thresholdSignature.isEmpty then pure (.invalid "ICP threshold_signature empty")
    else if subnetPublicKey.isEmpty then pure (.invalid "ICP subnet_public_key empty")
    else
      match env.bls subnetPublicKey blockHeader thresholdSignature with
      | .ok () => pure .accepted
      | .error e => pure (.invalid ("ICP BLS threshold verification failed: " ++ e))
  | _ => pure (.invalid "Expected ICP ChainProof")

/-! ## No panic -/

theorem answers_copyFromSlice {bytes : Bytes} (h : bytes.length = 32) :
    Answers (found (copyFromSlice bytes) : Call L0Error Hash) fun _ => True :=
  answers_found ⟨_, if_pos h, trivial⟩

theorem answers_getElem? {items : List Bytes} {i : Nat} (h : i < items.length) :
    Answers (found items[i]? : Call L0Error Bytes) fun _ => True :=
  answers_found ⟨_, List.getElem?_eq_getElem h, trivial⟩

variable (cp : ExternalCheckpoint)

theorem verifyEvm_answers : Answers (verifyEvm env cp) fun _ => True := by
  unfold verifyEvm
  split
  · refine answers_unless fun _ => ?_
    refine answers_bind (answers_adapt (Rlp.decodeList_answers _)) fun items _ => ?_
    refine answers_unless fun hitems => ?_
    refine answers_bind (answers_getElem? (by omega)) fun sr _ => ?_
    refine answers_unless fun hsr => ?_
    refine answers_bind (answers_copyFromSlice (not_not.mp hsr)) fun arr _ => ?_
    refine answers_unless fun _ => ?_
    refine answers_bind (answers_getElem? (by omega)) fun pr _ => ?_
    refine answers_unless fun hpr => ?_
    refine answers_bind (answers_copyFromSlice (not_not.mp hpr)) fun parentArr _ => ?_
    refine answers_unless fun _ => ?_
    refine answers_unless fun _ => ?_
    split
    · exact answers_pure trivial
    · exact answers_unless fun _ => answers_pure trivial
  · exact answers_pure trivial

theorem verifyBitcoin_answers : Answers (verifyBitcoin env cp) fun _ => True := by
  unfold verifyBitcoin
  split
  · rename_i blockHeader _ _ _ _ _ _
    refine answers_unless fun hlength => ?_
    have hslice : Answers (found (slice blockHeader 36 68) : Call L0Error Bytes)
        fun bytes => bytes.length = 32 := by
      refine answers_found ⟨_, slice_eq (by omega) (by omega), ?_⟩
      rw [List.length_take, List.length_drop]
      omega
    refine answers_unless fun _ => ?_
    refine answers_unless fun _ => ?_
    refine answers_unless fun _ => ?_
    split
    · refine answers_bind hslice fun rootBytes hroot => ?_
      refine answers_bind (answers_copyFromSlice hroot) fun merkleRoot _ => ?_
      exact answers_unless fun _ => answers_pure trivial
    · exact answers_pure trivial
  · exact answers_pure trivial

theorem verifyIcp_answers : Answers (verifyIcp env cp) fun _ => True := by
  unfold verifyIcp
  split
  · refine answers_unless fun _ => ?_
    refine answers_unless fun _ => ?_
    refine answers_unless fun _ => ?_
    split <;> exact answers_pure trivial
  · exact answers_pure trivial

end LightClient

end Quantos

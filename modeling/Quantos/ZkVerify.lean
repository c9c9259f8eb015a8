import Quantos.AtomicExecution
import Quantos.Bincode
import Quantos.HashTrees

/-!
# The proof verifier

`StarkProver::verify` of `zk/mod.rs`. A proof is typed bytes with serialized
public inputs. State transitions go to the STARK library as they are; the
other types have a header of their own in front of the library's proof, and
an aggregated proof has no proof of the library in it that is looked at: it
is a list of chunk hashes with their paths, and behind them the data that is
hashed again.

The bytes come from anyone. What panics in Rust panics here (`Panics`):
indexing, slicing, and arithmetic that does not fit. One sum is unchecked,
that of the offset behind the entries and the size in the header. It panics
in either build: where it wraps, the slice that ends there ends before it
starts. Allocations whose size comes from the input are requests for memory,
against a limit that may be absent.

The STARK library is a parameter (`ZkPlatform`): it reads a proof or says
why it cannot, and accepts or rejects it for given public inputs.
-/

namespace Quantos

open Panics Codecs Bincode List

namespace Zk

/-! ## Proofs and their public inputs -/

inductive ProofType where
  | stateTransition
  | crossShard
  | aggregated
  | recursive
  | validatorTransition
  | privateTransfer
deriving DecidableEq, Repr

/-- A proof with all its fields, of which `Quantos.StarkProof` has those that
the cross-shard aggregator reads. -/
structure StarkProof where
  id : Hash
  proofType : ProofType
  proofData : Bytes
  publicInputs : Bytes
  size : Nat
  generationTimeMs : UInt64
  verificationTimeUs : UInt64
  proofData_le : proofData.length ≤ ISIZE_MAX
  publicInputs_le : publicInputs.length ≤ ISIZE_MAX

/-- The bytes that came in. -/
def StarkProof.inputSize (proof : StarkProof) : Nat :=
  proof.proofData.length + proof.publicInputs.length

structure Commitment where
  data : Hash
deriving DecidableEq, Repr

structure Nullifier where
  data : Hash

structure PrivateTransferInputs where
  inputNullifiers : List Nullifier
  inputCommitments : List Commitment
  outputCommitments : List Commitment
  feeCommitment : Commitment
  noteSetRoot : Hash
  stateRoot : Hash

def stateTransitionInputs : Codec StateTransitionInputs :=
  (array.pair <| array.pair <| array.pair <| u64.pair <|
    u16.pair u64).via
    (fun i => (i.prevStateRoot, i.newStateRoot, i.txRoot, i.txCount, i.shardId, i.height))
    (fun (prevStateRoot, newStateRoot, txRoot, txCount, shardId, height) =>
      ⟨prevStateRoot, newStateRoot, txRoot, txCount, shardId, height⟩)
    (fun _ => rfl) fun _ _ => rfl

def crossShardInputs : Codec CrossShardInputs :=
  (u16.pair <| u16.pair <| array.pair <| array.pair <|
    array.pair <| array.pair <| amount.pair u64).via
    (fun i => (i.sourceShard, i.destShard, i.messageHash, i.sourceStateRoot, i.sender,
      i.recipient, i.amount, i.nonce))
    (fun (sourceShard, destShard, messageHash, sourceStateRoot, sender, recipient, amount, nonce) =>
      ⟨sourceShard, destShard, sourceStateRoot, messageHash, amount, sender, recipient, nonce⟩)
    (fun _ => rfl) fun _ _ => rfl

def commitment : Codec Commitment :=
  array.via Commitment.data Commitment.mk (fun _ => rfl) fun _ _ => rfl

def nullifier : Codec Nullifier :=
  array.via Nullifier.data Nullifier.mk (fun _ => rfl) fun _ _ => rfl

def privateTransferInputs : Codec PrivateTransferInputs :=
  ((vec nullifier).pair <| (vec commitment).pair <|
    (vec commitment).pair <| commitment.pair <| array.pair array).via
    (fun i => (i.inputNullifiers, i.inputCommitments, i.outputCommitments, i.feeCommitment,
      i.noteSetRoot, i.stateRoot))
    (fun (inputNullifiers, inputCommitments, outputCommitments, feeCommitment, noteSetRoot,
        stateRoot) =>
      ⟨inputNullifiers, inputCommitments, outputCommitments, feeCommitment, noteSetRoot, stateRoot⟩)
    (fun _ => rfl) fun _ _ => rfl

/-! ## The STARK library -/

/-- What the verifier calls out to. `P` is the library's proof. -/
structure ZkPlatform (P : Type) where
  hashData : Bytes → Hash
  /-- `Proof::from_bytes`, with the text of its error. -/
  proofFromBytes : Bytes → Except String P
  /-- `winterfell::verify` with the AIR of state transitions. -/
  starkVerify : P → StateTransition.StateTransitionPublicInputs → Bool
  /-- The text for an input that ends too early, the one way in which these
  types are not read. -/
  bincodeError : String

variable {P : Type} (env : ZkPlatform P) (limit : Option Nat)

def deserialize {α : Type} (c : Codec α) (bytes : Bytes) : Call ZkError α :=
  foundOr (Bincode.deserialize c bytes) (.deserializationError env.bincodeError)

variable (proofData : Bytes)

def verifyWinterfellProof (inputs : StateTransitionInputs) : Call ZkError Bool :=
  match env.proofFromBytes proofData with
  | .error e => throw (.verificationFailed ("Failed to deserialize proof: " ++ e))
  | .ok proof => pure (env.starkVerify proof (.ofInputs inputs))

def verifyStateTransitionProof (inputs : StateTransitionInputs) : Call ZkError Bool :=
  verifyWinterfellProof env proofData inputs

/-- `try_into` from a slice to a 32-byte array. -/
def tryArray (bytes : Bytes) (text : String) : Call ZkError Hash :=
  foundOr (copyFromSlice bytes) (.verificationFailed text)

/-- `try_from` a slice to an array of `w` bytes, read as a number. -/
def tryNumber (w : Nat) (bytes : Bytes) (text : String) : Call ZkError Nat :=
  foundOr (if bytes.length = w then some (leValue bytes) else none) (.verificationFailed text)

/-! ## Proofs with a header -/

def AGGREGATED_MAGIC : Bytes := [0x51, 0x41, 0x47, 0x01]

def VALIDATOR_TRANSITION_MAGIC : Bytes := [0x51, 0x56, 0x54, 0x01]

def PRIVATE_TRANSFER_MAGIC : Bytes := [0x51, 0x50, 0x54, 0x01]

def verifyCrossShardProof (inputs : CrossShardInputs) : Call ZkError Bool :=
  if proofData.length < 40 then pure false
  else do
    let magic ← found (slice proofData 0 4)
    if magic ≠ CROSS_SHARD_MAGIC then pure false
    else do
      let s₀ ← found proofData[4]?
      let s₁ ← found proofData[5]?
      let d₀ ← found proofData[6]?
      let d₁ ← found proofData[7]?
      let sourceShard := UInt16.ofNat (leValue [s₀, s₁])
      let destShard := UInt16.ofNat (leValue [d₀, d₁])
      if sourceShard ≠ inputs.sourceShard ∨ destShard ≠ inputs.destShard then pure false
      else do
        let messageHash ← tryArray (← found (slice proofData 8 40)) "Invalid message hash"
        if messageHash ≠ inputs.messageHash then pure false
        else do
          let winterfellProofData ← found (sliceFrom proofData 40)
          if winterfellProofData.isEmpty then pure false
          else
            verifyWinterfellProof env winterfellProofData
              { prevStateRoot := inputs.sourceStateRoot
                newStateRoot := inputs.sourceStateRoot
                txRoot := inputs.messageHash
                txCount := 1
                shardId := inputs.sourceShard
                height := 0 }

def verifyValidatorTransitionProof : Call ZkError Bool :=
  if proofData.length < 68 then pure false
  else do
    let magic ← found (slice proofData 0 4)
    if magic ≠ VALIDATOR_TRANSITION_MAGIC then pure false
    else do
      let oldRoot ← tryArray (← found (slice proofData 4 36)) "Invalid old validator root"
      let newRoot ← tryArray (← found (slice proofData 36 68)) "Invalid new validator root"
      let winterfellProofData ← found (sliceFrom proofData 68)
      if winterfellProofData.isEmpty then pure false
      else do
        let roots ← found (slice proofData 4 68)
        verifyWinterfellProof env winterfellProofData
          { prevStateRoot := oldRoot
            newStateRoot := newRoot
            txRoot := env.hashData roots
            txCount := 1
            shardId := 0
            height := 0 }

variable (inputs : PrivateTransferInputs) (hashData : Bytes → Hash) (leaves : List Hash)

/-- The bytes of the nullifiers, one after the other. -/
def nullifierBytes : Bytes :=
  inputs.inputNullifiers.flatMap fun n => arrayBytes n.data

/-- The statement of the STARK inside a private transfer. -/
def privateTransferStatement : StateTransitionInputs where
  prevStateRoot := inputs.noteSetRoot
  newStateRoot := inputs.stateRoot
  txRoot := env.hashData (nullifierBytes inputs)
  txCount := 1
  shardId := 0
  height := 0

def verifyPrivateTransferProof : Call ZkError Bool :=
  if proofData.length < 68 then pure false
  else do
    let magic ← found (slice proofData 0 4)
    if magic ≠ PRIVATE_TRANSFER_MAGIC then pure false
    else do
      let noteSetRoot ← tryArray (← found (slice proofData 4 36)) "Invalid note set root"
      if noteSetRoot ≠ inputs.noteSetRoot then pure false
      else do
        let stateRoot ← tryArray (← found (slice proofData 36 68)) "Invalid state root"
        if stateRoot ≠ inputs.stateRoot then pure false
        else if inputs.inputNullifiers.isEmpty then pure false
        else if inputs.outputCommitments.isEmpty then pure false
        else do
          let winterfellProofData ← found (sliceFrom proofData 68)
          if winterfellProofData.isEmpty then pure false
          else do
            -- the bytes are collected into a vector that doubles as it grows
            reserve limit (2 * (nullifierBytes inputs).length)
            verifyWinterfellProof env winterfellProofData (privateTransferStatement env inputs)

/-! ## Merkle trees over chunks -/

/-- A last node without a neighbour is joined with itself. As many rounds as
there are leaves are more than enough. -/
def buildMerkleLevels : List (List Hash) :=
  HashTrees.levels (joinHash hashData) leaves.length leaves

def computeMerkleRoot : Hash :=
  match leaves with
  | [] => 0
  | [leaf] => leaf
  | _ => ((buildMerkleLevels hashData leaves).getLast?.bind List.head?).getD 0

/-- `chunks(1024)`. -/
def chunks (data : Bytes) : List Bytes :=
  (List.range ((data.length + 1023) / 1024)).map fun i => (data.drop (1024 * i)).take 1024

def chunkHashes (data : Bytes) : List Hash :=
  (chunks data).map hashData

/-! ## Aggregated proofs -/

def MAX_MERKLE_PATH_DEPTH : Nat := 64

/-- The loop over the chunk entries, with the offset and the hashes so far;
nothing where it returns `false`. -/
def readEntries (proofData : Bytes) :
    Nat → Nat → List Hash → Call ZkError (Option (Nat × List Hash))
  | 0, offset, hashes => pure (some (offset, hashes))
  | n + 1, offset, hashes => do
    let entryHead ← found (fitsUsize (offset + 33))
    if entryHead > proofData.length then pure none
    else do
      let hashEnd ← found (fitsUsize (offset + 32))
      let chunkHash ← tryArray (← found (slice proofData offset hashEnd)) "Invalid chunk hash"
      let pathLen := (← found proofData[hashEnd]?).toNat
      if pathLen > MAX_MERKLE_PATH_DEPTH then
        throw (.verificationFailed ("Merkle path length " ++ toString pathLen ++ " exceeds max "
          ++ toString MAX_MERKLE_PATH_DEPTH))
      else do
        let pathBytes ← foundOr (fitsUsize (pathLen * 32))
          (.verificationFailed "Merkle path size overflow")
        let newOffset ← foundOr
          ((fitsUsize (offset + 33)).bind fun o => fitsUsize (o + pathBytes))
          (.verificationFailed "Offset overflow")
        if newOffset > proofData.length then pure none
        else readEntries proofData n newOffset (hashes ++ [chunkHash])

/-- What the tree over the hashes asks for: a copy of the leaves, which is the
longest of the levels, and the vector of the levels, which doubles as it
grows. -/
def reserveLevels : Call ZkError Unit :=
  if leaves.length ≤ 1 then pure ()
  else do
    reserve limit (32 * leaves.length)
    reserve limit (24 * max 4 (2 * (buildMerkleLevels env.hashData leaves).length))

/-- The checks behind the loop. -/
def checkEntries (combinedSize : Nat) (claimedMerkleRoot : Hash) (offset : Nat)
    (hashes : List Hash) : Call ZkError Bool := do
  reserveLevels env limit hashes
  if computeMerkleRoot env.hashData hashes ≠ claimedMerkleRoot then pure false
  else do
    let dataEnd ← found (fitsUsize (offset + combinedSize))
    if dataEnd > proofData.length then pure false
    else do
      let combinedData ← found (slice proofData offset dataEnd)
      reserve limit (32 * (chunks combinedData).length)
      let actualChunks := chunkHashes env.hashData combinedData
      if actualChunks.length ≠ hashes.length then pure false
      else pure ((actualChunks.zip hashes).all fun (actual, claimed) => actual == claimed)

def verifyAggregatedProof : Call ZkError Bool :=
  if proofData.length < 48 then pure false
  else do
    let magic ← found (slice proofData 0 4)
    if magic ≠ AGGREGATED_MAGIC then pure false
    else do
      let combinedSize ← tryNumber 8 (← found (slice proofData 4 12))
        "Aggregated proof header truncated (size field)"
      let claimedMerkleRoot ← tryArray (← found (slice proofData 12 44)) "Invalid Merkle root"
      let numProofs ← tryNumber 4 (← found (slice proofData 44 48))
        "Aggregated proof header truncated (count field)"
      if numProofs = 0 then pure false
      else do
        reserve limit (32 * numProofs)
        match ← readEntries proofData numProofs 48 [] with
        | none => pure false
        | some (offset, hashes) =>
          checkEntries env limit proofData combinedSize claimedMerkleRoot offset hashes

/-! ## Verification -/

def MAX_PUBLIC_INPUTS_SIZE : Nat := 1024 * 1024

def verify (proof : StarkProof) : Call ZkError Bool :=
  if proof.publicInputs.length > MAX_PUBLIC_INPUTS_SIZE then
    throw (.deserializationError ("Public inputs too large: " ++ toString proof.publicInputs.length
      ++ " > " ++ toString MAX_PUBLIC_INPUTS_SIZE))
  else
    match proof.proofType with
    | .stateTransition => do
      let inputs ← deserialize env stateTransitionInputs proof.publicInputs
      verifyStateTransitionProof env proof.proofData inputs
    | .crossShard => do
      let inputs ← deserialize env crossShardInputs proof.publicInputs
      verifyCrossShardProof env proof.proofData inputs
    | .aggregated | .recursive => verifyAggregatedProof env limit proof.proofData
    | .validatorTransition => verifyValidatorTransitionProof env proof.proofData
    | .privateTransfer => do
      let inputs ← deserialize env privateTransferInputs proof.publicInputs
      verifyPrivateTransferProof env limit proof.proofData inputs

/-- The verifier, with memory enough for every request, says that the proof
is valid. -/
def Accepts (proof : StarkProof) : Prop := Returns (verify env none proof) true

/-! ## Within bounds -/

variable {data : Bytes} {n : Nat}

theorem length_window {i : Nat} (h : i + n ≤ data.length) : ((data.drop i).take n).length = n := by
  rw [length_take, length_drop]
  omega

variable {bytes : Bytes} {β : Type}

theorem tryArray_bind (h : bytes.length = 32) (text : String) (f : Hash → Call ZkError β) :
    tryArray bytes text >>= f = f (arrayOfBytes bytes) := by
  rw [tryArray, copyFromSlice, if_pos h, foundOr_some_bind]

theorem tryNumber_bind {w : Nat} (h : bytes.length = w) (text : String) (f : Nat → Call ZkError β) :
    tryNumber w bytes text >>= f = f (leValue bytes) := by
  rw [tryNumber, if_pos h, foundOr_some_bind]

/-- The number of siblings that an entry declares. -/
def pathLenAt (data : Bytes) (offset : Nat) : Nat := (data.getD (offset + 32) 0).toNat

/-- The hash in front of an entry. -/
def hashAt (data : Bytes) (offset : Nat) : Hash := arrayOfBytes ((data.drop offset).take 32)

variable {offset : Nat}

/-- One entry, where the data is as long as a vector can be. -/
theorem readEntries_succ (hdata : data.length ≤ ISIZE_MAX) (hoffset : offset ≤ data.length)
    (hashes : List Hash) :
    readEntries data (n + 1) offset hashes =
      if offset + 33 > data.length then pure none
      else if pathLenAt data offset > MAX_MERKLE_PATH_DEPTH then
        throw (.verificationFailed ("Merkle path length " ++ toString (pathLenAt data offset)
          ++ " exceeds max " ++ toString MAX_MERKLE_PATH_DEPTH))
      else if offset + 33 + pathLenAt data offset * 32 > data.length then pure none
      else readEntries data n (offset + 33 + pathLenAt data offset * 32)
        (hashes ++ [hashAt data offset]) := by
  have hfits : ∀ m, m ≤ data.length + 3000 → fitsUsize m = some m := by
    intro m hm
    apply fitsUsize_eq
    have : ISIZE_MAX + 3000 < UInt64.size := by decide
    omega
  rw [readEntries, hfits _ (by omega), found_some_bind]
  by_cases hhead : offset + 33 > data.length
  · rw [if_pos hhead, if_pos hhead]
  have hbyte : data[offset + 32]? = some (data.getD (offset + 32) 0) := by
    rw [getD_eq_getElem?_getD, getElem?_eq_getElem (by omega), Option.getD_some]
  have hwidth : offset + 32 - offset = 32 := by omega
  rw [if_neg hhead, if_neg hhead, hfits _ (by omega), found_some_bind,
    slice_eq (by omega) (by omega), found_some_bind, hwidth,
    tryArray_bind (length_window (by omega)), hbyte, found_some_bind]
  show (if pathLenAt data offset > MAX_MERKLE_PATH_DEPTH then _ else _) = _
  by_cases hdepth : pathLenAt data offset > MAX_MERKLE_PATH_DEPTH
  · rw [if_pos hdepth, if_pos hdepth]
    rfl
  rw [if_neg hdepth, if_neg hdepth]
  have hpath : pathLenAt data offset ≤ 64 := Nat.not_lt.mp hdepth
  have hbytes : fitsUsize (pathLenAt data offset * 32) = some (pathLenAt data offset * 32) :=
    hfits _ (by omega)
  have hnext : ((some (offset + 33)).bind fun o => fitsUsize (o + pathLenAt data offset * 32))
      = some (offset + 33 + pathLenAt data offset * 32) :=
    hfits _ (by omega)
  show (foundOr (fitsUsize (pathLenAt data offset * 32)) _ >>= _) = _
  rw [hbytes, foundOr_some_bind, hnext, foundOr_some_bind]
  rfl

/-- The loop stays inside the data, and an entry takes 33 bytes at least. -/
theorem readEntries_answers (hdata : data.length ≤ ISIZE_MAX) (hoffset : offset ≤ data.length)
    (hashes : List Hash) :
    Answers (readEntries data n offset hashes) fun result =>
      ∀ stop hashes', result = some (stop, hashes') →
        stop ≤ data.length ∧ offset + 33 * n ≤ stop ∧ hashes'.length = hashes.length + n := by
  induction n generalizing offset hashes with
  | zero =>
    refine answers_pure fun stop hashes' h => ?_
    cases h
    exact ⟨hoffset, Nat.le_refl _, rfl⟩
  | succ n ih =>
    rw [readEntries_succ hdata hoffset]
    refine answers_ite (fun _ => answers_pure fun _ _ h => nomatch h) fun _ => ?_
    refine answers_ite (fun _ => answers_throw) fun _ => ?_
    refine answers_ite (fun _ => answers_pure fun _ _ h => nomatch h) fun hend => ?_
    refine (ih (Nat.not_lt.mp hend) _).mono fun result hresult stop hashes' h => ?_
    obtain ⟨hstop, _, hlength⟩ := hresult stop hashes' h
    rw [length_append, length_singleton] at hlength
    exact ⟨hstop, by omega, by omega⟩

variable (data)

/-- The size of the data in the header of an aggregated proof. -/
def combinedSizeOf : Nat := leValue ((data.drop 4).take 8)

/-- The root in the header. -/
def merkleRootOf : Hash := arrayOfBytes ((data.drop 12).take 32)

/-- The number of entries in the header. -/
def numProofsOf : Nat := leValue ((data.drop 44).take 4)

theorem verifyAggregatedProof_eq (h : 48 ≤ data.length) : verifyAggregatedProof env limit data =
      if data.take 4 ≠ AGGREGATED_MAGIC ∨ numProofsOf data = 0 then pure false
      else (do
        reserve limit (32 * numProofsOf data)
        match ← readEntries data (numProofsOf data) 48 [] with
        | none => pure false
        | some (offset, hashes) =>
          checkEntries env limit data (combinedSizeOf data) (merkleRootOf data) offset
            hashes) := by
  have hmagic : slice data 0 4 = some (data.take 4) := slice_eq (by omega) (by omega)
  rw [verifyAggregatedProof, if_neg (by omega), hmagic, found_some_bind]
  by_cases hne : data.take 4 ≠ AGGREGATED_MAGIC
  · rw [if_pos hne, if_pos (.inl hne)]
  rw [if_neg hne, slice_eq (by omega) (by omega), found_some_bind,
    tryNumber_bind (length_window (by omega)), slice_eq (by omega) (by omega), found_some_bind,
    tryArray_bind (length_window (by omega)), slice_eq (by omega) (by omega), found_some_bind,
    tryNumber_bind (length_window (by omega))]
  refine if_congr ?_ rfl rfl
  exact ⟨.inr, fun h => h.resolve_left hne⟩

end Zk

end Quantos

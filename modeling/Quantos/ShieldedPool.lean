import Quantos.Fallible
import Quantos.ProofAggregation
import Quantos.Runs

/-!
# The shielded pool

`privacy/shielded_pool.rs` with `prove_private_transfer` of `zk/mod.rs`. The
pool is a list of note commitments and a set of spent nullifiers. A transfer
looks whether one of its nullifiers is spent, has a proof made, then marks
its nullifiers and appends its outputs, each with its own check.

The prover compares the sums of the values it is given and opens the
commitments with the blinding factors it is given. It reads the pool nowhere:
the root of the notes, the nullifiers and the Merkle paths go into the trace
as they come. What it then asks of the library ends in a panic
(`not_returns_generateWinterfellProof`), so a transfer answers with an error
or panics, and in both cases before the first change of the pool
(`proveAndApply_cases`). The two loops behind the proof are not reached.

Lengths are those of vectors in memory: a transfer carries the bound of its
serialized inputs, the library that of its proofs.
-/

namespace Quantos

open Fallible Panics Runs List

namespace Zk

open Quantos.StateTransition

/-! ## The prover -/

/-- The public inputs of a transfer and its private witness. -/
structure Transfer where
  inputs : PrivateTransferInputs
  inputValues : List UInt64
  inputBlindings : List Hash
  outputValues : List UInt64
  outputBlindings : List Hash
  feeValue : UInt64
  feeBlinding : Hash
  noteMerkleProofs : List (List Hash)
  inputs_le : (privateTransferInputs.write inputs).length ≤ ISIZE_MAX

variable (lib : StarkLibrary) (config : ZkConfig)

def Commitment.new (value : UInt64) (blindingFactor : Hash) : Commitment :=
  ⟨lib.hashData (leBytes 8 value.toNat ++ arrayBytes blindingFactor)⟩

def Commitment.verify (c : Commitment) (value : UInt64) (blindingFactor : Hash) : Bool :=
  c.data == (Commitment.new lib value blindingFactor).data

/-- Sums of `u64` values in a `u128`, which holds any such sum of a vector. -/
def total (values : List UInt64) : Nat := (values.map UInt64.toNat).sum

/-- The loop over values zipped with blinding factors, the first at position
`i`. It ends with the shorter of the two lists. -/
def checkOpenings (kind : String) (i : Nat) :
    List Commitment → List UInt64 → List Hash → Except ZkError Unit
  | c :: cs, value :: values, blinding :: blindings =>
    if c.verify lib value blinding then checkOpenings kind (i + 1) cs values blindings
    else .error (.traceGenerationFailed
      (kind ++ " commitment " ++ toString i ++ " does not match value/blinding"))
  | _, _, _ => .ok ()

variable (t : Transfer)

def checkWitness : Except ZkError Unit :=
  if t.inputValues.length ≠ t.inputs.inputCommitments.length then
    .error (.traceGenerationFailed "Input values count mismatch with commitments")
  else if t.outputValues.length ≠ t.inputs.outputCommitments.length then
    .error (.traceGenerationFailed "Output values count mismatch with commitments")
  else if total t.inputValues ≠ total t.outputValues + t.feeValue.toNat then
    .error (.traceGenerationFailed "Balance conservation violated: inputs != outputs + fee")
  else do
    checkOpenings lib "Input" 0 t.inputs.inputCommitments t.inputValues t.inputBlindings
    checkOpenings lib "Output" 0 t.inputs.outputCommitments t.outputValues t.outputBlindings
    if t.inputs.feeCommitment.verify lib t.feeValue t.feeBlinding then .ok ()
    else .error (.traceGenerationFailed "Fee commitment does not match value/blinding")

/-- A step of the trace, by the method that adds it. -/
inductive TransferStep where
  | state (root : Hash)
  | hash (hash : Hash)
  | merkle (sibling : Hash)

def addTransferStep (trace : ExecutionTrace) (index : UInt64) :
    TransferStep → Except ZkError ExecutionTrace
  | .state root => trace.addStateStep root index
  | .hash hash => trace.addHashStep hash index
  | .merkle sibling => trace.addMerkleStep sibling index

/-- Step after step, with a counter. -/
def addTransferSteps (trace : ExecutionTrace) (index : UInt64) :
    List TransferStep → Except ZkError ExecutionTrace
  | [] => .ok trace
  | step :: steps =>
    match addTransferStep trace index step with
    | .error e => .error e
    | .ok trace => addTransferSteps trace (index + 1) steps

def nullifierSteps (proofs : List (List Hash)) (i : Nat) (nullifier : Nullifier) :
    List TransferStep :=
  .hash nullifier.data :: (proofs.getD i []).map .merkle

/-- The bits of a value from the lowest on. -/
def rangeSteps (value : UInt64) : List TransferStep :=
  (List.range 64).map fun bitPos =>
    .hash (lib.hashData [if value.toNat.testBit bitPos then 1 else 0])

def transferSteps : List TransferStep :=
  [.state t.inputs.noteSetRoot]
    ++ (t.inputs.inputNullifiers.mapIdx fun i n => nullifierSteps t.noteMerkleProofs i n).flatten
    ++ (t.inputValues ++ t.outputValues).flatMap (rangeSteps lib)
    ++ [.state (lib.hashData (leBytes 16 (total t.inputValues))), .state t.inputs.stateRoot]

/-- The statement of the proof. The count is the index of the last step. -/
def transferStatement : StateTransitionInputs where
  prevStateRoot := t.inputs.noteSetRoot
  newStateRoot := t.inputs.stateRoot
  txRoot := lib.hashData (nullifierBytes t.inputs)
  txCount := UInt64.ofNat ((transferSteps lib t).length - 1)
  shardId := 0
  height := 0

/-- The proof with its header. -/
def transferProof (winterfellProof : ProofBytes) (generationTime : UInt64) : StarkProof :=
  let proofData := PRIVATE_TRANSFER_MAGIC ++ arrayBytes t.inputs.noteSetRoot
    ++ arrayBytes t.inputs.stateRoot ++ winterfellProof
  { id := lib.hashData proofData
    proofType := .privateTransfer
    proofData := proofData
    publicInputs := privateTransferInputs.write t.inputs
    size := proofData.length
    generationTimeMs := generationTime
    verificationTimeUs := estimateVerificationTime proofData.length
    proofData_le := by
      have h := winterfellProof.2
      simp only [proofData, length_append, length_arrayBytes, PRIVATE_TRANSFER_MAGIC,
        length_cons, length_nil]
      omega
    publicInputs_le := t.inputs_le }

def provePrivateTransfer (generationTime : UInt64) : Call ZkError StarkProof := do
  checked (checkWitness lib t)
  let trace ← checked (addTransferSteps (.new config.maxTraceLength) 0 (transferSteps lib t))
  let winterfellProof ← generateWinterfellProof lib config trace (transferStatement lib t)
  pure (transferProof lib t winterfellProof generationTime)

theorem not_returns_provePrivateTransfer (generationTime : UInt64) (proof : StarkProof) :
    ¬ Returns (provePrivateTransfer lib config t generationTime) proof := by
  intro h
  obtain ⟨_, -, h⟩ := returns_bind h
  obtain ⟨trace, -, h⟩ := returns_bind h
  obtain ⟨bytes, hbytes, -⟩ := returns_bind h
  exact not_returns_generateWinterfellProof lib config trace _ bytes hbytes

end Zk

/-! ## The pool -/

namespace Privacy

open Zk

inductive PrivacyError where
  | zk (text : String)
  | doubleSpend
  | treeFull

structure ShieldedPool where
  leaves : List Hash
  nullifiers : Finset Hash
  maxLeaves : Nat

namespace ShieldedPool

def new (treeDepth : UInt8) : ShieldedPool := ⟨[], ∅, 2 ^ min treeDepth.toNat 40⟩

variable (pool : ShieldedPool)

def insertCommitment (c : Commitment) : Outcome PrivacyError ShieldedPool UInt64 :=
  if pool.leaves.length ≥ pool.maxLeaves then (.error .treeFull, pool)
  else (.ok (UInt64.ofNat pool.leaves.length), { pool with leaves := pool.leaves ++ [c.data] })

def isSpent (n : Nullifier) : Bool := decide (n.data ∈ pool.nullifiers)

def markSpent (n : Nullifier) : Outcome PrivacyError ShieldedPool Unit :=
  if n.data ∈ pool.nullifiers then (.error .doubleSpend, pool)
  else (.ok (), { pool with nullifiers := insert n.data pool.nullifiers })

end ShieldedPool

variable (lib : StarkLibrary) (config : ZkConfig) (pool : ShieldedPool)

/-- What comes before the first change: no nullifier is spent, and there is a
proof. -/
def proveTransfer (t : Transfer) (generationTime : UInt64) : Call PrivacyError Zk.StarkProof :=
  if t.inputs.inputNullifiers.any pool.isSpent then throw .doubleSpend
  else ExceptT.adapt (fun e => .zk e.text) (provePrivateTransfer lib config t generationTime)

/-- The two loops. -/
def applyTransfer (inputs : PrivateTransferInputs) : Outcome PrivacyError ShieldedPool Unit :=
  andThen (mapEach ShieldedPool.markSpent pool inputs.inputNullifiers) fun _ pool =>
    andThen (mapEach ShieldedPool.insertCommitment pool inputs.outputCommitments) fun _ pool =>
      (.ok (), pool)

/-- The answer, which is missing after a panic, and the pool. -/
def proveAndApply (t : Transfer) (generationTime : UInt64) :
    Option (Except PrivacyError Zk.StarkProof) × ShieldedPool :=
  match ExceptT.run (proveTransfer lib config pool t generationTime) with
  | none => (none, pool)
  | some (.error e) => (some (.error e), pool)
  | some (.ok proof) =>
    let (answer, pool) := applyTransfer pool t.inputs
    (some (answer.map fun _ => proof), pool)

/-! ## Transfers change nothing -/

variable {lib config pool} {t : Transfer} {time : UInt64} {proof : Zk.StarkProof}

theorem not_returns_proveTransfer :
    ¬ Returns (proveTransfer lib config pool t time) proof := by
  unfold proveTransfer
  split
  · exact not_returns_throw
  · exact fun h => not_returns_provePrivateTransfer lib config t time proof (returns_adapt h)

variable (lib config pool t time)

theorem proveAndApply_cases :
    proveAndApply lib config pool t time = (none, pool) ∨
      ∃ e, proveAndApply lib config pool t time = (some (.error e), pool) := by
  unfold proveAndApply
  split
  · exact .inl rfl
  · rename_i e _
    exact .inr ⟨e, rfl⟩
  · rename_i proof heq
    exact absurd heq not_returns_proveTransfer

/-- A value with its blinding factor. -/
abbrev Opening := UInt64 × Hash

structure Ledger where
  pool : ShieldedPool
  openings : List Opening
  deposited : Nat

inductive PoolOp where
  | insertCommitment (value : UInt64) (blinding : Hash)
  | transfer (t : Transfer) (generationTime : UInt64)

namespace Ledger

def start (treeDepth : UInt8) : Ledger := ⟨.new treeDepth, [], 0⟩

variable (l : Ledger)

/-- A deposit adds its opening to the ledger, a transfer that succeeds those
of its outputs. -/
def step : PoolOp → Ledger
  | .insertCommitment value blinding =>
    match l.pool.insertCommitment (.new lib value blinding) with
    | (.ok _, pool) => ⟨pool, l.openings ++ [(value, blinding)], l.deposited + value.toNat⟩
    | (.error _, pool) => { l with pool }
  | .transfer t time =>
    match proveAndApply lib config l.pool t time with
    | (some (.ok _), pool) =>
      { l with pool, openings := l.openings ++ t.outputValues.zip t.outputBlindings }
    | (_, pool) => { l with pool }

variable (nullifierOf : Nat → Hash)

/-- Every leaf has its opening, and the openings are worth what came in. -/
structure Opened : Prop where
  leaves : l.pool.leaves = l.openings.map fun o => (Commitment.new lib o.1 o.2).data
  deposited : (l.openings.map fun o => o.1.toNat).sum = l.deposited

variable {lib l}

theorem Opened.insertCommitment (h : l.Opened lib) (value : UInt64) (blinding : Hash) :
    (l.step lib config (.insertCommitment value blinding)).Opened lib := by
  unfold step ShieldedPool.insertCommitment
  by_cases hfull : l.pool.leaves.length ≥ l.pool.maxLeaves
  · simp only [if_pos hfull]
    exact h
  · simp only [if_neg hfull]
    refine ⟨?_, ?_⟩
    · rw [h.leaves, map_append]
      rfl
    · rw [map_append, sum_append, h.deposited]
      rfl

variable (lib l)

theorem step_transfer : l.step lib config (.transfer t time) = l := by
  simp only [step]
  rcases proveAndApply_cases lib config l.pool t time with h | ⟨e, h⟩ <;> rw [h]

variable {lib l}

theorem Opened.step (h : l.Opened lib) (op : PoolOp) : (l.step lib config op).Opened lib := by
  cases op with
  | insertCommitment value blinding => exact h.insertCommitment config value blinding
  | transfer t time => rwa [step_transfer]

variable (lib l)

end Ledger

end Privacy

end Quantos

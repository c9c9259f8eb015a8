import Quantos.AtomicLocks
import Quantos.Dag
import Quantos.Fallible
import Quantos.MerklePaths
import Quantos.StateTransitionTrace

/-!
# Atomic operations across shards

`consensus/cross_shard_atomic.rs`, the side of the coordinator:
`execute_atomic` takes the locks of all shards, prepares each operation,
commits one vertex per shard, and rolls everything back when one of these
fails. The proofs for the commit come from `prove_cross_shard` of
`zk/mod.rs`.

A call may also never answer (`Stop.never`): the prover panics, and a release
of a lock that this node holds for the operation waits for itself.

What happens outside a call is in its `AtomicContext`: the messages that other
tasks hand to `handle_message` in the meantime, the clock, the disk. A wait of
the call for votes or acknowledgements ends when enough has arrived or at its
deadline; either way the call goes on with what is recorded by then, so the
messages handled are all that matters. They come in batches, one for each
wait; what is left when the call has failed is handled before it rolls back.
A message whose handler is stuck behind a guard that is never dropped has no
effect, and is not among them.

`created` in the outcome of a run is the source's list `created_vertices`,
which is lost there when the commit phase fails.
-/

namespace Quantos

open Fallible Panics

def MAX_ATOMIC_SHARDS : Nat := 8

/-- What one shard is to run. -/
structure ShardOperation where
  shardId : ShardId
  transactions : List SignedTransaction
  expectedStateRoot : Hash

/-- An operation as prepared. Nothing is run for it. -/
structure PreparedState where
  shardId : ShardId
  stateRoot : Hash
  transactions : List SignedTransaction
  success : Bool

inductive AtomicStatus where
  | preparing
  | committing
  | committed
  | rolledBack
deriving DecidableEq, Repr

/-- The record of a call, which stays when it has ended. -/
structure AtomicOperation where
  id : Hash
  shards : List ShardId
  operations : List ShardOperation
  status : AtomicStatus

structure CrossShardInputs where
  sourceShard : ShardId
  destShard : ShardId
  sourceStateRoot : Hash
  messageHash : Hash
  amount : Amount
  sender : Address
  recipient : Address
  nonce : UInt64

/-- The fields of a proof that the aggregator reads. -/
structure StarkProof where
  id : Hash
  proofData : Bytes
  generationTimeMs : UInt64

structure ShardProof where
  shardId : ShardId
  stateRoot : Hash
  proofData : Bytes
  starkProofId : Hash
  generationTimeMs : UInt64
deriving DecidableEq, Repr

structure AggregatedProof where
  shardProofs : List ShardProof
  merkleRoot : Hash
  aggregateProofData : Bytes
  totalShards : UInt16
  timestamp : UInt64
deriving DecidableEq, Repr

structure AtomicResult where
  atomicId : Hash
  committedShards : List ShardId
  aggregatedProof : AggregatedProof
  success : Bool
deriving DecidableEq, Repr

structure StateCheckpoint where
  shardId : ShardId
  atomicId : Hash
  accountStates : List (Address × Account)
  stateRoot : Hash

structure RollbackEntry where
  atomicId : Hash
  shardId : ShardId
  transactionsRolledBack : Nat
  accountsRestored : Nat
  originalStateRoot : Hash

/-- Nothing in the source calls `create_checkpoint`, so nothing enters the
checkpoints. -/
structure RollbackCoordinator (V : Type) where
  stateManager : StateManager V
  checkpoints : Table (Prod.fst : Hash × Table StateCheckpoint.shardId → Hash)
  rollbackLog : List RollbackEntry

structure CrossShardAtomicProtocol (V : Type) extends LockNode where
  rollbackCoordinator : RollbackCoordinator V
  dag : DAGGraph
  activeOperations : Table AtomicOperation.id

/-- The node's platform with the library that the prover calls. -/
structure AtomicPlatform (V : Type) extends NodePlatform V where
  prove : StateTransition.TraceTable → Except String Bytes
  proof_le : ∀ {table bytes}, prove table = .ok bytes → 68 + bytes.length ≤ Zk.ISIZE_MAX

/-- `StarkProver::new(Default::default())` hashes as the node does. -/
def AtomicPlatform.library {V : Type} (env : AtomicPlatform V) : Zk.StarkLibrary :=
  ⟨env.hashData, env.prove, env.proof_le⟩

/-- One call's surroundings. Locks are sought shard by shard, vertices are
numbered in the order of the operations. -/
structure AtomicContext where
  timedOut : ShardId → Bool
  prepareSerializeError : ShardId → Option String
  commitSerializeError : ShardId → Option String
  lockStale : ShardId → Bool
  arrivals : List (List ProtocolMessage)
  generationTime : UInt64
  proofTime : UInt64
  vertexTime : Nat → UInt64
  dagContext : Nat → DagContext

/-- Why a call does not come through. -/
inductive Stop where
  /-- It answers with an error. -/
  | error (e : AtomicError)
  /-- It never answers: it panics, or waits for a guard that it holds. -/
  | never
deriving DecidableEq, Repr

/-! ## Locks of all shards -/

/-- The messages that other tasks handle in the meantime. -/
def LockNode.deliver {V : Type} (env : NodePlatform V) (node : LockNode)
    (messages : List ProtocolMessage) : LockNode :=
  messages.foldl (fun node message => (node.handleMessage env message).2) node

/-- A node in the middle of a call, with the batches still to come. -/
structure Session extends LockNode where
  arrivals : List (List ProtocolMessage)

namespace Session

variable {V : Type} (env : NodePlatform V) (io : AtomicContext) (s : Session) (atomicId : Hash)

/-- The next batch is handled while the call waits. -/
def wait : Session :=
  { toLockNode := s.toLockNode.deliver env (s.arrivals.headD []), arrivals := s.arrivals.tail }

/-- All the batches that are left are handled. -/
def drain : LockNode := s.toLockNode.deliver env s.arrivals.flatten

variable (shardId : ShardId)

/-- It waits for itself where the lock is held for this id. -/
def release : Outcome Stop Session Unit :=
  match s.lockManager.releaseLock atomicId shardId with
  | none => (.error .never, s)
  | some lockManager => (.ok (), { s with lockManager })

def releaseLocks : Session → List ShardLock → Outcome Stop Session Unit
  | s, [] => (.ok (), s)
  | s, lock :: locks =>
    andThen (s.release lock.atomicId lock.shardId) fun _ s => releaseLocks s locks

/-- The lock manager has an epoch of its own, which nothing advances. -/
def lockCommittee : Option Committee :=
  s.committeeManager.getCommitteeForShard s.lockManager.currentEpoch shardId

/-- A message goes to the committee, and the answers are waited for. -/
def broadcast {α : Type} (serializeError : ShardId → Option String)
    (waiting : DistributedLockManager → List α) : Outcome Stop Session (List α) :=
  match s.lockCommittee shardId with
  | none => (.error (.error (.committeeNotFound shardId)), s)
  | some _ =>
    match serializeError shardId with
    | some e => (.error (.error (.serializationFailed e)), s)
    | none =>
      let s := s.wait env
      (.ok (waiting s.lockManager), s)

def broadcastPrepare : Outcome Stop Session (List LockVote) :=
  s.broadcast env shardId io.prepareSerializeError fun lockManager =>
    DistributedLockManager.waitingAt lockManager.pendingVotes atomicId shardId

def broadcastCommit : Outcome Stop Session (List LockAck) :=
  s.broadcast env shardId io.commitSerializeError fun lockManager =>
    DistributedLockManager.waitingAt lockManager.pendingAcks atomicId shardId

def createLockProof (votes : List LockVote) (acks : List LockAck) : Bytes :=
  arrayBytes (env.hashData (
    (votes.filter fun vote => vote.approved).flatMap (fun vote =>
      arrayBytes (env.hashData (arrayBytes vote.atomicId ++ leBytes 2 vote.shardId.toNat
        ++ arrayBytes vote.validator)))
    ++ acks.flatMap (fun ack =>
      arrayBytes (env.hashData (arrayBytes ack.atomicId ++ leBytes 2 ack.shardId.toNat
        ++ arrayBytes ack.validator)))))

/-- The votes are counted against their own number, not the committee's. -/
def tryAcquireShardLock : Outcome Stop Session ShardLock :=
  andThen (s.broadcastPrepare env io atomicId shardId) fun votes s =>
    let approved := votes.filter fun vote => vote.approved
    let threshold := votes.length * 2 / 3 + 1
    if approved.length < threshold then
      (.error (.error (.consensusNotReached threshold approved.length)), s)
    else
      andThen (s.broadcastCommit env io atomicId shardId) fun acks s =>
        if acks.length < threshold then
          -- the abort that is broadcast reaches nobody; what is recorded here is released
          andThen (s.release atomicId shardId) fun _ s =>
            (.error (.error .lockAcquisitionFailed), s)
        else
          (.ok { atomicId, shardId, consensusProof := createLockProof env votes acks
                 validatorSignatures := approved.map LockVote.signature }, s)

/-- Two thirds of the committee, rounded up, have signed. -/
def verifyLock (lock : ShardLock) : Bool :=
  match s.lockCommittee lock.shardId with
  | none => false
  | some committee =>
    (committee.members.length * 2 + 2) / 3 ≤ lock.validatorSignatures.length ∧
      lock.consensusProof ≠ [] ∧ !io.lockStale lock.shardId

/-- The locks acquired so far are released, and the error is returned. -/
def giveUp (acquired : List ShardLock) (e : AtomicError) :
    Outcome Stop Session (List ShardLock) :=
  andThen (s.releaseLocks acquired) fun _ s => (.error (.error e), s)

/-- The loop over the shards. A lock that does not verify is not among
those given back. -/
def acquireLoop (atomicId : Hash) :
    List ShardId → List ShardLock → Session → Outcome Stop Session (List ShardLock)
  | [], acquired, s => (.ok acquired, s)
  | shardId :: rest, acquired, s =>
    if io.timedOut shardId then s.giveUp acquired .lockTimeout
    else
      match s.tryAcquireShardLock env io atomicId shardId with
      | (.error .never, s) => (.error .never, s)
      | (.error (.error e), s) => s.giveUp acquired e
      | (.ok lock, s) =>
        if s.verifyLock io lock then acquireLoop atomicId rest (acquired ++ [lock]) s
        else s.giveUp acquired .lockAcquisitionFailed

variable (operations : List ShardOperation)

/-- Sorted, each shard once. -/
def shardOrder : List ShardId :=
  (operations.map ShardOperation.shardId).dedup.insertionSort (· ≤ ·)

def storeLocks (locks : List ShardLock) : Session :=
  { s with
    lockManager := { s.lockManager with locks := s.lockManager.locks.put (atomicId, locks) } }

def acquireAll : Outcome Stop Session (List ShardLock) :=
  andThen (acquireLoop env io atomicId (shardOrder operations) [] s) fun acquired s =>
    (.ok acquired, s.storeLocks atomicId acquired)

def forgetLocks : Session :=
  { s with lockManager := { s.lockManager with locks := s.lockManager.locks.erase atomicId } }

/-- Only the locks on record are given back. -/
def releaseAll : Outcome Stop Session Unit :=
  match s.lockManager.locks.get atomicId with
  | none => (.ok (), s)
  | some (_, locks) => (s.forgetLocks atomicId).releaseLocks locks

end Session

/-! ## The proof of one shard -/

namespace Zk

open Quantos.StateTransition

def MAX_SHARD_ID : ShardId := 10000

/-- The Merkle steps, the first at position `i`. -/
def addMerkleSteps (trace : ExecutionTrace) (i : Nat) :
    List Hash → Except ZkError ExecutionTrace
  | [] => .ok trace
  | sibling :: rest =>
    match trace.addMerkleStep sibling (UInt64.ofNat (i + 1)) with
    | .error e => .error e
    | .ok trace => addMerkleSteps trace (i + 1) rest

variable (lib : StarkLibrary) (config : ZkConfig) (inputs : CrossShardInputs)
  (merkleProof : List Hash)

def buildCrossShardTrace : Except ZkError ExecutionTrace := do
  let trace ← (ExecutionTrace.new (merkleProof.length + 10)).addHashStep inputs.messageHash 0
  addMerkleSteps trace 0 merkleProof

def CROSS_SHARD_MAGIC : Bytes := [0x51, 0x58, 0x53, 0x01]

/-- The proof, behind its kind, the shards and the message hash. -/
def generateCrossShardStarkProof (trace : ExecutionTrace) : Call ZkError Bytes := do
  let winterfellProof ← generateWinterfellProof lib config trace
    { prevStateRoot := inputs.sourceStateRoot
      newStateRoot := inputs.sourceStateRoot
      txRoot := inputs.messageHash
      txCount := 1
      shardId := inputs.sourceShard
      height := 0 }
  pure (CROSS_SHARD_MAGIC ++ leBytes 2 inputs.sourceShard.toNat
    ++ leBytes 2 inputs.destShard.toNat ++ arrayBytes inputs.messageHash ++ winterfellProof)

def computeCrossShardProofId : Hash :=
  lib.hashData (leBytes 2 inputs.sourceShard.toNat ++ leBytes 2 inputs.destShard.toNat
    ++ arrayBytes inputs.messageHash)

def proveCrossShard (generationTime : UInt64) : Call ZkError StarkProof :=
  if inputs.sourceShard > MAX_SHARD_ID ∨ inputs.destShard > MAX_SHARD_ID then
    throw (.traceGenerationFailed ("Invalid shard ID: source=" ++ toString inputs.sourceShard
      ++ ", dest=" ++ toString inputs.destShard ++ " (max=" ++ toString MAX_SHARD_ID ++ ")"))
  else if inputs.sourceShard = inputs.destShard then
    throw (.traceGenerationFailed
      "Source and destination shard must differ for cross-shard proof")
  else do
    let trace ← checked (buildCrossShardTrace inputs merkleProof)
    let proofData ← generateCrossShardStarkProof lib config inputs trace
    pure ⟨computeCrossShardProofId lib inputs, proofData, generationTime⟩

theorem not_returns_proveCrossShard (generationTime : UInt64) (proof : StarkProof) :
    ¬ Returns (proveCrossShard lib config inputs merkleProof generationTime) proof := by
  unfold proveCrossShard
  split
  · exact not_returns_throw
  split
  · exact not_returns_throw
  intro h
  obtain ⟨trace, -, h⟩ := returns_bind h
  obtain ⟨data, hdata, -⟩ := returns_bind h
  obtain ⟨bytes, hbytes, -⟩ := returns_bind hdata
  exact not_returns_generateWinterfellProof lib config trace _ bytes hbytes

end Zk

/-! ## Aggregated proofs -/

namespace CrossShardProofAggregator

section Trees

open MerklePaths

variable (hashData : Bytes → Hash)

def computeTransactionsHash (transactions : List SignedTransaction) : Hash :=
  hashData (transactions.flatMap fun tx => arrayBytes tx.hash)

/-- The first node of every level below the top, then the state root. -/
def generateMerkleProof (state : PreparedState) : List Hash :=
  let txHashes := state.transactions.map SignedTransaction.hash
  (levels (joinHash hashData) txHashes.length txHashes).dropLast.filterMap List.head?
    ++ [state.stateRoot]

/-- The leaves are padded with zeros to a power of two, so that no node of
the tree is carried. -/
def computeAggregateMerkleRoot (proofs : List ShardProof) : Hash :=
  let leaves := proofs.map ShardProof.stateRoot
  let padded := leaves ++ List.replicate (leaves.length.nextPowerOfTwo - leaves.length) 0
  if proofs = [] then 0 else (top (levels (joinHash hashData) padded.length padded)).getD 0

def generateRecursiveProof (proofs : List ShardProof) : Bytes :=
  arrayBytes (hashData (proofs.flatMap fun proof =>
    arrayBytes proof.starkProofId ++ arrayBytes proof.stateRoot
      ++ leBytes 2 proof.shardId.toNat))

end Trees

variable {V : Type} (env : AtomicPlatform V) (io : AtomicContext)

/-- The destination is shard 0, whatever the operation. -/
def proverInputs (state : PreparedState) : CrossShardInputs where
  sourceShard := state.shardId
  destShard := 0
  sourceStateRoot := state.stateRoot
  messageHash := computeTransactionsHash env.hashData state.transactions
  amount := .zero
  sender := 0
  recipient := 0
  nonce := 0

def proveState (state : PreparedState) : Call AtomicError ShardProof := do
  let proof ← ExceptT.adapt (fun e => .proofGenerationFailed e.text)
    (Zk.proveCrossShard env.library .default (proverInputs env state)
      (generateMerkleProof env.hashData state) io.generationTime)
  pure ⟨state.shardId, state.stateRoot, proof.proofData, proof.id, proof.generationTimeMs⟩

def aggregate (states : List PreparedState) : Call AtomicError AggregatedProof := do
  let proofs ← states.mapM (proveState env io)
  pure
    { shardProofs := proofs
      merkleRoot := computeAggregateMerkleRoot env.hashData proofs
      aggregateProofData := generateRecursiveProof env.hashData proofs
      totalShards := UInt16.ofNat states.length
      timestamp := io.proofTime }

end CrossShardProofAggregator

/-! ## Rollback -/

namespace RollbackCoordinator

variable {V : Type} (env : Platform V) (rc : RollbackCoordinator V)
  (atomicId : Hash) (shardId : ShardId)

/-- The checkpoint is looked up under the hash of the first transaction. -/
def checkpointFor : Option StateCheckpoint :=
  (rc.checkpoints.get atomicId).bind fun entry => entry.2.get shardId

def restore (checkpoint : StateCheckpoint) (transactions : List SignedTransaction) (atomicId : Hash)
    (shardId : ShardId) :
    RollbackCoordinator V :=
  { rc with
    stateManager := checkpoint.accountStates.foldl
      (fun s entry => s.restoreAccount env entry.1 entry.2) rc.stateManager
    rollbackLog := rc.rollbackLog ++
      [{ atomicId, shardId, transactionsRolledBack := transactions.length
         accountsRestored := checkpoint.accountStates.length
         originalStateRoot := checkpoint.stateRoot }] }

def rollbackShard (transactions : List SignedTransaction) :
    Except AtomicError Unit × RollbackCoordinator V :=
  match transactions with
  | [] => (.ok (), rc)
  | tx :: _ =>
    match rc.checkpointFor tx.hash shardId with
    | none => (.error .checkpointNotFound, rc)
    | some checkpoint => (.ok (), rc.restore env checkpoint transactions tx.hash shardId)

def rollbackShards (rc : RollbackCoordinator V) :
    List ShardOperation → Except AtomicError Unit × RollbackCoordinator V
  | [] => (.ok (), rc)
  | operation :: rest =>
    match rc.rollbackShard env operation.shardId operation.transactions with
    | (.error e, rc) => (.error e, rc)
    | (.ok (), rc) => rollbackShards rc rest

def clearCheckpoints : RollbackCoordinator V :=
  { rc with checkpoints := rc.checkpoints.erase atomicId }

end RollbackCoordinator

/-! ## The coordinator -/

namespace CrossShardAtomicProtocol

variable {V : Type}

def new (dag : DAGGraph) (stateManager : StateManager V) (committeeManager : RotatingManager)
    (nodePublicKey : Bytes) : CrossShardAtomicProtocol V where
  lockManager := .new
  committeeManager := committeeManager
  currentEpoch := 0
  nodePublicKey := nodePublicKey
  validatorChannels := ∅
  sent := []
  rollbackCoordinator := ⟨stateManager, .empty, []⟩
  dag := dag
  activeOperations := .empty

variable (p : CrossShardAtomicProtocol V)

def setEpoch (epoch : UInt64) : CrossShardAtomicProtocol V :=
  { p with currentEpoch := epoch }

def registerValidatorChannel (address : Address) : CrossShardAtomicProtocol V :=
  { p with validatorChannels := insert address p.validatorChannels }

variable (atomicId : Hash)

def getStatus : Option AtomicStatus :=
  (p.activeOperations.get atomicId).map AtomicOperation.status

def setStatus (status : AtomicStatus) : CrossShardAtomicProtocol V :=
  match p.activeOperations.get atomicId with
  | none => p
  | some op => { p with activeOperations := p.activeOperations.put { op with status := status } }

/-- The tracker is entered under the id, whatever was there. -/
def track (operations : List ShardOperation) : CrossShardAtomicProtocol V :=
  { p with
    activeOperations := p.activeOperations.put
      { id := atomicId, shards := (operations.map ShardOperation.shardId).dedup
        operations, status := .preparing } }

def withNode (node : LockNode) : CrossShardAtomicProtocol V :=
  { p with toLockNode := node }

variable (env : AtomicPlatform V) (io : AtomicContext)

def executeSpeculative (operation : ShardOperation) : PreparedState where
  shardId := operation.shardId
  stateRoot := operation.expectedStateRoot
  transactions := operation.transactions
  success := true

def verifyCrossShardConsistency : List PreparedState → Except AtomicError Unit
  | [] => .ok ()
  | state :: rest =>
    if !state.success then
      .error (.executionFailed ("Shard " ++ toString state.shardId.toNat ++ " execution failed"))
    else verifyCrossShardConsistency rest

/-- `executeSpeculative` always succeeds, so that the loop over the
operations is a map. -/
def preparePhase (s : Session) (atomicId : Hash) (operations : List ShardOperation) :
    Outcome Stop Session (List PreparedState) :=
  andThen (s.acquireAll env.toNodePlatform io atomicId operations) fun _ s =>
    match verifyCrossShardConsistency (operations.map executeSpeculative) with
    | .error e => (.error (.error e), s)
    | .ok () => (.ok (operations.map executeSpeculative), s)

/-- The vertex of one shard, the `i`-th of the commit phase. -/
def commitVertex (nodeAddress : Address) (i : Nat) (dag : DAGGraph) (state : PreparedState) :
    Except AtomicError Hash × DAGGraph :=
  let height := dag.getHeight state.shardId
  if height.toNat + 1 ≥ 2 ^ 64 then (.error (.executionFailed "Height overflow"), dag)
  else
    match Vertex.new env.hashData (io.vertexTime i) ((dag.getTips state.shardId).take 4)
        state.transactions state.shardId nodeAddress (height + 1) with
    | .error e => (.error (.executionFailed e), dag)
    | .ok vertex =>
      let vertex := vertex.setStateRoot state.stateRoot
      match env.sign vertex.signingData with
      | .error e => (.error (.signingFailed e), dag)
      | .ok signature =>
        match dag.addVertex (io.dagContext i) (vertex.setSignature signature) with
        | (.error e, dag) => (.error (.executionFailed ("DAG error: " ++ e.toText)), dag)
        | (.ok (), dag) => (.ok vertex.hash, dag)

structure CommitOutcome where
  result : Except AtomicError Unit
  dag : DAGGraph
  created : List Hash

/-- The loop over the prepared states. -/
def commitVertices (nodeAddress : Address) :
    Nat → DAGGraph → List Hash → List PreparedState → CommitOutcome
  | _, dag, created, [] => ⟨.ok (), dag, created⟩
  | i, dag, created, state :: rest =>
    match commitVertex env io nodeAddress i dag state with
    | (.error e, dag) => ⟨.error e, dag, created⟩
    | (.ok hash, dag) => commitVertices nodeAddress (i + 1) dag (created ++ [hash]) rest

structure AtomicRun (V : Type) where
  result : Except Stop AtomicResult
  protocol : CrossShardAtomicProtocol V
  created : List Hash

variable (p : CrossShardAtomicProtocol V) (atomicId : Hash) (operations : List ShardOperation)

def releaseAll : Outcome Stop (CrossShardAtomicProtocol V) Unit :=
  let (answer, s) := Session.releaseAll ⟨p.toLockNode, []⟩ atomicId
  (answer, p.withNode s.toLockNode)

def commitPhase (states : List PreparedState) : AtomicRun V :=
  match ExceptT.run (CrossShardProofAggregator.aggregate env io states) with
  | none => ⟨.error .never, p, []⟩
  | some (.error e) => ⟨.error (.error e), p, []⟩
  | some (.ok aggregatedProof) =>
    let outcome := commitVertices env io (p.myAddress env.toNodePlatform) 0 p.dag [] states
    let p := { p with dag := outcome.dag }
    match outcome.result with
    | .error e => ⟨.error (.error e), p, outcome.created⟩
    | .ok () =>
      let p := { p with
        rollbackCoordinator := p.rollbackCoordinator.clearCheckpoints atomicId }
      let (answer, p) := p.releaseAll atomicId
      ⟨answer.map fun _ =>
        { atomicId, committedShards := states.map PreparedState.shardId
          aggregatedProof, success := true }, p, outcome.created⟩

/-- A shard that cannot be rolled back ends the rollback there. -/
def rollbackAll : Outcome Stop (CrossShardAtomicProtocol V) Unit :=
  match p.rollbackCoordinator.rollbackShards env.toPlatform operations with
  | (.error e, rc) => (.error (.error e), { p with rollbackCoordinator := rc })
  | (.ok (), rc) =>
    andThen ({ p with rollbackCoordinator := rc }.releaseAll atomicId) fun _ p =>
      (.ok (), p.setStatus atomicId .rolledBack)

/-- Both failing phases end here: the rollback's own error comes first. -/
def fail (arrivals : List (List ProtocolMessage)) (error : AtomicError) (created : List Hash) :
    AtomicRun V :=
  let p := p.withNode (Session.drain env.toNodePlatform ⟨p.toLockNode, arrivals⟩)
  match p.rollbackAll env atomicId operations with
  | (.error stop, p) => ⟨.error stop, p, created⟩
  | (.ok (), p) => ⟨.error (.error error), p, created⟩

/-- From the tracker on. -/
def runPhases : AtomicRun V :=
  match preparePhase env io ⟨p.toLockNode, io.arrivals⟩ atomicId operations with
  | (.error .never, s) => ⟨.error .never, p.withNode s.toLockNode, []⟩
  | (.error (.error e), s) =>
    (p.withNode s.toLockNode).fail env atomicId operations s.arrivals e []
  | (.ok states, s) =>
    let run := (p.withNode s.toLockNode).commitPhase env io atomicId states
    match run.result with
    | .error .never => run
    | .error (.error e) =>
      run.protocol.fail env atomicId operations s.arrivals e run.created
    | .ok result => ⟨.ok result, run.protocol.setStatus atomicId .committed, run.created⟩

def executeAtomic : AtomicRun V :=
  if operations.isEmpty then ⟨.error (.error (.invalidOperations "Empty operations")), p, []⟩
  else if operations.length > MAX_ATOMIC_SHARDS then ⟨.error (.error .tooManyShards), p, []⟩
  else (p.track atomicId operations).runPhases env io atomicId operations

end CrossShardAtomicProtocol

end Quantos

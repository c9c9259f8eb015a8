import Quantos.Committees

/-!
# Lock messages of the atomic protocol

`consensus/cross_shard_atomic.rs`, the side of a committee node: prepare,
vote, commit, acknowledgement and abort messages, and the lock manager
they go to. Votes and acknowledgements that arrive one by one are checked
against the committee and the registered key before they are recorded; a
lock-commit brings its votes along, and of those only the membership of
the voters and the number of approvals are looked at.

A node is what these handlers read of the protocol, `LockNode`; the
coordinator of an atomic operation is built on it in a later module.
-/

namespace Quantos

def DOMAIN_CSAP_VOTE : Bytes := asciiBytes "QUANTOS_CSAP_VOTE_V1"

def DOMAIN_CSAP_ACK : Bytes := asciiBytes "QUANTOS_CSAP_ACK_V1"

/-- The constructors of `AtomicError` that are returned. -/
inductive AtomicError where
  | invalidOperations (reason : String)
  | tooManyShards
  | lockTimeout
  | executionFailed (reason : String)
  | consensusNotReached (needed received : Nat)
  | lockAcquisitionFailed
  | proofGenerationFailed (reason : String)
  | checkpointNotFound
  | committeeNotFound (shardId : ShardId)
  | notCommitteeMember
  | signingFailed (reason : String)
  | serializationFailed (reason : String)
  | lockConflict (shardId : ShardId)
  | unauthorizedSender
deriving DecidableEq, Repr

structure LockPrepareMessage where
  atomicId : Hash
  shardId : ShardId
  requester : Address

structure LockVote where
  atomicId : Hash
  shardId : ShardId
  validator : Address
  approved : Bool
  signature : Bytes

structure LockCommitMessage where
  atomicId : Hash
  shardId : ShardId
  votes : List LockVote

structure LockAck where
  atomicId : Hash
  shardId : ShardId
  validator : Address
  acknowledged : Bool
  signature : Bytes

structure LockAbortMessage where
  atomicId : Hash
  shardId : ShardId

inductive ProtocolMessage where
  | lockPrepare (prepare : LockPrepareMessage)
  | lockVote (vote : LockVote)
  | lockCommit (commit : LockCommitMessage)
  | lockAck (ack : LockAck)
  | lockAbort (abort : LockAbortMessage)

/-- `acquired_at` is only compared with the clock, which answers for it. -/
structure ShardLock where
  atomicId : Hash
  shardId : ShardId
  consensusProof : Bytes
  validatorSignatures : List Bytes

/-- Votes and acknowledgements wait under the atomic id and the shard. -/
abbrev Waiting (α : Type) := Table (Prod.fst : (Hash × ShardId) × List α → Hash × ShardId)

/-- The fields of `DistributedLockManager`; nothing sets its network
sender, so its broadcasts reach nobody. -/
structure DistributedLockManager where
  locks : Table (Prod.fst : Hash × List ShardLock → Hash)
  currentEpoch : UInt64
  pendingVotes : Waiting LockVote
  pendingAcks : Waiting LockAck
  localLocks : Table (Prod.fst : ShardId × Hash → ShardId)

namespace DistributedLockManager

def new : DistributedLockManager where
  locks := .empty
  currentEpoch := 0
  pendingVotes := .empty
  pendingAcks := .empty
  localLocks := .empty

variable (lm : DistributedLockManager) (shardId : ShardId)

def localLock : Option Hash :=
  (lm.localLocks.get shardId).map Prod.snd

variable (atomicId : Hash)

def hasConflictingLock : Bool :=
  match lm.localLock shardId with
  | some existing => existing ≠ atomicId
  | none => false

def waitingAt {α : Type} (waiting : Waiting α) (atomicId : Hash) (shardId : ShardId) : List α :=
  (waiting.get (atomicId, shardId)).elim [] Prod.snd

def recordVote (vote : LockVote) : DistributedLockManager :=
  { lm with
    pendingVotes := lm.pendingVotes.put ((vote.atomicId, vote.shardId),
      waitingAt lm.pendingVotes vote.atomicId vote.shardId ++ [vote]) }

def recordAck (ack : LockAck) : DistributedLockManager :=
  { lm with
    pendingAcks := lm.pendingAcks.put ((ack.atomicId, ack.shardId),
      waitingAt lm.pendingAcks ack.atomicId ack.shardId ++ [ack]) }

def applyLock (shardId : ShardId) : Except AtomicError DistributedLockManager :=
  if lm.hasConflictingLock shardId atomicId then .error (.lockConflict shardId)
  else .ok { lm with localLocks := lm.localLocks.put (shardId, atomicId) }

/-- Nothing where the call never returns. A lock under the atomic id is read
through a guard on `local_locks`, and `remove` is called on that map while the
guard lives, so that it waits for its own caller. -/
def releaseLock (shardId : ShardId) : Option DistributedLockManager :=
  if lm.localLock shardId = some atomicId then none
  else some { lm with
    pendingVotes := lm.pendingVotes.erase (atomicId, shardId)
    pendingAcks := lm.pendingAcks.erase (atomicId, shardId) }

theorem releaseLock_eq_some {lm lm' : DistributedLockManager} {atomicId : Hash}
    {shardId : ShardId} (h : lm.releaseLock atomicId shardId = some lm') :
    lm'.localLocks = lm.localLocks ∧ lm'.locks = lm.locks := by
  unfold releaseLock at h
  split at h
  · cases h
  · cases h
    exact ⟨rfl, rfl⟩

theorem applyLock_ok {lm lm' : DistributedLockManager} {atomicId : Hash} {shardId : ShardId} :
    lm.applyLock atomicId shardId = .ok lm' ↔
      (∀ held ∈ lm.localLock shardId, held = atomicId) ∧
        lm' = { lm with localLocks := lm.localLocks.put (shardId, atomicId) } := by
  unfold applyLock hasConflictingLock
  cases lm.localLock shardId with
  | none => simp [eq_comm]
  | some held =>
    by_cases h : held = atomicId
    · simp [h, eq_comm]
    · simp [h]

end DistributedLockManager

/-- Hash, signature check and engines of the node, and its signing key. -/
structure NodePlatform (V : Type) extends Platform V where
  sign : Bytes → Except String Bytes

/-- `sent` is what was put into the validators' channels. -/
structure LockNode where
  lockManager : DistributedLockManager
  committeeManager : RotatingManager
  currentEpoch : UInt64
  nodePublicKey : Bytes
  validatorChannels : Finset Address
  sent : List (Address × ProtocolMessage)

namespace LockNode

open DistributedLockManager

/-! ## Signatures -/

def voteSigningPayload (atomicId : Hash) (shardId : ShardId) (approved : Bool) : Bytes :=
  withDomain DOMAIN_CSAP_VOTE
    (arrayBytes atomicId ++ leBytes 2 shardId.toNat ++ [approved.toUInt8])

def ackSigningPayload (atomicId : Hash) (shardId : ShardId) : Bytes :=
  withDomain DOMAIN_CSAP_ACK (arrayBytes atomicId ++ leBytes 2 shardId.toNat)

variable {V : Type} (env : NodePlatform V)

def signPayload (payload : Bytes) : Except AtomicError Bytes :=
  match env.sign payload with
  | .ok signature => .ok signature
  | .error e => .error (.signingFailed e)

def signVote (atomicId : Hash) (shardId : ShardId) (approved : Bool) : Except AtomicError Bytes :=
  signPayload env (voteSigningPayload atomicId shardId approved)

def signAck (atomicId : Hash) (shardId : ShardId) : Except AtomicError Bytes :=
  signPayload env (ackSigningPayload atomicId shardId)

variable (node : LockNode)

def myAddress : Address := env.hashData node.nodePublicKey

variable (vote : LockVote) (shardId : ShardId) (validator : Address) (payload signature : Bytes)

def committeeFor : Option Committee :=
  node.committeeManager.getCommitteeForShard node.currentEpoch shardId

/-- A signature by the registered key of a validator. -/
def signedBy : Bool :=
  match node.committeeManager.validatorSet.getValidator validator with
  | none => false
  | some v => env.verifyMlDsa65 v.publicKey payload signature

/-- The check votes and acknowledgements share: a member of the committee
in charge, with a valid signature under its registered key. -/
def verifyMemberSignature : Except AtomicError Unit :=
  match node.committeeFor shardId with
  | none => .error (.committeeNotFound shardId)
  | some committee =>
    if !committee.hasMember validator then .error .notCommitteeMember
    else if !node.signedBy env validator payload signature then .error .unauthorizedSender
    else .ok ()

def verifyVoteSignature : Except AtomicError Unit :=
  node.verifyMemberSignature env vote.shardId vote.validator
    (voteSigningPayload vote.atomicId vote.shardId vote.approved) vote.signature

def verifyAckSignature (ack : LockAck) : Except AtomicError Unit :=
  node.verifyMemberSignature env ack.shardId ack.validator
    (ackSigningPayload ack.atomicId ack.shardId) ack.signature

/-! ## Handlers -/

/-- Without a channel nothing is sent, and a send that fails is ignored. -/
def sendTo (address : Address) (message : ProtocolMessage) : LockNode :=
  if address ∈ node.validatorChannels then
    { node with sent := node.sent ++ [(address, message)] }
  else node

def handleLockPrepare (prepare : LockPrepareMessage) : Except AtomicError Unit × LockNode :=
  match node.committeeFor prepare.shardId with
  | none => (.error (.committeeNotFound prepare.shardId), node)
  | some committee =>
    if !committee.hasMember prepare.requester then (.error .unauthorizedSender, node)
    else if !committee.hasMember (node.myAddress env) then (.error .notCommitteeMember, node)
    else
      let approved := !node.lockManager.hasConflictingLock prepare.shardId prepare.atomicId
      match signVote env prepare.atomicId prepare.shardId approved with
      | .error e => (.error e, node)
      | .ok signature =>
        (.ok (), node.sendTo prepare.requester (.lockVote
          { atomicId := prepare.atomicId, shardId := prepare.shardId
            validator := node.myAddress env, approved, signature }))

def handleLockVote : Except AtomicError Unit × LockNode :=
  match node.verifyVoteSignature env vote with
  | .error e => (.error e, node)
  | .ok () => (.ok (), { node with lockManager := node.lockManager.recordVote vote })

variable (commit : LockCommitMessage)

/-- The lock is in place before the acknowledgement is signed. It goes to
whoever the first vote names. -/
def acknowledge : Except AtomicError Unit × LockNode :=
  match signAck env commit.atomicId commit.shardId with
  | .error e => (.error e, node)
  | .ok signature =>
    match commit.votes with
    | [] => (.ok (), node)
    | vote :: _ =>
      (.ok (), node.sendTo vote.validator (.lockAck
        { atomicId := commit.atomicId, shardId := commit.shardId
          validator := node.myAddress env, acknowledged := true, signature }))

/-- The number of lock votes a committee asks for. -/
def voteThreshold (committee : Committee) : Nat := committee.memberCount * 2 / 3 + 1

def approvals : List LockVote :=
  commit.votes.filter fun vote => vote.approved

/-- Neither the signatures of the votes nor the atomic id and shard they
are for are looked at, and a voter may be counted again. -/
def handleLockCommit : Except AtomicError Unit × LockNode :=
  match node.committeeFor commit.shardId with
  | none => (.error (.committeeNotFound commit.shardId), node)
  | some committee =>
    if commit.votes.any fun vote => !committee.hasMember vote.validator then
      (.error .unauthorizedSender, node)
    else if (approvals commit).length < voteThreshold committee then
      (.error (.consensusNotReached (voteThreshold committee) (approvals commit).length), node)
    else
      match node.lockManager.applyLock commit.atomicId commit.shardId with
      | .error e => (.error e, node)
      | .ok lockManager => acknowledge env { node with lockManager } commit

def handleLockAck (ack : LockAck) : Except AtomicError Unit × LockNode :=
  match node.verifyAckSignature env ack with
  | .error e => (.error e, node)
  | .ok () => (.ok (), { node with lockManager := node.lockManager.recordAck ack })

/-- Both branches of the source's test end in the same release, which looks
at the owner itself. There is no answer where the release never returns. -/
def handleLockAbort (abort : LockAbortMessage) : Option (Except AtomicError Unit) × LockNode :=
  match node.lockManager.releaseLock abort.atomicId abort.shardId with
  | none => (none, node)
  | some lockManager => (some (.ok ()), { node with lockManager })

def handleMessage : ProtocolMessage → Option (Except AtomicError Unit) × LockNode
  | .lockPrepare prepare => (node.handleLockPrepare env prepare).map some id
  | .lockVote vote => (node.handleLockVote env vote).map some id
  | .lockCommit commit => (node.handleLockCommit env commit).map some id
  | .lockAck ack => (node.handleLockAck env ack).map some id
  | .lockAbort abort => node.handleLockAbort abort

/-! ## What a message does to the local locks -/

theorem sendTo_lockManager (address : Address) (message : ProtocolMessage) :
    (node.sendTo address message).lockManager = node.lockManager := by
  unfold sendTo
  split <;> rfl

theorem acknowledge_lockManager (commit : LockCommitMessage) :
    (node.acknowledge env commit).2.lockManager = node.lockManager := by
  unfold acknowledge
  split
  · rfl
  split
  · rfl
  · exact sendTo_lockManager ..

/-- The tests of the source in their order: a committee, no outsider among
the voters, enough approvals, and no other owner of the shard. -/
structure Passes (node : LockNode) (commit : LockCommitMessage) (committee : Committee) :
    Prop where
  found : node.committeeFor commit.shardId = some committee
  members : ∀ vote ∈ commit.votes, committee.hasMember vote.validator
  enough : voteThreshold committee ≤ (approvals commit).length
  free : ∀ held ∈ node.lockManager.localLock commit.shardId, held = commit.atomicId

/-- A commit that passes puts the shard under its atomic id; any other
leaves the lock manager alone. -/
theorem handleLockCommit_lockManager (commit : LockCommitMessage) :
    (∃ committee, Passes node commit committee) ∧
        (node.handleLockCommit env commit).2.lockManager
          = { node.lockManager with
              localLocks := node.lockManager.localLocks.put (commit.shardId, commit.atomicId) } ∨
      (¬ ∃ committee, Passes node commit committee) ∧
        (node.handleLockCommit env commit).2.lockManager = node.lockManager := by
  unfold handleLockCommit
  split
  · rename_i hnone
    exact .inr ⟨fun ⟨_, h⟩ => (nomatch hnone.symm.trans h.found), rfl⟩
  rename_i committee hsome
  have hsame : ∀ {c}, Passes node commit c → c = committee := fun h =>
    Option.some.inj (h.found.symm.trans hsome)
  split
  · rename_i hout
    obtain ⟨vote, hvote, hnot⟩ := List.any_eq_true.mp hout
    refine .inr ⟨fun ⟨c, h⟩ => ?_, rfl⟩
    obtain rfl := hsame h
    rw [h.members vote hvote] at hnot
    cases hnot
  · rename_i hin
    split
    · rename_i hfew
      refine .inr ⟨fun ⟨c, h⟩ => ?_, rfl⟩
      obtain rfl := hsame h
      exact absurd h.enough (Nat.not_le.mpr hfew)
    · rename_i henough
      split
      · rename_i e herror
        refine .inr ⟨fun ⟨c, h⟩ => ?_, rfl⟩
        have hok := applyLock_ok.mpr ⟨h.free, rfl⟩
        rw [hok] at herror
        cases herror
      · rename_i lm hok
        obtain ⟨hfree, rfl⟩ := applyLock_ok.mp hok
        refine .inl ⟨⟨committee, hsome, fun vote hvote => ?_, Nat.not_lt.mp henough, hfree⟩, ?_⟩
        · by_contra hnot
          exact hin (List.any_eq_true.mpr ⟨vote, hvote, by simp [hnot]⟩)
        · exact acknowledge_lockManager ..

end LockNode

end Quantos

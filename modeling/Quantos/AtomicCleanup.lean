import Quantos.AtomicExecution
import Quantos.AtomicLockQuorum
import Quantos.Runs

/-!
# What a failed atomic operation leaves behind

An atomic operation that fails should leave nothing: its status is rolled
back, no shard is locked for it, none of its vertices is in the graph and
every account is as it was (`Clean`).

No vertex is ever created: the aggregation of the proofs, which comes first,
never succeeds (`commitPhase_stops`). The rollback looks for checkpoints, which
nothing creates (`noCheckpoints_run`), so it ends at the first operation that
has a transaction, before the locks are given back and the status is set.

What is left are the locks. A call never takes a lock of this node away, since
it waits for ever where it tries to. So the shards that are locked for the
operation when it has answered are those that the messages handled in the
meantime have left locked by themselves, whatever the call did in between:
`SameLocks` relates the two, `Session.Follows` carries it through the call.
-/

namespace Quantos

open Table List Fallible Panics

/-! ## Locks through a call -/

namespace LockNode

def Held (node : LockNode) (atomicId : Hash) (shardId : ShardId) : Prop :=
  node.lockManager.localLock shardId = some atomicId

/-- What decides which shards the node locks, now and at the next message. -/
def lockState (node : LockNode) :=
  (node.lockManager.localLocks, node.committeeManager, node.currentEpoch)

/-- Two nodes that differ in nothing but what else they record. -/
abbrev SameLocks (node node' : LockNode) : Prop := node.lockState = node'.lockState

namespace SameLocks

variable {node node' : LockNode}

theorem localLock_eq (h : SameLocks node node') (shardId : ShardId) :
    node'.lockManager.localLock shardId = node.lockManager.localLock shardId := by
  have hlocks : node.lockManager.localLocks = node'.lockManager.localLocks := congrArg Prod.fst h
  unfold DistributedLockManager.localLock
  rw [hlocks]

theorem held_iff (h : SameLocks node node') (atomicId : Hash) (shardId : ShardId) :
    node'.Held atomicId shardId ↔ node.Held atomicId shardId := by
  unfold Held
  rw [h.localLock_eq]

theorem passes (h : SameLocks node node') {commit : LockCommitMessage} {committee : Committee}
    (hpasses : Passes node commit committee) : Passes node' commit committee := by
  refine ⟨?_, hpasses.members, hpasses.enough, ?_⟩
  · have hfound := congrArg (fun (_, manager, epoch) =>
      RotatingManager.getCommitteeForShard manager epoch commit.shardId) h
    exact hfound.symm.trans hpasses.found
  · rw [h.localLock_eq]
    exact hpasses.free

end SameLocks

section Messages

variable {V : Type} (env : NodePlatform V) (node : LockNode) {node' : LockNode}

theorem sendTo_sameLocks (address : Address) (message : ProtocolMessage) :
    SameLocks node (node.sendTo address message) := by
  unfold sendTo
  split
  · exact rfl
  · exact rfl

theorem handleLockPrepare_sameLocks (prepare : LockPrepareMessage) :
    SameLocks node (node.handleLockPrepare env prepare).2 := by
  unfold handleLockPrepare
  split
  · exact rfl
  split
  · exact rfl
  split
  · exact rfl
  dsimp only
  split
  · exact rfl
  · exact node.sendTo_sameLocks _ _

theorem handleLockAbort_sameLocks (abort : LockAbortMessage) :
    SameLocks node (node.handleLockAbort abort).2 := by
  unfold handleLockAbort
  split
  · exact rfl
  · rename_i lockManager heq
    exact congrArg (·, _, _) (DistributedLockManager.releaseLock_eq_some heq).1.symm

theorem acknowledge_sameLocks (commit : LockCommitMessage) :
    SameLocks node (node.acknowledge env commit).2 := by
  unfold acknowledge
  split
  · exact rfl
  split
  · exact rfl
  · exact node.sendTo_sameLocks _ _

/-- A commit changes nothing that the next one reads, but for the locks. -/
theorem handleLockCommit_frame (commit : LockCommitMessage) :
    (node.handleLockCommit env commit).2.lockState.2 = node.lockState.2 := by
  unfold handleLockCommit
  split
  · rfl
  split
  · rfl
  split
  · rfl
  split
  · rfl
  · rename_i lockManager _
    have hsame := congrArg Prod.snd (acknowledge_sameLocks env { node with lockManager } commit)
    exact hsame.symm

variable {node}

theorem SameLocks.handleLockCommit (h : SameLocks node node') (commit : LockCommitMessage) :
    SameLocks (node.handleLockCommit env commit).2 (node'.handleLockCommit env commit).2 := by
  refine Prod.ext ?_ ?_
  · -- both nodes take the commit, or both refuse it
    have hlocks : node.lockManager.localLocks = node'.lockManager.localLocks := congrArg Prod.fst h
    unfold lockState
    rcases node.handleLockCommit_lockManager env commit with ⟨⟨c, hpasses⟩, heq⟩ | ⟨hno, heq⟩ <;>
      rcases node'.handleLockCommit_lockManager env commit with
        ⟨⟨c', hpasses'⟩, heq'⟩ | ⟨hno', heq'⟩
    · rw [heq, heq', hlocks]
    · exact absurd ⟨c, h.passes hpasses⟩ hno'
    · exact absurd ⟨c', SameLocks.passes h.symm hpasses'⟩ hno
    · rw [heq, heq', hlocks]
  · rw [handleLockCommit_frame, handleLockCommit_frame, h]

theorem SameLocks.handleMessage (h : SameLocks node node') (message : ProtocolMessage) :
    SameLocks (node.handleMessage env message).2 (node'.handleMessage env message).2 := by
  cases message with
  | lockPrepare prepare =>
    exact ((node.handleLockPrepare_sameLocks env prepare).symm.trans h).trans
      (node'.handleLockPrepare_sameLocks env prepare)
  | lockVote vote =>
    have hvote : ∀ node : LockNode, SameLocks node (node.handleLockVote env vote).2 := by
      intro node
      unfold handleLockVote
      split
      · exact rfl
      · exact rfl
    exact ((hvote node).symm.trans h).trans (hvote node')
  | lockCommit commit => exact h.handleLockCommit env commit
  | lockAck ack =>
    have hack : ∀ node : LockNode, SameLocks node (node.handleLockAck env ack).2 := by
      intro node
      unfold handleLockAck
      split
      · exact rfl
      · exact rfl
    exact ((hack node).symm.trans h).trans (hack node')
  | lockAbort abort =>
    exact ((node.handleLockAbort_sameLocks abort).symm.trans h).trans
      (node'.handleLockAbort_sameLocks abort)

theorem SameLocks.deliver (h : SameLocks node node') (messages : List ProtocolMessage) :
    SameLocks (node.deliver env messages) (node'.deliver env messages) := by
  induction messages generalizing node node' with
  | nil => exact h
  | cons message rest ih => exact ih (h.handleMessage env message)

end Messages

end LockNode

namespace Session

open LockNode

variable {V : Type} (env : NodePlatform V) (io : AtomicContext)

/-- The call has gone on without handling a message, and without locking or
unlocking a shard. -/
structure Quiet (s s' : Session) : Prop where
  same : SameLocks s.toLockNode s'.toLockNode
  arrivals : s'.arrivals = s.arrivals

/-- A later moment of the call: once all messages are handled, the same
shards are locked. -/
def Follows (s s' : Session) : Prop := SameLocks (s.drain env) (s'.drain env)

variable {env} {s s' s'' : Session} {atomicId : Hash} {shardId : ShardId}

theorem Quiet.refl : Quiet s s := ⟨rfl, rfl⟩

theorem Quiet.trans (h : Quiet s s') (h' : Quiet s' s'') : Quiet s s'' :=
  ⟨h.same.trans h'.same, h'.arrivals.trans h.arrivals⟩

theorem Quiet.release (h : Quiet s s') (atomicId : Hash) (shardId : ShardId) :
    Quiet s (s'.release atomicId shardId).2 := by
  unfold Session.release
  split
  · exact h
  · rename_i lockManager heq
    refine h.trans ⟨?_, rfl⟩
    exact congrArg (·, _, _) (DistributedLockManager.releaseLock_eq_some heq).1.symm

theorem Quiet.releaseLocks {locks : List ShardLock} :
    ∀ {s' : Session}, Quiet s s' → Quiet s (s'.releaseLocks locks).2 := by
  induction locks with
  | nil => exact fun h => h
  | cons lock rest ih =>
    exact fun h => andThen_keeps (I := Quiet s) (h.release lock.atomicId lock.shardId)
      fun _ _ => ih

theorem releaseAll_quiet (s : Session) (atomicId : Hash) : Quiet s (s.releaseAll atomicId).2 := by
  unfold Session.releaseAll
  split
  · exact .refl
  · have hforget : Quiet s (s.forgetLocks atomicId) := ⟨rfl, rfl⟩
    exact hforget.releaseLocks

theorem Follows.quiet (h : Follows env s s') (hquiet : Quiet s' s'') : Follows env s s'' := by
  refine Eq.trans h ?_
  unfold drain
  rw [hquiet.arrivals]
  exact SameLocks.deliver env hquiet.same _

theorem Follows.wait (h : Follows env s s') : Follows env s (s'.wait env) := by
  have heq : (s'.wait env).drain env = s'.drain env := by
    unfold drain Session.wait
    cases s'.arrivals with
    | nil => rfl
    | cons batch rest =>
      rw [flatten_cons, LockNode.deliver, LockNode.deliver, LockNode.deliver, foldl_append]
      rfl
  unfold Follows
  rw [heq]
  exact h

theorem Follows.broadcast (h : Follows env s s') {α : Type}
    {serializeError : ShardId → Option String} {waiting : DistributedLockManager → List α} :
    Follows env s (s'.broadcast env shardId serializeError waiting).2 := by
  unfold Session.broadcast
  split
  · exact h
  split
  · exact h
  · exact h.wait

theorem Follows.tryAcquireShardLock (h : Follows env s s') :
    Follows env s (s'.tryAcquireShardLock env io atomicId shardId).2 := by
  unfold Session.tryAcquireShardLock
  refine andThen_keeps (I := Follows env s) h.broadcast fun votes s₁ h₁ => ?_
  dsimp only
  split
  · exact h₁
  refine andThen_keeps (I := Follows env s) h₁.broadcast fun acks s₂ h₂ => ?_
  split
  · exact andThen_keeps (I := Follows env s) (h₂.quiet (Quiet.refl.release _ _))
      fun _ _ h₃ => h₃
  · exact h₂

theorem Follows.giveUp (h : Follows env s s') {acquired : List ShardLock} {e : AtomicError} :
    Follows env s (s'.giveUp acquired e).2 :=
  andThen_keeps (I := Follows env s) (h.quiet Quiet.refl.releaseLocks) fun _ _ h₁ => h₁

theorem Follows.acquireLoop {shards : List ShardId} :
    ∀ {acquired : List ShardLock} {s' : Session}, Follows env s s' →
      Follows env s (acquireLoop env io atomicId shards acquired s').2 := by
  induction shards with
  | nil => exact fun h => h
  | cons shardId rest ih =>
    intro acquired s' h
    have htry : Follows env s (s'.tryAcquireShardLock env io atomicId shardId).2 :=
      h.tryAcquireShardLock io
    unfold Session.acquireLoop
    split
    · exact h.giveUp
    split
    · rename_i heq
      rwa [heq] at htry
    · rename_i heq
      rw [heq] at htry
      exact Follows.giveUp htry
    · rename_i lock s₁ heq
      rw [heq] at htry
      split
      · exact ih htry
      · exact Follows.giveUp htry

theorem Follows.acquireAll (h : Follows env s s') {operations : List ShardOperation} :
    Follows env s (s'.acquireAll env io atomicId operations).2 :=
  andThen_keeps (I := Follows env s) (h.acquireLoop io) fun _ _ h₁ =>
    h₁.quiet ⟨rfl, rfl⟩

theorem releaseLocks_cases (locks : List ShardLock) (s : Session) :
    (∃ s', s.releaseLocks locks = (.error .never, s')) ∨
      ∃ s', s.releaseLocks locks = (.ok (), s') ∧ s'.lockManager.locks = s.lockManager.locks := by
  induction locks generalizing s with
  | nil => exact .inr ⟨s, rfl, rfl⟩
  | cons lock rest ih =>
    unfold Session.releaseLocks Session.release
    cases heq : s.lockManager.releaseLock lock.atomicId lock.shardId with
    | none => exact .inl ⟨s, rfl⟩
    | some lockManager =>
      refine (ih { s with lockManager }).imp_right fun ⟨s', hrest, hlocks⟩ => ⟨s', hrest, ?_⟩
      exact hlocks.trans (DistributedLockManager.releaseLock_eq_some heq).2

/-- A release of all locks never answers, or it leaves the local locks alone
and takes the operation off the record. -/
theorem releaseAll_cases (s : Session) (atomicId : Hash) :
    (∃ s', s.releaseAll atomicId = (.error .never, s')) ∨
      ∃ s', s.releaseAll atomicId = (.ok (), s') ∧ Quiet s s' ∧
        s'.lockManager.locks.get atomicId = none := by
  have hquiet := releaseAll_quiet s atomicId
  unfold Session.releaseAll at hquiet ⊢
  cases hget : s.lockManager.locks.get atomicId with
  | none => exact .inr ⟨s, rfl, .refl, hget⟩
  | some entry =>
    rw [hget] at hquiet
    refine (releaseLocks_cases entry.2 (s.forgetLocks atomicId)).imp_right ?_
    rintro ⟨s', heq, hlocks⟩
    replace hquiet : Quiet s ((s.forgetLocks atomicId).releaseLocks entry.2).2 := hquiet
    rw [heq] at hquiet
    refine ⟨s', heq, hquiet, ?_⟩
    rw [hlocks]
    exact (get_erase ..).trans (if_pos rfl)

end Session

/-! ## Rolling back without checkpoints -/

namespace RollbackCoordinator

variable {V : Type} {rc : RollbackCoordinator V}

def NoCheckpoints (rc : RollbackCoordinator V) : Prop :=
  ∀ atomicId, rc.checkpoints.get atomicId = none

def NoTransactions (operations : List ShardOperation) : Prop :=
  ∀ operation ∈ operations, operation.transactions = []

instance (operations : List ShardOperation) : Decidable (NoTransactions operations) :=
  inferInstanceAs (Decidable (∀ operation ∈ operations, operation.transactions = []))

/-- It comes through exactly when there is nothing to roll back. -/
theorem rollbackShards_eq {env : Platform V} (h : NoCheckpoints rc)
    {operations : List ShardOperation} :
    rc.rollbackShards env operations
      = (if NoTransactions operations then .ok () else .error .checkpointNotFound, rc) := by
  induction operations with
  | nil => rfl
  | cons operation rest ih =>
    unfold rollbackShards rollbackShard
    cases htxs : operation.transactions with
    | nil =>
      dsimp only
      rw [ih]
      have hiff : NoTransactions (operation :: rest) ↔ NoTransactions rest := by
        simp [NoTransactions, htxs]
      simp only [hiff]
    | cons tx txs =>
      have hnone : rc.checkpointFor tx.hash operation.shardId = none := by
        unfold checkpointFor
        rw [h]
        rfl
      have hnot : ¬ NoTransactions (operation :: rest) := fun hall =>
        cons_ne_nil tx txs (htxs.symm.trans (hall operation mem_cons_self))
      dsimp only
      rw [hnone, if_neg hnot]

end RollbackCoordinator

namespace CrossShardAtomicProtocol

open LockNode RollbackCoordinator Session

variable {V : Type} (env : AtomicPlatform V) (io : AtomicContext)
  {p p' : CrossShardAtomicProtocol V} {atomicId : Hash} {operations : List ShardOperation}

/-! ## The phases -/

theorem verifyCrossShardConsistency_ok (operations : List ShardOperation) :
    verifyCrossShardConsistency (operations.map executeSpeculative) = .ok () := by
  induction operations with
  | nil => rfl
  | cons operation rest ih => exact ih

theorem preparePhase_follows {s s' : Session} (h : Follows env.toNodePlatform s s') :
    Follows env.toNodePlatform s (preparePhase env io s' atomicId operations).2 := by
  unfold preparePhase
  rw [verifyCrossShardConsistency_ok]
  exact andThen_keeps (I := Follows env.toNodePlatform s) (h.acquireAll io) fun _ _ h₁ => h₁

theorem preparePhase_ok {s s' : Session} {states : List PreparedState}
    (h : preparePhase env io s atomicId operations = (.ok states, s')) :
    states = operations.map executeSpeculative := by
  unfold preparePhase at h
  rw [verifyCrossShardConsistency_ok] at h
  rcases hacquire : s.acquireAll env.toNodePlatform io atomicId operations with ⟨stop | _, s₁⟩ <;>
    rw [hacquire] at h <;> cases h
  rfl

/-- There is no proof for the first shard, and so no aggregate. -/
theorem not_returns_aggregate {states : List PreparedState} (hstates : states ≠ [])
    (proof : AggregatedProof) :
    ¬ Returns (CrossShardProofAggregator.aggregate env io states) proof := by
  intro h
  obtain ⟨state, rest, rfl⟩ := exists_cons_of_ne_nil hstates
  obtain ⟨proofs, hproofs, -⟩ := returns_bind h
  rw [mapM_cons] at hproofs
  obtain ⟨first, hfirst, -⟩ := returns_bind hproofs
  obtain ⟨stark, hstark, -⟩ := returns_bind hfirst
  exact Zk.not_returns_proveCrossShard _ _ _ _ _ stark (returns_adapt hstark)

/-- The commit phase ends before the first vertex. -/
theorem commitPhase_stops (p : CrossShardAtomicProtocol V) {states : List PreparedState}
    (hstates : states ≠ []) :
    ∃ stop, p.commitPhase env io atomicId states = ⟨.error stop, p, []⟩ := by
  unfold commitPhase
  split
  · exact ⟨.never, rfl⟩
  · rename_i e _
    exact ⟨.error e, rfl⟩
  · rename_i proof heq
    exact absurd heq (not_returns_aggregate env io hstates proof)

def ValidCount (operations : List ShardOperation) : Prop :=
  operations ≠ [] ∧ operations.length ≤ MAX_ATOMIC_SHARDS

instance (operations : List ShardOperation) : Decidable (ValidCount operations) :=
  inferInstanceAs (Decidable (_ ∧ _))

/-- Past the checks on the number of operations, a call never answers, or it
fails with nothing created and nothing changed but the node. -/
theorem runPhases_cases (p : CrossShardAtomicProtocol V) (hvalid : ValidCount operations) :
    (∃ node, p.runPhases env io atomicId operations = ⟨.error .never, p.withNode node, []⟩) ∨
      ∃ s e, Follows env.toNodePlatform ⟨p.toLockNode, io.arrivals⟩ s ∧
        p.runPhases env io atomicId operations
          = (p.withNode s.toLockNode).fail env atomicId operations s.arrivals e [] := by
  have hfollows : Follows env.toNodePlatform ⟨p.toLockNode, io.arrivals⟩
      (preparePhase env io ⟨p.toLockNode, io.arrivals⟩ atomicId operations).2 :=
    preparePhase_follows env io rfl
  unfold runPhases
  rcases hprepare : preparePhase env io ⟨p.toLockNode, io.arrivals⟩ atomicId operations with
    ⟨(e | _) | states, s⟩ <;> rw [hprepare] at hfollows
  · exact .inr ⟨s, e, hfollows, rfl⟩
  · exact .inl ⟨s.toLockNode, rfl⟩
  · have hstates : states ≠ [] := by
      rw [preparePhase_ok env io hprepare]
      exact fun hnil => hvalid.1 (map_eq_nil_iff.mp hnil)
    obtain ⟨stop, hcommit⟩ :
        ∃ stop, (p.withNode s.toLockNode).commitPhase env io atomicId states = _ :=
      commitPhase_stops env io _ hstates
    dsimp only
    rw [hcommit]
    cases stop with
    | error e => exact .inr ⟨s, e, hfollows, rfl⟩
    | never => exact .inl ⟨s.toLockNode, rfl⟩

/-! ## Failing -/

theorem getStatus_setStatus {status : AtomicStatus} :
    (p.setStatus atomicId status).getStatus atomicId
      = (p.getStatus atomicId).map fun _ => status := by
  unfold setStatus getStatus
  cases hget : p.activeOperations.get atomicId with
  | none => rw [hget]; rfl
  | some op =>
    obtain rfl : op.id = atomicId := key_of_get hget
    have hself := get_put_self p.activeOperations { op with status := status }
    exact congrArg (Option.map AtomicOperation.status) hself

section Frame

variable (p) (atomicId) (status : AtomicStatus)

@[simp] theorem setStatus_toLockNode : (p.setStatus atomicId status).toLockNode = p.toLockNode := by
  unfold setStatus
  split <;> rfl

@[simp] theorem setStatus_rollbackCoordinator :
    (p.setStatus atomicId status).rollbackCoordinator = p.rollbackCoordinator := by
  unfold setStatus
  split <;> rfl

end Frame

/-- The operation counts as rolled back, and no lock of it is left. -/
structure RolledBack (p : CrossShardAtomicProtocol V) (atomicId : Hash) : Prop where
  status : p.getStatus atomicId = some .rolledBack
  recorded : p.lockManager.locks.get atomicId = none
  unlocked : ∀ shardId, ¬ p.Held atomicId shardId

/-- What is asked of a failed operation, against the state before it. -/
structure Clean (p : CrossShardAtomicProtocol V) (run : AtomicRun V) (atomicId : Hash) : Prop
    extends run.protocol.RolledBack atomicId where
  vertices : ∀ hash ∈ run.created,
    run.protocol.dag.storage.get hash = none ∧ run.protocol.dag.vertices.get hash = none
  accounts : ∀ address, run.protocol.rollbackCoordinator.stateManager.view address
    = p.rollbackCoordinator.stateManager.view address

variable {arrivals : List (List ProtocolMessage)} {e e' : AtomicError} {created : List Hash}

/-- Behind the messages that are left, the rollback gives up at a transaction,
with the status and the locks as they are. Otherwise it never answers, or the
locks on record are released and the status is set. -/
theorem fail_cases (hcheckpoints : NoCheckpoints p.rollbackCoordinator) :
    let node := drain env.toNodePlatform ⟨p.toLockNode, arrivals⟩
    (¬ NoTransactions operations ∧ p.fail env atomicId operations arrivals e created
        = ⟨.error (.error .checkpointNotFound), p.withNode node, created⟩) ∨
      NoTransactions operations ∧
        ((∃ node', p.fail env atomicId operations arrivals e created
            = ⟨.error .never, p.withNode node', created⟩) ∨
          ∃ node', SameLocks node node' ∧ node'.lockManager.locks.get atomicId = none ∧
            p.fail env atomicId operations arrivals e created
              = ⟨.error (.error e), (p.withNode node').setStatus atomicId .rolledBack,
                created⟩) := by
  unfold fail rollbackAll releaseAll
  dsimp only
  generalize drain env.toNodePlatform ⟨p.toLockNode, arrivals⟩ = node
  have hnode : NoCheckpoints (p.withNode node).rollbackCoordinator := hcheckpoints
  rw [rollbackShards_eq hnode]
  by_cases hempty : NoTransactions operations
  · rw [if_pos hempty]
    refine .inr ⟨hempty, ?_⟩
    rcases releaseAll_cases ⟨(p.withNode node).toLockNode, []⟩ atomicId with
      ⟨s, heq⟩ | ⟨s, heq, hquiet, hlocks⟩ <;> dsimp only <;> rw [heq]
    · exact .inl ⟨s.toLockNode, rfl⟩
    · exact .inr ⟨s.toLockNode, hquiet.same, hlocks, rfl⟩
  · rw [if_neg hempty]
    exact .inl ⟨hempty, rfl⟩

/-- A call that fails and answers is clean exactly when it has no transaction
and no shard is locked for it once all messages are handled. -/
theorem fail_clean_iff (hrollback : p'.rollbackCoordinator = p.rollbackCoordinator)
    (hcheckpoints : NoCheckpoints p.rollbackCoordinator)
    (hstatus : p'.getStatus atomicId = some .preparing)
    (hrun : (p'.fail env atomicId operations arrivals e []).result = .error (.error e')) :
    Clean p (p'.fail env atomicId operations arrivals e []) atomicId ↔ NoTransactions operations ∧
        ∀ shardId, ¬ (drain env.toNodePlatform ⟨p'.toLockNode, arrivals⟩).Held
          atomicId shardId := by
  rw [← hrollback] at hcheckpoints
  rcases fail_cases env hcheckpoints with
    ⟨hsome, heq⟩ | ⟨hempty, ⟨node', heq⟩ | ⟨node', hsame, hlocks, heq⟩⟩ <;> rw [heq] at hrun ⊢
  · refine iff_of_false (fun h => ?_) fun h => hsome h.1
    exact nomatch hstatus.symm.trans h.status
  · cases hrun
  · constructor
    · refine fun h => ⟨hempty, fun shardId hheld => h.unlocked shardId ?_⟩
      rw [setStatus_toLockNode]
      exact (hsame.held_iff atomicId shardId).mpr hheld
    · rintro ⟨-, hunlocked⟩
      refine ⟨⟨?_, ?_, fun shardId hheld => hunlocked shardId ?_⟩,
        fun _ hmem => absurd hmem not_mem_nil, fun address => ?_⟩
      · exact getStatus_setStatus.trans (congrArg (Option.map _) hstatus)
      · rw [setStatus_toLockNode]
        exact hlocks
      · rw [setStatus_toLockNode] at hheld
        exact (hsame.held_iff atomicId shardId).mp hheld
      · rw [setStatus_rollbackCoordinator, ← hrollback]
        rfl

/-! ## The whole call -/

/-- The operation has one to eight parts, none with a transaction, and the
messages handled during the call leave by themselves no shard locked for it;
or it is refused for its number of parts, which leaves the state as it was,
under an id that was rolled back before. -/
def Undoable (p : CrossShardAtomicProtocol V) (atomicId : Hash)
    (operations : List ShardOperation) : Prop :=
  ValidCount operations ∧ NoTransactions operations ∧
      (∀ shardId, ¬ (p.toLockNode.deliver env.toNodePlatform io.arrivals.flatten).Held
        atomicId shardId) ∨
    ¬ ValidCount operations ∧ p.RolledBack atomicId

theorem getStatus_track : (p.track atomicId operations).getStatus atomicId = some .preparing :=
  congrArg (Option.map AtomicOperation.status) (get_put_self ..)

theorem executeAtomic_of_valid (h : ValidCount operations) :
    p.executeAtomic env io atomicId operations
      = (p.track atomicId operations).runPhases env io atomicId operations := by
  unfold executeAtomic
  rw [if_neg (by simpa using h.1), if_neg (Nat.not_lt.mpr h.2)]

theorem executeAtomic_of_not_valid (h : ¬ ValidCount operations) :
    (p.executeAtomic env io atomicId operations).protocol = p ∧
      (p.executeAtomic env io atomicId operations).created = [] := by
  unfold executeAtomic
  split
  · exact ⟨rfl, rfl⟩
  rename_i hnonempty
  split
  · exact ⟨rfl, rfl⟩
  · rename_i hlen
    exact absurd ⟨by simpa using hnonempty, Nat.not_lt.mp hlen⟩ h

theorem executeAtomic_clean_iff (hcheckpoints : NoCheckpoints p.rollbackCoordinator)
    (hrun : (p.executeAtomic env io atomicId operations).result = .error (.error e)) :
    Clean p (p.executeAtomic env io atomicId operations) atomicId ↔
      p.Undoable env io atomicId operations := by
  by_cases hvalid : ValidCount operations
  · rw [executeAtomic_of_valid env io hvalid] at hrun ⊢
    rcases runPhases_cases env io (p.track atomicId operations) hvalid with
      ⟨node, heq⟩ | ⟨s, e', hfollows, heq⟩ <;> rw [heq] at hrun ⊢
    · cases hrun
    have hstatus : ((p.track atomicId operations).withNode s.toLockNode).getStatus atomicId
        = some .preparing := getStatus_track
    have hrollback : ((p.track atomicId operations).withNode s.toLockNode).rollbackCoordinator
        = p.rollbackCoordinator := rfl
    rw [fail_clean_iff env hrollback hcheckpoints hstatus hrun, Undoable,
      or_iff_left fun h => h.1 hvalid, and_iff_right hvalid]
    refine and_congr_right fun _ => forall_congr' fun shardId => not_congr ?_
    exact SameLocks.held_iff hfollows atomicId shardId
  · obtain ⟨hprotocol, hcreated⟩ : (p.executeAtomic env io atomicId operations).protocol = p ∧
        (p.executeAtomic env io atomicId operations).created = [] :=
      executeAtomic_of_not_valid env io hvalid
    rw [Undoable, or_iff_right fun h => hvalid h.1, and_iff_right hvalid]
    constructor
    · intro h
      have hrolled := h.toRolledBack
      rwa [hprotocol] at hrolled
    · intro h
      refine ⟨by rwa [hprotocol], ?_, ?_⟩
      · rw [hcreated]
        exact fun _ hmem => absurd hmem not_mem_nil
      · rw [hprotocol]
        exact fun _ => rfl

/-! ## Runs of the protocol -/

/-- The calls on the protocol. Graph, state and committees are shared with
the rest of the node, which changes them as it likes between the calls. -/
inductive ProtocolOp (V : Type) where
  | setEpoch (epoch : UInt64)
  | registerValidatorChannel (address : Address)
  | handleMessage (message : ProtocolMessage)
  | executeAtomic (atomicId : Hash) (operations : List ShardOperation) (io : AtomicContext)
  | others (dag : DAGGraph) (stateManager : StateManager V) (committeeManager : RotatingManager)

def step (p : CrossShardAtomicProtocol V) : ProtocolOp V → CrossShardAtomicProtocol V
  | .setEpoch epoch => p.setEpoch epoch
  | .registerValidatorChannel address => p.registerValidatorChannel address
  | .handleMessage message =>
    p.withNode (p.toLockNode.handleMessage env.toNodePlatform message).2
  | .executeAtomic atomicId operations io =>
    (p.executeAtomic env io atomicId operations).protocol
  | .others dag stateManager committeeManager =>
    { p with
      dag, committeeManager
      rollbackCoordinator := { p.rollbackCoordinator with stateManager } }

theorem noCheckpoints_fail (h : NoCheckpoints p.rollbackCoordinator) :
    NoCheckpoints
      (p.fail env atomicId operations arrivals e created).protocol.rollbackCoordinator := by
  rcases fail_cases env h with
    ⟨-, heq⟩ | ⟨-, ⟨node', heq⟩ | ⟨node', -, -, heq⟩⟩ <;> rw [heq]
  · exact h
  · exact h
  · rw [setStatus_rollbackCoordinator]
    exact h

theorem noCheckpoints_step {p : CrossShardAtomicProtocol V} {op : ProtocolOp V}
    (h : NoCheckpoints p.rollbackCoordinator) :
    NoCheckpoints (step env p op).rollbackCoordinator := by
  cases op with
  | setEpoch => exact h
  | registerValidatorChannel => exact h
  | handleMessage => exact h
  | executeAtomic atomicId operations io =>
    show NoCheckpoints (p.executeAtomic env io atomicId operations).protocol.rollbackCoordinator
    by_cases hvalid : ValidCount operations
    · rw [executeAtomic_of_valid env io hvalid]
      rcases runPhases_cases env io (p.track atomicId operations) hvalid with
        ⟨node, heq⟩ | ⟨s, e', -, heq⟩ <;> rw [heq]
      · exact h
      · exact noCheckpoints_fail env h
    · rw [(executeAtomic_of_not_valid env io hvalid).1]
      exact h
  | others => exact h

theorem noCheckpoints_run (dag : DAGGraph) (stateManager : StateManager V)
    (committeeManager : RotatingManager) (nodePublicKey : Bytes) (history : List (ProtocolOp V)) :
    NoCheckpoints (Runs.run (step env) (new dag stateManager committeeManager nodePublicKey)
      history).rollbackCoordinator :=
  Runs.invariant_of_forall (Q := fun _ => True)
    (I := fun p : CrossShardAtomicProtocol V => NoCheckpoints p.rollbackCoordinator)
    (fun _ _ h _ => noCheckpoints_step env h) (fun _ => rfl) fun _ _ => trivial

/-- In every reachable state, an atomic operation that answers with an error
is cleaned up if and only if it is `Undoable`. -/
theorem failed_atomic_clean_iff (dag : DAGGraph) (stateManager : StateManager V)
    (committeeManager : RotatingManager) (nodePublicKey : Bytes) (history : List (ProtocolOp V))
    (atomicId : Hash) (operations : List ShardOperation) (e : AtomicError)
    (p : CrossShardAtomicProtocol V)
    (hp : p = Runs.run (step env) (new dag stateManager committeeManager nodePublicKey) history)
    (hrun : (p.executeAtomic env io atomicId operations).result = .error (.error e)) :
    Clean p (p.executeAtomic env io atomicId operations) atomicId ↔
      p.Undoable env io atomicId operations := by
  subst hp
  have hcheckpoints := noCheckpoints_run env dag stateManager committeeManager nodePublicKey history
  exact executeAtomic_clean_iff env io hcheckpoints hrun

/-! ## Sample calls -/

def samplePlatform : AtomicPlatform Unit :=
  { LockNode.samplePlatform with
    prove := fun _ => .ok []
    proof_le := fun h => by
      obtain rfl := Except.ok.inj h
      decide }

/-- The three validators of `sampleNode` sit in charge of every shard. -/
def sample : CrossShardAtomicProtocol Unit :=
  new (.new .empty 0 4) (.sample []) sampleNode.committeeManager []

def sampleVotes (shardId : ShardId) : List LockVote :=
  [1, 2, 3].map fun validator => ⟨7, shardId, validator, true, [1]⟩

def sampleAcks (shardId : ShardId) : List LockAck :=
  [1, 2, 3].map fun validator => ⟨7, shardId, validator, true, [1]⟩

/-- Votes and acknowledgements of shards 0 and 1 arrive, and some messages
more at the end. -/
def sampleContext (last : List ProtocolMessage) : AtomicContext where
  timedOut := fun _ => false
  prepareSerializeError := fun _ => none
  commitSerializeError := fun _ => none
  lockStale := fun _ => false
  arrivals := [(sampleVotes 0).map .lockVote, (sampleAcks 0).map .lockAck,
    (sampleVotes 1).map .lockVote, (sampleAcks 1).map .lockAck, last]
  generationTime := 0
  proofTime := 0
  vertexTime := fun _ => 0
  dagContext := fun _ => .working

def emptyOperations : List ShardOperation := [⟨0, [], 0⟩, ⟨1, [], 0⟩]

def paidOperations : List ShardOperation := [⟨0, [sampleTx .transfer 1 2 1 0], 0⟩, ⟨1, [], 0⟩]

/-- Shard 0 is source and destination of its proof. -/
def sameShard : AtomicError :=
  .proofGenerationFailed
    "Trace generation failed: Source and destination shard must differ for cross-shard proof"

abbrev sampleRun (last : List ProtocolMessage) (operations : List ShardOperation) :
    AtomicRun Unit :=
  sample.executeAtomic samplePlatform (sampleContext last) 7 operations

/-- All locks are acquired, there is no proof, and everything is undone. -/
theorem failed_atomic_clean_without_proof :
    (sampleRun [] emptyOperations).result = .error (.error sameShard) ∧
      Clean sample (sampleRun [] emptyOperations) 7 := by
  have hrun : (sampleRun [] emptyOperations).result = .error (.error sameShard) := by
    decide
  have hunlocked : (sample.toLockNode.deliver samplePlatform.toNodePlatform
      (sampleContext []).arrivals.flatten).lockManager.localLocks.rows = [] := by
    decide
  refine ⟨hrun, (failed_atomic_clean_iff samplePlatform (sampleContext []) _ _ _ _ [] 7
    emptyOperations sameShard sample rfl hrun).mpr (.inl ⟨by decide, by decide, ?_⟩)⟩
  intro shardId hheld
  unfold Held DistributedLockManager.localLock Table.get at hheld
  rw [hunlocked] at hheld
  cases hheld

/-- The vote of shard 2 for the same id. -/
def thirdLock : ProtocolMessage := .lockCommit ⟨7, 2, sampleVotes 2⟩

/-- An operation with a transaction stays in preparation, with its locks on
record; one without leaves a lock that was asked for on another shard. -/
theorem failed_atomic_leaves_traces :
    ((sampleRun [] paidOperations).result = .error (.error .checkpointNotFound) ∧
        ¬ Clean sample (sampleRun [] paidOperations) 7) ∧
      (sampleRun [thirdLock] emptyOperations).result = .error (.error sameShard) ∧
        ¬ Clean sample (sampleRun [thirdLock] emptyOperations) 7 := by
  refine ⟨⟨by decide, fun h => ?_⟩, by decide, fun h => ?_⟩
  · have hstatus : (sampleRun [] paidOperations).protocol.getStatus 7 = some .preparing := by
      decide
    exact nomatch hstatus.symm.trans h.status
  · have hheld : (sampleRun [thirdLock] emptyOperations).protocol.lockManager.localLock 2
        = some 7 := by
      decide
    exact h.unlocked 2 hheld

end CrossShardAtomicProtocol

end Quantos

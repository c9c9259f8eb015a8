import Quantos.Dag

/-!
# The fast path

`consensus/fast_path.rs`: vertices wait for the votes of the committee in
charge of their shard and are confirmed once the approving stake reaches
the committee's quorum. The stake of the votes is looked up in the current
validator set, the quorum is that of the committee as it was drawn.

`receiveVote` has one spec lemma, `receiveVote_effect`: a call either
leaves the pending vertices alone, or appends the vote to one of them, or
appends it and pre-confirms the vertex because the quorum is reached. The
confirmation that follows writes to executor and graph and never to the
pending vertices, the committees or the set.
-/

namespace Quantos

def MAX_PENDING_VERTICES : Nat := 100000

def MAX_VERTEX_PAYLOAD_SIZE : Nat := 2 * 1024 * 1024

def MAX_PENDING_AGE_SECS : Nat := 30

structure PendingVertex where
  vertex : Vertex
  votes : List CommitteeVote
  receivedAt : Nat
  preConfirmed : Bool
deriving DecidableEq, Repr

def PendingVertex.key (p : PendingVertex) : Hash := p.vertex.hash

/-- The texts of the errors that are passed on as text. -/
def ConsensusError.toText : ConsensusError → String
  | .invalidVertex reason => "Invalid vertex: " ++ reason
  | .invalidVote reason => "Invalid vote: " ++ reason
  | .notCommitteeMember => "Not a committee member"
  | .checkpointVerificationFailed => "Checkpoint verification failed"
  | .storageError reason => "Storage error: " ++ reason
  | .cryptoError reason => "Crypto error: " ++ reason
  | .resourceExhausted reason => "Resource exhausted: " ++ reason
  | .arithmeticOverflow reason => "Arithmetic overflow: " ++ reason
  | .unauthorized reason => "Unauthorized: " ++ reason
  | .invalidData reason => "Invalid data: " ++ reason
  | .invalidValidator reason => "Invalid validator: " ++ reason

structure FastPath (V : Type) where
  dag : DAGGraph
  executor : OptimisticExecutor V
  committeeManager : RotatingManager
  pendingVertices : Table PendingVertex.key
  confirmedVertices : Table Vertex.key
  pendingCount : UInt64

/-- Clock, disk and thread pool during a call that adds a vertex.
`executeError` is the error a speculation ends with when the disk of the
state fails. -/
structure VertexContext where
  now : Nat
  timestamp : UInt64
  dag : DagContext
  schedule : (txs : List SignedTransaction) → Schedule txs
  sign : Bytes → Except String Bytes
  executeError : Option String

/-- The disk during a confirmation: the two graph writes, and the write of
the accounts before them. -/
structure ConfirmContext where
  add : DagContext
  status : DagContext
  commitError : Option String

namespace FastPath

variable {V : Type} (env : Platform V)

def new (dag : DAGGraph) (executor : OptimisticExecutor V) (committeeManager : RotatingManager) :
    FastPath V where
  dag := dag
  executor := executor
  committeeManager := committeeManager
  pendingVertices := Table.empty
  confirmedVertices := Table.empty
  pendingCount := 0

/-! ## Vertices arrive -/

def pendingLimit : ConsensusError :=
  .resourceExhausted ("Pending vertices limit reached: " ++ toString MAX_PENDING_VERTICES)

variable (fp : FastPath V)

/-- A vertex starts to wait, without votes. -/
def await (vertex : Vertex) (now : Nat) : FastPath V :=
  { fp with
    pendingVertices := fp.pendingVertices.put ⟨vertex, [], now, false⟩
    pendingCount := fp.pendingCount + 1 }

/-- `transactions` is the payload the vertex builder drained from the
ingress buffer. -/
def createVertex (io : VertexContext) (fp : FastPath V) (shardId : ShardId) (creator : Address)
    (transactions : List SignedTransaction) : Except ConsensusError Vertex × FastPath V :=
  if transactions.isEmpty then (.error (.invalidVertex "No transactions"), fp)
  else
    match fp.dag.createVertex env.hashData io.timestamp shardId transactions creator with
    | .error e => (.error (.invalidVertex e.toText), fp)
    | .ok vertex =>
      match io.executeError with
      | some e => (.error (.invalidVertex e), fp)
      | none =>
        let (stateRoot, executor) :=
          fp.executor.speculativeExecute env vertex.toDAGVertex (io.schedule _)
        let vertex := vertex.setStateRoot stateRoot
        let fp := { fp with executor }
        match io.sign vertex.signingData with
        | .error e => (.error (.cryptoError e), fp)
        | .ok signature =>
          let vertex := vertex.setSignature signature
          if fp.pendingCount.toNat ≥ MAX_PENDING_VERTICES then (.error pendingLimit, fp)
          else (.ok vertex, fp.await vertex io.now)

def payloadSize (vertex : Vertex) : Nat :=
  (vertex.transactions.map fun tx =>
    tx.transaction.data.length + tx.transaction.signature.length + 128).sum

/-- The loop over the parents, which stops at the first one missing. -/
def checkParents (io : DagContext) (fp : FastPath V) : List Hash → Except ConsensusError Unit
  | [] => .ok ()
  | parent :: rest =>
    match fp.dag.getVertex io parent with
    | .error e => .error (.storageError e.toText)
    | .ok none => .error (.invalidVertex "Missing parent")
    | .ok (some _) => fp.checkParents io rest

def receiveVertex (io : VertexContext) (fp : FastPath V) (vertex : Vertex) :
    Except ConsensusError Unit × FastPath V :=
  if (fp.pendingVertices.get vertex.hash).isSome then (.ok (), fp)
  else if payloadSize vertex > MAX_VERTEX_PAYLOAD_SIZE then
    (.error (.resourceExhausted ("Vertex payload too large: " ++ toString (payloadSize vertex)
      ++ " bytes (max " ++ toString MAX_VERTEX_PAYLOAD_SIZE ++ ")")), fp)
  else
    match fp.checkParents io.dag vertex.parents with
    | .error e => (.error e, fp)
    | .ok () =>
      match io.executeError with
      | some e => (.error (.invalidVertex e), fp)
      | none =>
        let (stateRoot, executor) :=
          fp.executor.speculativeExecute env vertex.toDAGVertex (io.schedule _)
        if stateRoot ≠ vertex.stateRoot then
          (.error (.invalidVertex "State root mismatch"),
            { fp with executor := executor.rollbackExecution vertex.hash })
        else if fp.pendingCount.toNat ≥ MAX_PENDING_VERTICES then
          (.error pendingLimit, { fp with executor := executor.rollbackExecution vertex.hash })
        else (.ok (), ({ fp with executor } : FastPath V).await vertex io.now)

/-- The cleanup task drops what has waited too long. -/
def cleanup (now : Nat) : FastPath V :=
  let toRemove := (fp.pendingVertices.rows.filter fun p =>
    now - p.receivedAt > MAX_PENDING_AGE_SECS).map PendingVertex.key
  toRemove.foldl (fun fp hash =>
    { fp with
      pendingVertices := fp.pendingVertices.erase hash
      executor := fp.executor.rollbackExecution hash
      pendingCount := fp.pendingCount - 1 }) fp

/-! ## Confirmation -/

def confirmVertex (io : ConfirmContext) (fp : FastPath V) (vertex : Vertex) :
    Except ConsensusError (Option (Hash × List TransactionReceipt)) × FastPath V :=
  let (result, executor) := fp.executor.confirmExecutionOn env io.commitError vertex.hash
  match fp.dag.addVertex io.add vertex with
  | (.error e, dag) => (.error (.storageError e.toText), { fp with executor, dag })
  | (.ok (), dag) =>
    let confirmedVertices := fp.confirmedVertices.put vertex
    match dag.updateVertexStatusInternal io.status vertex.hash .confirmed with
    | (.error e, dag) =>
      (.error (.storageError e.toText), { fp with executor, dag, confirmedVertices })
    | (.ok (), dag) => (.ok result, { fp with executor, dag, confirmedVertices })

/-- Confirmation without votes, when all validators run on one node. -/
def confirmVertexDirect (io : ConfirmContext) (fp : FastPath V) (vertex : Vertex) :
    Except ConsensusError (Option (Hash × List TransactionReceipt)) × FastPath V :=
  let fp :=
    if (fp.pendingVertices.get vertex.hash).isSome then
      { fp with
        pendingVertices := fp.pendingVertices.erase vertex.hash
        pendingCount := fp.pendingCount - 1 }
    else fp
  fp.confirmVertex env io vertex

/-- The batch stops at the first error. The disk answers to each
confirmation anew. -/
def confirmVerticesBatchDirect (io : Nat → ConfirmContext) (fp : FastPath V) : List Vertex →
    Except ConsensusError (List (Hash × List TransactionReceipt × List SignedTransaction)) ×
      FastPath V
  | [] => (.ok [], fp)
  | vertex :: rest =>
    match fp.confirmVertexDirect env (io 0) vertex with
    | (.error e, fp) => (.error e, fp)
    | (.ok confirm, fp) =>
      match confirmVerticesBatchDirect (fun i => io (i + 1)) fp rest with
      | (.error e, fp) => (.error e, fp)
      | (.ok results, fp) =>
        (.ok ((confirm.map fun (stateRoot, receipts) =>
          (stateRoot, receipts, vertex.transactions)).toList ++ results), fp)

/-! ## Votes -/

variable (pending : PendingVertex) (vote : CommitteeVote)

def notFound (address : Address) : ConsensusError :=
  .invalidValidator ("Validator " ++ debugArray address ++ " not found")

/-- The approving stake, in the set as it is now. -/
def approveStake (set : ValidatorSet) (votes : List CommitteeVote) : U128 :=
  (((votes.filter CommitteeVote.approve).filterMap fun v => set.getValidator v.validator).map
    Validator.effectiveStake).sum

/-- The checks on a vote for a pending vertex. -/
def checkVote : Except ConsensusError Committee :=
  match fp.committeeManager.sitting pending.vertex.shardId with
  | none => .error .notCommitteeMember
  | some committee =>
    if !committee.hasMember vote.validator then .error .notCommitteeMember
    else if pending.votes.any (fun existing => existing.validator = vote.validator) then
      .error (.invalidVote "duplicate vote from validator")
    else
      match fp.committeeManager.validatorSet.getValidator vote.validator with
      | none => .error (notFound vote.validator)
      | some validator =>
        if !env.verifyMlDsa65 validator.publicKey vote.signingData vote.signature then
          .error (.invalidVote "invalid vote signature")
        else .ok committee

def pushVote : PendingVertex :=
  { pending with votes := pending.votes ++ [vote] }

def preConfirm : PendingVertex :=
  { pending with vertex := pending.vertex.setStatus .preConfirmed, preConfirmed := true }

def setPending : FastPath V :=
  { fp with pendingVertices := fp.pendingVertices.put pending }

/-- The vote is kept whatever the count says. -/
def countVote (io : ConfirmContext) (fp : FastPath V) (committee : Committee)
    (pending : PendingVertex) :
    Except ConsensusError (Option (Hash × List TransactionReceipt)) × FastPath V :=
  match committee.quorumThreshold with
  | .error e => (.error (.invalidVertex e.toText), fp.setPending pending)
  | .ok quorum =>
    if approveStake fp.committeeManager.validatorSet pending.votes ≥ quorum ∧
        pending.preConfirmed = false then
      (fp.setPending (preConfirm pending)).confirmVertex env io (preConfirm pending).vertex
    else (.ok none, fp.setPending pending)

def receiveVote (io : ConfirmContext) (fp : FastPath V) (vote : CommitteeVote) :
    Except ConsensusError (Option (Hash × List TransactionReceipt)) × FastPath V :=
  match fp.pendingVertices.get vote.vertexHash with
  | none => (.ok none, fp)
  | some pending =>
    match fp.checkVote env pending vote with
    | .error e => (.error e, fp)
    | .ok committee => fp.countVote env io committee (pushVote pending vote)

/-! ## What a vote can do -/

section Effects

theorem confirmVertex_frame {io : ConfirmContext} {fp : FastPath V} {vertex : Vertex} :
    (fp.confirmVertex env io vertex).2.committeeManager = fp.committeeManager ∧
      (fp.confirmVertex env io vertex).2.pendingVertices = fp.pendingVertices := by
  unfold confirmVertex
  dsimp only
  split
  · exact ⟨rfl, rfl⟩
  · split <;> exact ⟨rfl, rfl⟩

variable {env}

/-- What the checks on a vote establish. -/
structure Accepted (env : Platform V) (fp : FastPath V) (pending : PendingVertex)
    (vote : CommitteeVote) (committee : Committee) : Prop where
  sitting : fp.committeeManager.sitting pending.vertex.shardId = some committee
  isMember : committee.hasMember vote.validator = true
  fresh : vote.validator ∉ pending.votes.map CommitteeVote.validator
  signed : ∃ v, fp.committeeManager.validatorSet.getValidator vote.validator = some v ∧
    env.verifyMlDsa65 v.publicKey vote.signingData vote.signature = true

theorem accepted_of_checkVote {fp : FastPath V} {pending : PendingVertex} {vote : CommitteeVote}
    {committee : Committee} (h : fp.checkVote env pending vote = .ok committee) :
    Accepted env fp pending vote committee := by
  unfold checkVote at h
  split at h
  · cases h
  rename_i c hc
  split at h
  · cases h
  rename_i hmember
  split at h
  · cases h
  rename_i hfresh
  split at h
  · cases h
  rename_i v hv
  split at h
  · cases h
  rename_i hvalid
  obtain rfl := Except.ok.inj h
  refine ⟨hc, by simpa using hmember, fun hmem => hfresh ?_, v, hv, by simpa using hvalid⟩
  obtain ⟨existing, hexisting, heq⟩ := List.mem_map.mp hmem
  exact List.any_eq_true.mpr ⟨existing, hexisting, by simpa using heq⟩

/-- Every way a call of `receiveVote` can leave the pending vertices. -/
inductive VoteEffect (env : Platform V) (fp : FastPath V) (vote : CommitteeVote) :
    Table PendingVertex.key → Prop where
  | ignored : VoteEffect env fp vote fp.pendingVertices
  | counted {pending : PendingVertex} {committee : Committee}
      (hget : fp.pendingVertices.get vote.vertexHash = some pending)
      (haccepted : Accepted env fp pending vote committee) :
      VoteEffect env fp vote (fp.pendingVertices.put (pushVote pending vote))
  | confirmed {pending : PendingVertex} {committee : Committee} {quorum : U128}
      (hget : fp.pendingVertices.get vote.vertexHash = some pending)
      (haccepted : Accepted env fp pending vote committee)
      (hquorum : committee.quorumThreshold = .ok quorum)
      (hreached : quorum ≤
        approveStake fp.committeeManager.validatorSet (pushVote pending vote).votes)
      (hfirst : pending.preConfirmed = false) :
      VoteEffect env fp vote (fp.pendingVertices.put (preConfirm (pushVote pending vote)))

variable (env) in
theorem receiveVote_effect (io : ConfirmContext) (fp : FastPath V) (vote : CommitteeVote) :
    (fp.receiveVote env io vote).2.committeeManager = fp.committeeManager ∧
      VoteEffect env fp vote (fp.receiveVote env io vote).2.pendingVertices := by
  unfold receiveVote
  split
  · exact ⟨rfl, .ignored⟩
  rename_i pending hget
  split
  · exact ⟨rfl, .ignored⟩
  rename_i committee hcheck
  have haccepted := accepted_of_checkVote hcheck
  unfold countVote
  split
  · exact ⟨rfl, .counted hget haccepted⟩
  rename_i quorum hquorum
  split
  · rename_i hreached
    obtain ⟨hcm, hpending⟩ := confirmVertex_frame env
    rw [hcm, hpending]
    exact ⟨rfl, .confirmed hget haccepted hquorum hreached.1 hreached.2⟩
  · exact ⟨rfl, .counted hget haccepted⟩

end Effects

/-! ## What the other calls do to the pending vertices

They drop some, or add one that has no votes yet. -/

structure Unvoted (fp fp' : FastPath V) : Prop where
  manager : fp'.committeeManager = fp.committeeManager
  pending : ∀ p ∈ fp'.pendingVertices.rows, p ∈ fp.pendingVertices.rows ∨ p.votes = []

variable {fp : FastPath V} {vertex : Vertex}

theorem Unvoted.refl : Unvoted fp fp := ⟨rfl, fun _ h => .inl h⟩

theorem Unvoted.trans {fp₁ fp₂ fp₃ : FastPath V} (h₁ : Unvoted fp₁ fp₂) (h₂ : Unvoted fp₂ fp₃) :
    Unvoted fp₁ fp₃ where
  manager := h₂.manager.trans h₁.manager
  pending := fun p hp => (h₂.pending p hp).elim (h₁.pending p) .inr

theorem unvoted_await {now : Nat} : Unvoted fp (fp.await vertex now) where
  manager := rfl
  pending := fun p hp => by
    rcases Table.mem_rows_put hp with rfl | hp
    · exact .inr rfl
    · exact .inl hp

theorem unvoted_executor {executor : OptimisticExecutor V} : Unvoted fp
    { fp with executor } := ⟨rfl, fun _ h => .inl h⟩

/-- What creating or receiving a vertex can do: nothing, a speculation, one
that is taken back, or one after which a vertex waits. -/
inductive IngressEffect (fp : FastPath V) : FastPath V → Prop
  | refused : IngressEffect fp fp
  | speculated (v : DAGVertex) (schedule : Schedule v.transactions) :
      IngressEffect fp { fp with executor := (fp.executor.speculativeExecute env v schedule).2 }
  | rolledBack (v : DAGVertex) (schedule : Schedule v.transactions) (hash : Hash) :
      IngressEffect fp { fp with
        executor := (fp.executor.speculativeExecute env v schedule).2.rollbackExecution hash }
  | awaiting (v : DAGVertex) (schedule : Schedule v.transactions) (vertex : Vertex) (now : Nat) :
      IngressEffect fp (({ fp with
        executor := (fp.executor.speculativeExecute env v schedule).2 } : FastPath V).await
          vertex now)

variable {io : VertexContext}

theorem createVertex_effect {shardId : ShardId} {creator : Address}
    {transactions : List SignedTransaction} :
    IngressEffect env fp (fp.createVertex env io shardId creator transactions).2 := by
  unfold createVertex
  split
  · exact .refused
  split
  · exact .refused
  split
  · exact .refused
  dsimp only
  split
  · exact .speculated _ _
  split
  · exact .speculated _ _
  · exact .awaiting _ _ _ _

theorem receiveVertex_effect : IngressEffect env fp (fp.receiveVertex env io vertex).2 := by
  unfold receiveVertex
  split
  · exact .refused
  split
  · exact .refused
  split
  · exact .refused
  split
  · exact .refused
  dsimp only
  split
  · exact .rolledBack _ _ _
  split
  · exact .rolledBack _ _ _
  · exact .awaiting _ _ _ _

variable {env} in
theorem IngressEffect.unvoted {fp' : FastPath V} (h : IngressEffect env fp fp') :
    Unvoted fp fp' := by
  cases h with
  | refused => exact .refl
  | speculated => exact unvoted_executor
  | rolledBack => exact unvoted_executor
  | awaiting => exact unvoted_executor.trans unvoted_await

theorem unvoted_cleanup {now : Nat} : Unvoted fp (fp.cleanup now) := by
  refine List.foldlRecOn (motive := Unvoted fp) _ _ .refl fun fp' hfp' hash _ => ?_
  exact hfp'.trans ⟨rfl, fun _ hp => .inl (Table.mem_rows_erase hp)⟩

theorem unvoted_confirmVertexDirect (io : ConfirmContext) (fp : FastPath V) (vertex : Vertex) :
    Unvoted fp (fp.confirmVertexDirect env io vertex).2 := by
  unfold confirmVertexDirect
  refine Unvoted.trans ?_ ⟨(confirmVertex_frame env).1, fun p hp => ?_⟩
  · split
    · exact ⟨rfl, fun _ hp => .inl (Table.mem_rows_erase hp)⟩
    · exact .refl
  · rw [(confirmVertex_frame env).2] at hp
    exact .inl hp

theorem unvoted_confirmVerticesBatchDirect (io : Nat → ConfirmContext) (vertices : List Vertex)
    (fp : FastPath V) : Unvoted fp (fp.confirmVerticesBatchDirect env io vertices).2 := by
  induction vertices generalizing io fp with
  | nil => exact .refl
  | cons vertex rest ih =>
    have hfirst := unvoted_confirmVertexDirect env (io 0) fp vertex
    rw [confirmVerticesBatchDirect]
    split
    · rename_i heq
      rw [heq] at hfirst
      exact hfirst
    rename_i fp' heq
    rw [heq] at hfirst
    have hrest := ih (fun i => io (i + 1)) fp'
    split
    all_goals
      rename_i heq'
      rw [heq'] at hrest
      exact hfirst.trans hrest

end FastPath

/-! ## The calls -/

inductive FastPathOp where
  | createVertex (shardId : ShardId) (creator : Address) (transactions : List SignedTransaction)
      (io : VertexContext)
  | receiveVertex (vertex : Vertex) (io : VertexContext)
  | receiveVote (vote : CommitteeVote) (io : ConfirmContext)
  | confirmDirect (vertices : List Vertex) (io : Nat → ConfirmContext)
  | cleanup (now : Nat)
  | rotate (epoch slot : UInt64) (randomness : Hash) (tries : Nat)
  | addValidator (validator : Validator)
  | removeValidator (address : Address)
  | slash (address : Address) (percentage : UInt16)
  | jail (address : Address)

namespace FastPath

variable {V : Type} (env : Platform V) (fp : FastPath V)

def setValidators (set : ValidatorSet) : FastPath V :=
  { fp with committeeManager := { fp.committeeManager with validatorSet := set } }

/-- A refused change leaves everything as it was. -/
def addValidator (fp : FastPath V) (validator : Validator) : FastPath V :=
  match fp.committeeManager.toCommitteeManager.addValidator validator with
  | .error _ => fp
  | .ok cm => fp.setValidators cm.validatorSet

@[inherit_doc addValidator]
def slash (address : Address) (percentage : UInt16) : FastPath V :=
  match fp.committeeManager.validatorSet.slashValidator address percentage with
  | .error _ => fp
  | .ok (_, set) => fp.setValidators set

def rotate (epoch slot : UInt64) (randomness : Hash) (tries : Nat) : FastPath V :=
  { fp with committeeManager :=
      (fp.committeeManager.rotateCommittees env.hashData epoch slot randomness tries).2 }

def step : FastPathOp → FastPath V
  | .createVertex shardId creator transactions io =>
    (fp.createVertex env io shardId creator transactions).2
  | .receiveVertex vertex io => (fp.receiveVertex env io vertex).2
  | .receiveVote vote io => (fp.receiveVote env io vote).2
  | .confirmDirect vertices io => (fp.confirmVerticesBatchDirect env io vertices).2
  | .cleanup now => fp.cleanup now
  | .rotate epoch slot randomness tries => fp.rotate env epoch slot randomness tries
  | .addValidator validator => fp.addValidator validator
  | .removeValidator address =>
    fp.setValidators (fp.committeeManager.toCommitteeManager.removeValidator address).validatorSet
  | .slash address percentage => fp.slash address percentage
  | .jail address => fp.setValidators (fp.committeeManager.validatorSet.jailValidator address)

end FastPath

end Quantos

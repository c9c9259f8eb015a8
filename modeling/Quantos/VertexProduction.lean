import Quantos.ConfirmedExecution
import Quantos.Groups
import Quantos.VerifyCache

/-!
# Producing the vertices of a slot

`try_produce_vertices_static` of `consensus/quantos.rs`: vertices are
created for the shards with pending transactions, confirmed, and their
receipts written to disk with slot and vertex hash filled in. With up to
five validators the vertices are confirmed in one batch without votes
(`autoConfirm`), otherwise each gets the vote of this node (`voteAll`).

The batch returns results only for the vertices whose execution was
committed, and the two lists are then walked in step. A vertex without a
result shifts all the later results by one. So the receipts carry the hash of
the vertex with their transaction exactly when no account write of the batch
fails before one that succeeds (`receipts_placed_iff`).

Clock, disk, ingress buffer, vertex builder, signatures and the thread pool
are choices of the environment, one `ProductionContext` per slot.
-/

namespace Quantos

open List Table

/-- The two counts are read `as u16`. -/
structure NodeConfig where
  numShards : UInt16
  numCommittees : UInt16

structure ValidatorKeys where
  address : Address
  secretKey : Bytes

/-- Clock, signature and disk while this node votes for one of its vertices. -/
structure Ballot where
  timestamp : UInt64
  sign : Bytes → Except String Bytes
  confirm : ConfirmContext

structure ProductionContext where
  pendingForShard : ShardId → Nat
  payload : ShardId → List SignedTransaction
  create : ShardId → VertexContext
  /-- The order in which the thread pool gets to the shards. -/
  order : List ShardId → List ShardId
  order_perm : ∀ shards, (order shards).Perm shards
  confirm : Nat → ConfirmContext
  ballot : Nat → Ballot
  storeError : Option String

/-- The batch of `put_finalized_batch`. -/
structure Finalized where
  receipts : List TransactionReceipt
  transactions : List SignedTransaction
deriving DecidableEq, Repr

variable {V : Type} (env : Platform V)

namespace FastPath

/-! ## The slot -/

variable (io : ProductionContext) (slot : UInt64) (fp : FastPath V)

/-- Without votes, when all validators may run on this node. -/
def autoConfirms : Bool :=
  fp.committeeManager.validatorSet.validators.length ≤ 5

def isCommitteeMember (epoch : UInt64) (committeeId : UInt16) (address : Address) : Bool :=
  (fp.committeeManager.getCommittee epoch committeeId).elim false fun c => c.hasMember address

/-- The remainder panics without committees; the node is a member of none then. -/
def activeShards (config : NodeConfig) (address : Address) (io : ProductionContext)
    (slot : UInt64) (fp : FastPath V) : List ShardId :=
  (((List.range config.numShards.toNat).map UInt16.ofNat).filter fun shardId =>
    fp.autoConfirms || (config.numCommittees ≠ 0 &&
      fp.isCommitteeMember (slot / 32) (shardId % config.numCommittees) address)).filter
    fun shardId => io.pendingForShard shardId > 0

/-- The vertices of the shards, created one after another. -/
def createEach (io : ProductionContext) (creator : Address) (fp : FastPath V) :
    List ShardId → List (ShardId × Except ConsensusError Vertex) × FastPath V
  | [] => ([], fp)
  | shardId :: rest =>
    let (result, fp) := fp.createVertex env (io.create shardId) shardId creator
      (io.payload shardId)
    let (made, fp) := createEach io creator fp rest
    ((shardId, result) :: made, fp)

/-- The results come in the order of the shards, whatever the thread pool does. -/
def createVerticesParallel (creator : Address) (fp : FastPath V) (shardIds : List ShardId) : List
    (Except ConsensusError Vertex) × FastPath V :=
  let (made, fp) := fp.createEach env io creator (io.order shardIds)
  (shardIds.filterMap fun shardId => (made.find? fun m => m.1 = shardId).map Prod.snd, fp)

/-- Slot and vertex hash, which the execution left open. -/
def fixReceipts (vertex : Vertex) (receipts : List TransactionReceipt) : List TransactionReceipt :=
  receipts.map fun r => { r with slot, vertexHash := vertex.hash }

/-- A write that fails is logged and forgotten. -/
def putFinalizedBatch (committedCount : Nat) (batch : Finalized) : Option Finalized :=
  if committedCount > 0 ∧ io.storeError = none then some batch else none

def autoConfirm (vertices : List Vertex) : Except ConsensusError (Option Finalized) × FastPath V :=
  match fp.confirmVerticesBatchDirect env io.confirm vertices with
  | (.error e, fp) => (.error e, fp)
  | (.ok batch, fp) =>
    let pairs := vertices.zip batch
    (.ok (putFinalizedBatch io pairs.length
      { receipts := pairs.flatMap fun (vertex, _, receipts, _) =>
          fixReceipts slot vertex receipts
        transactions := pairs.flatMap fun (_, _, _, txs) => txs }), fp)

def createVote (ballot : Ballot) (vertexHash : Hash) (keys : ValidatorKeys) (approve : Bool)
    (stakeWeight : UInt64) : Except ConsensusError CommitteeVote :=
  let vote : CommitteeVote := ⟨keys.address, vertexHash, approve, stakeWeight, [], ballot.timestamp⟩
  match ballot.sign vote.signingData with
  | .error e => .error (.cryptoError e)
  | .ok signature =>
    if keys.secretKey.length < MLDSA65_PUBLIC_KEY_SIZE then
      .error (.cryptoError "ML-DSA-65 secret key is too short to derive public key")
    else .ok { vote with signature }

/-- The loop of a node that is not alone; it gives the vertices its own vote
confirmed, with their receipts, and stops at the first error. -/
def voteAll (keys : ValidatorKeys) (ballot : Nat → Ballot) (fp : FastPath V) :
    List (Except ConsensusError Vertex) →
    Except ConsensusError (List (Vertex × List TransactionReceipt)) × FastPath V
  | [] => (.ok [], fp)
  | .error _ :: rest => voteAll keys (fun i => ballot (i + 1)) fp rest
  | .ok vertex :: rest =>
    match createVote (ballot 0) vertex.hash keys true 1 with
    | .error e => (.error e, fp)
    | .ok vote =>
      match fp.receiveVote env (ballot 0).confirm vote with
      | (.error e, fp) => (.error e, fp)
      | (.ok confirmed, fp) =>
        match voteAll keys (fun i => ballot (i + 1)) fp rest with
        | (.error e, fp) => (.error e, fp)
        | (.ok committed, fp) =>
          (.ok ((confirmed.map fun (_, receipts) => (vertex, receipts)).toList
            ++ committed), fp)

/-- What the slot writes to the receipt and transaction tables. -/
def tryProduceVertices (config : NodeConfig) (keys : ValidatorKeys) (io : ProductionContext)
    (slot : UInt64) (fp : FastPath V) : Except ConsensusError (Option Finalized) × FastPath V :=
  let activeShards := fp.activeShards config keys.address io slot
  if activeShards.isEmpty then (.ok none, fp)
  else
    let (results, fp') := fp.createVerticesParallel env io keys.address activeShards
    if fp.autoConfirms then
      let vertices := results.filterMap Except.toOption
      if vertices.isEmpty then (.ok none, fp') else fp'.autoConfirm env io slot vertices
    else
      match fp'.voteAll env keys io.ballot results with
      | (.error e, fp) => (.error e, fp)
      | (.ok committed, fp) =>
        (.ok (putFinalizedBatch io committed.length
          { receipts := committed.flatMap fun (vertex, receipts) =>
              fixReceipts slot vertex receipts
            transactions := committed.flatMap fun (vertex, _) => vertex.transactions }), fp)

end FastPath

/-! ## The receipts of a batch -/

namespace StateManager

variable (s : StateManager V) (p : Bool)

theorem txHash_receiptOf (tx : SignedTransaction) (overlay : AccountTable) :
    (receiptOf tx (s.executeTransactionOverlay env tx overlay p).1).txHash = tx.hash := by
  unfold executeTransactionOverlay
  split
  · rfl
  dsimp only
  split
  · rfl
  split
  · rfl
  · rfl

theorem txHash_executeSequence (s : StateManager V) (overlay : AccountTable)
    (txs : List SignedTransaction) :
    (executeSequence env p s overlay txs).1.map TransactionReceipt.txHash
      = txs.map SignedTransaction.hash := by
  induction txs generalizing s overlay with
  | nil => rfl
  | cons tx txs ih =>
    rw [executeSequence, map_cons, map_cons, txHash_receiptOf, ih]

theorem txHash_executeGroups (s : StateManager V) (overlays : Address → AccountTable)
    (order : List (SignedTransaction × Nat)) :
    ∀ r ∈ (executeGroups env p s overlays order).results,
      (receiptOf r.1.1 r.2).txHash = r.1.1.hash := by
  induction order generalizing s overlays with
  | nil => exact fun _ h => absurd h not_mem_nil
  | cons head order ih =>
    obtain ⟨tx, i⟩ := head
    rw [executeGroups_cons]
    exact forall_mem_cons.mpr ⟨txHash_receiptOf .., ih _ _⟩

/-- On both paths a batch leaves one receipt for each of its transactions,
under the hash the transaction carries. -/
theorem txHash_prepareTransactions (txs : List SignedTransaction) (schedule : Schedule txs) :
    (s.prepareTransactions env txs schedule).1.receipts.map TransactionReceipt.txHash
      = txs.map SignedTransaction.hash := by
  have hreceipts : (s.prepareTransactions env txs schedule).1.receipts
      = (batchRun env true s txs schedule).1 :=
    congrArg StateExecution.receipts (executeTransactionsOverlay_fst ..)
  rw [hreceipts]
  by_cases hshort : txs.length ≤ 8
  · rw [batchRun_sequential _ _ s _ hshort, txHash_executeSequence]
  obtain ⟨sorted, hperm, htxs, hsorted⟩ := collectReceipts_sorted schedule
    (executeGroups_results_map env true s _ schedule.order)
  rw [(batchRun_parallel env true s schedule hshort).1, hsorted, map_map]
  conv_rhs => rw [← map_fst_of_zipIdx htxs, map_map]
  exact map_congr_left fun r hr => txHash_executeGroups env true s _ _ r (hperm.mem_iff.mp hr)

end StateManager

namespace FastPath

/-! ## The vertices of a slot -/

variable {env} {fp : FastPath V}

variable (env) in
/-- The vertex of a shard as the graph makes it, before it is run and signed. -/
def draft (creator : Address) (io : ProductionContext) (dag : DAGGraph) (shardId : ShardId) :
    Option Vertex :=
  (dag.createVertex env.hashData (io.create shardId).timestamp shardId (io.payload shardId)
    creator).toOption

/-- Two vertices that share neither the hash nor a transaction. -/
def Distinct (v w : Vertex) : Prop :=
  v.hash ≠ w.hash ∧ ∀ tx ∈ v.transactions, ∀ tx' ∈ w.transactions, tx.hash ≠ tx'.hash

instance (v w : Vertex) : Decidable (Distinct v w) := inferInstanceAs (Decidable (_ ∧ _))

theorem Distinct.symm {v w : Vertex} (h : Distinct v w) : Distinct w v :=
  ⟨h.1.symm, fun tx htx tx' htx' => (h.2 tx' htx' tx htx).symm⟩

/-- The executor has a result for the vertex, with the receipts of its
transactions. -/
def Speculated (fp : FastPath V) (v : Vertex) : Prop :=
  ∃ r, fp.executor.speculativeResults.get v.hash = some r ∧
    r.execution.receipts.map TransactionReceipt.txHash = v.transactions.map SignedTransaction.hash

variable (env) in
/-- A vertex made from the draft of its shard. -/
def Drafted (creator : Address) (io : ProductionContext) (dag : DAGGraph) (shardId : ShardId)
    (v : Vertex) : Prop :=
  v.transactions ≠ [] ∧ ∃ d, draft env creator io dag shardId = some d ∧ v.hash = d.hash ∧
    v.transactions = d.transactions

theorem transactions_of_createVertex {dag : DAGGraph} {hashData : Bytes → Hash} {now : UInt64}
    {shardId : ShardId} {txs : List SignedTransaction} {creator : Address} {v : Vertex}
    (h : dag.createVertex hashData now shardId txs creator = .ok v) : v.transactions = txs := by
  unfold DAGGraph.createVertex Vertex.new at h
  grind

variable {creator : Address} {io : ProductionContext}

/-- A creation leaves the graph alone and speculates on the draft only. -/
theorem createVertex_spec {shardId : ShardId} {made : Except ConsensusError Vertex × FastPath V}
    (h : fp.createVertex env (io.create shardId) shardId creator (io.payload shardId) = made) :
    made.2.dag = fp.dag ∧
      (∀ hash, (∀ d, draft env creator io fp.dag shardId = some d → d.hash ≠ hash) →
        made.2.executor.speculativeResults.get hash = fp.executor.speculativeResults.get hash) ∧
      ∀ v, made.1 = .ok v → Drafted env creator io fp.dag shardId v ∧ Speculated made.2 v := by
  subst h
  refine ⟨(createVertex_effect env).dag, ?_⟩
  unfold createVertex Drafted draft
  split
  · exact ⟨fun _ _ => rfl, fun _ h => (by cases h)⟩
  rename_i hpayload
  cases hdraft : fp.dag.createVertex env.hashData (io.create shardId).timestamp shardId
    (io.payload shardId) creator with
  | error => exact ⟨fun _ _ => rfl, fun _ h => (by cases h)⟩
  | ok d =>
  cases (io.create shardId).executeError with
  | some => exact ⟨fun _ _ => rfl, fun _ h => (by cases h)⟩
  | none =>
    have hother : ∀ hash, (∀ d', (Except.ok d : Except DAGError Vertex).toOption = some d' →
        d'.hash ≠ hash) → (fp.executor.speculativeExecute env d.toDAGVertex
          ((io.create shardId).schedule _)).2.speculativeResults.get hash
        = fp.executor.speculativeResults.get hash := fun hash hne =>
      get_put_of_ne _ (hne d rfl)
    dsimp only
    split
    · exact ⟨hother, fun _ h => (by cases h)⟩
    split
    · exact ⟨hother, fun _ h => (by cases h)⟩
    refine ⟨hother, ?_⟩
    rintro v ⟨⟩
    have htxs : d.transactions ≠ [] := by
      rw [transactions_of_createVertex hdraft]
      simpa using hpayload
    exact ⟨⟨htxs, d, rfl, rfl, rfl⟩, _, get_put_self ..,
      StateManager.txHash_prepareTransactions env _ _ _⟩

variable (env) in
/-- The drafts of two shards have different hashes and share no transaction:
no two of them collide, and a transaction waits in the channel of one shard. -/
def DraftsApart (creator : Address) (io : ProductionContext) (dag : DAGGraph)
    (shardIds : List ShardId) : Prop :=
  ∀ s ∈ shardIds, ∀ s' ∈ shardIds, s ≠ s' → ∀ d ∈ draft env creator io dag s,
    ∀ d' ∈ draft env creator io dag s', Distinct d d'

theorem createEach_spec (shardIds : List ShardId) : ∀ {fp : FastPath V}, shardIds.Nodup →
    DraftsApart env creator io fp.dag shardIds →
    (fp.createEach env io creator shardIds).2.dag = fp.dag ∧
      (∀ hash, (∀ s ∈ shardIds, ∀ d, draft env creator io fp.dag s = some d → d.hash ≠ hash) →
        (fp.createEach env io creator shardIds).2.executor.speculativeResults.get hash
          = fp.executor.speculativeResults.get hash) ∧
      ∀ m ∈ (fp.createEach env io creator shardIds).1, ∀ v, m.2 = .ok v →
        m.1 ∈ shardIds ∧ Drafted env creator io fp.dag m.1 v ∧
          Speculated (fp.createEach env io creator shardIds).2 v := by
  induction shardIds with
  | nil => exact fun _ _ => ⟨rfl, fun _ _ => rfl, fun _ hm => absurd hm not_mem_nil⟩
  | cons s rest ih =>
    intro fp hnodup hapart
    obtain ⟨hs, hrest⟩ := nodup_cons.mp hnodup
    obtain ⟨hdag, hother, hmade⟩ := @createVertex_spec _ env fp creator io s _ rfl
    obtain ⟨hdag', hother', hmade'⟩ := @ih (fp.createVertex env (io.create s) s creator
      (io.payload s)).2 hrest (by
        rw [hdag]
        exact fun a ha b hb => hapart a (mem_cons_of_mem _ ha) b (mem_cons_of_mem _ hb))
    rw [hdag] at hdag' hother' hmade'
    refine ⟨hdag', fun hash hne => ?_, fun m hm v hv => ?_⟩
    · exact (hother' hash fun a ha => hne a (mem_cons_of_mem _ ha)).trans
        (hother hash (hne s mem_cons_self))
    · rcases mem_cons.mp hm with rfl | hm
      · obtain ⟨hdrafted, r, hr, hreceipts⟩ := hmade v hv
        obtain ⟨d, hd, hhash, -⟩ := hdrafted.2
        refine ⟨mem_cons_self, hdrafted, r, ?_, hreceipts⟩
        -- the shards after this one speculate under other hashes
        refine (hother' _ fun a ha d' hd' => ?_).trans hr
        rw [hhash]
        exact (hapart s mem_cons_self a (mem_cons_of_mem _ ha) (fun heq => hs (heq ▸ ha)) d hd d'
          hd').1.symm
      · obtain ⟨hmem, hrest'⟩ := hmade' m hm v hv
        exact ⟨mem_cons_of_mem _ hmem, hrest'⟩

variable (env) in
/-- The vertices created in a slot, and the state they leave. -/
def created (config : NodeConfig) (keys : ValidatorKeys) (io : ProductionContext) (slot : UInt64)
    (fp : FastPath V) : List Vertex × FastPath V :=
  let (results, fp') := fp.createVerticesParallel env io keys.address
    (fp.activeShards config keys.address io slot)
  (results.filterMap Except.toOption, fp')

variable {config : NodeConfig} {keys : ValidatorKeys} {slot : UInt64}

theorem activeShards_nodup {address : Address} :
    (fp.activeShards config address io slot).Nodup := by
  refine Nodup.filter _ (Nodup.filter _ ?_)
  refine Nodup.map_on (fun i hi j hj heq => ?_) nodup_range
  have hlt := config.numShards.toNat_lt
  rw [mem_range] at hi hj
  have htoNat := congrArg UInt16.toNat heq
  rwa [UInt16.toNat_ofNat_of_lt' (hi.trans hlt), UInt16.toNat_ofNat_of_lt' (hj.trans hlt)]
    at htoNat

/-- The vertices of a slot are distinct, and the executor has their results. -/
theorem created_spec (hapart : DraftsApart env keys.address io fp.dag
      (fp.activeShards config keys.address io slot)) :
    (created env config keys io slot fp).2.dag = fp.dag ∧
      (created env config keys io slot fp).1.Pairwise Distinct ∧
      ∀ v ∈ (created env config keys io slot fp).1,
        v.transactions ≠ [] ∧ Speculated (created env config keys io slot fp).2 v := by
  have hperm := io.order_perm (fp.activeShards config keys.address io slot)
  obtain ⟨hdag, -, hmade⟩ := createEach_spec (io.order _) (hperm.nodup_iff.mpr activeShards_nodup)
    (fun s hs s' hs' => hapart s (hperm.mem_iff.mp hs) s' (hperm.mem_iff.mp hs'))
  unfold created createVerticesParallel
  dsimp only
  generalize fp.createEach env io keys.address (io.order (fp.activeShards config keys.address io
    slot)) = made at *
  -- the vertex of a shard is one that was made for it
  have hof : ∀ s v, (((made.1.find? fun m => m.1 = s).map Prod.snd).bind Except.toOption) = some v →
      s ∈ fp.activeShards config keys.address io slot ∧ Drafted env keys.address io fp.dag s v ∧
        Speculated made.2 v := by
    intro s v hv
    obtain ⟨result, hresult, hok⟩ := Option.bind_eq_some_iff.mp hv
    obtain ⟨m, hm, rfl⟩ := Option.map_eq_some_iff.mp hresult
    have hs : m.1 = s := by simpa using find?_some hm
    obtain ⟨hmem, hspec⟩ := hmade m (mem_of_find?_eq_some hm) v (by
      cases hm2 : m.2 with
      | error => simp [hm2, Except.toOption] at hok
      | ok => simpa [hm2, Except.toOption] using hok)
    rw [hs] at hmem hspec
    exact ⟨hperm.mem_iff.mp hmem, hspec⟩
  rw [filterMap_filterMap]
  refine ⟨hdag, pairwise_filterMap.mpr ?_, fun v hv => ?_⟩
  · refine List.Pairwise.imp (fun {s s'} hne v hv w hw => ?_) activeShards_nodup
    obtain ⟨hs, ⟨-, d, hd, hhash, htxs⟩, -⟩ := hof s v hv
    obtain ⟨hs', ⟨-, d', hd', hhash', htxs'⟩, -⟩ := hof s' w hw
    have hdistinct := hapart s hs s' hs' hne d hd d' hd'
    exact ⟨by rw [hhash, hhash']; exact hdistinct.1, by rw [htxs, htxs']; exact hdistinct.2⟩
  · obtain ⟨s, -, hv⟩ := mem_filterMap.mp hv
    obtain ⟨-, hdrafted, hspec⟩ := hof s v hv
    exact ⟨hdrafted.1, hspec⟩

/-! ## The results of the batch -/

/-- The disk takes the vertex into the graph and marks it. -/
def Takes (io : ConfirmContext) (dag : DAGGraph) (v : Vertex) : Prop :=
  (dag.addVertex io.add v).1 = .ok () ∧
    ((dag.addVertex io.add v).2.updateVertexStatusInternal io.status v.hash .confirmed).1 = .ok ()

/-- The graph takes all the vertices, one after another. -/
def GraphTakes : (Nat → ConfirmContext) → DAGGraph → List Vertex → Prop
  | _, _, [] => True
  | io, dag, v :: rest =>
    Takes (io 0) dag v ∧ GraphTakes (fun i => io (i + 1)) (confirmedDag (io 0) dag v) rest

/-- The vertices whose account write does not fail. -/
def surviving : (Nat → ConfirmContext) → List Vertex → List Vertex
  | _, [] => []
  | io, v :: rest =>
    if (io 0).commitError = none then v :: surviving (fun i => io (i + 1)) rest
    else surviving (fun i => io (i + 1)) rest

theorem surviving_subset {io : Nat → ConfirmContext} {vertices : List Vertex} :
    surviving io vertices ⊆ vertices := by
  induction vertices generalizing io with
  | nil => exact Subset.refl _
  | cons v rest ih =>
    unfold surviving
    split
    · exact cons_subset_cons v ih
    · exact subset_cons_of_subset v ih

/-- No account write fails before one that succeeds. -/
def CommitsInOrder (io : Nat → ConfirmContext) (n : Nat) : Prop :=
  ∀ i j, i < j → j < n → (io i).commitError ≠ none → (io j).commitError ≠ none

theorem confirmVertex_ok_iff {io : ConfirmContext} {v : Vertex}
    {answer : Option (Hash × List TransactionReceipt)} :
    (fp.confirmVertex env io v).1 = .ok answer ↔ Takes io fp.dag v ∧
      answer = (committed ⟨fp, io, v⟩).map fun r =>
        (r.execution.stateRoot, r.execution.receipts) := by
  rw [← (confirmExecutionOn_committed env ⟨fp, io, v⟩).1]
  unfold confirmVertex Takes
  dsimp only
  rcases fp.dag.addVertex io.add v with ⟨_ | ⟨⟩, dag⟩
  · simp
  dsimp only
  rcases dag.updateVertexStatusInternal io.status v.hash .confirmed with ⟨_ | ⟨⟩, _⟩
  · simp
  · simp [eq_comm]

/-- What a batch returns for a vertex it commits. -/
def entryOf (fp : FastPath V) (v : Vertex) :
    Hash × List TransactionReceipt × List SignedTransaction :=
  (fp.executor.speculativeResults.get v.hash).elim (0, [], []) fun r =>
    (r.execution.stateRoot, r.execution.receipts, v.transactions)

theorem get_confirmVertexDirect {io : ConfirmContext} {v : Vertex} {hash : Hash}
    (h : v.hash ≠ hash) :
    (fp.confirmVertexDirect env io v).2.executor.speculativeResults.get hash
      = fp.executor.speculativeResults.get hash := by
  have hexecutor := afterConfirmation_executor env ⟨fp.unpend v, io, v⟩
  rw [afterConfirmation, ← confirmVertexDirect_eq, unpend_executor] at hexecutor
  rw [hexecutor]
  unfold OptimisticExecutor.confirmExecutionOn OptimisticExecutor.confirmExecution
  split
  · exact (get_erase ..).trans (if_neg h)
  split
  · rfl
  · exact (get_erase ..).trans (if_neg h)

/-- The first vertex of a batch adds its result unless its write fails. -/
theorem surviving_cons_entries {io : Nat → ConfirmContext} {v : Vertex}
    {rest : List Vertex} (h : Speculated fp v) :
    (((committed ⟨fp.unpend v, io 0, v⟩).map fun r =>
        (r.execution.stateRoot, r.execution.receipts)).map fun (stateRoot, receipts) =>
          (stateRoot, receipts, v.transactions)).toList
        ++ (surviving (fun i => io (i + 1)) rest).map (entryOf fp)
      = (surviving io (v :: rest)).map (entryOf fp) := by
  obtain ⟨r, hr, -⟩ := h
  rw [surviving, committed]
  dsimp only
  rw [unpend_executor, hr]
  cases (io 0).commitError with
  | some => simp
  | none => simp [entryOf, hr]

/-- A batch of distinct vertices goes through exactly when the graph takes
them, and returns the results of those whose account write does not fail. -/
theorem batch_ok_iff (vertices : List Vertex) : ∀ {io : Nat → ConfirmContext} {fp : FastPath V}
    {batch : List (Hash × List TransactionReceipt × List SignedTransaction)},
    vertices.Pairwise Distinct → (∀ v ∈ vertices, Speculated fp v) →
    ((fp.confirmVerticesBatchDirect env io vertices).1 = .ok batch ↔
      GraphTakes io fp.dag vertices ∧ batch = (surviving io vertices).map (entryOf fp)) := by
  induction vertices with
  | nil => simp [confirmVerticesBatchDirect, GraphTakes, surviving, eq_comm]
  | cons v rest ih =>
    intro io fp batch hdistinct hspec
    obtain ⟨hv, hrest⟩ := pairwise_cons.mp hdistinct
    have hspecrest := (forall_mem_cons.mp hspec).2
    -- what the first confirmation answers, and what it leaves to the others
    have hfirst := fun answer => @confirmVertex_ok_iff _ env (fp.unpend v) (io 0) v answer
    rw [← confirmVertexDirect_eq, unpend_dag] at hfirst
    have hkept : ∀ w ∈ rest, (fp.confirmVertexDirect env (io 0) v).2.executor.speculativeResults.get
        w.hash = fp.executor.speculativeResults.get w.hash := fun w hw =>
      get_confirmVertexDirect (hv w hw).1
    have hentries : (surviving (fun i => io (i + 1)) rest).map
        (entryOf (fp.confirmVertexDirect env (io 0) v).2)
          = (surviving (fun i => io (i + 1)) rest).map (entryOf fp) := by
      refine map_congr_left fun w hw => ?_
      unfold entryOf
      rw [hkept w (surviving_subset hw)]
    have hdag := afterConfirmation_dag env ⟨fp.unpend v, io 0, v⟩
    rw [afterConfirmation, ← confirmVertexDirect_eq] at hdag
    have htail := fun results => @ih (fun i => io (i + 1)) (fp.confirmVertexDirect env (io 0) v).2
      results hrest fun w hw => by
        obtain ⟨r, hr, hreceipts⟩ := hspecrest w hw
        exact ⟨r, (hkept w hw).trans hr, hreceipts⟩
    rw [hdag, unpend_dag, hentries] at htail
    rw [← surviving_cons_entries (hspec v mem_cons_self), GraphTakes, confirmVerticesBatchDirect]
    revert hfirst htail
    rcases fp.confirmVertexDirect env (io 0) v with ⟨_ | answer, fp'⟩
    · intro hfirst _
      have hrefused : ¬ Takes (io 0) fp.dag v := fun h => by cases (hfirst _).mpr ⟨h, rfl⟩
      simp [hrefused]
    · intro hfirst htail
      obtain ⟨htakes, hanswer⟩ := (hfirst answer).mp rfl
      rw [← hanswer]
      revert htail
      dsimp only
      rcases fp'.confirmVerticesBatchDirect env (fun i => io (i + 1)) rest with ⟨_ | results, _⟩
      · intro htail
        have hrefused : ¬ GraphTakes _ _ rest := fun h => by cases (htail _).mpr ⟨h, rfl⟩
        simp [hrefused]
      · intro htail
        obtain ⟨hall, hresults⟩ := (htail results).mp rfl
        simp [htakes, hall, hresults, eq_comm]

theorem surviving_eq_nil_iff {io : Nat → ConfirmContext} {vertices : List Vertex} :
    surviving io vertices = [] ↔ ∀ j < vertices.length, (io j).commitError ≠ none := by
  induction vertices generalizing io with
  | nil => simp [surviving]
  | cons v rest ih =>
    rw [surviving, length_cons, Nat.forall_lt_succ_left]
    split
    · simp [*]
    · simp [*]

/-- Walked in step, the vertices meet their own results exactly when the
failed writes come last. -/
theorem aligned_iff {io : Nat → ConfirmContext} {vertices : List Vertex} (h : vertices.Nodup) :
    (∀ p ∈ vertices.zip (surviving io vertices), p.1 = p.2) ↔
      CommitsInOrder io vertices.length := by
  induction vertices generalizing io with
  | nil => simp [CommitsInOrder]
  | cons v rest ih =>
    obtain ⟨hv, hrest⟩ := nodup_cons.mp h
    unfold surviving
    split
    · rename_i hcommits
      rw [zip_cons_cons, forall_mem_cons, ih hrest]
      constructor
      · rintro ⟨-, horder⟩ i j hij hj hfails
        obtain _ | i := i
        · exact absurd hcommits hfails
        · obtain ⟨j, rfl⟩ : ∃ k, j = k + 1 := ⟨j - 1, by omega⟩
          exact horder i j (by omega) (by simpa using hj) hfails
      · exact fun horder => ⟨rfl, fun i j hij hj => horder (i + 1) (j + 1) (by omega) (by simpa)⟩
    · rename_i hfails
      -- the head has no result: it must meet none
      have hnone : (∀ p ∈ (v :: rest).zip (surviving (fun i => io (i + 1)) rest), p.1 = p.2) ↔
          surviving (fun i => io (i + 1)) rest = [] := by
        constructor
        · intro hmeet
          cases hresults : surviving (fun i => io (i + 1)) rest with
          | nil => rfl
          | cons w ws =>
            rw [hresults] at hmeet
            have hw : w ∈ rest := surviving_subset (hresults ▸ mem_cons_self)
            have hvw : v = w := hmeet (v, w) mem_cons_self
            exact absurd (hvw ▸ hw) hv
        · intro hnil
          simp [hnil]
      rw [hnone, surviving_eq_nil_iff]
      constructor
      · intro hall i j hij hj _
        obtain ⟨j, rfl⟩ : ∃ k, j = k + 1 := ⟨j - 1, by omega⟩
        exact hall j (by simpa using hj)
      · exact fun horder j hj => horder 0 (j + 1) (by omega) (by simpa) hfails

/-- A slot without votes stores what `autoConfirm` does: with nothing to
confirm that is nothing. -/
theorem tryProduceVertices_auto (hauto : fp.autoConfirms = true) (stored : Finalized) :
    (fp.tryProduceVertices env config keys io slot).1 = .ok (some stored) ↔
      ((created env config keys io slot fp).2.autoConfirm env io slot
        (created env config keys io slot fp).1).1 = .ok (some stored) := by
  have hempty : ∀ fp' : FastPath V,
      (fp'.autoConfirm env io slot []).1 = .ok (some stored) ↔ False := by
    intro fp'
    simp [autoConfirm, confirmVerticesBatchDirect, putFinalizedBatch]
  unfold tryProduceVertices created
  dsimp only
  rw [if_pos hauto]
  split
  · rename_i hnone
    have hshards := isEmpty_iff.mp hnone
    simp only [hshards, createVerticesParallel, filterMap_nil, hempty]
    simp
  · split
    · rename_i hnone
      rw [isEmpty_iff.mp hnone, hempty]
      simp
    · rfl

variable {vertices : List Vertex}

theorem autoConfirm_ok_iff {stored : Finalized} :
    (fp.autoConfirm env io slot vertices).1 = .ok (some stored) ↔
      ∃ batch, (fp.confirmVerticesBatchDirect env io.confirm vertices).1 = .ok batch ∧
        io.storeError = none ∧ vertices.zip batch ≠ [] ∧
        stored =
          { receipts := (vertices.zip batch).flatMap fun (vertex, _, receipts, _) =>
              fixReceipts slot vertex receipts
            transactions := (vertices.zip batch).flatMap fun (_, _, _, txs) => txs } := by
  unfold autoConfirm
  cases fp.confirmVerticesBatchDirect env io.confirm vertices with
  | mk answer =>
    cases answer with
    | error => simp
    | ok batch =>
      dsimp only [putFinalizedBatch]
      by_cases hstore : (vertices.zip batch).length > 0 ∧ io.storeError = none
      · rw [if_pos hstore]
        constructor
        · intro h
          exact ⟨batch, rfl, hstore.2, ne_nil_of_length_pos hstore.1,
            (Option.some.inj (Except.ok.inj h)).symm⟩
        · rintro ⟨batch', hbatch, -, -, rfl⟩
          rw [Except.ok.inj hbatch]
      · rw [if_neg hstore]
        constructor
        · intro h
          cases h
        · rintro ⟨batch', hbatch, herror, hne, -⟩
          rw [← Except.ok.inj hbatch] at hne
          exact absurd ⟨length_pos_of_ne_nil hne, herror⟩ hstore

variable (vertices)

/-- The receipt carries the hash of a vertex with its transaction. -/
def PointsHome (receipt : TransactionReceipt) : Prop :=
  ∃ v ∈ vertices, v.hash = receipt.vertexHash ∧
    receipt.txHash ∈ v.transactions.map SignedTransaction.hash

/-! ## Where the receipts point -/

instance (receipt : TransactionReceipt) : Decidable (PointsHome vertices receipt) :=
  inferInstanceAs (Decidable (∃ v ∈ vertices, _))

variable {vertices}

/-- The receipts of the paired entries, each under the hash of its partner. -/
theorem mem_fixed_receipts (slot : UInt64) {partners : List Vertex}
    {receipt : TransactionReceipt} :
    (receipt ∈ (vertices.zip (partners.map (entryOf fp))).flatMap fun (vertex, _, receipts, _) =>
      fixReceipts slot vertex receipts) ↔
      ∃ p ∈ vertices.zip partners, ∃ r ∈ (entryOf fp p.2).2.1,
        { r with slot, vertexHash := p.1.hash } = receipt := by
  simp [zip_map_right, fixReceipts]

theorem txHash_entryOf {v : Vertex} (h : Speculated fp v) :
    (entryOf fp v).2.1.map TransactionReceipt.txHash
      = v.transactions.map SignedTransaction.hash := by
  obtain ⟨r, hr, hreceipts⟩ := h
  rwa [entryOf, hr]

/-- The receipts of a pair point home exactly if it pairs a vertex with its
own result. -/
theorem pointsHome_pair_iff (hdistinct : vertices.Pairwise Distinct) {p : Vertex × Vertex}
    (hp : p.1 ∈ vertices ∧ p.2 ∈ vertices) (hne : p.2.transactions ≠ [])
    (hspec : Speculated fp p.2) (slot : UInt64) :
    (∀ r ∈ (entryOf fp p.2).2.1, PointsHome vertices { r with slot, vertexHash := p.1.hash }) ↔
      p.1 = p.2 := by
  have : Std.Symm Distinct := ⟨fun _ _ => Distinct.symm⟩
  constructor
  · intro hhome
    obtain ⟨tx, htx⟩ := exists_mem_of_ne_nil _ hne
    obtain ⟨r, hr, hhash⟩ := mem_map.mp (txHash_entryOf hspec ▸ mem_map_of_mem htx)
    obtain ⟨w, hw, hwhash, hmem⟩ := hhome r hr
    obtain ⟨tx', htx', hsame⟩ := mem_map.mp hmem
    -- the vertex the receipt names is the partner, the one with its transaction is its own
    by_contra hother
    have hw1 : w = p.1 := by
      by_contra hne
      exact (hdistinct.forall hw hp.1 hne).1 hwhash
    exact (hdistinct.forall hp.1 hp.2 hother).2 tx' (hw1 ▸ htx') tx htx (hsame.trans hhash)
  · intro heq r hr
    refine ⟨p.1, hp.1, rfl, ?_⟩
    rw [heq]
    rw [← txHash_entryOf hspec]
    exact mem_map.mpr ⟨r, hr, rfl⟩

/-- In a slot without votes every stored receipt carries the hash of a
vertex with its transaction, exactly if no account write fails before one
that succeeds, where the disk takes the vertices and the receipts. -/
theorem receipts_placed_iff (env : Platform V) (fp : FastPath V) (hauto : fp.autoConfirms = true)
    (config : NodeConfig) (keys : ValidatorKeys) (io : ProductionContext) (slot : UInt64)
    (hapart : DraftsApart env keys.address io fp.dag
      (fp.activeShards config keys.address io slot)) :
    (∀ stored, (fp.tryProduceVertices env config keys io slot).1 = .ok (some stored) →
      ∀ receipt ∈ stored.receipts, PointsHome (created env config keys io slot fp).1 receipt) ↔
      (GraphTakes io.confirm fp.dag (created env config keys io slot fp).1 → io.storeError = none →
        CommitsInOrder io.confirm (created env config keys io slot fp).1.length) := by
  obtain ⟨hdag, hdistinct, hmade⟩ := created_spec hapart
  simp only [tryProduceVertices_auto hauto, autoConfirm_ok_iff]
  rw [← hdag]
  generalize created env config keys io slot fp = made at hdistinct hmade ⊢
  obtain ⟨vertices, before⟩ := made
  have hspec := fun v hv => (hmade v hv).2
  have hnodup : vertices.Nodup := hdistinct.imp fun h heq => h.1 (by rw [heq])
  have hpair : ∀ p ∈ vertices.zip (surviving io.confirm vertices), _ ↔ p.1 = p.2 := fun p hp =>
    have hmem := of_mem_zip hp
    have hp2 := surviving_subset hmem.2
    pointsHome_pair_iff hdistinct ⟨hmem.1, hp2⟩ (hmade _ hp2).1 (hspec _ hp2) slot
  rw [← aligned_iff hnodup]
  constructor
  · intro hstored htakes herror p hp
    refine (hpair p hp).mp fun r hr => ?_
    have hmem := (mem_fixed_receipts slot).mpr ⟨p, hp, r, hr, rfl⟩
    refine hstored _ ⟨_, (batch_ok_iff vertices hdistinct hspec).mpr ⟨htakes, rfl⟩, herror, ?_, rfl⟩
      _ hmem
    rintro hnil
    rw [hnil] at hmem
    cases hmem
  · rintro haligned stored ⟨batch, hbatch, herror, -, rfl⟩ receipt hreceipt
    obtain ⟨htakes, rfl⟩ := (batch_ok_iff vertices hdistinct hspec).mp hbatch
    obtain ⟨p, hp, r, hr, rfl⟩ := (mem_fixed_receipts slot).mp hreceipt
    exact (hpair p hp).mpr (haligned htakes herror p hp) r hr

/-- The transaction that waits in a shard. It is refused when it is run, so
that no account changes. -/
def shardTx (shardId : ShardId) : SignedTransaction :=
  { sampleTx .transfer 9 1 5 0 with hash := BitVec.ofNat 256 ((shardId.toNat + 1) * 2 ^ 248) }

def sampleConfig : NodeConfig := ⟨2, 1⟩

def sampleKeys : ValidatorKeys := ⟨0, []⟩

/-- Two shards with a transaction each. -/
def sampleProduction (confirm : Nat → ConfirmContext) : ProductionContext where
  pendingForShard := fun _ => 1
  payload := fun shardId => [shardTx shardId]
  create := fun _ => sampleVertexContext
  order := id
  order_perm := fun _ => .refl _
  confirm := confirm
  ballot := fun _ => ⟨0, fun _ => .ok [], sampleConfirmContext⟩
  storeError := none

/-- The receipt of a shard's transaction under the hash of a vertex. -/
def shardReceipt (shardId : ShardId) (vertexHash : Hash) : TransactionReceipt :=
  { StateManager.failedReceipt (shardTx shardId) .invalidSignature with slot := 32, vertexHash }

theorem receipts_placed_iff_two : PointsHome (created headPlatform sampleConfig sampleKeys
      (sampleProduction fun _ => sampleConfirmContext) 32 sampleFastPath).1
      (shardReceipt 1 (shardTx 1).hash) := by
  refine (receipts_placed_iff headPlatform sampleFastPath rfl sampleConfig sampleKeys
    (sampleProduction fun _ => sampleConfirmContext) 32 ?_).mpr ?_
    ⟨[shardReceipt 0 (shardTx 0).hash, shardReceipt 1 (shardTx 1).hash], [shardTx 0, shardTx 1]⟩
    ?_ _ ?_
  · change DraftsApart _ _ _ _ [0, 1]
    simp only [DraftsApart, forall_mem_cons, not_mem_nil, false_imp_iff, implies_true, and_true]
    decide
  · exact fun _ _ _ _ _ _ hfails => absurd rfl hfails
  · decide
  · decide

/-- The commit of the first vertex fails, that of the second one does not. -/
def firstCommitFails : Nat → ConfirmContext
  | 0 => fullDisk
  | _ + 1 => sampleConfirmContext

/-- The receipt of the second vertex is stored under the hash of the first. -/
theorem receipt_under_other_vertex :
    (sampleFastPath.tryProduceVertices headPlatform sampleConfig sampleKeys
        (sampleProduction firstCommitFails) 32).1
      = .ok (some ⟨[shardReceipt 1 (shardTx 0).hash], [shardTx 1]⟩) ∧
    ¬ PointsHome (created headPlatform sampleConfig sampleKeys
      (sampleProduction firstCommitFails) 32 sampleFastPath).1
      (shardReceipt 1 (shardTx 0).hash) := by
  decide

end FastPath

end Quantos

import Quantos.FastPathQuorum

/-!
# Vertices from a sync response

`handle_sync_response` of `network/sync.rs` hands the vertices a peer sent
to `receive_vertex`, one after the other. `Admissible` is what that call
asks of a vertex, and a vertex becomes pending exactly if it meets it
(`newlyPending_iff`). Neither the hash, nor the signature, nor the creator
is among the checks.
-/

namespace Quantos

open List

/-- The constructor of `NetworkError` that the syncer returns. -/
inductive NetworkError where
  | invalidMessage (reason : String)

structure SyncState where
  syncing : Bool
  currentSlot : UInt64
  targetSlot : UInt64

structure ChainSyncer (V : Type) where
  fastPath : FastPath V
  syncState : SyncState

namespace FastPath

variable {V : Type} (env : Platform V)

/-- The loop over the vertices of a response, which stops at the first one
that is refused. -/
def receiveVertices (io : Nat → VertexContext) (fp : FastPath V) :
    List Vertex → Except ConsensusError Unit × FastPath V
  | [] => (.ok (), fp)
  | vertex :: rest =>
    match fp.receiveVertex env (io 0) vertex with
    | (.error e, fp) => (.error e, fp)
    | (.ok (), fp) => receiveVertices (fun i => io (i + 1)) fp rest

end FastPath

def ChainSyncer.handleSyncResponse {V : Type} (env : Platform V) (io : Nat → VertexContext)
    (syncer : ChainSyncer V) (vertices : List Vertex) :
    Except NetworkError Unit × ChainSyncer V :=
  match syncer.fastPath.receiveVertices env io vertices with
  | (.error e, fastPath) => (.error (.invalidMessage e.toText), { syncer with fastPath })
  | (.ok (), fastPath) =>
    let state := syncer.syncState
    (.ok (),
      { fastPath
        syncState := if state.currentSlot ≥ state.targetSlot then { state with syncing := false }
          else state })

/-- A call of `receive_vertex`. -/
structure Delivery (V : Type) where
  state : FastPath V
  io : VertexContext
  vertex : Vertex

namespace FastPath

variable {V : Type} (env : Platform V)

def receive (d : Delivery V) : Except ConsensusError Unit × FastPath V :=
  d.state.receiveVertex env d.io d.vertex

/-- The calls the loop makes. -/
def deliveries (io : Nat → VertexContext) (fp : FastPath V) : List Vertex → List (Delivery V)
  | [] => []
  | vertex :: rest =>
    ⟨fp, io 0, vertex⟩ ::
      match fp.receiveVertex env (io 0) vertex with
      | (.error _, _) => []
      | (.ok (), fp) => deliveries (fun i => io (i + 1)) fp rest

/-- The vertex waits for votes, and nothing of its hash did before. -/
def NewlyPending (d : Delivery V) : Prop :=
  d.state.pendingVertices.get d.vertex.hash = none ∧
    ∃ p, (receive env d).2.pendingVertices.get d.vertex.hash = some p ∧ p.vertex = d.vertex

/-- The vertex hashes to its hash and its registered creator signed it. -/
structure Authentic (d : Delivery V) : Prop where
  hashed : d.vertex.hash = Vertex.computeHash env.hashData d.vertex.parents d.vertex.transactions
    d.vertex.timestamp d.vertex.shardId d.vertex.creator d.vertex.height
  signed : ∃ creator,
    d.state.committeeManager.validatorSet.getValidator d.vertex.creator = some creator ∧
      env.verifyMlDsa65 creator.publicKey d.vertex.signingData d.vertex.signature = true

/-- All that `receive_vertex` asks of a vertex. -/
structure Admissible (d : Delivery V) : Prop where
  fresh : d.state.pendingVertices.get d.vertex.hash = none
  small : payloadSize d.vertex ≤ MAX_VERTEX_PAYLOAD_SIZE
  parents : ∀ parent ∈ d.vertex.parents,
    ∃ w, d.state.dag.getVertex d.io.dag parent = .ok (some w)
  executes : d.io.executeError = none
  root : (d.state.executor.speculativeExecute env d.vertex.toDAGVertex (d.io.schedule _)).1
    = d.vertex.stateRoot
  room : d.state.pendingCount.toNat < MAX_PENDING_VERTICES

variable {env} {fp : FastPath V}

theorem checkParents_ok_iff {io : DagContext} {parents : List Hash} :
    fp.checkParents io parents = .ok () ↔
      ∀ parent ∈ parents, ∃ w, fp.dag.getVertex io parent = .ok (some w) := by
  induction parents with
  | nil => exact ⟨fun _ _ hmem => absurd hmem not_mem_nil, fun _ => rfl⟩
  | cons parent rest ih =>
    rw [checkParents, forall_mem_cons]
    cases hget : fp.dag.getVertex io parent with
    | error => simp
    | ok found =>
      cases found with
      | none => simp
      | some => simpa using ih

variable {d : Delivery V}

theorem pending_of_admissible (h : Admissible env d) :
    (receive env d).1 = .ok () ∧ (receive env d).2.pendingVertices
        = d.state.pendingVertices.put ⟨d.vertex, [], d.io.now, false⟩ := by
  have hparents := checkParents_ok_iff.mpr h.parents
  unfold receive receiveVertex
  rw [h.fresh, if_neg (by simp), if_neg (Nat.not_lt.mpr h.small), hparents, h.executes]
  dsimp only
  rw [if_neg (fun hne => hne h.root), if_neg (Nat.not_le.mpr h.room)]
  exact ⟨rfl, rfl⟩

/-- A call that leaves a vertex that is not admissible changes no pending
vertex. -/
theorem pendingVertices_of_not_admissible (h : ¬ Admissible env d) :
    (receive env d).2.pendingVertices = d.state.pendingVertices := by
  unfold receive receiveVertex
  split
  · rfl
  rename_i hfresh
  split
  · rfl
  rename_i hsmall
  split
  · rfl
  rename_i hparents
  split
  · rfl
  rename_i hexecutes
  dsimp only
  split
  · rfl
  rename_i hroot
  split
  · rfl
  rename_i hroom
  refine absurd ?_ h
  exact ⟨by simpa using hfresh, Nat.not_lt.mp hsmall, checkParents_ok_iff.mp hparents,
    hexecutes, by simpa using hroot, Nat.not_le.mp hroom⟩

/-- The call succeeds and makes its vertex pending exactly if the vertex is
admissible. -/
theorem newlyPending_iff :
    ((receive env d).1 = .ok () ∧ NewlyPending env d) ↔ Admissible env d := by
  constructor
  · rintro ⟨-, hfresh, p, hget, -⟩
    by_contra hnot
    rw [pendingVertices_of_not_admissible hnot, hfresh] at hget
    cases hget
  · intro h
    obtain ⟨hok, hput⟩ := pending_of_admissible h
    refine ⟨hok, h.fresh, ⟨d.vertex, [], d.io.now, false⟩, ?_, rfl⟩
    rw [hput]
    exact Table.get_put_self _ _

/-- What waits after a response waited before, or is an admissible vertex of
the response. -/
theorem pending_of_receiveVertices {io : Nat → VertexContext} {vertices : List Vertex}
    {p : PendingVertex} (hp : p ∈ (fp.receiveVertices env io vertices).2.pendingVertices.rows) :
    p ∈ fp.pendingVertices.rows ∨
      ∃ d ∈ deliveries env io fp vertices, Admissible env d ∧ p.vertex = d.vertex := by
  induction vertices generalizing io fp with
  | nil => exact .inl hp
  | cons vertex rest ih =>
    have hfirst : ∀ q ∈ (receive env ⟨fp, io 0, vertex⟩).2.pendingVertices.rows,
        q ∈ fp.pendingVertices.rows ∨
          (Admissible env ⟨fp, io 0, vertex⟩ ∧ q.vertex = vertex) := by
      intro q hq
      by_cases hadmissible : Admissible env ⟨fp, io 0, vertex⟩
      · rw [(pending_of_admissible hadmissible).2] at hq
        rcases Table.mem_rows_put hq with rfl | hq
        · exact .inr ⟨hadmissible, rfl⟩
        · exact .inl hq
      · rw [pendingVertices_of_not_admissible hadmissible] at hq
        exact .inl hq
    have hhead : (p ∈ fp.pendingVertices.rows ∨
        (Admissible env ⟨fp, io 0, vertex⟩ ∧ p.vertex = vertex)) →
        p ∈ fp.pendingVertices.rows ∨ ∃ d ∈ deliveries env io fp (vertex :: rest),
          Admissible env d ∧ p.vertex = d.vertex := fun h =>
      h.imp_right fun hd => ⟨⟨fp, io 0, vertex⟩, mem_cons_self, hd⟩
    rw [receive] at hfirst
    rw [receiveVertices] at hp
    rw [deliveries] at hhead ⊢
    split at hp
    · rename_i hres
      simp only [hres] at hfirst hhead ⊢
      exact hhead (hfirst p hp)
    rename_i fp' hres
    simp only [hres] at hfirst hhead ⊢
    rcases ih hp with hp | ⟨d, hd, hadmissible⟩
    · exact hhead (hfirst p hp)
    · exact .inr ⟨d, mem_cons_of_mem _ hd, hadmissible⟩

theorem fastPath_handleSyncResponse (io : Nat → VertexContext) (syncer : ChainSyncer V)
    (vertices : List Vertex) :
    (syncer.handleSyncResponse env io vertices).2.fastPath
      = (syncer.fastPath.receiveVertices env io vertices).2 := by
  unfold ChainSyncer.handleSyncResponse
  split
  · rename_i hres
    rw [hres]
  · rename_i hres
    rw [hres]

/-- All the vertices of a response that become pending are authentic, and
nothing else starts to wait, exactly if those that pass the checks are. -/
theorem sync_pending_authentic_iff (env : Platform V) (io : Nat → VertexContext)
    (syncer : ChainSyncer V) (vertices : List Vertex) :
    ((∀ d ∈ deliveries env io syncer.fastPath vertices,
        (receive env d).1 = .ok () ∧ NewlyPending env d → Authentic env d) ∧
      ∀ p ∈ (syncer.handleSyncResponse env io vertices).2.fastPath.pendingVertices.rows,
        p ∈ syncer.fastPath.pendingVertices.rows ∨ ∃ d ∈ deliveries env io syncer.fastPath vertices,
            p.vertex = d.vertex ∧ Authentic env d) ↔
      ∀ d ∈ deliveries env io syncer.fastPath vertices, Admissible env d → Authentic env d := by
  constructor
  · rintro ⟨hpending, -⟩ d hd hadmissible
    exact hpending d hd (newlyPending_iff.mpr hadmissible)
  · intro hadmissible
    refine ⟨fun d hd hpending => hadmissible d hd (newlyPending_iff.mp hpending), fun p hp => ?_⟩
    rw [fastPath_handleSyncResponse] at hp
    rcases pending_of_receiveVertices hp with hp | ⟨d, hd, had, heq⟩
    · exact .inl hp
    · exact .inr ⟨d, hd, heq, hadmissible d hd had⟩

/-- No signature is empty. -/
def signingPlatform : Platform Unit :=
  { headPlatform with verifyMlDsa65 := fun _ _ signature => signature ≠ [] }

/-- Anybody's vertex in the name of validator 1, under a hash of their choice. -/
def forgedVertex : Vertex := { sampleVertex 7 with creator := 1 }

def forgedDelivery : Delivery Unit := ⟨sampleFastPath, sampleVertexContext, forgedVertex⟩

theorem forged_vertex_pending :
    forgedDelivery ∈ deliveries signingPlatform (fun _ => sampleVertexContext) sampleFastPath
        [forgedVertex] ∧
      (receive signingPlatform forgedDelivery).1 = .ok () ∧
      NewlyPending signingPlatform forgedDelivery ∧
      forgedVertex.hash ≠ Vertex.computeHash signingPlatform.hashData forgedVertex.parents
        forgedVertex.transactions forgedVertex.timestamp forgedVertex.shardId forgedVertex.creator
        forgedVertex.height ∧
      (sampleFastPath.committeeManager.validatorSet.getValidator forgedVertex.creator).map
          (fun creator => signingPlatform.verifyMlDsa65 creator.publicKey forgedVertex.signingData
            forgedVertex.signature)
        = some false := by
  refine ⟨mem_cons_self, rfl, ⟨rfl, ⟨forgedVertex, [], 0, false⟩, rfl, rfl⟩, ?_, rfl⟩
  decide

end FastPath

end Quantos

import Quantos.DagLookup
import Quantos.FastPath

/-!
# The confirmations of a call

Two calls of the fast path confirm vertices: a vote that completes a quorum,
and the batch of a node that runs all the validators. `confirmations` lists
the calls of `confirm_vertex` an operation makes, each with the state it is
made in. Nothing else writes to the graph, so what every confirmation keeps
is kept by every operation (`step_induct`).
-/

namespace Quantos

open List

/-- A call of `confirm_vertex`. -/
structure Confirmation (V : Type) where
  state : FastPath V
  io : ConfirmContext
  vertex : Vertex

namespace FastPath

variable {V : Type} (env : Platform V)

def afterConfirmation (c : Confirmation V) : FastPath V :=
  (c.state.confirmVertex env c.io c.vertex).2

variable (io : ConfirmContext) (fp : FastPath V)

/-- The vertex waits no longer. -/
def unpend (vertex : Vertex) : FastPath V :=
  if (fp.pendingVertices.get vertex.hash).isSome then
    { fp with
      pendingVertices := fp.pendingVertices.erase vertex.hash
      pendingCount := fp.pendingCount - 1 }
  else fp

theorem unpend_dag (fp : FastPath V) (vertex : Vertex) : (fp.unpend vertex).dag = fp.dag := by
  unfold unpend
  split
  · rfl
  · rfl

theorem unpend_executor (fp : FastPath V) (vertex : Vertex) :
    (fp.unpend vertex).executor = fp.executor := by
  unfold unpend
  split
  · rfl
  · rfl

theorem confirmVertexDirect_eq (io : ConfirmContext) (fp : FastPath V) (vertex : Vertex) :
    fp.confirmVertexDirect env io vertex = (fp.unpend vertex).confirmVertex env io vertex := rfl

def batchConfirmations (io : Nat → ConfirmContext) (fp : FastPath V) :
    List Vertex → List (Confirmation V)
  | [] => []
  | vertex :: rest =>
    ⟨fp.unpend vertex, io 0, vertex⟩ ::
      match fp.confirmVertexDirect env (io 0) vertex with
      | (.error _, _) => []
      | (.ok _, fp) => batchConfirmations (fun i => io (i + 1)) fp rest

def countConfirmations (committee : Committee) (pending : PendingVertex) : List (Confirmation V) :=
  match committee.quorumThreshold with
  | .error _ => []
  | .ok quorum =>
    if approveStake fp.committeeManager.validatorSet pending.votes ≥ quorum ∧
        pending.preConfirmed = false then
      [⟨fp.setPending (preConfirm pending), io, (preConfirm pending).vertex⟩]
    else []

def voteConfirmations (vote : CommitteeVote) : List (Confirmation V) :=
  match fp.pendingVertices.get vote.vertexHash with
  | none => []
  | some pending =>
    match fp.checkVote env pending vote with
    | .error _ => []
    | .ok committee => countConfirmations io fp committee (pushVote pending vote)

def confirmations : FastPathOp → List (Confirmation V)
  | .receiveVote vote io => voteConfirmations env io fp vote
  | .confirmDirect vertices io => batchConfirmations env io fp vertices
  | _ => []

/-- What a confirmation does to the graph: the vertex is added and then
marked, unless it was refused. -/
def confirmedDag (dag : DAGGraph) (vertex : Vertex) : DAGGraph :=
  match dag.addVertex io.add vertex with
  | (.error _, dag) => dag
  | (.ok (), dag) => (dag.updateVertexStatusInternal io.status vertex.hash .confirmed).2

theorem afterConfirmation_dag (c : Confirmation V) :
    (afterConfirmation env c).dag = confirmedDag c.io c.state.dag c.vertex := by
  unfold afterConfirmation confirmVertex confirmedDag
  cases c.state.dag.addVertex c.io.add c.vertex with
  | mk answer =>
    cases answer with
    | error => rfl
    | ok =>
      dsimp only
      split
      · rename_i hstatus
        rw [hstatus]
      · rename_i hstatus
        rw [hstatus]

theorem afterConfirmation_executor (c : Confirmation V) : (afterConfirmation env c).executor
      = (c.state.executor.confirmExecutionOn env c.io.commitError c.vertex.hash).2 := by
  unfold afterConfirmation confirmVertex
  dsimp only
  split
  · rfl
  split
  · rfl
  · rfl

/-! ## The other calls and the graph -/

variable {env} in
theorem IngressEffect.dag {fp fp' : FastPath V} (h : IngressEffect env fp fp') :
    fp'.dag = fp.dag := by
  cases h with
  | refused => rfl
  | speculated => rfl
  | rolledBack => rfl
  | awaiting => rfl

variable {fp} {now : Nat} {validator : Validator} {address : Address} {percentage : UInt16}

theorem cleanup_dag : (fp.cleanup now).dag = fp.dag := by
  exact List.foldlRecOn (motive := fun fp' : FastPath V => fp'.dag = fp.dag) _ _ rfl
    fun _ h _ _ => h

theorem addValidator_dag : (fp.addValidator validator).dag = fp.dag := by
  unfold addValidator
  split
  · rfl
  · rfl

theorem slash_dag : (fp.slash address percentage).dag = fp.dag := by
  unfold slash
  split
  · rfl
  · rfl

/-! ## The rule -/

variable {env} {I : DAGGraph → List (Confirmation V) → Prop} {P : Confirmation V → Prop}

/-- For a batch, the executor may be part of what holds. -/
theorem batch_induct {J : DAGGraph → OptimisticExecutor V → List (Confirmation V) → Prop}
    (hconfirm : ∀ c cs, J c.state.dag c.state.executor cs → P c →
      J (afterConfirmation env c).dag (afterConfirmation env c).executor (cs ++ [c]))
    (vertices : List Vertex) {io : Nat → ConfirmContext} {fp : FastPath V}
    {cs : List (Confirmation V)} (h : J fp.dag fp.executor cs)
    (hall : ∀ c ∈ batchConfirmations env io fp vertices, P c) :
    J (fp.confirmVerticesBatchDirect env io vertices).2.dag
      (fp.confirmVerticesBatchDirect env io vertices).2.executor
      (cs ++ batchConfirmations env io fp vertices) := by
  induction vertices generalizing io fp cs with
  | nil =>
    rw [batchConfirmations, append_nil]
    exact h
  | cons vertex rest ih =>
    have hfirst := hconfirm ⟨fp.unpend vertex, io 0, vertex⟩ cs
      (by rw [unpend_dag, unpend_executor]; exact h) (hall _ mem_cons_self)
    rw [afterConfirmation, ← confirmVertexDirect_eq] at hfirst
    rw [batchConfirmations] at hall ⊢
    rw [confirmVerticesBatchDirect]
    cases hres : fp.confirmVertexDirect env (io 0) vertex with
    | mk answer =>
      rw [hres] at hfirst
      cases answer with
      | error => exact hfirst
      | ok =>
        simp only [hres] at hall
        have hrest := ih hfirst fun c hc => hall c (mem_cons_of_mem _ hc)
        rw [append_assoc] at hrest
        dsimp only
        split
        · rename_i hrun
          rw [hrun] at hrest
          exact hrest
        rename_i hrun
        rw [hrun] at hrest
        exact hrest

variable (env) in
/-- A vote confirms one vertex or leaves graph and executor alone. -/
theorem receiveVote_confirmations (io : ConfirmContext) (fp : FastPath V) (vote : CommitteeVote) :
    (voteConfirmations env io fp vote = [] ∧ (fp.receiveVote env io vote).2.dag = fp.dag ∧
        (fp.receiveVote env io vote).2.executor = fp.executor) ∨
      ∃ c, voteConfirmations env io fp vote = [c] ∧ c.state.dag = fp.dag ∧
        c.state.executor = fp.executor ∧
        (fp.receiveVote env io vote).2 = afterConfirmation env c := by
  unfold receiveVote voteConfirmations
  cases fp.pendingVertices.get vote.vertexHash with
  | none => exact .inl ⟨rfl, rfl, rfl⟩
  | some pending =>
    dsimp only
    cases fp.checkVote env pending vote with
    | error => exact .inl ⟨rfl, rfl, rfl⟩
    | ok committee =>
      unfold countVote countConfirmations
      dsimp only
      cases committee.quorumThreshold with
      | error => exact .inl ⟨rfl, rfl, rfl⟩
      | ok =>
        dsimp only
        split
        · exact .inr ⟨_, rfl, rfl, rfl, rfl⟩
        · exact .inl ⟨rfl, rfl, rfl⟩

section

variable (hconfirm : ∀ c cs, I c.state.dag cs → P c → I (afterConfirmation env c).dag (cs ++ [c]))

include hconfirm

theorem vote_induct {io : ConfirmContext} {fp : FastPath V} {vote : CommitteeVote}
    {cs : List (Confirmation V)} (h : I fp.dag cs)
    (hall : ∀ c ∈ voteConfirmations env io fp vote, P c) :
    I (fp.receiveVote env io vote).2.dag (cs ++ voteConfirmations env io fp vote) := by
  rcases receiveVote_confirmations env io fp vote with
    ⟨hnone, hdag, -⟩ | ⟨c, hone, hdag, -, hafter⟩
  · rw [hnone, hdag, append_nil]
    exact h
  rw [hone] at hall ⊢
  rw [hafter]
  exact hconfirm c cs (hdag ▸ h) (hall c mem_cons_self)

/-- What holds of the graph and the confirmations so far, and is kept by
every confirmation that meets the condition, is kept by an operation all of
whose confirmations do. -/
theorem step_induct {fp : FastPath V} {op : FastPathOp} {cs : List (Confirmation V)}
    (h : I fp.dag cs) (hall : ∀ c ∈ confirmations env fp op, P c) :
    I (fp.step env op).dag (cs ++ confirmations env fp op) := by
  have hquiet : ∀ fp' : FastPath V, fp'.dag = fp.dag → I fp'.dag (cs ++ []) := by
    intro fp' hdag
    rwa [hdag, append_nil]
  cases op with
  | createVertex => exact hquiet _ (createVertex_effect env).dag
  | receiveVertex => exact hquiet _ (receiveVertex_effect env).dag
  | receiveVote => exact vote_induct hconfirm h hall
  | confirmDirect vertices =>
    exact batch_induct (J := fun dag _ cs => I dag cs) hconfirm vertices h hall
  | cleanup => exact hquiet _ cleanup_dag
  | rotate => exact hquiet _ rfl
  | addValidator => exact hquiet _ addValidator_dag
  | removeValidator => exact hquiet _ rfl
  | slash => exact hquiet _ slash_dag
  | jail => exact hquiet _ rfl

end

end FastPath

end Quantos

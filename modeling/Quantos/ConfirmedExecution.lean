import Quantos.Confirmations
import Quantos.FastPathQuorum

/-!
# Confirmed vertices and committed executions

`confirm_vertex` commits the speculative result stored under the hash of its
vertex, if there is one and the disk takes the accounts, and writes the
vertex to the graph in any case; a missing commit is only logged. Nothing
keeps it from running twice for one vertex either.

`committed` is what a confirmation commits (`confirmExecutionOn_committed`),
and the runs below record the confirmations beside the state. A confirmation
is `Sound` if it commits the result of the very vertex it confirms, and the
graph takes that vertex and has none of its hash on disk yet. After sound
confirmations every vertex that is `Confirmed` was committed exactly once.
-/

namespace Quantos.FastPath

open Table List

variable {V : Type} {env : Platform V}

/-- The speculative result that a confirmation commits. -/
def committed (c : Confirmation V) : Option SpeculativeResult :=
  match c.io.commitError with
  | some _ => none
  | none => c.state.executor.speculativeResults.get c.vertex.hash

theorem confirmExecutionOn_committed (env : Platform V) (c : Confirmation V) :
    (c.state.executor.confirmExecutionOn env c.io.commitError c.vertex.hash).1
        = (committed c).map (fun r => (r.execution.stateRoot, r.execution.receipts)) ∧
      (c.state.executor.confirmExecutionOn env c.io.commitError c.vertex.hash).2.stateManager
        = (committed c).elim c.state.executor.stateManager
          fun r => c.state.executor.stateManager.commitExecution env r.execution := by
  unfold OptimisticExecutor.confirmExecutionOn committed
  cases c.io.commitError with
  | some => exact ⟨rfl, rfl⟩
  | none =>
    cases hget : c.state.executor.speculativeResults.get c.vertex.hash with
    | none =>
      rw [OptimisticExecutor.confirmExecution_of_none env hget]
      exact ⟨rfl, rfl⟩
    | some =>
      rw [OptimisticExecutor.confirmExecution_of_some env hget]
      exact ⟨rfl, rfl⟩

variable {io : ConfirmContext} {fp : FastPath V}

/-- The vertices whose results were committed, in order. -/
def committedVertices (cs : List (Confirmation V)) : List DAGVertex :=
  cs.filterMap fun c => (committed c).map SpeculativeResult.vertex

structure Sound (c : Confirmation V) : Prop where
  commits : (committed c).map SpeculativeResult.vertex = some c.vertex.toDAGVertex
  fresh : c.state.dag.storage.get c.vertex.hash = none
  added : (c.state.dag.addVertex c.io.add c.vertex).1 = .ok ()

instance (c : Confirmation V) : Decidable (Sound c) :=
  decidable_of_iff
    ((committed c).map SpeculativeResult.vertex = some c.vertex.toDAGVertex ∧
      c.state.dag.storage.get c.vertex.hash = none ∧
      (c.state.dag.addVertex c.io.add c.vertex).1 = .ok ())
    ⟨fun h => ⟨h.1, h.2.1, h.2.2⟩, fun h => ⟨h.commits, h.fresh, h.added⟩⟩

/-! ## What a confirmation writes -/

open DAGGraph (Wrote)

variable {v : Vertex}

theorem confirmedDag_wrote {dag : DAGGraph} (hok : (dag.addVertex io.add v).1 = .ok ()) :
    ∃ base w, DAGGraph.Evicted dag base ∧ w.toDAGVertex = v.toDAGVertex ∧
      Wrote (base.vertices.put v) w (confirmedDag io dag v).vertices ∧
      Wrote (dag.storage.put v) w (confirmedDag io dag v).storage := by
  obtain ⟨dag₁, hadd⟩ : ∃ dag₁, dag.addVertex io.add v = (.ok (), dag₁) :=
    ⟨_, Prod.ext hok rfl⟩
  have heffect := DAGGraph.addVertex_effect io.add dag v
  rw [hadd] at heffect
  rw [confirmedDag, hadd]
  dsimp only
  cases heffect with
  | @added base _ hbase hparents hmem hdisk htips =>
    have hlook : dag₁.look v.hash = some v := by
      rw [DAGGraph.look_of_put hmem hdisk, if_pos rfl]
    refine ⟨base, ?_⟩
    rw [← hbase.storage, ← hmem, ← hdisk]
    rcases DAGGraph.updateVertexStatusInternal_effect io.status dag₁ v.hash .confirmed with
      heq | ⟨w, -, hw, hstorage, hvertices, -⟩
    · rw [heq]
      exact ⟨v, hbase, rfl, .inl rfl, .inl rfl⟩
    · obtain rfl := Option.some.inj (hlook.symm.trans hw)
      exact ⟨v.setStatus .confirmed, hbase, rfl, hvertices, hstorage⟩

variable {t₀ t : Table Vertex.key} {w : Vertex}

theorem row_of_wrote {x : Vertex} (h : Wrote (t₀.put v) w t) (hw : w.toDAGVertex = v.toDAGVertex)
    (hx : x ∈ t.rows) : x.toDAGVertex = v.toDAGVertex ∨ x ∈ t₀.rows := by
  have hold : x ∈ (t₀.put v).rows → x.toDAGVertex = v.toDAGVertex ∨ x ∈ t₀.rows := fun hx =>
    (mem_rows_put hx).imp_left (congrArg Vertex.toDAGVertex)
  rcases h with rfl | rfl
  · exact hold hx
  rcases mem_rows_put hx with rfl | hx
  · exact .inl hw
  · exact hold hx

theorem get_of_wrote (h : Wrote (t₀.put v) w t) {k : Hash} (hk : t₀.get k ≠ none ∨ v.hash = k) :
    t.get k ≠ none := by
  have hput : ∀ (t : Table Vertex.key) u, t.get k ≠ none → (t.put u).get k ≠ none := by
    intro t u ht
    rw [get_put]
    split
    · exact Option.some_ne_none u
    · exact ht
  have hold : (t₀.put v).get k ≠ none := by
    rcases hk with hk | rfl
    · exact hput t₀ v hk
    · rw [show v.hash = v.key from rfl, get_put_self]
      exact Option.some_ne_none v
  rcases h with rfl | rfl
  · exact hold
  · exact hput _ w hold

/-! ## The invariant -/

structure Executed (dag : DAGGraph) (cs : List (Confirmation V)) : Prop where
  nodup : (committedVertices cs).Nodup
  stored : ∀ d ∈ committedVertices cs, dag.storage.get d.hash ≠ none
  memory : ∀ v ∈ dag.vertices.rows, v.status = .confirmed → v.toDAGVertex ∈ committedVertices cs
  disk : ∀ v ∈ dag.storage.rows, v.status = .confirmed → v.toDAGVertex ∈ committedVertices cs

variable {c : Confirmation V}

theorem committedVertices_append (h : Sound c) (cs : List (Confirmation V)) :
    committedVertices (cs ++ [c]) = committedVertices cs ++ [c.vertex.toDAGVertex] := by
  rw [committedVertices, filterMap_append, filterMap_cons, h.commits]
  rfl

variable {cs : List (Confirmation V)}

theorem Executed.confirm (h : Executed c.state.dag cs) (hsound : Sound c) :
    Executed (afterConfirmation env c).dag (cs ++ [c]) := by
  obtain ⟨_, w, hbase, hw, hmem, hdisk⟩ := confirmedDag_wrote hsound.added
  have hnew : c.vertex.toDAGVertex ∈ committedVertices cs ++ [c.vertex.toDAGVertex] :=
    mem_append_right _ (mem_singleton_self _)
  rw [afterConfirmation_dag]
  constructor
  · rw [committedVertices_append hsound, nodup_append]
    refine ⟨h.nodup, nodup_singleton _, fun d hd d' hd' heq => ?_⟩
    rw [mem_singleton.mp hd'] at heq
    exact h.stored d hd (heq ▸ hsound.fresh)
  · intro d hd
    rw [committedVertices_append hsound] at hd
    rcases mem_append.mp hd with hd | hd
    · exact get_of_wrote hdisk (.inl (h.stored d hd))
    · rw [mem_singleton.mp hd]
      exact get_of_wrote hdisk (.inr rfl)
  · intro x hx hstatus
    rw [committedVertices_append hsound]
    rcases row_of_wrote hmem hw hx with heq | hx
    · exact heq ▸ hnew
    refine mem_append_left _ (h.memory x ?_ hstatus)
    -- what eviction left in memory was there before
    rw [mem_rows_iff] at hx ⊢
    rcases hbase.memory x.key with hget | ⟨hget, -⟩
    · exact hget ▸ hx
    · rw [hget] at hx
      cases hx
  · intro x hx hstatus
    rw [committedVertices_append hsound]
    rcases row_of_wrote hdisk hw hx with heq | hx
    · exact heq ▸ hnew
    · exact mem_append_left _ (h.disk x hx hstatus)

/-! ## Runs -/

/-- The confirmations of a run. -/
def history (env : Platform V) (fp : FastPath V) : List FastPathOp → List (Confirmation V)
  | [] => []
  | op :: ops => confirmations env fp op ++ history env (fp.step env op) ops

def ConfirmsSoundly (env : Platform V) (fp : FastPath V) (op : FastPathOp) : Prop :=
  ∀ c ∈ confirmations env fp op, Sound c

instance (fp : FastPath V) (op : FastPathOp) : Decidable (ConfirmsSoundly env fp op) :=
  inferInstanceAs (Decidable (∀ c ∈ confirmations env fp op, Sound c))

theorem Executed.run {ops : List FastPathOp} (h : Executed fp.dag cs)
    (hsound : Runs.StepsMeet (step env) (ConfirmsSoundly env) fp ops) :
    Executed (Runs.run (step env) fp ops).dag (cs ++ history env fp ops) := by
  induction ops generalizing fp cs with
  | nil =>
    rw [history, append_nil]
    exact h
  | cons op ops ih =>
    have hstep : Executed (fp.step env op).dag (cs ++ confirmations env fp op) :=
      step_induct (fun _ _ h hsound => h.confirm hsound) h hsound.1
    rw [history, ← append_assoc]
    exact ih hstep hsound.2

/-- From a graph without confirmed vertices, every run of sound
confirmations commits the result of each vertex that ends up confirmed
exactly once. -/
theorem confirmed_executed_once (env : Platform V) (fp : FastPath V)
    (hstart : ∀ v ∈ fp.dag.vertices.rows ++ fp.dag.storage.rows, v.status ≠ .confirmed)
    (ops : List FastPathOp)
    (hsound : Runs.StepsMeet (step env) (ConfirmsSoundly env) fp ops) (hash : Hash) (v : Vertex)
    (hlook : (Runs.run (step env) fp ops).dag.look hash = some v)
    (hconfirmed : v.status = .confirmed) :
    (committedVertices (history env fp ops)).count v.toDAGVertex = 1 := by
  have hnone : Executed fp.dag ([] : List (Confirmation V)) :=
    ⟨nodup_nil, fun _ hd => absurd hd not_mem_nil,
      fun x hx hstatus => absurd hstatus (hstart x (mem_append_left _ hx)),
      fun x hx hstatus => absurd hstatus (hstart x (mem_append_right _ hx))⟩
  have hend := hnone.run hsound
  rw [nil_append] at hend
  refine count_eq_one_of_mem hend.nodup ?_
  rcases Option.or_eq_some_iff.mp hlook with hget | ⟨-, hget⟩
  · exact hend.memory v (mem_rows_of_get hget) hconfirmed
  · exact hend.disk v (mem_rows_of_get hget) hconfirmed

/-- Vertex 7 arrives and is confirmed without votes. -/
def confirmSeven (io : ConfirmContext) : List FastPathOp :=
  [.receiveVertex (sampleVertex 7) sampleVertexContext, .confirmDirect [sampleVertex 7] fun _ => io]

theorem confirmed_executed_once_seven :
    (committedVertices (history headPlatform sampleFastPath
      (confirmSeven sampleConfirmContext))).count (sampleVertex 7).toDAGVertex = 1 := by
  refine confirmed_executed_once headPlatform sampleFastPath ?_ _ ?_ 7
    ((sampleVertex 7).setStatus .confirmed) ?_ rfl
  · decide
  · decide
  · decide

/-- A disk that takes vertices but not accounts. -/
def fullDisk : ConfirmContext := { sampleConfirmContext with commitError := some "No space left" }

/-- Confirmed and never committed, and confirmed and committed twice. -/
theorem confirmed_not_executed_once :
    ((Runs.run (step headPlatform) sampleFastPath (confirmSeven fullDisk)).dag.look 7
        = some ((sampleVertex 7).setStatus .confirmed) ∧
      (committedVertices (history headPlatform sampleFastPath (confirmSeven fullDisk))).count
        (sampleVertex 7).toDAGVertex = 0) ∧
    (Runs.run (step headPlatform) sampleFastPath (confirmSeven sampleConfirmContext
        ++ confirmSeven sampleConfirmContext)).dag.look 7
      = some ((sampleVertex 7).setStatus .confirmed) ∧
    (committedVertices (history headPlatform sampleFastPath (confirmSeven sampleConfirmContext
      ++ confirmSeven sampleConfirmContext))).count (sampleVertex 7).toDAGVertex = 2 := by
  decide

end Quantos.FastPath

import Quantos.Confirmations
import Quantos.DagFinalization
import Quantos.FastPathQuorum

/-!
# Finalised vertices in the graph

The calls of the fast path and the walks of the finality layer write to one
graph. A walk marks vertices and leaves the rest (`finalizeFrom_marks`), and
an eviction takes confirmed vertices only. A confirmation overwrites what is
stored under the hash of its vertex, whatever the status of that is: `add_vertex`
does not look. So a finalised vertex stays what it is as long as nothing is
confirmed under its hash again.
-/

namespace Quantos

namespace DAGGraph

def IsFinal (dag : DAGGraph) (hash : Hash) : Prop :=
  (dag.look hash).map Vertex.status = some .finalized

instance (dag : DAGGraph) (hash : Hash) : Decidable (dag.IsFinal hash) :=
  inferInstanceAs (Decidable (_ = _))

variable {dag : DAGGraph} {hash : Hash} {v : Vertex}

theorem isFinal_of_look (hlook : dag.look hash = some v) (hfinal : v.status = .finalized) :
    dag.IsFinal hash := by
  rw [IsFinal, hlook, Option.map_some, hfinal]

theorem Marks.look_of_final {dag' : DAGGraph} (h : Marks dag dag')
    (hlook : dag.look hash = some v) (hfinal : v.status = .finalized) :
    dag'.look hash = some v := by
  rcases h hash with heq | heq
  · rw [heq, hlook]
  · rw [heq, hlook, Option.map_some, Vertex.finalize_of_status hfinal]

theorem look_addVertex_of_final (io : DagContext) {w : Vertex} (hlook : dag.look hash = some w)
    (hfinal : w.status = .finalized) (hne : v.hash ≠ hash) :
    (dag.addVertex io v).2.look hash = some w := by
  have hstatus : w.status ≠ .confirmed := by
    rw [hfinal]
    decide
  have heffect := addVertex_effect io dag v
  generalize dag.addVertex io v = result at heffect
  cases heffect with
  | refused hbase hmem hdisk =>
    rw [look, hmem, hdisk]
    exact hbase.look hlook hstatus
  | added hbase hparents hmem hdisk =>
    rw [look_of_put hmem hdisk, if_neg hne]
    exact hbase.look hlook hstatus

end DAGGraph

namespace FastPath

variable {V : Type} {env : Platform V} {hash : Hash} {v : Vertex}

theorem look_confirmedDag_of_final {io : ConfirmContext} {dag : DAGGraph} {w : Vertex}
    (hlook : dag.look hash = some w) (hfinal : w.status = .finalized) (hne : v.hash ≠ hash) :
    (confirmedDag io dag v).look hash = some w := by
  have hadd := DAGGraph.look_addVertex_of_final io.add hlook hfinal hne
  unfold confirmedDag
  split
  · rename_i hres
    rw [hres] at hadd
    exact hadd
  rename_i dag' hres
  rw [hres] at hadd
  rcases DAGGraph.look_updateVertexStatusInternal io.status dag' v.hash .confirmed hash with
    heq | ⟨heq, -⟩
  · rw [heq]
    exact hadd
  · exact absurd heq.symm hne

/-! ## Runs -/

/-- A call of the fast path, or the walk for a checkpoint that was finalised. -/
inductive DagOp where
  | fast (op : FastPathOp)
  | finalize (tips : List Hash) (io : WalkContext)

def dagStep (env : Platform V) (fp : FastPath V) : DagOp → FastPath V
  | .fast op => fp.step env op
  | .finalize tips io => { fp with dag := (fp.dag.finalizeReachableFromTips io tips).2 }

/-- Nothing is confirmed under the hash of a finalised vertex. -/
def SparesFinal (env : Platform V) (fp : FastPath V) : DagOp → Prop
  | .fast op => ∀ c ∈ confirmations env fp op, ¬ c.state.dag.IsFinal c.vertex.hash
  | .finalize _ _ => True

instance (fp : FastPath V) : (op : DagOp) → Decidable (SparesFinal env fp op)
  | .fast op => inferInstanceAs (Decidable (∀ c ∈ confirmations env fp op, _))
  | .finalize _ _ => isTrue trivial

theorem look_dagStep_of_final {fp : FastPath V} {op : DagOp} (hspares : SparesFinal env fp op)
    (hlook : fp.dag.look hash = some v) (hfinal : v.status = .finalized) :
    (dagStep env fp op).dag.look hash = some v := by
  cases op with
  | fast op =>
    refine @step_induct V env (fun dag _ => dag.look hash = some v)
      (fun c => ¬ c.state.dag.IsFinal c.vertex.hash) ?_ fp op [] hlook hspares
    intro c cs hlook hother
    rw [afterConfirmation_dag]
    refine look_confirmedDag_of_final hlook hfinal fun heq => hother ?_
    exact DAGGraph.isFinal_of_look (heq ▸ hlook) hfinal
  | finalize tips io =>
    exact (DAGGraph.finalizeFrom_marks io _ _ _ fp.dag).look_of_final hlook hfinal

/-- From any state, a finalised vertex is found unchanged after every run
that confirms nothing under the hash of a finalised vertex. -/
theorem final_vertex_irrevocable (env : Platform V) (fp : FastPath V) (ops : List DagOp)
    (hspares : Runs.StepsMeet (dagStep env) (SparesFinal env) fp ops) (hash : Hash) (v : Vertex)
    (hlook : fp.dag.look hash = some v) (hfinal : v.status = .finalized) :
    (Runs.run (dagStep env) fp ops).dag.look hash = some v :=
  Runs.invariant_of_stepsMeet (I := fun fp => fp.dag.look hash = some v)
    (fun _ _ hlook hspares => look_dagStep_of_final hspares hlook hfinal) hlook hspares

/-- Vertex 7 gets the votes of both members of its committee and is
finalised by a checkpoint. -/
def finalizedSeven : FastPath Unit :=
  Runs.run (dagStep headPlatform) sampleFastPath
    ((approvedOnce ++ [FastPathOp.receiveVote (sampleVote 3 true) sampleConfirmContext]).map .fast
      ++ [.finalize [7] .working])

theorem final_vertex_irrevocable_seven :
    (Runs.run (dagStep headPlatform) finalizedSeven
      [.fast (.receiveVertex (sampleVertex 8) sampleVertexContext),
        .fast (.confirmDirect [sampleVertex 8] fun _ => sampleConfirmContext)]).dag.look 7
      = some (sampleVertex 7).finalize := by
  refine final_vertex_irrevocable headPlatform finalizedSeven _ ?_ 7 _ ?_ rfl
  · decide
  · decide

/-- The same hash with another parent, once the first vertex has left the
pending ones; the votes of the committee are sent again. -/
def replaceSeven : List DagOp :=
  [.fast (.cleanup 31),
    .fast (.receiveVertex { sampleVertex 7 with parents := [7] } sampleVertexContext),
    .fast (.receiveVote (sampleVote 2 true) sampleConfirmContext),
    .fast (.receiveVote (sampleVote 3 true) sampleConfirmContext)]

theorem final_vertex_replaced :
    finalizedSeven.dag.look 7 = some (sampleVertex 7).finalize ∧
      (Runs.run (dagStep headPlatform) finalizedSeven replaceSeven).dag.look 7
        = some { sampleVertex 7 with parents := [7], status := .confirmed } := by
  decide

end FastPath

end Quantos

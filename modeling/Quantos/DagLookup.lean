import Quantos.Dag

/-!
# What a lookup finds

A lookup reads memory first and then disk. This module says what the writers
of `dag/graph.rs` do to the answer: `AddEffect` for a call of `add_vertex`,
refused or not, which may push confirmed vertices out of memory first, and
`look_updateVertexStatusInternal` for a change of status.
-/

namespace Quantos.DAGGraph

open Table

/-- The vertex a lookup finds, in memory first. -/
def look (dag : DAGGraph) (hash : Hash) : Option Vertex :=
  (dag.vertices.get hash).or (dag.storage.get hash)

def parentsOf (dag : DAGGraph) (hash : Hash) : List Hash := (dag.look hash).elim [] Vertex.parents

variable {v : Vertex} {hash : Hash} {t : Table Vertex.key}

theorem hash_of_get (h : t.get hash = some v) : v.hash = hash := by
  change v.key = hash
  exact key_of_get h

theorem hash_of_look {dag : DAGGraph} (h : dag.look hash = some v) : v.hash = hash := by
  rcases Option.or_eq_some_iff.mp h with hget | ⟨-, hget⟩
  · exact hash_of_get hget
  · exact hash_of_get hget

theorem look_of_getVertex {io : DagContext} {dag : DAGGraph} {found : Option Vertex}
    (h : dag.getVertex io hash = .ok found) : dag.look hash = found := by
  unfold getVertex at h
  split at h
  · rename_i hget
    rw [look, hget]
    exact Except.ok.inj h
  rename_i hget
  split at h
  · cases h
  · rw [look, hget]
    exact Except.ok.inj h

variable (dag : DAGGraph)

theorem getVertex_working (hash : Hash) : dag.getVertex .working hash = .ok (dag.look hash) := by
  unfold getVertex look
  cases dag.vertices.get hash with
  | some => rfl
  | none => rfl

theorem look_of_put {dag dag' : DAGGraph} (hmem : dag'.vertices = dag.vertices.put v)
    (hdisk : dag'.storage = dag.storage.put v) (hash : Hash) :
    dag'.look hash = if v.hash = hash then some v else dag.look hash := by
  rw [look, hmem, hdisk, get_put, get_put]
  change _ = if v.key = hash then _ else _
  by_cases h : v.key = hash
  · rw [if_pos h, if_pos h, if_pos h]
    rfl
  · rw [if_neg h, if_neg h, if_neg h]
    rfl

theorem look_insertVertex (v : Vertex) (hash : Hash) :
    (dag.insertVertex v).look hash = if v.hash = hash then some v else dag.look hash :=
  look_of_put rfl rfl hash

/-! ## Eviction -/

/-- `base` is `dag` after some confirmed vertices left memory. -/
structure Evicted (dag base : DAGGraph) : Prop where
  storage : base.storage = dag.storage
  tips : base.tips = dag.tips
  memory : ∀ hash, base.vertices.get hash = dag.vertices.get hash ∨
    (base.vertices.get hash = none ∧
      ∃ v, dag.vertices.get hash = some v ∧ v.status = .confirmed)

theorem Evicted.refl : Evicted dag dag := ⟨rfl, rfl, fun _ => .inl rfl⟩

variable (io : DagContext)

theorem evicted_evictOldVertices (dag : DAGGraph) :
    Evicted dag (dag.evictOldVertices io) where
  storage := rfl
  tips := rfl
  memory := fun hash => by
    unfold evictOldVertices
    generalize htaken : List.take _ (List.filter _ _) = toEvict
    have hmem : ∀ v ∈ toEvict, dag.vertices.get v.hash = some v ∧ v.status = .confirmed := by
      intro v hv
      rw [← htaken] at hv
      obtain ⟨hrow, hstatus⟩ := List.mem_filter.mp (List.mem_of_mem_take hv)
      exact ⟨get_of_mem ((io.iteration_perm ..).mem_iff.mp hrow),
        of_decide_eq_true hstatus⟩
    -- whatever was erased so far was confirmed in the graph as it was
    refine List.foldlRecOn (motive := fun t : Table Vertex.key =>
      t.get hash = dag.vertices.get hash ∨ (t.get hash = none ∧
        ∃ v, dag.vertices.get hash = some v ∧ v.status = .confirmed)) _ _ (.inl rfl) ?_
    intro t ht v hv
    rw [get_erase]
    split
    · rename_i heq
      obtain ⟨hget, hstatus⟩ := hmem v hv
      exact .inr ⟨rfl, v, heq ▸ hget, hstatus⟩
    · exact ht

variable {base : DAGGraph}

/-- Only a confirmed vertex may be found in another version afterwards. -/
theorem Evicted.look {dag : DAGGraph} (h : Evicted dag base) (hlook : dag.look hash = some v)
    (hstatus : v.status ≠ .confirmed) : base.look hash = some v := by
  rcases h.memory hash with hget | ⟨-, w, hget, hconfirmed⟩
  · rw [DAGGraph.look, hget, h.storage]
    exact hlook
  rw [DAGGraph.look, hget] at hlook
  cases hlook
  exact absurd hconfirmed hstatus

/-! ## Adding a vertex -/

/-- Everything a call of `add_vertex` can do to the vertices and the tips. -/
inductive AddEffect (io : DagContext) (dag : DAGGraph) (v : Vertex) :
    Except DAGError Unit × DAGGraph → Prop where
  | refused {base dag' : DAGGraph} {e : DAGError} (hbase : Evicted dag base)
      (hmem : dag'.vertices = base.vertices) (hdisk : dag'.storage = base.storage) :
      AddEffect io dag v (.error e, dag')
  | added {base dag' : DAGGraph} (hbase : Evicted dag base)
      (hparents : base.checkParents io v.parents = .ok ())
      (hmem : dag'.vertices = base.vertices.put v) (hdisk : dag'.storage = base.storage.put v)
      (htips : dag'.tips = (base.updateTips v).tips) :
      AddEffect io dag v (.ok (), dag')

theorem admitVertex_effect {dag : DAGGraph} (hbase : Evicted dag base) (v : Vertex) :
    AddEffect io dag v (base.admitVertex io v) := by
  unfold admitVertex
  split
  · exact .refused hbase rfl rfl
  split
  · exact .refused hbase rfl rfl
  split
  · exact .refused hbase rfl rfl
  rename_i hparents
  split
  · exact .refused hbase rfl rfl
  unfold linkVertex
  split
  · exact .refused hbase rfl rfl
  split
  · exact .refused hbase rfl rfl
  · exact .added hbase hparents rfl rfl rfl

theorem addVertex_effect (dag : DAGGraph) (v : Vertex) :
    AddEffect io dag v (dag.addVertex io v) := by
  unfold addVertex
  split
  · exact .refused (.refl dag) rfl rfl
  split
  · dsimp only
    split
    · exact .refused (evicted_evictOldVertices ..) rfl rfl
    · exact admitVertex_effect io (evicted_evictOldVertices io dag) v
  · exact admitVertex_effect io (.refl dag) v

/-! ## A change of status -/

/-- `t` is `t₀`, or `t₀` with the vertex written to it. -/
def Wrote (t₀ : Table Vertex.key) (v : Vertex) (t : Table Vertex.key) : Prop :=
  t = t₀ ∨ t = t₀.put v

theorem Wrote.get_of_ne {t₀ : Table Vertex.key} (h : Wrote t₀ v t) {k : Hash} (hk : v.hash ≠ k) :
    t.get k = t₀.get k := by
  rcases h with rfl | rfl
  · rfl
  · exact get_put_of_ne t₀ hk

/-- Either nothing changes, or one vertex gets the status: in memory if it
is there, on disk if the write succeeds. -/
theorem updateVertexStatusInternal_effect (dag : DAGGraph) (hash : Hash) (status : VertexStatus) :
    (dag.updateVertexStatusInternal io hash status).2 = dag ∨
      ∃ v, v.hash = hash ∧ dag.look hash = some v ∧ Wrote dag.storage (v.setStatus status)
          (dag.updateVertexStatusInternal io hash status).2.storage ∧
        Wrote dag.vertices (v.setStatus status)
          (dag.updateVertexStatusInternal io hash status).2.vertices ∧
        (dag.updateVertexStatusInternal io hash status).2.look hash
          = some (v.setStatus status) := by
  unfold updateVertexStatusInternal
  split
  · rename_i v hget
    have hkey : v.hash = hash := hash_of_get hget
    have hput : (dag.vertices.put (v.setStatus status)).get hash = some (v.setStatus status) := by
      rw [get_put, if_pos (show (v.setStatus status).key = hash from hkey)]
    refine .inr ⟨v, hkey, by rw [look, hget]; rfl, ?_⟩
    split
    · exact ⟨.inl rfl, .inr rfl, by rw [look, hput]; rfl⟩
    · exact ⟨.inr rfl, .inr rfl, by rw [look, hput]; rfl⟩
  · rename_i hget
    split
    · exact .inl rfl
    split
    · exact .inl rfl
    rename_i v hdisk
    have hkey := hash_of_get hdisk
    split
    · exact .inl rfl
    refine .inr ⟨v, hkey, by rw [look, hget, hdisk]; rfl, .inr rfl, .inl rfl, ?_⟩
    rw [look, hget, get_put, if_pos (show (v.setStatus status).key = hash from hkey)]
    rfl

theorem look_updateVertexStatusInternal (dag : DAGGraph) (hash : Hash) (status : VertexStatus)
    (k : Hash) :
    (dag.updateVertexStatusInternal io hash status).2.look k = dag.look k ∨
      (k = hash ∧ (dag.updateVertexStatusInternal io hash status).2.look k
        = (dag.look k).map (Vertex.setStatus · status)) := by
  rcases updateVertexStatusInternal_effect io dag hash status with
    heq | ⟨v, hkey, hold, hdisk, hmem, hnew⟩
  · rw [heq]
    exact .inl rfl
  by_cases hk : k = hash
  · rw [hk, hnew, hold]
    exact .inr ⟨rfl, rfl⟩
  have hne : (v.setStatus status).hash ≠ k := fun heq => hk (heq.symm.trans hkey)
  rw [look, hmem.get_of_ne hne, hdisk.get_of_ne hne]
  exact .inl rfl

end Quantos.DAGGraph

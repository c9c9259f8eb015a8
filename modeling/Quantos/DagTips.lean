import Quantos.DagLookup
import Quantos.Finality
import Quantos.GraphSearch

/-!
# The tips and what lies below them

`update_tips` of `dag/graph.rs` takes the parents of a new vertex off the
list of its shard and appends the vertex; a list that is too long loses its
oldest entries. As long as none is lost that way, everything in the graph
lies below a tip of some shard: a tip that is taken off is a parent of the
vertex that replaces it.

Memory and disk hold the same vertices in a graph that only `add_vertex`
writes to, so an eviction changes no lookup.
-/

namespace Quantos

open GraphSearch Table Runs List

namespace DAGGraph

variable (dag : DAGGraph)

/-- The hash is that of a tip, or of an ancestor of one. -/
def BelowTip (hash : Hash) : Prop :=
  ∃ shardId, Reaches dag.parentsOf (dag.getTips shardId) hash

structure TipsCover (dag : DAGGraph) : Prop where
  mirrored : ∀ hash v, dag.vertices.get hash = some v → dag.storage.get hash = some v
  below : ∀ hash v, dag.look hash = some v → dag.BelowTip hash

/-- The tips of its shard that are no parents of the vertex leave room for it. -/
def HasRoom (v : Vertex) : Prop :=
  ((dag.getTips v.shardId).filter fun tip => !v.parents.contains tip).length < MAX_TIPS_PER_SHARD

instance (v : Vertex) : Decidable (dag.HasRoom v) :=
  inferInstanceAs (Decidable (_ < _))

variable {dag} {v : Vertex}

theorem getTips_updateTips (hroom : dag.HasRoom v) (shardId : ShardId) :
    (dag.updateTips v).getTips shardId = if v.shardId = shardId
      then (dag.getTips v.shardId).filter (fun tip => tip ∉ v.parents) ++ [v.hash]
      else dag.getTips shardId := by
  unfold HasRoom getTips at hroom
  simp only [contains_eq_mem, ← decide_not] at hroom
  unfold updateTips getTips
  rw [get_put]
  cases hget : dag.tips.get v.shardId with
  | none =>
    by_cases hshard : v.shardId = shardId
    · simp [hshard]
    · simp [hshard]
  | some entry =>
    rw [hget] at hroom
    by_cases hshard : v.shardId = shardId
    · have hlength : (entry.2.filter (fun tip => tip ∉ v.parents) ++ [v.hash]).length
          ≤ MAX_TIPS_PER_SHARD := by
        rw [length_append, length_singleton]
        exact hroom
      simp only [hshard, if_true, Option.elim_some, Nat.sub_eq_zero_of_le hlength, drop_zero]
    · simp [hshard]

theorem Evicted.look_of_mirrored {base : DAGGraph} (h : Evicted dag base)
    (hmirror : ∀ hash v, dag.vertices.get hash = some v → dag.storage.get hash = some v)
    (hash : Hash) : base.look hash = dag.look hash := by
  rw [DAGGraph.look, DAGGraph.look, h.storage]
  rcases h.memory hash with hget | ⟨hget, v, hold, -⟩
  · rw [hget]
  · rw [hget, hold, hmirror hash v hold]
    rfl

variable {hash : Hash}

/-- Below a tip before, below a tip after: the old vertices keep their
parents, and a tip that went is a parent of the new vertex. -/
theorem BelowTip.add {dag' : DAGGraph} (hfresh : dag.look v.hash = none)
    (hlook : ∀ k, dag'.look k = if v.hash = k then some v else dag.look k)
    (htips : ∀ shardId, dag'.getTips shardId = if v.shardId = shardId
      then (dag.getTips v.shardId).filter (fun tip => tip ∉ v.parents) ++ [v.hash]
      else dag.getTips shardId) (h : dag.BelowTip hash) : dag'.BelowTip hash := by
  have hparents : ∀ x, ∀ y ∈ dag.parentsOf x, y ∈ dag'.parentsOf x := by
    intro x y hy
    rw [parentsOf, hlook]
    split
    · rename_i heq
      rw [← heq, parentsOf, hfresh] at hy
      cases hy
    · exact hy
  have hnew : dag'.parentsOf v.hash = v.parents := by
    rw [parentsOf, hlook, if_pos rfl]
    rfl
  obtain ⟨shardId, hreach⟩ := h
  obtain ⟨tip, htip, hpath⟩ := hreach.mono hparents
  by_cases hshard : v.shardId = shardId
  · by_cases hgone : tip ∈ v.parents
    · refine ⟨shardId, v.hash, ?_, .head ?_ hpath⟩
      · rw [htips, if_pos hshard]
        exact mem_append_right _ (mem_singleton_self _)
      · rw [hnew]
        exact hgone
    · refine ⟨shardId, tip, ?_, hpath⟩
      rw [htips, if_pos hshard, hshard]
      exact mem_append_left _ (mem_filter.mpr ⟨htip, decide_eq_true hgone⟩)
  · refine ⟨shardId, tip, ?_, hpath⟩
    rw [htips, if_neg hshard]
    exact htip

variable {io : DagContext}

theorem getTips_of_addVertex_ok (hok : (dag.addVertex io v).1 = .ok ()) (hroom : dag.HasRoom v)
    (shardId : ShardId) :
    (dag.addVertex io v).2.getTips shardId = if v.shardId = shardId
      then (dag.getTips v.shardId).filter (fun tip => tip ∉ v.parents) ++ [v.hash]
      else dag.getTips shardId := by
  rw [← getTips_updateTips hroom]
  have heffect := addVertex_effect io dag v
  generalize dag.addVertex io v = result at hok heffect
  cases heffect with
  | refused => cases hok
  | added hbase hparents hmem hdisk htips =>
    rw [getTips, getTips, htips, updateTips, updateTips, hbase.tips]

/-- What a call that succeeds leaves, in a graph whose memory mirrors its
disk. -/
theorem of_addVertex_ok
    (hmirror : ∀ hash v, dag.vertices.get hash = some v → dag.storage.get hash = some v)
    (hok : (dag.addVertex io v).1 = .ok ()) :
    (∀ hash w, (dag.addVertex io v).2.vertices.get hash = some w →
        (dag.addVertex io v).2.storage.get hash = some w) ∧
      ∀ k, (dag.addVertex io v).2.look k = if v.hash = k then some v else dag.look k := by
  have heffect := addVertex_effect io dag v
  generalize dag.addVertex io v = result at hok heffect
  cases heffect with
  | refused => cases hok
  | added hbase hparents hmem hdisk =>
    refine ⟨fun hash w hget => ?_, fun k => ?_⟩
    · rw [hmem, get_put] at hget
      rw [hdisk, get_put]
      split at hget
      · rename_i hkey
        rw [if_pos hkey]
        exact hget
      rename_i hkey
      rw [if_neg hkey, hbase.storage]
      rcases hbase.memory hash with hold | ⟨hold, -⟩
      · exact hmirror hash w (hold ▸ hget)
      · rw [hold] at hget
        cases hget
    · rw [look_of_put hmem hdisk, hbase.look_of_mirrored hmirror]

theorem TipsCover.addVertex (h : TipsCover dag) (hok : (dag.addVertex io v).1 = .ok ())
    (hfresh : dag.look v.hash = none) (hroom : dag.HasRoom v) :
    TipsCover (dag.addVertex io v).2 := by
  obtain ⟨hmirror, hlook⟩ := of_addVertex_ok h.mirrored hok
  have htips := getTips_of_addVertex_ok hok hroom
  refine ⟨hmirror, fun hash w hget => ?_⟩
  rw [hlook] at hget
  split at hget
  · rename_i heq
    refine ⟨v.shardId, hash, ?_, .refl⟩
    rw [htips, if_pos rfl, heq]
    exact mem_append_right _ (mem_singleton_self _)
  · exact (h.below hash w hget).add hfresh hlook htips

/-! ## Runs -/

section

variable (dag : DAGGraph) (call : DagContext × Vertex) (minParents maxParents : Nat)
  (creators : Finset Address)

def addStep : DAGGraph :=
  (dag.addVertex call.1 call.2).2

/-- A call that succeeds and makes its shard lose no tip. -/
def AddsWithRoom : Prop :=
  (dag.addVertex call.1 call.2).1 = .ok () ∧ dag.HasRoom call.2

/-- A graph without vertices, for any creators. -/
def withCreators : DAGGraph :=
  { DAGGraph.new Table.empty minParents maxParents with authorizedCreators := creators }

theorem tipsCover_withCreators : TipsCover (withCreators minParents maxParents creators) where
  mirrored := fun _ _ hget => by cases hget
  below := fun _ _ hget => by cases hget

end

variable {calls : List (DagContext × Vertex)}

/-- With distinct hashes, the hash of a call is new when the call is made. -/
theorem TipsCover.run :
    ∀ {dag : DAGGraph}, TipsCover dag → (calls.map fun call => call.2.hash).Nodup →
      (∀ call ∈ calls, dag.look call.2.hash = none) →
      Runs.StepsMeet addStep AddsWithRoom dag calls → TipsCover (run addStep dag calls) := by
  induction calls with
  | nil => exact fun h _ _ _ => h
  | cons call calls ih =>
    intro dag h hdistinct hfresh hcalls
    obtain ⟨hnotin, hdistinct⟩ := nodup_cons.mp hdistinct
    obtain ⟨⟨hok, hroom⟩, hcalls⟩ := hcalls
    refine ih (h.addVertex hok (hfresh call mem_cons_self) hroom) hdistinct ?_ hcalls
    intro later hlater
    rw [addStep, (of_addVertex_ok h.mirrored hok).2, if_neg]
    · exact hfresh later (mem_cons_of_mem _ hlater)
    · intro heq
      exact hnotin (mem_map.mpr ⟨later, hlater, heq.symm⟩)

theorem lt_of_getTips_run {numShards : UInt16}
    (hdag : ∀ shardId, dag.getTips shardId ≠ [] → shardId < numShards)
    (hcalls : Runs.StepsMeet addStep AddsWithRoom dag calls)
    (hshards : ∀ call ∈ calls, call.2.shardId < numShards) :
    ∀ shardId, (run addStep dag calls).getTips shardId ≠ [] → shardId < numShards := by
  refine invariant_of_stepsMeet
    (I := fun dag => ∀ shardId, dag.getTips shardId ≠ [] → shardId < numShards)
    ?_ hdag (hcalls.and_mem hshards)
  rintro dag call h ⟨⟨hok, hroom⟩, hshard⟩ shardId htips
  rw [addStep, getTips_of_addVertex_ok hok hroom] at htips
  split at htips
  · rename_i heq
    exact heq ▸ hshard
  · exact h shardId htips

/-- A checkpoint over the tips of all shards covers what is below them. -/
theorem BelowTip.reaches_collectDagState (h : dag.BelowTip hash) {fl : FinalityLayer}
    {view : CheckpointView} (hview : view.getTips = dag.getTips)
    (hshards : ∀ shardId, dag.getTips shardId ≠ [] → shardId < fl.numShards) :
    Reaches dag.parentsOf (fl.collectDagState view) hash := by
  obtain ⟨shardId, tip, htip, hpath⟩ := h
  refine ⟨tip, mem_flatMap.mpr ⟨shardId.toNat, mem_range.mpr ?_, ?_⟩, hpath⟩
  · exact UInt16.lt_iff_toNat_lt.mp (hshards shardId (ne_nil_of_mem htip))
  · rw [hview, UInt16.ofNat_toNat]
    exact htip

/-- After any calls that succeed, with pairwise distinct hashes and no shard
losing a tip, every vertex is a tip of some shard or an ancestor of one, and
is below the tips a checkpoint collects if that asks all the shards. -/
theorem tips_cover_history (minParents maxParents : Nat) (creators : Finset Address)
    (calls : List (DagContext × Vertex)) (hdistinct : (calls.map fun call => call.2.hash).Nodup)
    (hcalls : Runs.StepsMeet addStep AddsWithRoom (withCreators minParents maxParents creators)
      calls) (hash : Hash) (v : Vertex)
    (hlook : (run addStep (withCreators minParents maxParents creators) calls).look hash
      = some v) :
    (run addStep (withCreators minParents maxParents creators) calls).BelowTip hash ∧
      ∀ (fl : FinalityLayer) (view : CheckpointView),
        view.getTips
          = (run addStep (withCreators minParents maxParents creators) calls).getTips →
        (∀ call ∈ calls, call.2.shardId < fl.numShards) →
        Reaches (run addStep (withCreators minParents maxParents creators) calls).parentsOf
          (fl.collectDagState view) hash := by
  have hcover := (tipsCover_withCreators ..).run hdistinct
    (fun _ _ => rfl) hcalls
  refine ⟨hcover.below hash v hlook, fun fl view hview hshards => ?_⟩
  refine (hcover.below hash v hlook).reaches_collectDagState hview ?_
  exact lt_of_getTips_run (fun _ htips => absurd rfl htips) hcalls hshards

/-- A vertex on a parent, or without one. -/
def plainVertex (hash : Hash) (parents : List Hash) : Vertex where
  hash := hash
  transactions := []
  parents := parents
  timestamp := 0
  shardId := 0
  creator := 0
  signature := []
  height := 0
  status := .pending
  stateRoot := 0

def twoCalls : List (DagContext × Vertex) :=
  [(.working, plainVertex 1 []), (.working, plainVertex 2 [1])]

theorem tips_cover_two : (run addStep (withCreators 1 8 {0}) twoCalls).BelowTip 1 := by
  have hcalls : Runs.StepsMeet addStep AddsWithRoom (withCreators 1 8 {0}) twoCalls :=
    ⟨⟨rfl, by decide⟩, ⟨rfl, by decide⟩, trivial⟩
  have hlook : (run addStep (withCreators 1 8 {0}) twoCalls).look 1
      = some (plainVertex 1 []) := by decide
  exact (tips_cover_history 1 8 {0} twoCalls (by decide) hcalls 1 _ hlook).1

/-- One more vertex without parents than a shard has room for. -/
def wideCalls : List (DagContext × Vertex) :=
  (List.range (MAX_TIPS_PER_SHARD + 1)).map fun i =>
    (.working, plainVertex (BitVec.ofNat 256 i) [])

theorem mem_of_reaches_parentless {roots : List Hash}
    (hrows : ∀ v ∈ dag.vertices.rows ++ dag.storage.rows, v.parents = [])
    (h : Reaches dag.parentsOf roots hash) : hash ∈ roots := by
  have hparents : ∀ x, dag.parentsOf x = [] := by
    intro x
    rw [parentsOf]
    cases hlook : dag.look x with
    | none => rfl
    | some v =>
      refine hrows v (mem_append.mpr ?_)
      exact (Option.or_eq_some_iff.mp hlook).imp mem_rows_of_get
        fun hdisk => mem_rows_of_get hdisk.2
  obtain ⟨_, hroot, hpath⟩ := h
  cases hpath with
  | refl => exact hroot
  | tail _ hstep =>
    rw [hparents] at hstep
    cases hstep

/-- The first of them is in the graph, and below no tip. -/
theorem oldest_tip_lost : ((wideCalls.map fun call => call.2.hash).Nodup ∧
      Runs.StepsMeet addStep (fun dag call => (dag.addVertex call.1 call.2).1 = .ok ())
        (withCreators 1 8 {0}) wideCalls) ∧
      (run addStep (withCreators 1 8 {0}) wideCalls).look 0 = some (plainVertex 0 []) ∧
      ¬ (run addStep (withCreators 1 8 {0}) wideCalls).BelowTip 0 := by
  -- the run is evaluated once for all that is asked of its end
  have hend :
      let dag := run addStep (withCreators 1 8 {0}) wideCalls
      dag.look 0 = some (plainVertex 0 []) ∧
        (∀ v ∈ dag.vertices.rows ++ dag.storage.rows, v.parents = []) ∧
        ∀ entry ∈ dag.tips.rows, (0 : Hash) ∉ entry.2 := by
    decide +kernel
  obtain ⟨hlook, hrows, htips⟩ := hend
  refine ⟨⟨by decide, by decide +kernel⟩, hlook, ?_⟩
  rintro ⟨shardId, hreach⟩
  have hmem := mem_of_reaches_parentless hrows hreach
  rw [getTips] at hmem
  cases hget : (run addStep (withCreators 1 8 {0}) wideCalls).tips.get shardId with
  | none =>
    rw [hget] at hmem
    cases hmem
  | some entry =>
    rw [hget] at hmem
    exact htips entry (mem_rows_of_get hget) hmem

end DAGGraph

end Quantos

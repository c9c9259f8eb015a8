import Quantos.DagLookup
import Quantos.GraphSearch
import Mathlib.Data.Set.Card

/-!
# Finalising what a checkpoint covers

`finalize_reachable_from_tips` of `dag/graph.rs`: from the tips of a
checkpoint the graph is walked towards the parents, and every vertex found
is marked `Finalized` on disk and in memory. The walk is that of
`GraphSearch`, over the parents a lookup finds.

Whatever the disk answers, a walk leaves every vertex as it was or marks it
(`finalizeFrom_marks`). On a disk that works it ends with all reachable
hashes seen and marked, or at the limit with at least that many seen
(`walked_finalizeFrom`). The limit counts the hashes seen, so those of
vertices that were final long before count as well.
-/

namespace Quantos

open GraphSearch Finset Worklist

def MAX_TRAVERSAL_VERTICES : Nat := 10000

/-- What the disk answers during one walk. -/
structure WalkContext where
  read : DagContext
  writeError : Hash → Option String

def WalkContext.working : WalkContext := ⟨.working, fun _ => none⟩

namespace Vertex

def finalize (v : Vertex) : Vertex := v.setStatus .finalized

theorem finalize_of_status {v : Vertex} (h : v.status = .finalized) : v.finalize = v := by
  cases v
  cases h
  rfl

end Vertex

namespace DAGGraph

variable (io : WalkContext) (dag : DAGGraph) (vertex : Vertex)

/-- The two writes for a vertex that becomes final. -/
def putFinalized : DAGGraph :=
  { dag with
    storage := dag.storage.put vertex.finalize
    vertices := dag.vertices.put vertex.finalize }

theorem look_putFinalized (v : Vertex) (hash : Hash) :
    (dag.putFinalized v).look hash = if v.hash = hash then some v.finalize else dag.look hash :=
  look_of_put (v := v.finalize) rfl rfl hash

/-- What the loop does with a vertex it found, unless that is final already. -/
def markFinalized (counts : UInt64 × UInt64) (vertex : Vertex) : Except DAGError
    (UInt64 × UInt64) × DAGGraph :=
  if vertex.status = .finalized then (.ok counts, dag)
  else
    match io.writeError vertex.hash with
    | some reason => (.error (.storageError reason), dag)
    | none =>
      (.ok (saturatingAdd64 counts.1 1,
          saturatingAdd64 counts.2 (UInt64.ofNat vertex.transactions.length)),
        dag.putFinalized vertex)

/-- The `while` loop. Each round takes one seen hash from the queue for
good, so the limit is met before the fuel is used up. -/
def finalizeFrom (io : WalkContext) : Nat → Worklist Hash → UInt64 × UInt64 → DAGGraph →
    Except DAGError (UInt64 × UInt64) × DAGGraph
  | 0, _, _, dag => (.error (.traversalLimitExceeded MAX_TRAVERSAL_VERTICES), dag)
  | fuel + 1, w, counts, dag =>
    match w.pop with
    | none => (.ok counts, dag)
    | some (hash, w) =>
      if w.visited.card ≥ MAX_TRAVERSAL_VERTICES then
        (.error (.traversalLimitExceeded MAX_TRAVERSAL_VERTICES), dag)
      else
        match dag.getVertex io.read hash with
        | .error e => (.error e, dag)
        | .ok none => finalizeFrom io fuel w counts dag
        | .ok (some vertex) =>
          match dag.markFinalized io counts vertex with
          | (.error e, dag) => (.error e, dag)
          | (.ok counts, dag) => finalizeFrom io fuel (w.pushAll vertex.parents) counts dag

/-- The number of vertices finalised and that of their transactions. -/
def finalizeReachableFromTips (tips : List Hash) : Except DAGError (UInt64 × UInt64) × DAGGraph :=
  finalizeFrom io MAX_TRAVERSAL_VERTICES (Worklist.empty.pushAll tips) (0, 0) dag

/-! ## What a walk leaves -/

/-- Every lookup finds what it found before, or that marked as final. -/
def Marks (dag' : DAGGraph) : Prop :=
  ∀ hash, dag'.look hash = dag.look hash ∨ dag'.look hash = (dag.look hash).map Vertex.finalize

theorem Marks.refl : Marks dag dag := fun _ => .inl rfl

variable {dag dag' : DAGGraph}

theorem Marks.trans {dag'' : DAGGraph} (h : Marks dag dag') (h' : Marks dag' dag'') :
    Marks dag dag'' := by
  intro hash
  rcases h' hash with hlast | hlast
  · rw [hlast]
    exact h hash
  rw [hlast]
  rcases h hash with hfirst | hfirst
  · rw [hfirst]
    exact .inr rfl
  · rw [hfirst, Option.map_map]
    exact .inr rfl

theorem Marks.parentsOf (h : Marks dag dag') : dag'.parentsOf = dag.parentsOf := by
  funext hash
  rw [DAGGraph.parentsOf, DAGGraph.parentsOf]
  rcases h hash with heq | heq
  · rw [heq]
  rw [heq]
  cases dag.look hash with
  | none => rfl
  | some => rfl

variable {counts : UInt64 × UInt64} {v : Vertex} {io : WalkContext}

theorem look_markFinalized (hlook : dag.look v.hash = some v) {counts' : UInt64 × UInt64}
    (hok : (dag.markFinalized io counts v).1 = .ok counts') (hash : Hash) :
    (dag.markFinalized io counts v).2.look hash
      = if v.hash = hash then some v.finalize else dag.look hash := by
  unfold markFinalized at hok ⊢
  split
  · rename_i hstatus
    rw [Vertex.finalize_of_status hstatus]
    split
    · rename_i heq
      rw [← heq, hlook]
    · rfl
  · rename_i hstatus
    rw [if_neg hstatus] at hok
    split
    · rename_i hwrite
      rw [hwrite] at hok
      cases hok
    · exact look_putFinalized ..

theorem markFinalized_of_error {e : DAGError} (h : (dag.markFinalized io counts v).1 = .error e) :
    (dag.markFinalized io counts v).2 = dag := by
  unfold markFinalized at h ⊢
  split
  · rfl
  rename_i hstatus
  rw [if_neg hstatus] at h
  split
  · rfl
  rename_i hwrite
  rw [hwrite] at h
  cases h

theorem markFinalized_marks (io : WalkContext) (counts : UInt64 × UInt64)
    (hlook : dag.look v.hash = some v) : Marks dag (dag.markFinalized io counts v).2 := by
  cases hres : (dag.markFinalized io counts v).1 with
  | error =>
    rw [markFinalized_of_error hres]
    exact Marks.refl dag
  | ok =>
    intro hash
    rw [look_markFinalized hlook hres]
    split
    · rename_i heq
      rw [← heq, hlook]
      exact .inr rfl
    · exact .inl rfl

/-- Whatever the disk answers, a walk marks vertices and does nothing else. -/
theorem finalizeFrom_marks (io : WalkContext) (fuel : Nat) (w : Worklist Hash)
    (counts : UInt64 × UInt64) (dag : DAGGraph) :
    Marks dag (finalizeFrom io fuel w counts dag).2 := by
  induction fuel generalizing w counts dag with
  | zero => exact Marks.refl dag
  | succ fuel ih =>
    rw [finalizeFrom]
    split
    · exact Marks.refl dag
    split
    · exact Marks.refl dag
    split
    · exact Marks.refl dag
    · exact ih _ _ _
    · rename_i vertex hget
      have hlook := look_of_getVertex hget
      rw [← hash_of_look hlook] at hlook
      have hmark := markFinalized_marks io counts hlook
      split
      · rename_i hres
        rw [hres] at hmark
        exact hmark
      rename_i hres
      rw [hres] at hmark
      exact hmark.trans (ih _ _ _)

/-! ## A walk on a disk that works -/

/-- Between two rounds of a walk of `dag₀`: the hashes looked at are marked. -/
structure Walked (dag₀ : DAGGraph) (tips : List Hash) (w : Worklist Hash) (dag : DAGGraph) :
    Prop where
  frontier : Frontier dag₀.parentsOf tips w
  marks : Marks dag₀ dag
  done : ∀ hash ∈ w.visited, hash ∉ w.queue →
    dag.look hash = (dag₀.look hash).map Vertex.finalize

theorem markFinalized_working (counts : UInt64 × UInt64) (hlook : dag.look v.hash = some v) :
    ∃ counts' dag', dag.markFinalized .working counts v = (.ok counts', dag')
      ∧ ∀ hash, dag'.look hash = if v.hash = hash then some v.finalize else dag.look hash := by
  cases hres : (dag.markFinalized .working counts v).1 with
  | error =>
    unfold markFinalized at hres
    split at hres
    · cases hres
    · cases hres
  | ok counts' => exact ⟨counts', _, Prod.ext hres rfl, look_markFinalized hlook hres⟩

theorem walked_start (dag : DAGGraph) (tips : List Hash) :
    Walked dag tips (Worklist.empty.pushAll tips) dag where
  frontier := frontier_start
  marks := Marks.refl dag
  done := fun hash hvisited hqueue => by
    have htip : hash ∈ tips := (mem_visited_pushAll.mp hvisited).resolve_left
      (notMem_empty hash)
    exact absurd (mem_queue_pushAll.mpr (.inr ⟨htip, notMem_empty hash⟩)) hqueue

variable {w : Worklist Hash} {tips : List Hash} {dag₀ : DAGGraph}

theorem Walked.look_map (h : Walked dag₀ tips w dag) (hash : Hash) :
    (dag.look hash).map Vertex.finalize = (dag₀.look hash).map Vertex.finalize := by
  rcases h.marks hash with heq | heq
  · rw [heq]
  · rw [heq, Option.map_map]
    rfl

variable {hash : Hash}

/-- A round that marks what is found under the hash it took. -/
theorem Walked.visit {w' : Worklist Hash} (h : Walked dag₀ tips w dag)
    (hpop : w.pop = some (hash, w'))
    (hlook : ∀ k, dag'.look k = if hash = k then (dag.look hash).map Vertex.finalize
      else dag.look k) : Walked dag₀ tips (w'.pushAll (dag₀.parentsOf hash)) dag' := by
  obtain ⟨hqueue, hvisited⟩ := of_pop_some hpop
  refine ⟨h.frontier.visit hpop, fun k => ?_, fun k hseen hdone => ?_⟩
  · rw [hlook]
    split
    · rename_i heq
      rw [← heq, h.look_map]
      exact .inr rfl
    · exact h.marks k
  · rw [hlook]
    split
    · rename_i heq
      rw [← heq, h.look_map]
    rename_i hne
    -- another hash that is out of the queue now was out of it before
    rw [mem_visited_pushAll, hvisited] at hseen
    rw [mem_queue_pushAll, hvisited] at hdone
    have hold : k ∈ w.visited :=
      hseen.elim id fun hparent => by_contra fun hnew => hdone (.inr ⟨hparent, hnew⟩)
    refine h.done k hold ?_
    rw [hqueue, List.mem_cons]
    exact fun hmem => hmem.elim (fun heq => hne heq.symm) fun hmem => hdone (.inl hmem)

/-- How a walk of `dag₀` on a working disk ends: with everything reachable
seen and marked, or at the limit. -/
def Ended (dag₀ : DAGGraph) (tips : List Hash)
    (result : Except DAGError (UInt64 × UInt64) × DAGGraph) : Prop :=
  (∃ counts w, result.1 = .ok counts ∧ Walked dag₀ tips w result.2 ∧ w.queue = []
      ∧ w.visited.card < MAX_TRAVERSAL_VERTICES)
    ∨ ∃ w, result.1 = .error (.traversalLimitExceeded MAX_TRAVERSAL_VERTICES)
      ∧ Frontier dag₀.parentsOf tips w ∧ MAX_TRAVERSAL_VERTICES ≤ w.visited.card

/-- `w.visited.card - w.queue.length` rounds have passed: fewer than the
limit, and the fuel is enough for the others. -/
theorem walked_finalizeFrom {fuel : Nat} (h : Walked dag₀ tips w dag)
    (hfuel : MAX_TRAVERSAL_VERTICES + w.queue.length ≤ fuel + w.visited.card)
    (hroom : w.visited.card < MAX_TRAVERSAL_VERTICES + w.queue.length) :
    Ended dag₀ tips (finalizeFrom .working fuel w counts dag) := by
  induction fuel generalizing w counts dag with
  | zero => omega
  | succ fuel ih =>
    rw [finalizeFrom]
    split
    · rename_i hpop
      have hqueue := queue_of_pop_none hpop
      rw [hqueue] at hroom
      exact .inl ⟨counts, w, rfl, h, hqueue, hroom⟩
    · rename_i hash w' hpop
      obtain ⟨hqueue, hvisited⟩ := of_pop_some hpop
      split
      · rename_i hlimit
        rw [hvisited] at hlimit
        exact .inr ⟨w, rfl, h.frontier, hlimit⟩
      rename_i hlimit
      rw [hvisited] at hlimit
      have hpopped := card_add_length_visit hpop (dag₀.parentsOf hash)
      have hlength : w.queue.length = w'.queue.length + 1 := by
        rw [hqueue, List.length_cons]
      -- both branches go on with the parents a lookup finds in `dag₀`
      have hnext : ∀ {dag' counts'}, (∀ k, dag'.look k
          = if hash = k then (dag.look hash).map Vertex.finalize else dag.look k) →
          Ended dag₀ tips
            (finalizeFrom .working fuel (w'.pushAll (dag₀.parentsOf hash)) counts' dag') :=
        fun hlook => ih (h.visit hpop hlook) (by omega) (by omega)
      rw [show WalkContext.working.read = DagContext.working from rfl, getVertex_working]
      rw [← h.marks.parentsOf, parentsOf] at hnext
      cases hlook : dag.look hash with
      | none =>
        rw [hlook] at hnext
        refine hnext fun k => ?_
        split
        · rename_i heq
          rw [← heq, hlook]
          rfl
        · rfl
      | some =>
        rw [hlook] at hnext
        have hhash := hash_of_look hlook
        obtain ⟨counts', dag', hmark, hfound⟩ := markFinalized_working counts (hhash ▸ hlook)
        rw [hhash] at hfound
        simp only [hmark]
        exact hnext hfound

theorem ended_finalizeReachableFromTips (dag : DAGGraph) (tips : List Hash) :
    Ended dag tips (dag.finalizeReachableFromTips .working tips) := by
  have hcard := card_add_length_pushAll Worklist.empty tips
  change (Worklist.empty.pushAll tips).visited.card + 0
    = 0 + (Worklist.empty.pushAll tips).queue.length at hcard
  have hpos : 0 < MAX_TRAVERSAL_VERTICES := by decide
  exact walked_finalizeFrom (walked_start ..) (by omega) (by omega)

/-- The hashes a walk from the tips can come to. -/
def reachable (dag : DAGGraph) (tips : List Hash) : Set Hash :=
  {hash | Reaches dag.parentsOf tips hash}

theorem encard_le_of_frontier (h : Frontier dag.parentsOf tips w) :
    (w.visited.card : ENat) ≤ (dag.reachable tips).encard := by
  rw [← Set.encard_coe_eq_coe_finsetCard]
  exact Set.encard_le_encard fun hash hmem => h.reached hash hmem

theorem encard_of_frontier (h : Frontier dag.parentsOf tips w) (hqueue : w.queue = []) :
    (dag.reachable tips).encard = w.visited.card := by
  rw [← Set.encard_coe_eq_coe_finsetCard]
  congr 1
  ext hash
  exact (h.mem_visited_iff hqueue hash).symm

/-- On a disk that works the walk succeeds, and leaves all that is reachable
final, exactly if fewer than 10000 hashes are reachable, final ones among
them. -/
theorem finalize_reachable_iff (dag : DAGGraph) (tips : List Hash) :
    ((∃ counts, (dag.finalizeReachableFromTips .working tips).1 = .ok counts) ∧
      ∀ hash ∈ dag.reachable tips, (dag.finalizeReachableFromTips .working tips).2.look hash
        = (dag.look hash).map Vertex.finalize) ↔ (dag.reachable tips).encard < 10000 := by
  rcases ended_finalizeReachableFromTips dag tips with
    ⟨counts, w, hok, hwalked, hqueue, hlimit⟩ | ⟨w, herror, hfrontier, hlimit⟩
  · have hseen := hwalked.frontier.mem_visited_iff hqueue
    have hcard := encard_of_frontier hwalked.frontier hqueue
    refine ⟨fun _ => ?_, fun _ => ⟨⟨counts, hok⟩, fun hash hreach => ?_⟩⟩
    · rw [hcard]
      exact_mod_cast hlimit
    · refine hwalked.done hash ((hseen hash).mpr hreach) ?_
      rw [hqueue]
      exact List.not_mem_nil
  · have hcard := encard_le_of_frontier hfrontier
    constructor
    · rintro ⟨⟨counts, hok⟩, -⟩
      rw [herror] at hok
      cases hok
    · intro hfew
      have hlt : w.visited.card < 10000 := by exact_mod_cast hcard.trans_lt hfew
      exact absurd hlimit (Nat.not_le.mpr hlt)

/-! ### A long finalised history -/

def chainHash (i : Nat) : Hash := BitVec.ofNat 256 i

/-- The vertices of a chain, each final and on top of the one before it. -/
def chainVertex (i : Nat) : Vertex where
  hash := chainHash i
  transactions := []
  parents := match i with
    | 0 => []
    | i + 1 => [chainHash i]
  timestamp := 0
  shardId := 0
  creator := 0
  signature := []
  height := UInt64.ofNat i
  status := .finalized
  stateRoot := 0

def finalizedChain : Nat → DAGGraph
  | 0 => DAGGraph.new Table.empty 1 8
  | n + 1 => (finalizedChain n).insertVertex (chainVertex n)

variable {i : Nat}

theorem chainHash_inj {j : Nat} (hi : i < 2 ^ 256) (hj : j < 2 ^ 256)
    (h : chainHash i = chainHash j) : i = j := by
  have htoNat := congrArg BitVec.toNat h
  rwa [chainHash, chainHash, BitVec.toNat_ofNat, BitVec.toNat_ofNat, Nat.mod_eq_of_lt hi,
    Nat.mod_eq_of_lt hj] at htoNat

variable {n : Nat}

theorem look_finalizedChain (hn : n ≤ 2 ^ 256) (hi : i < n) :
    (finalizedChain n).look (chainHash i) = some (chainVertex i) := by
  induction n with
  | zero => exact absurd hi (Nat.not_lt_zero i)
  | succ n ih =>
    rw [finalizedChain, look_insertVertex]
    split
    · rename_i heq
      rw [chainHash_inj (by omega) (by omega) heq]
    rename_i hne
    have hlt : i ≠ n := fun heq => hne (heq ▸ rfl)
    exact ih (by omega) (by omega)

theorem status_of_look_finalizedChain (h : (finalizedChain n).look hash = some v) :
    v.status = .finalized := by
  induction n with
  | zero => cases h
  | succ n ih =>
    rw [finalizedChain, look_insertVertex] at h
    split at h
    · cases h
      rfl
    · exact ih h

/-- From the last vertex of a chain every vertex of it is reached. -/
theorem chainHash_mem_reachable (hn : n < 2 ^ 256) (hi : i ≤ n) :
    chainHash i ∈ (finalizedChain (n + 1)).reachable [chainHash n] := by
  induction hi using Nat.decreasingInduction with
  | self => exact ⟨chainHash n, List.mem_singleton_self _, .refl⟩
  | of_succ i hlt ih =>
    refine ih.tail ?_
    rw [parentsOf, look_finalizedChain (by omega) (by omega)]
    exact List.mem_singleton_self _

theorem le_encard_finalizedChain (hn : n < 2 ^ 256) :
    ((n + 1 : Nat) : ENat) ≤ ((finalizedChain (n + 1)).reachable [chainHash n]).encard := by
  have hinj : Set.InjOn chainHash (Finset.range (n + 1)) := by
    intro i hi j hj heq
    rw [mem_coe, mem_range] at hi hj
    exact chainHash_inj (by omega) (by omega) heq
  have hcard : (chainHash '' Finset.range (n + 1)).encard = (n + 1 : Nat) := by
    rw [hinj.encard_image, Set.encard_coe_eq_coe_finsetCard, card_range]
  rw [← hcard]
  refine Set.encard_le_encard ?_
  rintro hash ⟨i, hi, rfl⟩
  rw [mem_coe, mem_range] at hi
  exact chainHash_mem_reachable hn (Nat.le_of_lt_succ hi)

/-- Nothing is left to finalise on the chain, and the walk still fails. -/
theorem finalize_fails_on_final_history :
    {hash | hash ∈ (finalizedChain 10000).reachable [chainHash 9999] ∧
        ∃ v, (finalizedChain 10000).look hash = some v ∧ v.status ≠ .finalized}.encard = 0 ∧
      ((finalizedChain 10000).finalizeReachableFromTips .working [chainHash 9999]).1
        = .error (.traversalLimitExceeded 10000) := by
  constructor
  · rw [Set.encard_eq_zero, Set.eq_empty_iff_forall_notMem]
    rintro hash ⟨-, v, hlook, hstatus⟩
    exact hstatus (status_of_look_finalizedChain hlook)
  · have hlong := le_encard_finalizedChain (n := 9999) (by decide)
    rcases ended_finalizeReachableFromTips (finalizedChain 10000) [chainHash 9999] with
      ⟨_, w, -, hwalked, hqueue, hlimit⟩ | ⟨w, herror, -, -⟩
    · rw [encard_of_frontier hwalked.frontier hqueue] at hlong
      exact absurd (by exact_mod_cast hlong) (Nat.not_le.mpr hlimit)
    · exact herror

end DAGGraph

end Quantos

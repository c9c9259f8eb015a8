import Quantos.DagLookup
import Quantos.GraphSearch

/-!
# The common ancestor of two vertices

`find_common_ancestor` of `dag/ordering.rs`: two walks towards the parents
take turns, and each tests what it takes from its queue against what the
other has seen. A hash that both have seen is still in one of the queues
(`Apart`), so that it is met before both of them are empty.
-/

namespace Quantos.DAGGraph

open GraphSearch Finset

section Search

variable (io : DagContext) (dag : DAGGraph)

/-- The turn of one walk, against what the other has seen. -/
def takeTurn (seen : Finset Hash) (w : Worklist Hash) : Except DAGError (Hash ⊕ Worklist Hash) :=
  match w.pop with
  | none => .ok (.inr w)
  | some (current, w) =>
    if current ∈ seen then .ok (.inl current)
    else
      match dag.getVertex io current with
      | .error e => .error e
      | .ok found => .ok (.inr (w.pushAll (found.elim [] Vertex.parents)))

/-- The `loop`, and nothing when the fuel is used up. -/
def searchCommon : Nat → Worklist Hash → Worklist Hash → Option (Except DAGError (Option Hash))
  | 0, _, _ => none
  | fuel + 1, wa, wb =>
    if wa.queue.isEmpty && wb.queue.isEmpty then some (.ok none)
    else
      match dag.takeTurn io wb.visited wa with
      | .error e => some (.error e)
      | .ok (.inl hash) => some (.ok (some hash))
      | .ok (.inr wa) =>
        match dag.takeTurn io wa.visited wb with
        | .error e => some (.error e)
        | .ok (.inl hash) => some (.ok (some hash))
        | .ok (.inr wb) => searchCommon fuel wa wb

def findCommonAncestor (fuel : Nat) (a b : Hash) : Option (Except DAGError (Option Hash)) :=
  dag.searchCommon io fuel (Worklist.empty.pushAll [a]) (Worklist.empty.pushAll [b])

/-- What an answer says about the hashes reachable from both; an error is one
of reading a vertex. -/
def AnswersCommon (a b : Hash) : Except DAGError (Option Hash) → Prop
  | .error e => ∃ hash, dag.getVertex io hash = .error e
  | .ok none => ∀ x, ¬ (Reaches dag.parentsOf [a] x ∧ Reaches dag.parentsOf [b] x)
  | .ok (some x) => Reaches dag.parentsOf [a] x ∧ Reaches dag.parentsOf [b] x

end Search

variable {io : DagContext} {dag : DAGGraph} {a b : Hash} {w w' : Worklist Hash}

structure Apart (dag : DAGGraph) (a b : Hash) (w w' : Worklist Hash) : Prop where
  left : Frontier dag.parentsOf [a] w
  right : Frontier dag.parentsOf [b] w'
  queued : ∀ x ∈ w.visited, x ∈ w'.visited → x ∈ w.queue ∨ x ∈ w'.queue

theorem Apart.symm (h : Apart dag a b w w') : Apart dag b a w' w :=
  ⟨h.right, h.left, fun x hx hx' => (h.queued x hx' hx).symm⟩

/-- A turn fails to read, meets the other walk, or takes one hash from the
queue, if there is one. -/
theorem takeTurn_cases (io : DagContext) (h : Apart dag a b w w') :
    (∃ e, dag.takeTurn io w'.visited w = .error e ∧ ∃ hash, dag.getVertex io hash = .error e) ∨
    (∃ x, dag.takeTurn io w'.visited w = .ok (.inl x) ∧
      Reaches dag.parentsOf [a] x ∧ Reaches dag.parentsOf [b] x) ∨
    ∃ w₁, dag.takeTurn io w'.visited w = .ok (.inr w₁) ∧ Apart dag a b w₁ w' ∧
      w₁.visited.card + w.queue.length
        = w.visited.card + w₁.queue.length + min 1 w.queue.length := by
  unfold takeTurn
  cases hpop : w.pop with
  | none =>
    refine .inr (.inr ⟨w, rfl, h, ?_⟩)
    rw [Worklist.queue_of_pop_none hpop]
    rfl
  | some popped =>
    obtain ⟨x, w₀⟩ := popped
    obtain ⟨hqueue, hvisited⟩ := Worklist.of_pop_some hpop
    have hx : x ∈ w.visited := w.queued x (hqueue ▸ List.mem_cons_self)
    by_cases hmet : x ∈ w'.visited
    · exact .inr (.inl ⟨x, if_pos hmet, h.left.reached x hx, h.right.reached x hmet⟩)
    simp only [if_neg hmet]
    cases hget : dag.getVertex io x with
    | error e => exact .inl ⟨e, rfl, x, hget⟩
    | ok found =>
      refine .inr (.inr ⟨w₀.pushAll (dag.parentsOf x), ?_, ?_, ?_⟩)
      · rw [parentsOf, look_of_getVertex hget]
      · refine ⟨h.left.visit hpop, h.right, fun y hy hy' => ?_⟩
        rw [Worklist.mem_visited_pushAll, hvisited] at hy
        rw [Worklist.mem_queue_pushAll, hvisited]
        by_cases hold : y ∈ w.visited
        · -- seen by both and not `x`, which the other walk has not seen
          refine (h.queued y hold hy').imp_left fun hmem => .inl ?_
          rw [hqueue] at hmem
          exact (List.mem_cons.mp hmem).resolve_left fun heq => hmet (heq ▸ hy')
        · exact .inl (.inr ⟨hy.resolve_left hold, hold⟩)
      · rw [Worklist.card_add_length_visit hpop, hqueue, List.length_cons]
        omega

theorem answers_of_empty (h : Apart dag a b w w') (hw : w.queue = []) (hw' : w'.queue = []) :
    dag.AnswersCommon io a b (.ok none) := by
  rintro x ⟨hxa, hxb⟩
  rw [← h.left.mem_visited_iff hw] at hxa
  rw [← h.right.mem_visited_iff hw'] at hxb
  simpa [hw, hw'] using h.queued x hxa hxb

/-- All hashes that a walk can see. -/
def hashes (dag : DAGGraph) (a : Hash) : Finset Hash :=
  insert a ((dag.vertices.rows ++ dag.storage.rows).flatMap Vertex.parents).toFinset

theorem parentsOf_subset {x y : Hash} (hy : y ∈ dag.parentsOf x) : y ∈ dag.hashes a := by
  cases hlook : dag.look x with
  | none => simp [parentsOf, hlook] at hy
  | some v =>
    have hrow : v ∈ dag.vertices.rows ++ dag.storage.rows := by
      rcases Option.or_eq_some_iff.mp hlook with hget | ⟨-, hget⟩
      · exact List.mem_append_left _ (Table.mem_rows_of_get hget)
      · exact List.mem_append_right _ (Table.mem_rows_of_get hget)
    rw [parentsOf, hlook] at hy
    exact mem_insert_of_mem (List.mem_toFinset.mpr (List.mem_flatMap.mpr ⟨v, hrow, hy⟩))

theorem card_visited_le (h : Frontier dag.parentsOf [a] w) :
    w.visited.card ≤ (dag.hashes a).card := by
  refine card_le_card fun x hx => ?_
  obtain ⟨r, hr, hpath⟩ := h.reached x hx
  rcases hpath.cases_tail with rfl | ⟨y, -, hy⟩
  · exact List.mem_singleton.mp hr ▸ mem_insert_self ..
  · exact parentsOf_subset hy

theorem searchCommon_answers (io : DagContext) (fuel : Nat) (h : Apart dag a b w w')
    (hfuel : (dag.hashes a).card + w.queue.length + ((dag.hashes b).card + w'.queue.length)
      < fuel + w.visited.card + w'.visited.card) :
    ∃ result, dag.searchCommon io fuel w w' = some result ∧ dag.AnswersCommon io a b result := by
  induction fuel generalizing w w' with
  | zero =>
    have := card_visited_le h.left
    have := card_visited_le h.right
    omega
  | succ fuel ih =>
    unfold searchCommon
    split
    · rename_i hempty
      simp only [Bool.and_eq_true, List.isEmpty_iff] at hempty
      exact ⟨_, rfl, answers_of_empty h hempty.1 hempty.2⟩
    rename_i hleft
    rcases takeTurn_cases io h with ⟨e, he, hread⟩ | ⟨x, hx, hboth⟩ | ⟨_, hw₁, h₁, _⟩
    · exact ⟨.error e, by rw [he], hread⟩
    · exact ⟨.ok (some x), by rw [hx], hboth⟩
    rw [hw₁]
    dsimp only
    rcases takeTurn_cases io h₁.symm with ⟨e, he, hread⟩ | ⟨x, hx, hboth⟩ | ⟨_, hw₂, h₂, _⟩
    · exact ⟨.error e, by rw [he], hread⟩
    · exact ⟨.ok (some x), by rw [hx], hboth.symm⟩
    rw [hw₂]
    refine ih h₂.symm ?_
    have hsome : 0 < w.queue.length + w'.queue.length := by
      by_contra hnone
      simp_all
    omega

/-- The search ends, and what it answers is exact. -/
theorem common_ancestor_exact (io : DagContext) (dag : DAGGraph) (a b : Hash) :
    ∃ bound, ∀ fuel, bound ≤ fuel → ∃ result,
      dag.findCommonAncestor io fuel a b = some result ∧ dag.AnswersCommon io a b result := by
  refine ⟨(dag.hashes a).card + (dag.hashes b).card + 1, fun fuel hfuel => ?_⟩
  refine searchCommon_answers io fuel ⟨frontier_start, frontier_start, fun x hx _ => .inl ?_⟩ ?_
  · rw [Worklist.mem_visited_pushAll] at hx
    rw [Worklist.mem_queue_pushAll]
    exact .inr ⟨hx.resolve_left (notMem_empty x), notMem_empty x⟩
  · have ha := Worklist.card_add_length_pushAll Worklist.empty [a]
    have hb := Worklist.card_add_length_pushAll Worklist.empty [b]
    simp only [Worklist.empty, List.length_nil, card_empty] at ha hb ⊢
    omega

end Quantos.DAGGraph

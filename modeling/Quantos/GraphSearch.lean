import Mathlib.Data.Finset.Card

/-!
# Walking a graph with a worklist

A walk keeps the nodes it has seen and a queue of those it has still to
look at, and for the node at the front of the queue pushes the successors
it has not seen. `Worklist` is that pair, with what it is made to keep: the
queue has no repetitions and holds seen nodes only.

`Frontier` is the invariant of the walk relative to the graph: what was
seen is reachable, and whatever left the queue has its successors seen.
With the queue empty the nodes seen are the reachable ones
(`Frontier.mem_visited_iff`). The number of nodes that left the queue grows
by one with each step (`card_add_length_visit`), which bounds the number of
steps by the number of nodes seen.
-/

namespace GraphSearch

open Finset List

variable {α : Type}

/-- `x` can be reached from one of the roots. -/
def Reaches (succ : α → List α) (roots : List α) (x : α) : Prop :=
  ∃ r ∈ roots, Relation.ReflTransGen (fun a b => b ∈ succ a) r x

variable {x : α}

theorem Reaches.tail {succ : α → List α} {roots : List α} {y : α} (hx : Reaches succ roots x)
    (hy : y ∈ succ x) : Reaches succ roots y := by
  obtain ⟨r, hr, hpath⟩ := hx
  exact ⟨r, hr, hpath.tail hy⟩

theorem Reaches.mono {succ succ' : α → List α} (h : ∀ x, ∀ y ∈ succ x, y ∈ succ' x)
    {roots : List α} (hx : Reaches succ roots x) : Reaches succ' roots x := by
  obtain ⟨r, hr, hpath⟩ := hx
  exact ⟨r, hr, Relation.ReflTransGen.mono h _ _ hpath⟩

/-- The nodes seen, and those of them that were not looked at yet. -/
structure Worklist (α : Type) where
  visited : Finset α
  queue : List α
  nodup : queue.Nodup
  queued : ∀ x ∈ queue, x ∈ visited

namespace Worklist

def empty : Worklist α := ⟨∅, [], nodup_nil, fun _ h => absurd h not_mem_nil⟩

def pop : Worklist α → Option (α × Worklist α)
  | ⟨_, [], _, _⟩ => none
  | ⟨visited, x :: queue, nodup, queued⟩ =>
    some (x, ⟨visited, queue, (nodup_cons.mp nodup).2,
      fun y hy => queued y (mem_cons_of_mem _ hy)⟩)

variable {w : Worklist α}

theorem queue_of_pop_none (h : w.pop = none) : w.queue = [] := by
  rcases w with ⟨_, _ | ⟨x, _⟩, _, _⟩
  · rfl
  · cases h

variable {w' : Worklist α}

theorem of_pop_some (h : w.pop = some (x, w')) :
    w.queue = x :: w'.queue ∧ w'.visited = w.visited := by
  rcases w with ⟨_, _ | ⟨y, _⟩, _, _⟩
  · cases h
  · cases h
    exact ⟨rfl, rfl⟩

variable [DecidableEq α]

def push (w : Worklist α) (x : α) : Worklist α :=
  if h : x ∈ w.visited then w
  else
    { visited := insert x w.visited
      queue := w.queue ++ [x]
      nodup := by
        rw [List.nodup_append]
        refine ⟨w.nodup, List.nodup_singleton x, fun y hy z hz => ?_⟩
        rw [List.mem_singleton.mp hz]
        rintro rfl
        exact h (w.queued y hy)
      queued := fun y hy => by
        rcases mem_append.mp hy with hy | hy
        · exact mem_insert_of_mem (w.queued y hy)
        · rw [List.mem_singleton.mp hy]
          exact mem_insert_self x _ }

def pushAll (w : Worklist α) (xs : List α) : Worklist α := xs.foldl push w

variable {y : α}

theorem mem_visited_push : y ∈ (w.push x).visited ↔ y ∈ w.visited ∨ y = x := by
  unfold push
  split
  · rename_i h
    exact ⟨.inl, fun hy => hy.elim id fun heq => heq ▸ h⟩
  · rw [mem_insert, or_comm]

theorem mem_queue_push : y ∈ (w.push x).queue ↔ y ∈ w.queue ∨ (y = x ∧ x ∉ w.visited) := by
  unfold push
  split
  · rename_i h
    exact ⟨.inl, fun hy => hy.elim id fun hx => absurd h hx.2⟩
  rename_i h
  rw [List.mem_append, List.mem_singleton]
  exact ⟨fun hy => hy.imp_right fun heq => ⟨heq, h⟩, fun hy => hy.imp_right And.left⟩

theorem card_add_length_push (w : Worklist α) (x : α) :
    (w.push x).visited.card + w.queue.length = w.visited.card + (w.push x).queue.length := by
  unfold push
  split
  · rfl
  rename_i h
  rw [card_insert_of_notMem h, length_append, length_singleton]
  omega

variable {xs : List α}

theorem mem_visited_pushAll : y ∈ (w.pushAll xs).visited ↔ y ∈ w.visited ∨ y ∈ xs := by
  induction xs generalizing w with
  | nil => simp [pushAll]
  | cons x xs ih =>
    rw [pushAll, List.foldl_cons, ← pushAll, ih, mem_visited_push, List.mem_cons, or_assoc]

theorem mem_queue_pushAll : y ∈ (w.pushAll xs).queue ↔ y ∈ w.queue ∨ (y ∈ xs ∧ y ∉ w.visited) := by
  induction xs generalizing w with
  | nil => simp [pushAll]
  | cons x xs ih =>
    rw [pushAll, List.foldl_cons, ← pushAll, ih, mem_queue_push, mem_visited_push, List.mem_cons]
    grind

theorem card_add_length_pushAll (w : Worklist α) (xs : List α) :
    (w.pushAll xs).visited.card + w.queue.length
      = w.visited.card + (w.pushAll xs).queue.length := by
  induction xs generalizing w with
  | nil => rfl
  | cons x xs ih =>
    have hpush := card_add_length_push w x
    have hrest := ih (w.push x)
    rw [pushAll, foldl_cons, ← pushAll]
    omega

theorem card_add_length_visit (hpop : w.pop = some (x, w')) (xs : List α) :
    (w'.pushAll xs).visited.card + w.queue.length
      = w.visited.card + (w'.pushAll xs).queue.length + 1 := by
  obtain ⟨hqueue, hvisited⟩ := of_pop_some hpop
  have hpush := card_add_length_pushAll w' xs
  rw [hvisited] at hpush
  rw [hqueue, length_cons]
  omega

end Worklist

open Worklist

variable {succ : α → List α} {roots : List α}

/-- The invariant of a walk from the roots. -/
structure Frontier (succ : α → List α) (roots : List α) (w : Worklist α) : Prop where
  rooted : ∀ r ∈ roots, r ∈ w.visited
  reached : ∀ x ∈ w.visited, Reaches succ roots x
  closed : ∀ x ∈ w.visited, x ∉ w.queue → ∀ y ∈ succ x, y ∈ w.visited

variable {w : Worklist α}

/-- With nothing left to look at, the nodes seen are the reachable ones. -/
theorem Frontier.mem_visited_iff (h : Frontier succ roots w) (hqueue : w.queue = []) (x : α) :
    x ∈ w.visited ↔ Reaches succ roots x := by
  refine ⟨h.reached x, ?_⟩
  rintro ⟨r, hr, hpath⟩
  induction hpath with
  | refl => exact h.rooted r hr
  | tail _ hstep ih => exact h.closed _ ih (by rw [hqueue]; exact not_mem_nil) _ hstep

variable [DecidableEq α]

theorem frontier_start : Frontier succ roots (empty.pushAll roots) where
  rooted := fun r hr => mem_visited_pushAll.mpr (.inr hr)
  reached := fun x hx => by
    rcases mem_visited_pushAll.mp hx with hx | hx
    · exact absurd hx (notMem_empty x)
    · exact ⟨x, hx, .refl⟩
  closed := fun x hx hqueue => by
    rcases mem_visited_pushAll.mp hx with hx | hx
    · exact absurd hx (notMem_empty x)
    · exact absurd (mem_queue_pushAll.mpr (.inr ⟨hx, notMem_empty x⟩)) hqueue

theorem Frontier.visit {w' : Worklist α} (h : Frontier succ roots w) (hpop : w.pop = some (x, w')) :
    Frontier succ roots (w'.pushAll (succ x)) := by
  obtain ⟨hqueue, hvisited⟩ := of_pop_some hpop
  have hx : x ∈ w.visited := w.queued x (hqueue ▸ mem_cons_self)
  refine ⟨fun r hr => ?_, fun y hy => ?_, fun y hy hnot z hz => ?_⟩
  · exact mem_visited_pushAll.mpr (.inl (hvisited ▸ h.rooted r hr))
  · rcases mem_visited_pushAll.mp hy with hy | hy
    · exact h.reached y (hvisited ▸ hy)
    · exact (h.reached x hx).tail hy
  · rw [mem_visited_pushAll, hvisited] at hy ⊢
    rw [mem_queue_pushAll, hvisited] at hnot
    by_cases hyx : y = x
    · exact .inr (hyx ▸ hz)
    -- `y` left the queue earlier, or was pushed just now and is still there
    have hold : y ∈ w.visited :=
      hy.elim id fun hmem => by_contra fun hnew => hnot (.inr ⟨hmem, hnew⟩)
    refine .inl (h.closed y hold ?_ z hz)
    rw [hqueue, List.mem_cons]
    exact fun hmem => hmem.elim hyx fun hmem => hnot (.inl hmem)

end GraphSearch

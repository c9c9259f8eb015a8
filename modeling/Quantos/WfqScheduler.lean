import Quantos.Grouping
import Quantos.Runs
import Quantos.Types

/-!
# The fair queue

`WfqScheduler` of `stacc/wfq_scheduler.rs`. Every sender has a queue, and the
heap holds entries that name a sender and a number of arrival. An entry is
live if the transaction at the head of the queue has that number; the others
are skipped. Finish times are floating-point numbers and only decide which
entry leaves the heap first, so any order is allowed (`HeapOrder`).

A live entry is in the heap for each queue that is not empty (`Live`), whether
or not the numbers of arrival are distinct.
-/

namespace Quantos

open Runs List

structure ScheduledTx where
  tx : SignedTransaction
  arrivalSeq : UInt64

structure HeapEntry where
  addr : Address
  arrivalSeq : UInt64

/-- Any order in which the entries may leave the heap. -/
structure HeapOrder where
  order : List HeapEntry → List HeapEntry
  perm : ∀ heap, (order heap).Perm heap

/-- A flow that was removed is an empty one. -/
structure WfqScheduler where
  flows : Address → List ScheduledTx
  heap : List HeapEntry
  nextSeq : UInt64

namespace WfqScheduler

/-- A queue is replaced, and an entry for its head pushed. -/
def setFlow (s : WfqScheduler) (addr : Address) (queue : List ScheduledTx) : WfqScheduler :=
  { s with
    flows := Function.update s.flows addr queue
    heap := (queue.head?.map fun head => ⟨addr, head.arrivalSeq⟩).toList ++ s.heap }

def insert (s : WfqScheduler) (tx : SignedTransaction) : WfqScheduler :=
  let addr := tx.transaction.from
  { s.setFlow addr (s.flows addr ++ [⟨tx, s.nextSeq⟩]) with
    nextSeq := saturatingAdd64 s.nextSeq 1 }

/-- The `loop` of `pop_next`; each round takes an entry from the heap. -/
def popLoop (order : HeapOrder) : Nat → WfqScheduler → Option SignedTransaction × WfqScheduler
  | 0, s => (none, s)
  | rounds + 1, s =>
    match order.order s.heap with
    | [] => (none, s)
    | entry :: heap =>
      match s.flows entry.addr with
      | [] => popLoop order rounds { s with heap }
      | head :: queue =>
        if head.arrivalSeq ≠ entry.arrivalSeq then popLoop order rounds { s with heap }
        else (some head.tx, { s with heap }.setFlow entry.addr queue)

def popNext (s : WfqScheduler) (order : HeapOrder) : Option SignedTransaction × WfqScheduler :=
  popLoop order s.heap.length s

/-- The head of the queue has its entry, and the queue is that of one sender. -/
def LiveAt (s : WfqScheduler) (a : Address) : Prop :=
  (∀ head ∈ (s.flows a).head?, ⟨a, head.arrivalSeq⟩ ∈ s.heap) ∧
    ∀ x ∈ s.flows a, x.tx.transaction.from = a

def Live (s : WfqScheduler) : Prop := ∀ a, s.LiveAt a

variable {s : WfqScheduler}

theorem live_setFlow {addr : Address} {queue : List ScheduledTx}
    (hown : ∀ x ∈ queue, x.tx.transaction.from = addr) (h : ∀ a ≠ addr, s.LiveAt a) :
    (s.setFlow addr queue).Live := by
  intro a
  by_cases ha : a = addr
  · subst ha
    simp only [LiveAt, setFlow, Function.update_self]
    exact ⟨fun head hhead => by simp [Option.mem_def.mp hhead], hown⟩
  · simp only [LiveAt, setFlow, Function.update_of_ne ha]
    exact (h a ha).imp_left fun hentry head hhead => mem_append_right _ (hentry head hhead)

theorem Live.flows_eq_nil (h : s.Live) (hheap : s.heap = []) (a : Address) : s.flows a = [] := by
  cases hflow : s.flows a with
  | nil => rfl
  | cons head queue =>
    have hentry := (h a).1 head (by rw [hflow]; rfl)
    rw [hheap] at hentry
    cases hentry

/-- The loop comes to the end of the heap and nothing is queued, or it takes
the head of a queue. -/
theorem popLoop_cases (order : HeapOrder) (rounds : Nat) (h : s.Live)
    (hrounds : s.heap.length ≤ rounds) :
    (∃ s', popLoop order rounds s = (none, s') ∧ s'.flows = s.flows ∧ s'.Live ∧
      ∀ a, s.flows a = []) ∨ ∃ addr head queue s', popLoop order rounds s = (some head.tx, s') ∧
      s.flows addr = head :: queue ∧ s'.flows = Function.update s.flows addr queue ∧ s'.Live := by
  induction rounds generalizing s with
  | zero =>
    have hheap := length_eq_zero_iff.mp (Nat.le_zero.mp hrounds)
    exact .inl ⟨s, rfl, rfl, h, h.flows_eq_nil hheap⟩
  | succ rounds ih =>
    have hperm := order.perm s.heap
    unfold popLoop
    generalize order.order s.heap = heap at hperm
    cases heap with
    | nil => exact .inl ⟨s, rfl, rfl, h, h.flows_eq_nil hperm.nil_eq.symm⟩
    | cons entry heap =>
      have hlength : heap.length ≤ rounds := by
        have := hperm.length_eq
        rw [length_cons] at this
        omega
      -- an entry other than the one taken is still in the heap
      have hkeep (a : Address) (ha : ∀ head ∈ (s.flows a).head?, ⟨a, head.arrivalSeq⟩ ≠ entry) :
          LiveAt { s with heap } a :=
        ⟨fun head hhead => (mem_cons.mp (hperm.mem_iff.mpr
          ((h a).1 head hhead))).resolve_left (ha head hhead), (h a).2⟩
      dsimp only
      cases hflow : s.flows entry.addr with
      | nil =>
        refine ih (fun a => hkeep a ?_) hlength
        rintro head hhead rfl
        rw [hflow] at hhead
        cases hhead
      | cons head queue =>
        dsimp only
        split
        · rename_i hstale
          refine ih (fun a => hkeep a ?_) hlength
          rintro head' hhead rfl
          rw [hflow] at hhead
          cases hhead
          exact hstale rfl
        · refine .inr ⟨entry.addr, head, queue, _, rfl, hflow, rfl,
            live_setFlow (fun x hx => ?_) ?_⟩
          · exact (h entry.addr).2 x (hflow ▸ mem_cons_of_mem _ hx)
          · exact fun a ha => hkeep a fun head' _ heq => ha (heq ▸ rfl)

/-! ## Runs -/

inductive WfqOp where
  | insert (tx : SignedTransaction)
  | popNext (order : HeapOrder)

/-- The scheduler, and what went in and came out so far. -/
structure WfqLog where
  scheduler : WfqScheduler
  inserted : List SignedTransaction
  returned : List SignedTransaction

def start : WfqLog := ⟨⟨fun _ => [], [], 1⟩, [], []⟩

def step (l : WfqLog) : WfqOp → WfqLog
  | .insert tx => { l with scheduler := l.scheduler.insert tx, inserted := l.inserted ++ [tx] }
  | .popNext order =>
    let (tx, scheduler) := l.scheduler.popNext order
    { l with scheduler, returned := l.returned ++ tx.toList }

/-- What came in from a sender is what went out and, behind it, its queue. -/
def InOrder (l : WfqLog) : Prop :=
  ∀ a, (l.inserted.filter fun tx => tx.transaction.from = a)
    = (l.returned.filter fun tx => tx.transaction.from = a)
      ++ (l.scheduler.flows a).map ScheduledTx.tx

theorem step_inOrder (l : WfqLog) (op : WfqOp) (h : l.scheduler.Live ∧ InOrder l) :
    (step l op).scheduler.Live ∧ InOrder (step l op) := by
  obtain ⟨hlive, horder⟩ := h
  cases op with
  | insert tx =>
    refine ⟨live_setFlow (fun x hx => ?_) fun a _ => hlive a, fun a => ?_⟩
    · rcases mem_append.mp hx with hx | hx
      · exact (hlive _).2 x hx
      · rw [mem_singleton.mp hx]
    · simp only [step, insert, setFlow, filter_append, horder a]
      by_cases ha : a = tx.transaction.from
      · subst ha
        simp
      · simp [Function.update_of_ne ha, Ne.symm ha]
  | popNext order =>
    rcases popLoop_cases order _ hlive (Nat.le_refl _) with
      ⟨s', hpop, hflows, hlive', -⟩ | ⟨addr, head, _, s', hpop, hflow, hflows, hlive'⟩
    · simp only [step, popNext, hpop, InOrder, hflows]
      exact ⟨hlive', fun a => by simpa using horder a⟩
    · have hfrom : head.tx.transaction.from = addr :=
        (hlive addr).2 head (hflow ▸ mem_cons_self)
      simp only [step, popNext, hpop, InOrder, hflows]
      refine ⟨hlive', fun a => ?_⟩
      rw [horder a]
      by_cases ha : a = addr
      · subst ha
        simp [hflow, hfrom]
      · simp [Function.update_of_ne ha, hfrom, Ne.symm ha]

/-- Nothing is lost and no sender's transactions change their order; nothing
comes out only when nothing is queued, and then all came out, each once. -/
theorem fair_queue_keeps_order (ops : List WfqOp) :
    InOrder (run step start ops) ∧
      ∀ order, ((run step start ops).scheduler.popNext order).1 = none →
        (∀ a, (run step start ops).scheduler.flows a = []) ∧
          (run step start ops).returned.Perm (run step start ops).inserted := by
  obtain ⟨hlive, horder⟩ : (run step start ops).scheduler.Live ∧ InOrder (run step start ops) :=
    invariant_of_forall (Q := fun _ => True) (I := fun l => l.scheduler.Live ∧ InOrder l)
      (fun l op h _ => step_inOrder l op h)
      ⟨fun _ => ⟨(fun _ h => nomatch h), fun _ h => nomatch h⟩, fun _ => rfl⟩ fun _ _ => trivial
  refine ⟨horder, fun order hnone => ?_⟩
  rcases popLoop_cases order _ hlive (Nat.le_refl _) with
    ⟨s', -, -, -, hempty⟩ | ⟨_, _, _, s', hpop, -⟩
  · refine ⟨hempty, Grouping.perm_of_filter_eq (fun tx => tx.transaction.from) fun a => ?_⟩
    rw [horder a, hempty a, map_nil, append_nil]
  · rw [popNext, hpop] at hnone
    cases hnone

end WfqScheduler

end Quantos

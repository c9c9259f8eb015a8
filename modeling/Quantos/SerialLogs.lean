import Mathlib.Logic.Function.Basic

/-!
# Logs of transactions and their serial execution

A transaction is known from outside by its log: what each of its reads
returned and what it wrote. A set of committed transactions is serial in a
given order if each log, replayed alone on the store that the transactions
before it leave, reads exactly what it has read (`Serial`).

A log is replayed by its own writes and by what it read from outside, that
is, before a write of its own. Hence two obligations for a system that runs
transactions concurrently:

- while a transaction is open, its read and write sets keep track of its log
  (`Tracked`), one lemma for each kind of access;
- when it commits, every key it read from outside still has the value it
  read. `Tracked.replays` then gives the replay.

`History` is what an observer writes down of a concurrent system: the logs of
the open transactions and of the committed ones.
-/

namespace SerialLogs

open List

variable {κ : Type} {Val : κ → Type}

/-- A value, or none, at each key. -/
abbrev Store (Val : κ → Type) := ∀ k, Option (Val k)

def nothing : Store Val := fun _ => none

inductive Access (Val : κ → Type) where
  | read (k : κ) (v : Option (Val k))
  | write (k : κ) (v : Val k)

/-- The accesses of a transaction, the newest first. -/
abbrev Log (Val : κ → Type) := List (Access Val)

section Replay

variable [DecidableEq κ]

/-! ## Replay -/

/-- The store after the writes of a log. -/
def after (store : Store Val) : Log Val → Store Val
  | [] => store
  | .read _ _ :: log => after store log
  | .write k v :: log => Function.update (after store log) k (some v)

/-- The last write of a log at each key. -/
def own (log : Log Val) : Store Val := after nothing log

/-- Alone on the store, the transaction reads what it has read. -/
def Replays (store : Store Val) : Log Val → Prop
  | [] => True
  | .read k v :: log => after store log k = v ∧ Replays store log
  | .write _ _ :: log => Replays store log

/-- The reads that found no write of their own transaction. -/
def outside : Log Val → List (Σ k, Option (Val k))
  | [] => []
  | .read k v :: log => if (own log k).isNone then ⟨k, v⟩ :: outside log else outside log
  | .write _ _ :: log => outside log

/-- The other reads returned the last write. -/
def Coherent : Log Val → Prop
  | [] => True
  | .read k v :: log => (∀ w, own log k = some w → v = some w) ∧ Coherent log
  | .write _ _ :: log => Coherent log

theorem after_eq (store : Store Val) (log : Log Val) (k : κ) :
    after store log k = (own log k).or (store k) := by
  induction log with
  | nil => rfl
  | cons a log ih =>
    cases a with
    | read => exact ih
    | write k' =>
      by_cases h : k = k'
      · subst h
        simp [after, own]
      · simpa [after, own, h] using ih

/-- The store matters only where a log read from outside. -/
theorem replays_of_outside {store : Store Val} {log : Log Val} (hcoherent : Coherent log)
    (houtside : ∀ r ∈ outside log, store r.1 = r.2) : Replays store log := by
  induction log with
  | nil => trivial
  | cons a log ih =>
    cases a with
    | write => exact ih hcoherent houtside
    | read k =>
      obtain ⟨hown, hcoherent⟩ := hcoherent
      cases hk : own log k with
      | some w =>
        simp only [outside, hk] at houtside
        refine ⟨?_, ih hcoherent houtside⟩
        rw [after_eq, hk, hown w hk]
        rfl
      | none =>
        simp only [outside, hk, Option.isNone_none, if_true] at houtside
        refine ⟨?_, ih hcoherent fun r hr => houtside r (mem_cons_of_mem _ hr)⟩
        rw [after_eq, hk]
        exact houtside _ mem_cons_self

/-! ## Read and write sets -/

/-- The keys read and the values written, as a system keeps them, are those
of the log. -/
structure Tracked (log : Log Val) (reads : κ → Prop) (writes : Store Val) : Prop where
  coherent : Coherent log
  reads : ∀ r ∈ outside log, reads r.1
  writes : ∀ k, own log k = writes k

namespace Tracked

variable {log : Log Val} {reads reads' : κ → Prop} {writes : Store Val}

theorem nil : Tracked ([] : Log Val) reads nothing :=
  ⟨trivial, fun _ h => absurd h not_mem_nil, fun _ => rfl⟩

variable {k : κ}

theorem outside_read (h : Tracked log reads writes) (hk : writes k = none) (v : Option (Val k)) :
    outside (.read k v :: log) = ⟨k, v⟩ :: outside log := by
  simp [outside, h.writes, hk]

variable {w : Val k}

theorem outside_read_own (h : Tracked log reads writes) (hw : writes k = some w)
    (v : Option (Val k)) : outside (.read k v :: log) = outside log := by
  simp [outside, h.writes, hw]

theorem read_own (h : Tracked log reads writes) (hw : writes k = some w) :
    Tracked (.read k (some w) :: log) reads writes := by
  have hown : own log k = some w := (h.writes k).trans hw
  refine ⟨⟨fun w' hw' => hown.symm.trans hw', h.coherent⟩, ?_, h.writes⟩
  rw [h.outside_read_own hw]
  exact h.reads

theorem read_outside (h : Tracked log reads writes) (hk : writes k = none) (v : Option (Val k))
    (hreads : ∀ k', reads k' → reads' k') (hnew : reads' k) :
    Tracked (.read k v :: log) reads' writes := by
  have hown : own log k = none := (h.writes k).trans hk
  refine ⟨⟨fun w hw => ?_, h.coherent⟩, ?_, h.writes⟩
  · rw [hown] at hw
    cases hw
  · rw [h.outside_read hk]
    intro r hr
    rcases mem_cons.mp hr with rfl | hr
    · exact hnew
    · exact hreads _ (h.reads r hr)

theorem write (h : Tracked log reads writes) (k : κ) (v : Val k) :
    Tracked (.write k v :: log) reads (Function.update writes k (some v)) := by
  refine ⟨h.coherent, h.reads, fun k' => ?_⟩
  have hown : own log = writes := funext h.writes
  show Function.update (own log) k (some v) k' = _
  rw [hown]

theorem replays (h : Tracked log reads writes) {store : Store Val}
    (houtside : ∀ r ∈ outside log, store r.1 = r.2) : Replays store log :=
  replays_of_outside h.coherent houtside

theorem after (h : Tracked log reads writes) (store : Store Val) (k : κ) :
    after store log k = (writes k).or (store k) := by
  rw [after_eq, h.writes]

end Tracked

/-! ## Committed transactions -/

/-- What transactions leave when they are executed one after another; the
last one is the first of the list. -/
def result : List (Log Val) → Store Val
  | [] => nothing
  | log :: logs => after (result logs) log

/-- Each transaction reads what the ones before it leave. -/
def Serial : List (Log Val) → Prop
  | [] => True
  | log :: logs => Replays (result logs) log ∧ Serial logs

end Replay

/-- What an observer writes down: the log of each transaction that is open,
and the logs of those that have committed, each with the mark that the commit
returned. -/
structure History (ι μ : Type) (Val : κ → Type) where
  current : ι → Log Val
  committed : List (μ × Log Val)

namespace History

variable {ι μ : Type}

def start : History ι μ Val := ⟨fun _ => [], []⟩

def commit (h : History ι μ Val) (i : ι) (mark : μ) : History ι μ Val :=
  { h with committed := (mark, h.current i) :: h.committed }

def logs (h : History ι μ Val) : List (Log Val) := h.committed.map Prod.snd

variable [DecidableEq ι] (h : History ι μ Val) (i : ι)

def begin : History ι μ Val :=
  { h with current := Function.update h.current i [] }

def access (a : Access Val) : History ι μ Val :=
  { h with current := Function.update h.current i (a :: h.current i) }

@[simp] theorem current_begin_self : (h.begin i).current i = [] :=
  Function.update_self ..

variable {i j : ι} (h : History ι μ Val)

theorem current_begin_of_ne (hne : j ≠ i) : (h.begin i).current j = h.current j :=
  Function.update_of_ne hne ..

@[simp] theorem current_access_self (i : ι) (a : Access Val) :
    (h.access i a).current i = a :: h.current i :=
  Function.update_self ..

theorem current_access_of_ne (hne : j ≠ i) (a : Access Val) :
    (h.access i a).current j = h.current j :=
  Function.update_of_ne hne ..

end History

end SerialLogs

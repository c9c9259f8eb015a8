import Quantos.Executor
import Quantos.Nonces
import Quantos.Runs

/-!
# Confirmed vertices as a serial ledger

The executor confirms a vertex by writing what was prepared for it, whatever
has been written in between. A `History` records, next to the executor, what
each pending vertex was prepared on and which vertices have been confirmed
with which receipts, and `serial` executes those vertices one after another
from the start. `optimistic_serializable` is the simulation between the two:
as long as every vertex is confirmed on the accounts it was prepared on
(`Undisturbed`), storage and receipts are those of the serial ledger, and no
nonce of a sender is spent in two vertices.
-/

namespace Quantos

open StateManager Runs List

/-- A vertex with the choices of the node that executes it. -/
structure ScheduledVertex where
  vertex : DAGVertex
  schedule : Schedule vertex.transactions

/-- The executor, what the vertices were last prepared on, and the
confirmed vertices with their receipts. -/
structure History (V : Type) where
  executor : OptimisticExecutor V
  prepared : Hash → Option (ScheduledVertex × StateManager V)
  confirmed : List (ScheduledVertex × List TransactionReceipt)

def History.start {V : Type} (s : StateManager V) : History V :=
  ⟨OptimisticExecutor.new s, fun _ => none, []⟩

section

variable {V : Type} (env : Platform V)

def History.step (n : History V) (op : ExecutorOp) : History V where
  executor := executorStep env n.executor op
  prepared :=
    match op with
    | .speculate vertex schedule => fun h =>
      if h = vertex.hash then some (⟨vertex, schedule⟩, n.executor.stateManager)
      else n.prepared h
    | _ => n.prepared
  confirmed :=
    match op with
    | .confirm h =>
      match (n.executor.confirmExecution env h).1, n.prepared h with
      | some (_, receipts), some (vertex, _) => n.confirmed ++ [(vertex, receipts)]
      | _, _ => n.confirmed
    | _ => n.confirmed

theorem History.run_step (n : History V) (ops : List ExecutorOp) :
    (run (History.step env) n ops).executor = run (executorStep env) n.executor ops := by
  induction ops generalizing n with
  | nil => rfl
  | cons op ops ih => exact ih _

variable {n : History V} {h : Hash}

theorem History.step_confirm_of_none (hget : n.executor.speculativeResults.get h = none) :
    n.step env (.confirm h) = n := by
  unfold History.step executorStep
  dsimp only
  rw [OptimisticExecutor.confirmExecution_of_none _ hget]

theorem History.step_confirm_of_some {r : SpeculativeResult}
    {q : ScheduledVertex × StateManager V} (hget : n.executor.speculativeResults.get h = some r)
    (hq : n.prepared h = some q) :
    n.step env (.confirm h) = ⟨⟨n.executor.stateManager.commitExecution env r.execution,
        n.executor.speculativeResults.erase h⟩, n.prepared,
        n.confirmed ++ [(q.1, r.execution.receipts)]⟩ := by
  unfold History.step executorStep
  dsimp only
  rw [OptimisticExecutor.confirmExecution_of_some _ hget, hq]

/-! ## The serial ledger -/

variable (s : StateManager V)

/-- Ledger and receipts of vertices executed one after another. -/
def serial (vertices : List ScheduledVertex) : StateManager V × List (List TransactionReceipt) :=
  vertices.foldl (fun acc x =>
    let (execution, s) := acc.1.applyTransactionsAtomically env x.vertex.transactions x.schedule
    (s, acc.2 ++ [execution.receipts])) (s, [])

theorem serial_append (s : StateManager V) (vertices : List ScheduledVertex) (x : ScheduledVertex) :
    serial env s (vertices ++ [x])
      = (((serial env s vertices).1.applyTransactionsAtomically env x.vertex.transactions
            x.schedule).2,
        (serial env s vertices).2 ++ [((serial env s vertices).1.applyTransactionsAtomically env
          x.vertex.transactions x.schedule).1.receipts]) := by
  unfold serial
  rw [foldl_append]
  rfl

/-- The serial ledger of the confirmed vertices. -/
def History.ledger (n : History V) : StateManager V × List (List TransactionReceipt) :=
  serial env s (n.confirmed.map Prod.fst)

/-- No sender and nonce succeed in both vertices. -/
def SpendApart (c c' : ScheduledVertex × List TransactionReceipt) : Prop :=
  ∀ tx tx', Succeeds c.1.vertex.transactions c.2 tx →
    Succeeds c'.1.vertex.transactions c'.2 tx' →
    ¬ (tx.transaction.from = tx'.transaction.from ∧ tx.transaction.nonce = tx'.transaction.nonce)

/-- Storage and receipts are those of the serial ledger, and no nonce is
spent in two vertices. -/
structure Serializable (s : StateManager V) (n : History V) : Prop where
  accounts : ∀ a, n.executor.stateManager.storage.get a = (n.ledger env s).1.storage.get a
  receipts : n.confirmed.map Prod.snd = (n.ledger env s).2
  nonces : n.confirmed.Pairwise SpendApart

/-- A vertex without contracts. -/
def ExecutorOp.Plain : ExecutorOp → Prop
  | .speculate vertex _ => ∀ tx ∈ vertex.transactions, tx.transaction.txType.isContract = false
  | _ => True

/-- A pending vertex is confirmed while the accounts it names read as they
did when it was prepared. If it registers validators, it was prepared with
the committee manager of the serial ledger. -/
def Undisturbed (n : History V) : ExecutorOp → Prop
  | .confirm h => (n.executor.speculativeResults.get h).isSome = true →
      ∀ q, n.prepared h = some q →
        (∀ tx ∈ q.1.vertex.transactions, ∀ a, Names tx a →
          n.executor.stateManager.view a = q.2.view a)
        ∧ ((∀ tx ∈ q.1.vertex.transactions, tx.transaction.txType ≠ .validatorRegister)
          ∨ q.2.committeeManager = (n.ledger env s).1.committeeManager)
  | _ => True

/-! ## The simulation -/

/-- What ties the executor to the serial ledger: both read the same, every
pending result is what its preparation gives, and the nonces confirmed
vertices have used are spent. -/
structure Simulates (s : StateManager V) (n : History V) : Prop extends Serializable env s n where
  view : n.executor.stateManager.view = (n.ledger env s).1.view
  pending : ∀ h r, n.executor.speculativeResults.get h = some r →
    ∃ q, n.prepared h = some q
      ∧ r.execution = (q.2.prepareTransactions env q.1.vertex.transactions q.1.schedule).1
      ∧ ∀ tx ∈ q.1.vertex.transactions, tx.transaction.txType.isContract = false
  spent : ∀ c ∈ n.confirmed, ∀ tx, Succeeds c.1.vertex.transactions c.2 tx →
    tx.transaction.nonce.toNat < ((n.ledger env s).1.view tx.transaction.from).nonce.toNat

theorem start_simulates (s : StateManager V) : Simulates env s (History.start s) where
  accounts := fun _ => rfl
  receipts := rfl
  nonces := List.Pairwise.nil
  view := rfl
  pending := fun _ _ h => by cases h
  spent := fun _ h => by cases h

variable {s}

/-- Speculation writes nothing and records what it was prepared on. -/
theorem Simulates.speculate (hn : Simulates env s n) {vertex : DAGVertex}
    (schedule : Schedule vertex.transactions)
    (hplain : (ExecutorOp.speculate vertex schedule).Plain) :
    Simulates env s (n.step env (.speculate vertex schedule)) := by
  obtain ⟨s', hs', -, hsnd⟩ := executeTransactionsOverlay_snd env n.executor.stateManager
    vertex.transactions true schedule
  have hmanager : (n.step env (.speculate vertex schedule)).executor.stateManager
      = { s' with accountHashIndex := some (n.executor.stateManager.loadedIndex env) } := hsnd
  refine ⟨⟨fun a => ?_, hn.receipts, hn.nonces⟩, ?_, fun h r hget => ?_, hn.spent⟩
  · rw [hmanager]
    rw [hs'.storage]
    exact hn.accounts a
  · rw [hmanager]
    exact hs'.view.trans hn.view
  · have hresults : (n.step env (.speculate vertex schedule)).executor.speculativeResults
        = n.executor.speculativeResults.put ⟨vertex, vertex.hash,
          (n.executor.stateManager.prepareTransactions env vertex.transactions schedule).1,
          []⟩ := rfl
    rw [hresults, Table.get_put] at hget
    dsimp only [History.step]
    by_cases hh : vertex.hash = h
    · rw [if_pos hh] at hget
      exact ⟨_, if_pos hh.symm,
        (congrArg SpeculativeResult.execution (Option.some.inj hget)).symm, hplain⟩
    rw [if_neg hh] at hget
    rw [if_neg (Ne.symm hh)]
    exact hn.pending h r hget

theorem Simulates.rollback (hn : Simulates env s n) (h : Hash) :
    Simulates env s (n.step env (.rollback h)) := by
  refine ⟨⟨hn.accounts, hn.receipts, hn.nonces⟩, hn.view, fun h' r hget => ?_, hn.spent⟩
  have hget' : (n.executor.speculativeResults.erase h).get h' = some r := hget
  rw [Table.get_erase] at hget'
  split at hget'
  · cases hget'
  · exact hn.pending h' r hget'

/-- The serial ledger after one more batch: it has spent the nonces of the
batch's accepted transactions, and those were not spent before. -/
theorem Simulates.nonces_append (hn : Simulates env s n) (x : ScheduledVertex)
    {receipts : List TransactionReceipt}
    (hreceipts : ((n.ledger env s).1.applyTransactionsAtomically env x.vertex.transactions
      x.schedule).1.receipts = receipts) :
    (n.confirmed ++ [(x, receipts)]).Pairwise SpendApart
      ∧ ∀ c ∈ n.confirmed ++ [(x, receipts)], ∀ tx, Succeeds c.1.vertex.transactions c.2 tx →
        tx.transaction.nonce.toNat < (((n.ledger env s).1.applyTransactionsAtomically env
          x.vertex.transactions x.schedule).2.view tx.transaction.from).nonce.toNat := by
  obtain ⟨hup, hspend⟩ := batchRun_spends env true (n.ledger env s).1 x.schedule
  rw [applyTransactionsAtomically_receipts] at hreceipts
  rw [hreceipts] at hspend
  rw [applyTransactionsAtomically_view]
  refine ⟨pairwise_append.mpr ⟨hn.nonces, pairwise_singleton _ _, ?_⟩, ?_⟩
  · rintro c hc c' hc' tx tx' hok hok' ⟨hfrom, hnonce⟩
    obtain rfl := mem_singleton.mp hc'
    have hold := hn.spent c hc tx hok
    have hnew := (hspend tx' hok').1
    rw [hfrom, hnonce] at hold
    exact Nat.lt_irrefl _ (hold.trans_le hnew)
  · intro c hc tx hok
    rcases mem_append.mp hc with hc | hc
    · exact (hn.spent c hc tx hok).trans_le (hup _)
    · obtain rfl := mem_singleton.mp hc
      exact (hspend tx hok).2

/-- Confirming an undisturbed vertex is executing it on the serial ledger. -/
theorem Simulates.confirm (hn : Simulates env s n) (hop : Undisturbed env s n (.confirm h)) :
    Simulates env s (n.step env (.confirm h)) := by
  cases hget : n.executor.speculativeResults.get h with
  | none =>
    rw [History.step_confirm_of_none _ hget]
    exact hn
  | some r =>
    obtain ⟨q, hq, hexec, hplain⟩ := hn.pending h r hget
    obtain ⟨haccounts, hcommittee⟩ := hop (by rw [hget]; rfl) q hq
    have hstep := History.step_confirm_of_some env hget hq
    have hledger : (n.step env (.confirm h)).ledger env s
        = serial env s (n.confirmed.map Prod.fst ++ [q.1]) := by
      rw [hstep, History.ledger, map_append]
      rfl
    rw [serial_append] at hledger
    -- the vertex cannot tell its preparation from the serial ledger
    have halike : Alike q.1.vertex.transactions q.2 (n.ledger env s).1 :=
      ⟨fun tx htx a ha => by rw [← hn.view, haccounts tx htx a ha], hcommittee.symm⟩
    obtain ⟨hrec, hacc⟩ := prepareTransactions_alike env hplain q.1.schedule halike
    rw [← hexec] at hrec hacc
    obtain ⟨hapart, hspent⟩ := hn.nonces_append env q.1 hrec.symm
    refine ⟨⟨fun a => ?_, ?_, ?_⟩, ?_, fun h' r' hget' => ?_, ?_⟩
    · rw [hledger, hstep]
      rw [commitExecution_storage _ _ _ hacc, hn.accounts a]
      exact (applyTransactionsAtomically_storage ..).symm
    · rw [hledger, hstep, map_append, hn.receipts]
      exact congrArg (fun l => (n.ledger env s).2 ++ [l]) hrec
    · rw [hstep]
      exact hapart
    · rw [hledger, hstep]
      rw [commitExecution_view _ _ _ hacc, hn.view]
      exact (applyTransactionsAtomically_view ..).symm
    · rw [hstep] at hget' ⊢
      rw [Table.get_erase] at hget'
      split at hget'
      · cases hget'
      · exact hn.pending h' r' hget'
    · rw [hledger, hstep]
      exact hspent

theorem Simulates.step (hn : Simulates env s n) {op : ExecutorOp}
    (hop : Undisturbed env s n op ∧ op.Plain) : Simulates env s (n.step env op) := by
  cases op with
  | speculate vertex schedule => exact hn.speculate env schedule hop.2
  | confirm => exact hn.confirm env hop.1
  | rollback h => exact hn.rollback env h

/-- In every run whose vertices are confirmed undisturbed, the executor is
at every point where the serial ledger is. -/
theorem optimistic_serializable (s : StateManager V) (ops : List ExecutorOp)
    (hplain : ∀ op ∈ ops, op.Plain)
    (hops : StepsMeet (History.step env) (Undisturbed env s) (History.start s) ops) :
    ∀ pre post, ops = pre ++ post → (run (History.step env) (History.start s) pre).executor
          = run (executorStep env) (OptimisticExecutor.new s) pre
        ∧ Serializable env s (run (History.step env) (History.start s) pre) := by
  rintro pre post rfl
  refine ⟨History.run_step .., ?_⟩
  have hpre := (hops.and_mem hplain).append.1
  exact (invariant_of_stepsMeet (I := Simulates env s) (fun n op hn hop => hn.step env hop)
    (start_simulates ..) hpre).toSerializable

end

/-- Two vertices that spend the same nonce, prepared side by side: both
succeed, and the payer pays once. -/
theorem concurrent_vertices_both_spend : let s := StateManager.sample [sampleAccount 1 10 0]
    let ops : List ExecutorOp := [.speculate (paymentVertex 8 1 3) (Schedule.inOrder _),
      .speculate (paymentVertex 9 1 4) (Schedule.inOrder _), .confirm 8, .confirm 9]
    let n := run (History.step Platform.sample) (History.start s) ops
    n.executor = run (executorStep Platform.sample) (OptimisticExecutor.new s) ops
      ∧ (∃ a, n.executor.stateManager.storage.get a
        ≠ (n.ledger Platform.sample s).1.storage.get a)
      ∧ n.confirmed.map Prod.snd ≠ (n.ledger Platform.sample s).2
      ∧ ¬ n.confirmed.Pairwise SpendApart := by
  intro s ops n
  refine ⟨History.run_step .., ⟨4, by decide⟩, by decide, fun h => ?_⟩
  have hapart := pairwise_iff_getElem.mp h 0 1 (by decide) (by decide)
    Nat.one_pos
  exact hapart (sampleTx .transfer 1 3 5 0) (sampleTx .transfer 1 4 5 0) (by decide)
    (by decide) ⟨rfl, rfl⟩

/-- Two payments between different accounts, prepared side by side and
confirmed in the other order. -/
theorem disjoint_vertices_serializable :
    let s := StateManager.sample [sampleAccount 1 10 0, sampleAccount 2 10 0]
    let ops : List ExecutorOp := [.speculate (paymentVertex 8 1 3) (Schedule.inOrder _),
      .speculate (paymentVertex 9 2 4) (Schedule.inOrder _), .confirm 9, .confirm 8]
    ∀ pre post, ops = pre ++ post →
      (run (History.step Platform.sample) (History.start s) pre).executor
          = run (executorStep Platform.sample) (OptimisticExecutor.new s) pre
        ∧ Serializable Platform.sample s
          (run (History.step Platform.sample) (History.start s) pre) := by
  intro s ops
  have hplain : ∀ op ∈ ops, op.Plain := by
    simp only [ops, forall_mem_cons, ExecutorOp.Plain]
    exact ⟨by decide, by decide, trivial, trivial, fun _ h => nomatch h⟩
  refine optimistic_serializable Platform.sample s ops hplain
    ⟨trivial, trivial, fun _ q hq => ?_, fun _ q hq => ?_, trivial⟩
  all_goals
    obtain rfl := Option.some.inj hq
    refine ⟨fun tx htx a ha => ?_, .inl (by decide)⟩
    obtain rfl := mem_singleton.mp htx
    rcases ha with rfl | rfl <;> decide

end Quantos

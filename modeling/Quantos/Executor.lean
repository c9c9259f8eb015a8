import Quantos.Overlay

/-!
# The optimistic executor

`OptimisticExecutor` of `state/executor.rs`: a vertex is executed against
the current ledger and the prepared result is kept under the vertex hash
until it is confirmed (the prepared accounts and root are written as they
are) or rolled back (the result is dropped).
-/

namespace Quantos

/-- The fields of a DAG vertex that execution reads. -/
structure DAGVertex where
  hash : Hash
  transactions : List SignedTransaction
deriving DecidableEq, Repr

structure SpeculativeResult where
  vertex : DAGVertex
  vertexHash : Hash
  execution : StateExecution
  conflicts : List Hash

structure OptimisticExecutor (V : Type) where
  stateManager : StateManager V
  speculativeResults : Table SpeculativeResult.vertexHash

namespace OptimisticExecutor

variable {V : Type} (env : Platform V)

def new (stateManager : StateManager V) : OptimisticExecutor V where
  stateManager
  speculativeResults := Table.empty

variable (e : OptimisticExecutor V)

def speculativeExecute (vertex : DAGVertex) (schedule : Schedule vertex.transactions) :
    Hash × OptimisticExecutor V :=
  let (execution, stateManager) :=
    e.stateManager.prepareTransactions env vertex.transactions schedule
  (execution.stateRoot,
    { stateManager
      speculativeResults := e.speculativeResults.put
        { vertex, vertexHash := vertex.hash, execution, conflicts := [] } })

def confirmExecution (vertexHash : Hash) :
    Option (Hash × List TransactionReceipt) × OptimisticExecutor V :=
  match e.speculativeResults.get vertexHash with
  | none => (none, e)
  | some result =>
    (some (result.execution.stateRoot, result.execution.receipts),
      { stateManager := e.stateManager.commitExecution env result.execution
        speculativeResults := e.speculativeResults.erase vertexHash })

def rollbackExecution (vertexHash : Hash) : OptimisticExecutor V :=
  { e with speculativeResults := e.speculativeResults.erase vertexHash }

/-- `confirm_execution` on a disk that may refuse the accounts: the result
is gone then, and the state is as it was. -/
def confirmExecutionOn (commitError : Option String) (e : OptimisticExecutor V)
    (vertexHash : Hash) : Option (Hash × List TransactionReceipt) × OptimisticExecutor V :=
  match commitError with
  | some _ => (none, e.rollbackExecution vertexHash)
  | none => e.confirmExecution env vertexHash

variable {e} {vertexHash : Hash}

theorem confirmExecution_of_none (h : e.speculativeResults.get vertexHash = none) :
    e.confirmExecution env vertexHash = (none, e) := by
  unfold confirmExecution
  rw [h]

theorem confirmExecution_of_some {result : SpeculativeResult}
    (h : e.speculativeResults.get vertexHash = some result) :
    e.confirmExecution env vertexHash
      = (some (result.execution.stateRoot, result.execution.receipts),
        { stateManager := e.stateManager.commitExecution env result.execution
          speculativeResults := e.speculativeResults.erase vertexHash }) := by
  unfold confirmExecution
  rw [h]

end OptimisticExecutor

/-- A call on the executor, with the choices of the node that makes it. -/
inductive ExecutorOp where
  | speculate (vertex : DAGVertex) (schedule : Schedule vertex.transactions)
  | confirm (vertexHash : Hash)
  | rollback (vertexHash : Hash)

def executorStep {V : Type} (env : Platform V) (e : OptimisticExecutor V) :
    ExecutorOp → OptimisticExecutor V
  | .speculate vertex schedule => (e.speculativeExecute env vertex schedule).2
  | .confirm vertexHash => (e.confirmExecution env vertexHash).2
  | .rollback vertexHash => e.rollbackExecution vertexHash

/-- A vertex with one payment. -/
def paymentVertex (hash : Hash) (sender : UInt8) (recipient : Address) : DAGVertex :=
  ⟨hash, [sampleTx .transfer sender recipient 5 0]⟩

end Quantos

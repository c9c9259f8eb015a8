import Quantos.StateManager

/-!
# The overlay executors

The second half of `state/manager.rs`: transactions run against an
in-memory overlay of changed accounts, sequentially for batches of at most
eight, otherwise one overlay per sender with the overlays merged field by
field at the end. `simulate_transactions`, `prepare_transactions`,
`commit_execution` and `apply_transactions_atomically` are the entry points.

The parallel path leaves four things open: the iteration order of the
sender-group map, the iteration order of each group's overlay map, the
order in which groups finish, and the way the groups interleave on the
committee manager and the contract engines they share. A `Schedule` fixes
them, its fields being the constraints the code does guarantee. One
transaction of one group is atomic.
-/

namespace Quantos

structure StateExecution where
  stateRoot : Hash
  receipts : List TransactionReceipt
  accounts : List Account

namespace StateManager

variable {V : Type} (env : Platform V) (s : StateManager V) (overlay : AccountTable)

def overlayAccount (address : Address) : Account × StateManager V :=
  match overlay.get address with
  | some account => (account, s)
  | none => s.getAccount address

variable (tx : SignedTransaction) (overlay : AccountTable)

def validateTransactionAgainstOverlay : Except StateError Unit × StateManager V :=
  match checkTransaction env tx.transaction with
  | .error e => (.error e, s)
  | .ok () =>
    let (account, s) := s.overlayAccount overlay tx.transaction.from
    (checkNonce tx.transaction account, s)

/-! ## One transaction -/

section

variable (tx : Transaction) (persistContracts : Bool) (sender recipient : Account)

/-- The address of a new contract: `hash(deployer || bytecode hash || nonce)`. -/
def contractAddress (bytecodeHash : Hash) : Address :=
  env.hashData (arrayBytes tx.from ++ arrayBytes bytecodeHash ++ leBytes 8 tx.nonce.toNat)

/-- The `ContractDeploy` arm; the engine only runs when its effects are to
be kept. -/
def deployOverlay (overlay : AccountTable) (persistContracts : Bool) (sender : Account) :
    Except StateError (Account × Account × List Log) × StateManager V :=
  match decodeContractDeployPayload tx.data with
  | .error e => (.error (.executionError ("Invalid deploy payload: " ++ e)), s)
  | .ok (bytecode, constructorData) =>
    if bytecode.isEmpty then (.error (.executionError "Empty bytecode in ContractDeploy"), s)
    else
      let bytecodeHash := env.hashData bytecode
      let (recipient, s) := s.overlayAccount overlay (contractAddress env tx bytecodeHash)
      let recipient := { recipient with codeHash := some bytecodeHash }
      if persistContracts then
        if ! s.contractManager then
          (.error (.executionError "ContractManager not initialized"), s)
        else
          match env.deployContract s.world
            { bytecode, constructorData, deployer := tx.from, nonce := tx.nonce,
              blockNumber := tx.timestamp, timestamp := tx.timestamp, chainId := tx.chainId } with
          | (.error e, world) =>
            (.error (.executionError ("ContractDeploy failed: " ++ e)), { s with world })
          | (.ok deployResult, world) =>
            let (recipient, s) := overlayAccount { s with world } overlay deployResult.address
            let recipient := { recipient with codeHash := some bytecodeHash }
            (.ok (sender, recipient, (deployResult.initResult.map (·.logs)).getD []), s)
      else (.ok (sender, recipient, []), s)

/-- Debit the sender and credit whichever copy will be written back: with
`from = to` that is the sender's. -/
def moveBalance : Except StateError (Account × Account) :=
  match sender.subBalance tx.amount with
  | (_, false) => .error .insufficientBalance
  | (sender, true) =>
    if sender.address = recipient.address then
      .ok ((sender.addBalance tx.amount).1, recipient)
    else .ok (sender, (recipient.addBalance tx.amount).1)

/-- The reason reported for a reverted call: the return data, or else the
last debug message that is not a trace line. -/
def revertReason (result : ExecutionResult) : String :=
  if ! result.returnData.isEmpty then env.decodeContractRevertReason result.returnData
  else
    ((result.debugMessages.reverse.map fun m =>
        (m.trimAscii.dropEndWhile fun c => c == ',').toString).find? fun m =>
          ! m.isEmpty && ! m.startsWith "call:" && ! m.startsWith "runtime_error:").getD
      "No revert reason provided"

/-- The `ContractCall` arm. It does not look at `vm_kind`. -/
def callOverlay : Except StateError (Account × Account × List Log) × StateManager V :=
  let moved :=
    if tx.amount.toNat > 0 then moveBalance tx sender recipient else .ok (sender, recipient)
  match moved with
  | .error e => (.error e, s)
  | .ok (sender, recipient) =>
    if ! s.contractManager then
      (.error (.executionError "ContractManager not initialized"), s)
    else
      let executionTimestamp := env.currentExecutionTimestamp s.world tx.timestamp
      let request : CallRequest :=
        { contractAddress := tx.to, caller := tx.from, inputData := tx.data,
          blockNumber := executionTimestamp, timestamp := executionTimestamp,
          chainId := tx.chainId }
      match if persistContracts then env.executeContract s.world request
        else env.simulateContract s.world request with
      | (.error e, world) =>
        (.error (.executionError ("ContractCall failed: " ++ e)), { s with world })
      | (.ok result, world) =>
        if ! result.success then
          (.error (.executionError ("ContractCall reverted: " ++ revertReason env result)),
            { s with world })
        else (.ok (sender, recipient, result.logs), { s with world })

/-- The match of `execute_transaction_overlay`. -/
def executeTransactionType (overlay : AccountTable) (persistContracts : Bool)
    (sender recipient : Account) :
    Except StateError (Account × Account × List Log) × StateManager V :=
  s.executeArms tx sender recipient (.executionError "No stake to remove")
    (match moveBalance tx sender recipient with
      | .error e => (.error e, s)
      | .ok (sender, recipient) => (.ok (sender, recipient, []), s))
    (s.deployOverlay env tx overlay persistContracts sender)
    (s.callOverlay env tx persistContracts sender recipient)

/-- The two insertions that end `execute_transaction_overlay`: a recipient
that is the sender is not written. -/
def writeBack : AccountTable :=
  if tx.from ≠ recipient.address then (overlay.put sender).put recipient else overlay.put sender

end

def executeTransactionOverlay (persistContracts : Bool) :
    Except StateError TransactionReceipt × AccountTable × StateManager V :=
  match s.validateTransactionAgainstOverlay env tx overlay with
  | (.error e, s) => (.error e, overlay, s)
  | (.ok (), s) =>
    let (sender, s) := s.overlayAccount overlay tx.transaction.from
    let (recipient, s) := s.overlayAccount overlay tx.transaction.to
    match s.executeTransactionType env tx.transaction overlay persistContracts
        sender recipient with
    | (.error e, s) => (.error e, overlay, s)
    | (.ok (sender, recipient, logs), s) =>
      match sender.incrementNonce with
      | .error e => (.error (.storageError e), overlay, s)
      | .ok sender =>
        (.ok (finalizedReceipt tx recipient.address logs),
          writeBack overlay tx.transaction sender recipient, s)

def failedReceipt (err : StateError) : TransactionReceipt where
  txHash := tx.hash
  status := .failed err.toText
  cuUsed := tx.transaction.maxComputeUnits
  vertexHash := 0#256
  shardId := tx.transaction.shardId
  logs := []
  slot := 0
  «from» := tx.transaction.from
  «to» := tx.transaction.to
  success := false

def receiptOf : Except StateError TransactionReceipt → TransactionReceipt
  | .ok receipt => receipt
  | .error err => failedReceipt tx err

/-! ## Roots over an overlay -/

/-- The cached index, or the one rebuilt from storage and cached. -/
def loadAccountHashIndex : HashIndex × StateManager V :=
  match s.accountHashIndex with
  | some index => (index, s)
  | none =>
    let index := indexOf env.hashData s.storage
    (index, { s with accountHashIndex := some index })

def computeStateRootWithOverlay : Hash × StateManager V :=
  let (accounts, s) := s.loadAccountHashIndex env
  (sparseMerkleRoot env.hashData (indexAccounts env.hashData accounts overlay.rows).toSorted, s)

/-- Root, receipts and the changed accounts in address order. -/
def finishExecution (receipts : List TransactionReceipt) (overlay : AccountTable) :
    StateExecution × StateManager V :=
  let (stateRoot, s) := s.computeStateRootWithOverlay env overlay
  ({ stateRoot, receipts, accounts := overlay.toSorted }, s)

/-! ## The sequential path -/

/-- The loop over the batch: receipts, overlay and manager after it. -/
def executeSequence (persistContracts : Bool) : StateManager V → AccountTable →
    List SignedTransaction → List TransactionReceipt × AccountTable × StateManager V
  | s, overlay, [] => ([], overlay, s)
  | s, overlay, tx :: txs =>
    let (result, overlay, s) := s.executeTransactionOverlay env tx overlay persistContracts
    let (receipts, overlay, s) := executeSequence persistContracts s overlay txs
    (receiptOf tx result :: receipts, overlay, s)

def executeTransactionsOverlaySequential (txs : List SignedTransaction) (persistContracts : Bool) :
    StateExecution × StateManager V :=
  let (receipts, overlay, s) := executeSequence env persistContracts s Table.empty txs
  s.finishExecution env receipts overlay

end StateManager

/-! ## The parallel path -/

/-- Everything the parallel path leaves to the hash seeds and the thread
pool, for one batch. -/
structure Schedule (txs : List SignedTransaction) where
  /-- The transactions of all groups, with their indices, as they interleave. -/
  order : List (SignedTransaction × Nat)
  order_perm : order.Perm txs.zipIdx
  /-- A group runs its own transactions in batch order. -/
  order_sender : order.Pairwise fun p q =>
    p.1.transaction.from = q.1.transaction.from → p.2 < q.2
  /-- The iteration order of the sender-group map. -/
  groups : List Address
  groups_perm : groups.Perm (txs.map fun tx => tx.transaction.from).dedup
  /-- The iteration order of a group's overlay map. -/
  overlayOrder : Address → List Account → List Account
  overlayOrder_perm : ∀ g rows, (overlayOrder g rows).Perm rows

/-- The groups run one transaction at a time in batch order. -/
def Schedule.inOrder (txs : List SignedTransaction) : Schedule txs where
  order := txs.zipIdx
  order_perm := .refl _
  order_sender := by
    have h : (txs.zipIdx.map Prod.snd).Pairwise (· < ·) := by
      rw [List.zipIdx_map_snd]
      exact List.pairwise_lt_range'
    refine (List.pairwise_map.mp h).imp ?_
    intro p q hlt _
    exact hlt
  groups := (txs.map fun tx => tx.transaction.from).dedup
  groups_perm := .refl _
  overlayOrder := fun _ rows => rows
  overlayOrder_perm := fun _ _ => .refl _

namespace StateManager

variable {V : Type} (env : Platform V)

/-- What is known once every group has finished: each transaction's result,
each group's overlay and the manager the groups shared. -/
structure GroupsRun (V : Type) where
  results : List ((SignedTransaction × Nat) × Except StateError TransactionReceipt)
  overlays : Address → AccountTable
  manager : StateManager V

/-- Run the interleaved transactions, each on the overlay of its sender. -/
def executeGroups (persistContracts : Bool) : StateManager V → (Address → AccountTable) →
    List (SignedTransaction × Nat) → GroupsRun V
  | s, overlays, [] => ⟨[], overlays, s⟩
  | s, overlays, (tx, i) :: rest =>
    let sender := tx.transaction.from
    let (result, overlay, s) :=
      s.executeTransactionOverlay env tx (overlays sender) persistContracts
    let overlays := fun g => if g = sender then overlay else overlays g
    let run := executeGroups persistContracts s overlays rest
    { run with results := ((tx, i), result) :: run.results }

/-- Every group starts on an empty overlay. -/
abbrev runGroups (persistContracts : Bool) (s : StateManager V)
    (order : List (SignedTransaction × Nat)) : GroupsRun V :=
  executeGroups env persistContracts s (fun _ => Table.empty) order

/-- The receipts, collected group by group and sorted by index. -/
def collectReceipts (groups : List Address)
    (results : List ((SignedTransaction × Nat) × Except StateError TransactionReceipt)) :
    List TransactionReceipt :=
  let indexedReceipts : List (Nat × TransactionReceipt) := groups.flatMap fun g =>
    (results.filter fun r => r.1.1.transaction.from = g).map fun ((tx, i), result) =>
      (i, receiptOf tx result)
  (indexedReceipts.insertionSort fun p q => p.1 ≤ q.1).map Prod.snd

/-- Two versions of one account, both derived from `base`: amounts add up
their differences to the base (in `u128` arithmetic), the larger nonce and
any validator flag win. -/
def mergeAccount (base existing account : Account) : Account where
  address := account.address
  balance := ⟨account.balance.val + existing.balance.val - base.balance.val⟩
  nonce := max account.nonce existing.nonce
  codeHash := account.codeHash.or existing.codeHash
  storageRoot := account.storageRoot
  stake := ⟨account.stake.val + existing.stake.val - base.stake.val⟩
  isValidator := account.isValidator || existing.isValidator

/-- Fold the accounts of all group overlays into one overlay. -/
def mergeOverlays : StateManager V → AccountTable → List Account → AccountTable × StateManager V
  | s, overlay, [] => (overlay, s)
  | s, overlay, account :: rest =>
    match overlay.get account.address with
    | some existing =>
      let (base, s) := s.getAccount account.address
      mergeOverlays s (overlay.put (mergeAccount base existing account)) rest
    | none => mergeOverlays s (overlay.put account) rest

/-- The accounts of all groups in the order the merge meets them. -/
def contributions {txs : List SignedTransaction} (schedule : Schedule txs)
    (overlays : Address → AccountTable) : List Account :=
  schedule.groups.flatMap fun g => schedule.overlayOrder g (overlays g).rows

variable (s : StateManager V) (txs : List SignedTransaction) (schedule : Schedule txs)

/-- `execute_transactions_overlay` on more than eight transactions. -/
def executeTransactionsOverlayParallel (persistContracts : Bool) (schedule : Schedule txs) :
    StateExecution × StateManager V :=
  let run := runGroups env persistContracts s schedule.order
  let (overlay, s) :=
    mergeOverlays run.manager Table.empty (contributions schedule run.overlays)
  s.finishExecution env (collectReceipts schedule.groups run.results) overlay

def executeTransactionsOverlay (persistContracts : Bool) (schedule : Schedule txs) :
    StateExecution × StateManager V :=
  if txs.length ≤ 8 then s.executeTransactionsOverlaySequential env txs persistContracts
  else s.executeTransactionsOverlayParallel env txs persistContracts schedule

/-! ## Entry points -/

def simulateTransactions : StateExecution × StateManager V :=
  s.executeTransactionsOverlay env txs false schedule

def prepareTransactions : StateExecution × StateManager V :=
  s.executeTransactionsOverlay env txs true schedule

/-- Atomically persist a pre-computed execution and publish its root. -/
def commitExecution (execution : StateExecution) : StateManager V :=
  { s.persistAccounts env execution.accounts with stateRoot := execution.stateRoot }

def applyTransactionsAtomically : StateExecution × StateManager V :=
  let (execution, s) := s.prepareTransactions env txs schedule
  (execution, s.commitExecution env execution)

end StateManager

end Quantos

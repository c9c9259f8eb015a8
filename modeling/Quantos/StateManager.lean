import Quantos.Committee
import Quantos.Platform
import Quantos.StateRoot

/-!
# The state manager

`state/manager.rs`: the account ledger behind a read-through cache, the
published root with the hash index it is computed from, and the handles to
the contract engines and the committee manager. This module has the
accessors, `apply_genesis`, `restore_account` and the direct executor
`apply_transaction`; the overlay executors are in `Quantos.Overlay`.

Storage operations succeed. A read goes through the cache and fills it, so
every reading operation returns the manager along with its answer.
-/

namespace Quantos

structure StateManager (V : Type) where
  /-- The `accounts` column family. -/
  storage : AccountTable
  accountCache : AccountTable
  pendingState : AccountTable
  stateRoot : Hash
  accountHashIndex : Option HashIndex
  authToken : Hash
  /-- Whether `set_contract_manager` has been called. -/
  contractManager : Bool
  /-- Whether `set_evm_engine` has been called. -/
  evmEngine : Bool
  committeeManager : Option CommitteeManager
  /-- What the contract engines remember. -/
  world : V

namespace StateManager

variable {V : Type} (env : Platform V)

/-- `StateManager::new` on an existing database. -/
def new (storage : AccountTable) (authToken : Hash) (world : V) : StateManager V where
  storage
  accountCache := Table.empty
  pendingState := Table.empty
  stateRoot := 0#256
  accountHashIndex := none
  authToken
  contractManager := false
  evmEngine := false
  committeeManager := none
  world

variable (s : StateManager V) (tx : Transaction)

/-- One turn of the loop in `persist_accounts`. -/
def noteAccount (account : Account) : StateManager V :=
  { s with
    accountCache := s.accountCache.put account
    accountHashIndex := s.accountHashIndex.map fun index =>
      index.put (account.address, account.hash env.hashData) }

/-- Persist accounts to durable storage and update all in-memory caches. -/
def persistAccounts (accounts : List Account) : StateManager V :=
  accounts.foldl (noteAccount env) { s with storage := s.storage.putAll accounts }

def verifyAuth (providedToken : Hash) : Except StateError Unit :=
  if providedToken ≠ s.authToken then .error .unauthorized else .ok ()

variable (address : Address)

/-- What `get_account` answers. -/
def view : Account :=
  ((s.accountCache.get address).or (s.storage.get address)).getD (Account.new address)

def getAccount : Account × StateManager V :=
  match s.accountCache.get address with
  | some account => (account, s)
  | none =>
    match s.storage.get address with
    | some account => (account, { s with accountCache := s.accountCache.put account })
    | none => (Account.new address, s)

/-! ## Roots, genesis and rollback -/

/-- Reload the hash index from durable storage and take its root. -/
def computeFullStateRoot : Hash × StateManager V :=
  let index := indexOf env.hashData s.storage
  (sparseMerkleRoot env.hashData index.toSorted, { s with accountHashIndex := some index })

/-- The accounts of the genesis list, the supply being checked on the way. -/
def genesisAccounts : List (Address × Amount) → Amount → Except StateError (List Account)
  | [], _ => .ok []
  | (address, balance) :: rest, totalSupply =>
    match totalSupply.checkedAdd balance with
    | none => .error .arithmeticOverflow
    | some totalSupply =>
      match genesisAccounts rest totalSupply with
      | .error e => .error e
      | .ok accounts => .ok ({ Account.new address with balance } :: accounts)

variable (sender recipient : Account)

def applyGenesis (initialBalances : List (Address × Amount)) (authToken : Hash) :
    Except StateError Unit × StateManager V :=
  match s.verifyAuth authToken with
  | .error e => (.error e, s)
  | .ok () =>
    if s.stateRoot ≠ 0#256 then (.ok (), s)
    else
      match genesisAccounts initialBalances .zero with
      | .error e => (.error e, s)
      | .ok accounts =>
        let s := s.persistAccounts env accounts
        let (newStateRoot, s) := s.computeFullStateRoot env
        (.ok (), { s with stateRoot := newStateRoot })

/-- Restores an account to a previous state (for atomic rollback). -/
def restoreAccount (account : Account) : StateManager V :=
  let s := s.persistAccounts env [account]
  { s with pendingState := s.pendingState.erase address }

/-! ## Validation -/

def MIN_TRANSACTION_AMOUNT : Nat := 1

def MAX_TRANSACTION_AMOUNT : Nat := 2 ^ 64 - 1

def requiresAmount : TransactionType → Bool
  | .transfer | .stake | .unstake | .stakeTransfer => true
  | _ => false

/-- Signature and amount, the checks that read no account. -/
def checkTransaction : Except StateError Unit :=
  if env.hashData tx.publicKey ≠ tx.from then .error .invalidSignature
  else if ! env.verifyMlDsa65 tx.publicKey tx.signingData tx.signature then
    .error .invalidSignature
  else if requiresAmount tx.txType ∧ tx.amount.toNat < MIN_TRANSACTION_AMOUNT then
    .error .invalidAmount
  else if tx.amount.toNat > MAX_TRANSACTION_AMOUNT then .error .invalidAmount
  else .ok ()

def checkNonce (account : Account) : Except StateError Unit :=
  if tx.nonce ≠ account.nonce then .error (.invalidNonce account.nonce tx.nonce) else .ok ()

def validateTransaction (tx : SignedTransaction) : Except StateError Unit × StateManager V :=
  match checkTransaction env tx.transaction with
  | .error e => (.error e, s)
  | .ok () =>
    let (account, s) := s.getAccount tx.transaction.from
    (checkNonce tx.transaction account, s)

/-! ## Validator registration and exit -/

/-- The `ValidatorRegister` arm, the same in both executors: lock the
stake, flag the account, and enter the validator in the committee
manager's set if there is one. -/
def validatorRegister (cm : Option CommitteeManager) (tx : Transaction) (sender : Account) :
    Except StateError (Account × Option CommitteeManager) :=
  if tx.data.length < 32 then .error (.executionError "ValidatorRegister: need VRF key")
  else
    let vrfPub := tx.data.take 256
    let comm : UInt16 :=
      if 258 ≤ tx.data.length then UInt16.ofNat (leValue ((tx.data.drop 256).take 2)) else 500
    match sender.addStake tx.amount with
    | (_, false) => .error .insufficientBalance
    | (sender, true) =>
      let sender := { sender with isValidator := true }
      match cm with
      | none => .ok (sender, none)
      | some cm =>
        match Validator.new tx.from tx.publicKey tx.amount vrfPub with
        | .error e => .error (.executionError e)
        | .ok v =>
          match cm.addValidator { v with commissionRate := comm } with
          | .error e => .error (.executionError e)
          | .ok cm => .ok (sender, some cm)

/-- The `ValidatorExit` arm; the executors differ in the error they report. -/
def validatorExit (failure : StateError) (cm : Option CommitteeManager) (tx : Transaction)
    (sender : Account) : Except StateError (Account × Option CommitteeManager) :=
  match sender.removeStake sender.stake with
  | (_, false) => .error failure
  | (sender, true) =>
    .ok ({ sender with isValidator := false }, cm.map fun cm => cm.removeValidator tx.from)

/-- The match of either executor. They differ in the arms given here and in
the error of a failed exit. -/
def executeArms (exitFailure : StateError)
    (transfer deploy call : Except StateError (Account × Account × List Log) × StateManager V) :
    Except StateError (Account × Account × List Log) × StateManager V :=
  match tx.txType with
  | .transfer => transfer
  | .stake =>
    match sender.addStake tx.amount with
    | (_, false) => (.error .insufficientBalance, s)
    | (sender, true) => (.ok (sender, recipient, []), s)
  | .unstake =>
    match sender.removeStake tx.amount with
    | (_, false) => (.error .insufficientBalance, s)
    | (sender, true) => (.ok (sender, recipient, []), s)
  | .stakeTransfer =>
    -- the recipient's copy is credited even if it is the sender's
    match sender.subtractStake tx.amount with
    | (_, false) => (.error .insufficientBalance, s)
    | (sender, true) => (.ok (sender, recipient.addStakeDirect tx.amount, []), s)
  | .contractDeploy => deploy
  | .contractCall => call
  | .validatorRegister =>
    match validatorRegister s.committeeManager tx sender with
    | .error e => (.error e, s)
    | .ok (sender, cm) => (.ok (sender, recipient, []), { s with committeeManager := cm })
  | .validatorExit =>
    match validatorExit exitFailure s.committeeManager tx sender with
    | .error e => (.error e, s)
    | .ok (sender, cm) => (.ok (sender, recipient, []), { s with committeeManager := cm })

/-! ## The direct executor -/

/-- The `ContractDeploy` arm of `apply_transaction`. The recipient becomes
the account of the new contract. -/
def deployDirect : Except StateError (Account × Account × List Log) × StateManager V :=
  match tx.vmKind with
  | .qvm =>
    if ! s.contractManager then
      (.error (.executionError "ContractManager not initialized"), s)
    else
      match decodeContractDeployPayload tx.data with
      | .error e => (.error (.executionError ("Invalid deploy payload: " ++ e)), s)
      | .ok (bytecode, constructorData) =>
        if bytecode.isEmpty then
          (.error (.executionError "Empty bytecode in ContractDeploy"), s)
        else
          match env.deployContract s.world
            { bytecode, constructorData, deployer := tx.from, nonce := tx.nonce,
              blockNumber := tx.timestamp, timestamp := tx.timestamp,
              chainId := tx.chainId } with
          | (.error e, world) =>
            (.error (.executionError ("ContractDeploy failed: " ++ e)), { s with world })
          | (.ok deployResult, world) =>
            let (recipient, s) := getAccount { s with world } deployResult.address
            let recipient := { recipient with codeHash := some (env.hashData bytecode) }
            (.ok (sender, recipient, (deployResult.initResult.map (·.logs)).getD []), s)
  | .evm =>
    if ! s.evmEngine then (.error (.executionError "EvmEngine not initialized"), s)
    else
      let (answer, world) := env.evm s.world s.storage
        { caller := tx.from, target := none, nonce := some tx.nonce, value := tx.amount,
          data := tx.data, maxComputeUnits := tx.maxComputeUnits, chainId := tx.chainId }
      let s := { s with world, storage := s.storage.putAll answer.writes }
      match answer.outcome with
      | .error e => (.error (.executionError ("EVM deploy failed: " ++ e)), s)
      | .ok out =>
        match out.createdAddress with
        | none => (.error (.executionError "EVM deploy missing address"), s)
        | some contractAddress =>
          let (recipient, s) := s.getAccount contractAddress
          let recipient :=
            match out.deployedCode with
            | some code => { recipient with codeHash := some (env.hashData code) }
            | none => recipient
          (.ok (sender, recipient, out.logs), s)

/-- The value of a direct contract call, moved before the engine runs. -/
def callValueDirect : Except StateError (Account × Account) :=
  if tx.amount.toNat > 0 then
    match sender.subBalance tx.amount with
    | (_, false) => .error .insufficientBalance
    | (sender, true) => .ok (sender, (recipient.addBalance tx.amount).1)
  else .ok (sender, recipient)

/-- The `ContractCall` arm of `apply_transaction`. -/
def callDirect : Except StateError (Account × Account × List Log) × StateManager V :=
  match tx.vmKind with
  | .qvm =>
    if ! s.contractManager then
      (.error (.executionError "ContractManager not initialized"), s)
    else
      let executionTimestamp := env.currentExecutionTimestamp s.world tx.timestamp
      match callValueDirect tx sender recipient with
      | .error e => (.error e, s)
      | .ok (sender, recipient) =>
        match env.executeContract s.world
          { contractAddress := tx.to, caller := tx.from, inputData := tx.data,
            blockNumber := executionTimestamp, timestamp := executionTimestamp,
            chainId := tx.chainId } with
        | (.error e, world) =>
          (.error (.executionError ("ContractCall failed: " ++ e)), { s with world })
        | (.ok result, world) =>
          if ! result.success then
            (.error (.executionError ("ContractCall reverted: "
              ++ env.decodeContractRevertReason result.returnData)), { s with world })
          else (.ok (sender, recipient, result.logs), { s with world })
  | .evm =>
    if ! s.evmEngine then (.error (.executionError "EvmEngine not initialized"), s)
    else
      match callValueDirect tx sender recipient with
      | .error e => (.error e, s)
      | .ok (sender, recipient) =>
        let (answer, world) := env.evm s.world s.storage
          { caller := tx.from, target := some tx.to, nonce := none, value := tx.amount,
            data := tx.data, maxComputeUnits := tx.maxComputeUnits, chainId := tx.chainId }
        let s := { s with world, storage := s.storage.putAll answer.writes }
        match answer.outcome with
        | .error e => (.error (.executionError ("EVM call failed: " ++ e)), s)
        | .ok out =>
          if ! out.success then
            (.error (.executionError ("EVM call reverted: "
              ++ env.decodeContractRevertReason out.returnData)), s)
          else (.ok (sender, recipient, out.logs), s)

/-- The `Transfer` arm of `apply_transaction`. -/
def transferDirect : Except StateError (Account × Account × List Log) × StateManager V :=
  match sender.subBalance tx.amount with
  | (_, false) => (.error .insufficientBalance, s)
  | (sender, true) => (.ok (sender, (recipient.addBalance tx.amount).1, []), s)

/-- The match of `apply_transaction` on two independently loaded copies,
sender and recipient. -/
def applyTransactionType : Except StateError (Account × Account × List Log) × StateManager V :=
  s.executeArms tx sender recipient .insufficientBalance (s.transferDirect tx sender recipient)
    (s.deployDirect env tx sender) (s.callDirect env tx sender recipient)

def finalizedReceipt (tx : SignedTransaction) (receiptTo : Address) (logs : List Log) :
    TransactionReceipt where
  txHash := tx.hash
  status := .finalized
  cuUsed := tx.transaction.maxComputeUnits
  vertexHash := 0#256
  shardId := tx.transaction.shardId
  logs
  slot := 0
  «from» := tx.transaction.from
  «to» := receiptTo
  success := true

def applyTransaction (tx : SignedTransaction) :
    Except StateError TransactionReceipt × StateManager V :=
  match s.validateTransaction env tx with
  | (.error e, s) => (.error e, s)
  | (.ok (), s) =>
    let (sender, s) := s.getAccount tx.transaction.from
    let (recipient, s) := s.getAccount tx.transaction.to
    match s.applyTransactionType env tx.transaction sender recipient with
    | (.error e, s) => (.error e, s)
    | (.ok (sender, recipient, logs), s) =>
      match sender.incrementNonce with
      | .error e => (.error (.storageError e), s)
      | .ok sender =>
        (.ok (finalizedReceipt tx recipient.address logs),
          s.persistAccounts env [sender, recipient])

/-- Some accounts and an empty committee, to evaluate on. -/
def sample (accounts : List Account) : StateManager Unit :=
  { StateManager.new (Table.empty.putAll accounts) 0#256 () with
    committeeManager := some ⟨ValidatorSet.new⟩ }

end StateManager

end Quantos

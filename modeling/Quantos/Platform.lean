import Quantos.Types

/-!
# What the state layer calls out to

Hashing, signature verification, the two contract engines and the clock.
SHA3-256, ML-DSA-65 and the EVM are third-party code, and the WASM engine
keeps its own storage which the account ledger never reads, so the state
layer sees each of them only through the answers below. They are fields of
one record, `Platform V`, over an arbitrary type `V` for whatever the
engines remember between calls.

The EVM is the one callee that touches the ledger behind the state
manager's back (`vm/evm.rs` reads and writes accounts straight in durable
storage), so its answer includes the accounts it wrote.
-/

namespace Quantos

/-- The fields of a contract run that the state layer reads. -/
structure ExecutionResult where
  success : Bool
  returnData : Bytes
  logs : List Log
  debugMessages : List String

structure DeployContractResult where
  address : Address
  initResult : Option ExecutionResult

structure EvmExecOutcome where
  success : Bool
  returnData : Bytes
  logs : List Log
  createdAddress : Option Address
  deployedCode : Option Bytes

/-- The arguments of `ContractManager::deploy_contract`. -/
structure DeployRequest where
  bytecode : Bytes
  constructorData : Bytes
  deployer : Address
  nonce : UInt64
  blockNumber : UInt64
  timestamp : UInt64
  chainId : UInt64

/-- The arguments of `execute_contract` and `simulate_contract`. -/
structure CallRequest where
  contractAddress : Address
  caller : Address
  inputData : Bytes
  blockNumber : UInt64
  timestamp : UInt64
  chainId : UInt64

/-- The arguments of `EvmEngine::deploy` (no target, the nonce given) and
`EvmEngine::call` (a target, no nonce). -/
structure EvmRequest where
  caller : Address
  target : Option Address
  nonce : Option UInt64
  value : Amount
  data : Bytes
  maxComputeUnits : UInt64
  chainId : UInt64

structure EvmAnswer where
  outcome : Except String EvmExecOutcome
  writes : List Account

/-- Hash, signature check, engines and clock. Failing engine calls carry
the text of their error. -/
structure Platform (V : Type) where
  hashData : Bytes → Hash
  verifyMlDsa65 : (publicKey message signature : Bytes) → Bool
  deployContract : V → DeployRequest → Except String DeployContractResult × V
  executeContract : V → CallRequest → Except String ExecutionResult × V
  simulateContract : V → CallRequest → Except String ExecutionResult × V
  evm : V → AccountTable → EvmRequest → EvmAnswer × V
  currentExecutionTimestamp : V → UInt64 → UInt64
  decodeContractRevertReason : Bytes → String

/-! ## The deploy payload -/

def CONTRACT_DEPLOY_PAYLOAD_MAGIC : Bytes := asciiBytes "QDP1"

def WASM_MAGIC : Bytes := [0, 97, 115, 109]

/-- Bytecode and constructor data: a bare WASM module, or the framed
format `QDP1 || len || len || bytecode || constructor data`. -/
def decodeContractDeployPayload (data : Bytes) : Except String (Bytes × Bytes) :=
  if 4 ≤ data.length ∧ data.take 4 = WASM_MAGIC then .ok (data, [])
  else if data.length < 12 ∨ data.take 4 ≠ CONTRACT_DEPLOY_PAYLOAD_MAGIC then
    .error "Invalid bytecode"
  else
    let bytecodeLen := leValue ((data.drop 4).take 4)
    let constructorLen := leValue ((data.drop 8).take 4)
    let expectedLen := 12 + bytecodeLen + constructorLen
    if bytecodeLen = 0 ∨ expectedLen ≠ data.length then .error "Invalid bytecode"
    else
      .ok ((data.drop 12).take bytecodeLen, (data.drop (12 + bytecodeLen)).take constructorLen)

/-! ## A platform to evaluate on -/

/-- The bytes as digits in base 257: a digest that keeps one-byte keys apart. -/
def digitHash (bytes : Bytes) : Hash :=
  BitVec.ofNat 256 (bytes.foldl (fun h b => h * 257 + b.toNat) 0)

/-- Every signature is valid and no contract engine answers. -/
def Platform.sample : Platform Unit where
  hashData := digitHash
  verifyMlDsa65 := fun _ _ _ => true
  deployContract := fun w _ => (.error "unavailable", w)
  executeContract := fun w _ => (.error "unavailable", w)
  simulateContract := fun w _ => (.error "unavailable", w)
  evm := fun w _ _ => (⟨.error "unavailable", []⟩, w)
  currentExecutionTimestamp := fun _ fallback => fallback
  decodeContractRevertReason := fun _ => ""

/-- A transaction of the account whose public key is the one byte `sender`. -/
def sampleTx (txType : TransactionType) (sender : UInt8) (recipient : Address) (amount : Nat)
    (nonce : UInt64) : SignedTransaction where
  transaction :=
    { txType, «from» := BitVec.ofNat 256 sender.toNat, «to» := recipient,
      amount := ⟨BitVec.ofNat 128 amount⟩, nonce, maxComputeUnits := 0, boost := none,
      vmKind := .qvm, data := List.replicate 32 1, shardId := 0, timestamp := 0, signature := [],
      publicKey := [sender], chainId := 0 }
  hash := 0#256
  size := 0

def sampleAccount (address : Address) (balance stake : Nat) : Account :=
  { Account.new address with
    balance := ⟨BitVec.ofNat 128 balance⟩, stake := ⟨BitVec.ofNat 128 stake⟩ }

end Quantos

import Mathlib.Data.BitVec
import Quantos.KeyedTable

/-!
# Amounts, accounts and transactions

The data model of `types/`: `Amount` with its checked arithmetic, `Account`
with the balance and stake operations the executors call, and the signed
transaction with the receipt it produces.

Fixed-size byte arrays are bit vectors read big-endian, so that the
derived order of `[u8; 32]` is the order of the numbers; `u128` is
`BitVec 128`, whose `+` and `-` wrap as the release build's do. The
account operations that mutate in place and report success return the
account together with the reported flag.

SHA3-256 lives in a third-party crate. It is a parameter,
`hashData : Bytes → Hash`, wherever a digest is taken.
-/

namespace Quantos

abbrev Bytes := List UInt8

/-- `[u8; 32]`, most significant byte first. -/
abbrev Hash := BitVec 256

abbrev Address := BitVec 256

/-! ## Byte encodings -/

/-- The `w` low bytes of `n`, least significant first (`to_le_bytes`). -/
def leBytes : Nat → Nat → Bytes
  | 0, _ => []
  | w + 1, n => UInt8.ofNat n :: leBytes w (n / 256)

/-- The number with these bytes, least significant first (`from_le_bytes`). -/
def leValue : Bytes → Nat
  | [] => 0
  | b :: bs => b.toNat + 256 * leValue bs

/-- The bytes of a 32-byte array in memory order. -/
def arrayBytes (h : Hash) : Bytes := (leBytes 32 h.toNat).reverse

/-- The 32-byte array with these bytes. -/
@[irreducible] def arrayOfBytes (bytes : Bytes) : Hash := BitVec.ofNat 256 (leValue bytes.reverse)

theorem length_leBytes (w n : Nat) : (leBytes w n).length = w := by
  induction w generalizing n with
  | zero => rfl
  | succ w ih => simp [leBytes, ih]

@[simp] theorem length_arrayBytes (h : Hash) : (arrayBytes h).length = 32 := by
  simp [arrayBytes, length_leBytes]

theorem leValue_leBytes (w n : Nat) : leValue (leBytes w n) = n % 256 ^ w := by
  induction w generalizing n with
  | zero => exact (Nat.mod_one n).symm
  | succ w ih =>
    rw [leBytes, leValue, ih, Nat.pow_succ', Nat.mod_mul]
    congr 1

theorem leBytes_leValue (bytes : Bytes) : leBytes bytes.length (leValue bytes) = bytes := by
  induction bytes with
  | nil => rfl
  | cons b bytes ih =>
    have hdiv : (b.toNat + 256 * leValue bytes) / 256 = leValue bytes := by
      have := b.toNat_lt
      omega
    rw [List.length_cons, leValue, leBytes, hdiv, ih]
    congr 1
    apply UInt8.toNat_inj.mp
    rw [UInt8.toNat_ofNat', Nat.add_mul_mod_self_left, Nat.mod_eq_of_lt b.toNat_lt]

theorem leValue_lt (bytes : Bytes) : leValue bytes < 256 ^ bytes.length := by
  have h := leValue_leBytes bytes.length (leValue bytes)
  rw [leBytes_leValue] at h
  rw [h]
  exact Nat.mod_lt _ (Nat.pow_pos (by decide))

theorem leValue_arrayBytes (h : Hash) : leValue (arrayBytes h).reverse = h.toNat := by
  have hrange : 2 ^ 256 = 256 ^ 32 := by decide
  rw [arrayBytes, List.reverse_reverse, leValue_leBytes, ← hrange, Nat.mod_eq_of_lt h.isLt]

theorem arrayOfBytes_arrayBytes (h : Hash) : arrayOfBytes (arrayBytes h) = h := by
  rw [arrayOfBytes, leValue_arrayBytes, BitVec.ofNat_toNat, BitVec.setWidth_eq]

theorem arrayBytes_arrayOfBytes {bytes : Bytes} (h : bytes.length = 32) :
    arrayBytes (arrayOfBytes bytes) = bytes := by
  have hlt := leValue_lt bytes.reverse
  have hback := leBytes_leValue bytes.reverse
  rw [List.length_reverse, h] at hlt hback
  have hrange : 2 ^ 256 = 256 ^ 32 := by decide
  rw [arrayOfBytes, arrayBytes, BitVec.toNat_ofNat, hrange, Nat.mod_eq_of_lt hlt, hback,
    List.reverse_reverse]

/-- Two hashes side by side, as the nodes of all Merkle trees are hashed. -/
def joinBytes (p : Hash × Hash) : Bytes := arrayBytes p.1 ++ arrayBytes p.2

def joinHash (hashData : Bytes → Hash) (left right : Hash) : Hash :=
  hashData (joinBytes (left, right))

/-- The bytes of an ASCII literal `b"..."`. -/
def asciiBytes (s : String) : Bytes := s.toList.map fun c => UInt8.ofNat c.toNat

/-- `[tag length as u16 LE] || [tag bytes] || [message bytes]`. -/
def withDomain (domain message : Bytes) : Bytes :=
  leBytes 2 domain.length ++ domain ++ message

def DOMAIN_TX : Bytes := asciiBytes "QUANTOS_TX_V1"

/-- `saturating_add` on a `u64`. -/
def saturatingAdd64 (a b : UInt64) : UInt64 :=
  if a.toNat + b.toNat < 2 ^ 64 then a + b else UInt64.ofNat (2 ^ 64 - 1)

/-! ## Checked `u64` arithmetic -/

def checkedAdd64 (a b : UInt64) : Option UInt64 :=
  if a.toNat + b.toNat < 2 ^ 64 then some (a + b) else none

def U64_MAX : UInt64 := 18446744073709551615

def checkedSub64 (a b : UInt64) : Option UInt64 :=
  if b.toNat ≤ a.toNat then some (a - b) else none

theorem toNat_succ_lt {n : UInt64} (h : n ≠ U64_MAX) : n.toNat + 1 < 2 ^ 64 := by
  have hlt := n.toNat_lt
  have hval : U64_MAX.toNat = 2 ^ 64 - 1 := rfl
  have hne : n.toNat ≠ U64_MAX.toNat := fun heq => h (UInt64.toNat_inj.mp heq)
  omega

variable {a b c : UInt64}

theorem checkedAdd64_eq_some (h : checkedAdd64 a b = some c) : c.toNat = a.toNat + b.toNat := by
  unfold checkedAdd64 at h
  split at h
  · obtain rfl := Option.some.inj h
    rw [UInt64.toNat_add]
    exact Nat.mod_eq_of_lt ‹_›
  · cases h

theorem checkedAdd64_of_lt (h : a.toNat + b.toNat < 2 ^ 64) :
    ∃ c, checkedAdd64 a b = some c ∧ c.toNat = a.toNat + b.toNat :=
  ⟨a + b, if_pos h, checkedAdd64_eq_some (if_pos h)⟩

theorem checkedAdd64_eq_none (h : checkedAdd64 a b = none) : 2 ^ 64 ≤ a.toNat + b.toNat := by
  unfold checkedAdd64 at h
  split at h
  · cases h
  · omega

theorem checkedSub64_eq_some (h : checkedSub64 a b = some c) : c.toNat + b.toNat = a.toNat := by
  unfold checkedSub64 at h
  split at h
  · obtain rfl := Option.some.inj h
    rw [UInt64.toNat_sub_of_le _ _ (UInt64.le_iff_toNat_le.mpr ‹_›)]
    omega
  · cases h

theorem checkedSub64_of_le (h : b.toNat ≤ a.toNat) :
    ∃ c, checkedSub64 a b = some c ∧ c.toNat + b.toNat = a.toNat :=
  ⟨a - b, if_pos h, checkedSub64_eq_some (if_pos h)⟩

/-! ## Amounts -/

/-- A `u128` number of base units. -/
structure Amount where
  val : BitVec 128
deriving DecidableEq, Repr

namespace Amount

def zero : Amount := ⟨0#128⟩

def toNat (a : Amount) : Nat := a.val.toNat

def checkedAdd (a b : Amount) : Option Amount :=
  if a.toNat + b.toNat < 2 ^ 128 then some ⟨a.val + b.val⟩ else none

def checkedSub (a b : Amount) : Option Amount :=
  if b.toNat ≤ a.toNat then some ⟨a.val - b.val⟩ else none

theorem toNat_lt (a : Amount) : a.toNat < 2 ^ 128 := a.val.isLt

variable {a b : Amount}

theorem toNat_inj (h : a.toNat = b.toNat) : a = b := by
  cases a; cases b
  exact congrArg Amount.mk (BitVec.eq_of_toNat_eq h)

variable {c : Amount}

theorem checkedAdd_eq_some : a.checkedAdd b = some c ↔ c.toNat = a.toNat + b.toNat := by
  unfold checkedAdd
  have hsum : (⟨a.val + b.val⟩ : Amount).toNat = (a.toNat + b.toNat) % 2 ^ 128 :=
    BitVec.toNat_add ..
  constructor
  · intro h
    split at h
    · obtain rfl := Option.some.inj h
      rw [hsum]; omega
    · cases h
  · intro h
    have hc := c.toNat_lt
    rw [if_pos (by omega)]
    refine congrArg some (toNat_inj ?_)
    rw [hsum]; omega

theorem checkedAdd_val (h : a.checkedAdd b = some c) : c = ⟨a.val + b.val⟩ := by
  unfold checkedAdd at h
  split at h
  · exact (Option.some.inj h).symm
  · cases h

theorem checkedAdd_eq_none : a.checkedAdd b = none ↔ 2 ^ 128 ≤ a.toNat + b.toNat := by
  unfold checkedAdd
  split <;> simp <;> omega

theorem checkedSub_eq_some : a.checkedSub b = some c ↔ c.toNat + b.toNat = a.toNat := by
  unfold checkedSub
  have hdiff : b.toNat ≤ a.toNat → (⟨a.val - b.val⟩ : Amount).toNat = a.toNat - b.toNat :=
    fun h => BitVec.toNat_sub_of_le h
  constructor
  · intro h
    split at h
    · rename_i hle
      obtain rfl := Option.some.inj h
      rw [hdiff hle]; omega
    · cases h
  · intro h
    rw [if_pos (by omega)]
    refine congrArg some (toNat_inj ?_)
    rw [hdiff (by omega)]; omega

end Amount

/-! ## Accounts -/

structure Account where
  address : Address
  balance : Amount
  nonce : UInt64
  codeHash : Option Hash
  storageRoot : Hash
  stake : Amount
  isValidator : Bool
deriving DecidableEq, Repr

namespace Account

def new (address : Address) : Account where
  address
  balance := .zero
  nonce := 0
  codeHash := none
  storageRoot := 0#256
  stake := .zero
  isValidator := false

variable (a : Account)

/-- The deterministic serialization `Account::hash` digests. -/
def encode : Bytes :=
  arrayBytes a.address ++ leBytes 16 a.balance.toNat ++ leBytes 8 a.nonce.toNat
    ++ (a.codeHash.elim [] arrayBytes) ++ arrayBytes a.storageRoot
    ++ leBytes 16 a.stake.toNat ++ [if a.isValidator then 1 else 0]

def hash (hashData : Bytes → Hash) (a : Account) : Hash := hashData a.encode

/-- Checked increment: the maximal nonce is never left. -/
def incrementNonce : Except String Account :=
  if a.nonce.toNat + 1 < 2 ^ 64 then .ok { a with nonce := a.nonce + 1 }
  else .error "Nonce overflow: account has reached maximum nonce"

variable (amount : Amount)

def addBalance : Account × Bool :=
  match a.balance.checkedAdd amount with
  | some newBalance => ({ a with balance := newBalance }, true)
  | none => (a, false)

def subBalance : Account × Bool :=
  match a.balance.checkedSub amount with
  | some newBalance => ({ a with balance := newBalance }, true)
  | none => (a, false)

/-- Balance to stake: both new values are computed before either is written. -/
def addStake : Account × Bool :=
  match a.stake.checkedAdd amount with
  | none => (a, false)
  | some newStake =>
    match a.balance.checkedSub amount with
    | none => (a, false)
    | some newBalance => ({ a with stake := newStake, balance := newBalance }, true)

/-- Stake to balance. The stake is written before the balance addition can
fail, so a `false` may leave the account with the stake already gone. -/
def removeStake : Account × Bool :=
  match a.stake.checkedSub amount with
  | some newStake => addBalance { a with stake := newStake } amount
  | none => (a, false)

/-- Take stake without crediting the balance (for `StakeTransfer`). -/
def subtractStake : Account × Bool :=
  match a.stake.checkedSub amount with
  | some newStake => ({ a with stake := newStake }, true)
  | none => (a, false)

/-- Add stake without debiting the balance (for `StakeTransfer`); an
overflowing addition is dropped. -/
def addStakeDirect : Account :=
  match a.stake.checkedAdd amount with
  | some newStake => { a with stake := newStake }
  | none => a

/-- Balance plus stake: what the account owns. -/
def value : Nat := a.balance.toNat + a.stake.toNat

end Account

/-- A store of accounts under their own addresses: the `accounts` column
family, the account cache, the pending state and every overlay are of
this shape. -/
abbrev AccountTable := Table Account.address

/-! ## Transactions -/

inductive TransactionType where
  | transfer
  | stake
  | unstake
  | stakeTransfer
  | validatorRegister
  | validatorExit
  | contractCall
  | contractDeploy
deriving DecidableEq, Repr

/-- The discriminant, as in `tx_type as u8`. -/
def TransactionType.toU8 : TransactionType → UInt8
  | .transfer => 0
  | .stake => 1
  | .unstake => 2
  | .stakeTransfer => 3
  | .validatorRegister => 4
  | .validatorExit => 5
  | .contractCall => 6
  | .contractDeploy => 7

/-- The two types executed by a virtual machine. -/
def TransactionType.isContract : TransactionType → Bool
  | .contractCall | .contractDeploy => true
  | _ => false

inductive VmKind where
  | qvm
  | evm
deriving DecidableEq, Repr

def VmKind.toU8 : VmKind → UInt8
  | .qvm => 0
  | .evm => 1

structure PriorityBoost where
  lockedTokens : UInt64
  lockDurationBlocks : UInt64
deriving DecidableEq, Repr

structure Transaction where
  txType : TransactionType
  «from» : Address
  «to» : Address
  amount : Amount
  nonce : UInt64
  maxComputeUnits : UInt64
  boost : Option PriorityBoost
  vmKind : VmKind
  data : Bytes
  shardId : UInt16
  timestamp : UInt64
  signature : Bytes
  publicKey : Bytes
  chainId : UInt64
deriving DecidableEq, Repr

/-- The bytes a transaction signature covers. -/
def Transaction.signingData (tx : Transaction) : Bytes :=
  withDomain DOMAIN_TX <|
    [tx.txType.toU8] ++ arrayBytes tx.from ++ arrayBytes tx.to
      ++ leBytes 16 tx.amount.toNat ++ leBytes 8 tx.nonce.toNat
      ++ leBytes 8 tx.maxComputeUnits.toNat
      ++ (match tx.boost with
          | some boost =>
            leBytes 8 boost.lockedTokens.toNat ++ leBytes 8 boost.lockDurationBlocks.toNat
          | none => leBytes 8 0 ++ leBytes 8 0)
      ++ [tx.vmKind.toU8] ++ tx.data ++ leBytes 2 tx.shardId.toNat
      ++ leBytes 8 tx.timestamp.toNat ++ leBytes 8 tx.chainId.toNat

structure SignedTransaction where
  transaction : Transaction
  hash : Hash
  size : Nat
deriving DecidableEq, Repr

structure Log where
  address : Address
  topics : List Hash
  data : Bytes
deriving DecidableEq, Repr

inductive TransactionStatus where
  | pending
  | included
  | preConfirmed
  | finalized
  | failed (reason : String)
deriving DecidableEq, Repr

structure TransactionReceipt where
  txHash : Hash
  status : TransactionStatus
  cuUsed : UInt64
  vertexHash : Hash
  shardId : UInt16
  logs : List Log
  slot : UInt64
  «from» : Address
  «to» : Address
  success : Bool
deriving DecidableEq, Repr

/-! ## Errors of the state layer -/

inductive StateError where
  | accountNotFound (what : String)
  | insufficientBalance
  | invalidNonce (expected got : UInt64)
  | invalidSignature
  | storageError (what : String)
  | executionError (what : String)
  | unauthorized
  | invalidAmount
  | arithmeticOverflow

/-- The `Display` text, which failed receipts carry. -/
def StateError.toText : StateError → String
  | .accountNotFound what => "Account not found: " ++ what
  | .insufficientBalance => "Insufficient balance"
  | .invalidNonce expected got =>
    "Invalid nonce: expected " ++ toString expected ++ ", got " ++ toString got
  | .invalidSignature => "Invalid signature"
  | .storageError what => "Storage error: " ++ what
  | .executionError what => "Execution error: " ++ what
  | .unauthorized => "Unauthorized access"
  | .invalidAmount => "Invalid amount"
  | .arithmeticOverflow => "Arithmetic overflow"

end Quantos

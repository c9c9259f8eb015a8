import Quantos.Sidechain

/-!
# The bridge to the sidechains

`SidechainBridge` of `sidechain/mod.rs`. Assets are locked in an escrow for
each sidechain and user, a deposit takes them out of it and is pending until
it is completed or fails, and a withdrawal is pending until its dispute
window is over and then takes assets out of the escrow as well.

So the escrow holds what its user has locked and not deposited, and it is
this that a withdrawal pays out: what was deposited is gone from the escrow,
and a completed deposit leaves no trace that a withdrawal could ask for. The
ledger of a run shows it (`BridgeLedger.Balanced`): withdrawals are backed by
deposits only where none of them pays anything (`backed_iff`).

Two calls remove a pending transfer before the step that can fail
(`keeps_iff`). The random bytes of a transfer id and the clock are arguments,
as is the registry, which is another component and may have changed between
two calls.
-/

namespace Quantos.Sidechains

open Fallible Runs List

def MAX_COMPLETED_TRANSFERS : Nat := 100000

inductive AssetType where
  | native
  | token (address : Address)
  | nft (address : Address)
deriving DecidableEq, Repr

inductive TransferStatus where
  | pending
  | confirmed
  | completed
  | disputed
  | failed (reason : String)
deriving DecidableEq, Repr

structure PendingDeposit where
  id : Hash
  sidechainId : SidechainId
  sender : Address
  recipient : Address
  amount : Amount
  asset : AssetType
  l1TxHash : Hash
  timestamp : UInt64
  status : TransferStatus
deriving DecidableEq

structure PendingWithdrawal where
  id : Hash
  sidechainId : SidechainId
  sender : Address
  recipient : Address
  amount : Amount
  asset : AssetType
  sidechainTxHash : Hash
  timestamp : UInt64
  status : TransferStatus
  disputeDeadline : UInt64
deriving DecidableEq

inductive TransferDirection where
  | deposit (sidechainId : SidechainId)
  | withdrawal (sidechainId : SidechainId)

structure CompletedTransfer where
  id : Hash
  direction : TransferDirection
  amount : Amount
  completedAt : UInt64

/-- What the users of one sidechain have locked. -/
abbrev Escrow := Table (Prod.fst : Address × Amount → Address)

structure SidechainBridge where
  pendingDeposits : Table PendingDeposit.id
  pendingWithdrawals : Table PendingWithdrawal.id
  completedTransfers : List CompletedTransfer
  lockedAssets : Table (Prod.fst : SidechainId × Escrow → SidechainId)
  transferNonce : UInt64

variable (hashData : Bytes → Hash)

namespace SidechainBridge

def new : SidechainBridge := ⟨.empty, .empty, [], .empty, 1⟩

/-! ## The escrow -/

variable (b : SidechainBridge) (s : SidechainId)

def entry (u : Address) : Option Amount :=
  (b.lockedAssets.get s).bind fun row => (row.2.get u).map Prod.snd

def setEntry (u : Address) (amount : Amount) : SidechainBridge :=
  let escrow := ((b.lockedAssets.get s).map Prod.snd).getD .empty
  { b with lockedAssets := b.lockedAssets.put (s, escrow.put (u, amount)) }

variable (sender : Address) (amount : Amount)

/-- A sum is too large only where there is an entry already, so the entry of
0 that the source may insert first does not outlive an error. -/
def lockAssets : Outcome SidechainError SidechainBridge Unit :=
  match ((b.entry s sender).getD .zero).checkedAdd amount with
  | none => (.error .arithmeticOverflow, b)
  | some sum => (.ok (), b.setEntry s sender sum)

def unlockAssets (recipient : Address) (amount : Amount) :
    Outcome SidechainError SidechainBridge Unit :=
  match (b.entry s recipient).bind fun locked => locked.checkedSub amount with
  | none => (.error .insufficientLockedAssets, b)
  | some rest => (.ok (), b.setEntry s recipient rest)

/-! ## Transfers -/

def generateTransferId (nonce : UInt64) (sender recipient : Address) (amount : Amount)
    (random : BitVec 128) : Hash :=
  hashData (arrayBytes sender ++ arrayBytes recipient ++ leBytes 16 amount.toNat
    ++ leBytes 8 nonce.toNat ++ leBytes 16 random.toNat)

def checkDeposit (registry : SidechainRegistry) (s : SidechainId) (sender : Address)
    (amount : Amount) : Except SidechainError Unit :=
  match registry.sidechains.get s with
  | none => .error (.notFound s)
  | some chain =>
    if !chain.config.active then .error (.sidechainInactive s)
    else if (b.lockedAssets.get s).isNone then .error .assetsNotLocked
    else if ((b.entry s sender).getD .zero).toNat < amount.toNat then
      .error .insufficientLockedAssets
    else .ok ()

/-- Where there is no entry the amount is 0 and nothing is taken. -/
def deduct : SidechainBridge :=
  match b.entry s sender with
  | some locked => b.setEntry s sender ⟨locked.val - amount.val⟩
  | none => b

section

variable (depositId : Hash) (now : UInt64) (registry : SidechainRegistry) (s : SidechainId)
  (sender recipient : Address) (amount : Amount) (asset : AssetType)

def initiateDeposit (l1TxHash : Hash) (random : BitVec 128) (now : UInt64) :
    Outcome SidechainError SidechainBridge Hash :=
  attempt b (b.checkDeposit registry s sender amount) fun _ =>
    let id := generateTransferId hashData b.transferNonce sender recipient amount random
    let deposit : PendingDeposit :=
      ⟨id, s, sender, recipient, amount, asset, l1TxHash, now, .pending⟩
    let b := b.deduct s sender amount
    (.ok id, { b with
      transferNonce := b.transferNonce + 1
      pendingDeposits := b.pendingDeposits.put deposit })

/-- The nonce is spent also where the deadline does not fit. -/
def initiateWithdrawal (sidechainTxHash : Hash) (currentL1Block : UInt64) (random : BitVec 128)
    (now : UInt64) :
    Outcome SidechainError SidechainBridge Hash :=
  match registry.sidechains.get s with
  | none => (.error (.notFound s), b)
  | some chain =>
    let id := generateTransferId hashData b.transferNonce sender recipient amount random
    let b := { b with transferNonce := b.transferNonce + 1 }
    match checkedAdd64 currentL1Block chain.config.disputeWindow with
    | none => (.error .arithmeticOverflow, b)
    | some disputeDeadline =>
      let withdrawal : PendingWithdrawal := ⟨id, s, sender, recipient, amount, asset,
        sidechainTxHash, now, .pending, disputeDeadline⟩
      (.ok id, { b with pendingWithdrawals := b.pendingWithdrawals.put withdrawal })

def record (transfer : CompletedTransfer) : SidechainBridge :=
  { b with
    completedTransfers := pushBounded MAX_COMPLETED_TRANSFERS b.completedTransfers transfer }

def completeDeposit : Outcome SidechainError SidechainBridge Unit :=
  match b.pendingDeposits.get depositId with
  | none => (.error (.transferNotFound depositId), b)
  | some deposit =>
    (.ok (), { b with pendingDeposits := b.pendingDeposits.erase depositId }.record
      ⟨deposit.id, .deposit deposit.sidechainId, deposit.amount, now⟩)

/-- The deposit is removed first. -/
def failDeposit : Outcome SidechainError SidechainBridge Unit :=
  match b.pendingDeposits.get depositId with
  | none => (.error (.transferNotFound depositId), b)
  | some deposit =>
    lockAssets { b with pendingDeposits := b.pendingDeposits.erase depositId }
      deposit.sidechainId deposit.sender deposit.amount

end

/-- The withdrawal is removed after its deadline was checked and before the
assets are unlocked. -/
def finalizeWithdrawal (withdrawalId : Hash) (currentL1Block now : UInt64) :
    Outcome SidechainError SidechainBridge Unit :=
  match b.pendingWithdrawals.get withdrawalId with
  | none => (.error (.transferNotFound withdrawalId), b)
  | some withdrawal =>
    if currentL1Block < withdrawal.disputeDeadline then (.error .disputeWindowActive, b)
    else
      let b := { b with pendingWithdrawals := b.pendingWithdrawals.erase withdrawalId }
      let transfer : CompletedTransfer :=
        ⟨withdrawal.id, .withdrawal withdrawal.sidechainId, withdrawal.amount, now⟩
      andThen (b.unlockAssets withdrawal.sidechainId withdrawal.recipient withdrawal.amount)
        fun _ b => (.ok (), b.record transfer)

end SidechainBridge

/-! ## The calls -/

inductive BridgeOp where
  | lockAssets (s : SidechainId) (sender : Address) (amount : Amount)
  | initiateDeposit (registry : SidechainRegistry) (s : SidechainId) (sender recipient : Address)
      (amount : Amount) (asset : AssetType) (l1TxHash : Hash) (random : BitVec 128) (now : UInt64)
  | completeDeposit (depositId : Hash) (now : UInt64)
  | failDeposit (depositId : Hash)
  | initiateWithdrawal (registry : SidechainRegistry) (s : SidechainId)
      (sender recipient : Address) (amount : Amount) (asset : AssetType) (sidechainTxHash : Hash)
      (currentL1Block : UInt64) (random : BitVec 128) (now : UInt64)
  | finalizeWithdrawal (withdrawalId : Hash) (currentL1Block now : UInt64)

/-- A call whose answer is not looked at. -/
def withoutAnswer {ε σ α : Type} (c : Outcome ε σ α) : Outcome ε σ Unit :=
  (c.1.map fun _ => (), c.2)

namespace SidechainBridge

variable (b : SidechainBridge)

def call : BridgeOp → Outcome SidechainError SidechainBridge Unit
  | .lockAssets s sender amount => b.lockAssets s sender amount
  | .initiateDeposit registry s sender recipient amount asset l1TxHash random now =>
    withoutAnswer
      (b.initiateDeposit hashData registry s sender recipient amount asset l1TxHash random now)
  | .completeDeposit id now => b.completeDeposit id now
  | .failDeposit id => b.failDeposit id
  | .initiateWithdrawal registry s sender recipient amount asset txHash block random now =>
    withoutAnswer
      (b.initiateWithdrawal hashData registry s sender recipient amount asset txHash block random
        now)
  | .finalizeWithdrawal id block now => b.finalizeWithdrawal id block now

/-- What one user has locked. -/
def locked (s : SidechainId) (u : Address) : Nat :=
  ((b.entry s u).getD .zero).toNat

/-! ## Errors -/

/-- The escrow and the pending transfers are the same. -/
structure SameAssets (b b' : SidechainBridge) : Prop where
  lockedAssets : b'.lockedAssets = b.lockedAssets
  pendingDeposits : b'.pendingDeposits = b.pendingDeposits
  pendingWithdrawals : b'.pendingWithdrawals = b.pendingWithdrawals

def Keeps (op : BridgeOp) : Prop :=
  (b.call hashData op).1.isOk = false → SameAssets b (b.call hashData op).2

/-- A failed deposit whose amount does not fit into the escrow any more, and
a withdrawal after its deadline that the escrow of its recipient does not
cover. -/
def Loses : BridgeOp → Prop
  | .failDeposit id => ∃ deposit, b.pendingDeposits.get id = some deposit ∧
      2 ^ 128 ≤ b.locked deposit.sidechainId deposit.sender + deposit.amount.toNat
  | .finalizeWithdrawal id block _ => ∃ withdrawal, b.pendingWithdrawals.get id = some withdrawal ∧
      withdrawal.disputeDeadline ≤ block ∧
      ∀ held, b.entry withdrawal.sidechainId withdrawal.recipient = some held →
        held.toNat < withdrawal.amount.toNat
  | _ => False

theorem SameAssets.refl : SameAssets b b := ⟨rfl, rfl, rfl⟩

variable (s : SidechainId)

theorem lockAssets_cases (u : Address) (amount : Amount) : (2 ^ 128 ≤ b.locked s u + amount.toNat ∧
        b.lockAssets s u amount = (.error .arithmeticOverflow, b)) ∨
      ∃ sum, sum.toNat = b.locked s u + amount.toNat ∧
        b.lockAssets s u amount = (.ok (), b.setEntry s u sum) := by
  unfold lockAssets locked
  cases hadd : ((b.entry s u).getD .zero).checkedAdd amount with
  | none => exact .inl ⟨Amount.checkedAdd_eq_none.mp hadd, rfl⟩
  | some sum => exact .inr ⟨sum, Amount.checkedAdd_eq_some.mp hadd, rfl⟩

theorem unlockAssets_cases {u : Address} {amount : Amount} :
    ((∀ held, b.entry s u = some held → held.toNat < amount.toNat) ∧
        b.unlockAssets s u amount = (.error .insufficientLockedAssets, b)) ∨
      ∃ held rest, b.entry s u = some held ∧ rest.toNat + amount.toNat = held.toNat ∧
        b.unlockAssets s u amount = (.ok (), b.setEntry s u rest) := by
  unfold unlockAssets
  cases hentry : b.entry s u with
  | none => exact .inl ⟨fun _ h => (by cases h), rfl⟩
  | some held =>
    rw [Option.bind_some]
    cases hsub : held.checkedSub amount with
    | none =>
      refine .inl ⟨fun held' h => ?_, rfl⟩
      obtain rfl := Option.some.inj h
      by_contra hle
      rw [Amount.checkedSub, if_pos (Nat.le_of_not_lt hle)] at hsub
      cases hsub
    | some rest => exact .inr ⟨held, rest, rfl, Amount.checkedSub_eq_some.mp hsub, rfl⟩

section

variable (registry : SidechainRegistry) (s : SidechainId) (sender recipient : Address)
  (amount : Amount) (asset : AssetType)

theorem initiateDeposit_cases (l1TxHash : Hash) (random : BitVec 128) (now : UInt64) :
    let op := BridgeOp.initiateDeposit registry s sender recipient amount asset l1TxHash random now
    (∃ e, b.call hashData op = (.error e, b)) ∨
      (amount.toNat ≤ b.locked s sender ∧ (b.call hashData op).1 = .ok () ∧
        (b.call hashData op).2.lockedAssets = (b.deduct s sender amount).lockedAssets) := by
  intro op
  simp only [op, call, initiateDeposit, withoutAnswer]
  cases hcheck : b.checkDeposit registry s sender amount with
  | error e => exact .inl ⟨e, rfl⟩
  | ok =>
    refine .inr ⟨?_, rfl, rfl⟩
    unfold checkDeposit at hcheck
    split at hcheck
    · cases hcheck
    split at hcheck
    · cases hcheck
    split at hcheck
    · cases hcheck
    split at hcheck
    · cases hcheck
    · exact Nat.le_of_not_lt ‹_›

theorem initiateWithdrawal_cases {txHash : Hash} {block : UInt64} {random : BitVec 128}
    {now : UInt64} :
    let op := BridgeOp.initiateWithdrawal registry s sender recipient amount asset txHash block
      random now
    (b.call hashData op).2.lockedAssets = b.lockedAssets ∧
      ((b.call hashData op).1 = .ok () ∨ SameAssets b (b.call hashData op).2) := by
  intro op
  simp only [op, call, initiateWithdrawal, withoutAnswer]
  cases registry.sidechains.get s with
  | none => exact ⟨rfl, .inr (.refl b)⟩
  | some chain =>
    dsimp only
    cases checkedAdd64 block chain.config.disputeWindow with
    | none => exact ⟨rfl, .inr ⟨rfl, rfl, rfl⟩⟩
    | some => exact ⟨rfl, .inl rfl⟩

end

variable (id : Hash)

theorem completeDeposit_cases {now : UInt64} : (∃ e, b.completeDeposit id now = (.error e, b)) ∨
      ∃ deposit, b.pendingDeposits.get id = some deposit ∧ (b.completeDeposit id now).1 = .ok () ∧
        (b.completeDeposit id now).2.lockedAssets = b.lockedAssets := by
  unfold completeDeposit
  cases b.pendingDeposits.get id with
  | none => exact .inl ⟨_, rfl⟩
  | some deposit => exact .inr ⟨deposit, rfl, rfl, rfl⟩

theorem failDeposit_cases :
    (b.pendingDeposits.get id = none ∧ b.failDeposit id = (.error (.transferNotFound id), b)) ∨
      ∃ deposit, b.pendingDeposits.get id = some deposit ∧
        ((2 ^ 128 ≤ b.locked deposit.sidechainId deposit.sender + deposit.amount.toNat ∧
            b.failDeposit id = (.error .arithmeticOverflow,
              { b with pendingDeposits := b.pendingDeposits.erase id })) ∨
          ∃ sum, sum.toNat = b.locked deposit.sidechainId deposit.sender + deposit.amount.toNat ∧
            (b.failDeposit id).1 = .ok () ∧ (b.failDeposit id).2.lockedAssets
              = (b.setEntry deposit.sidechainId deposit.sender sum).lockedAssets) := by
  unfold failDeposit
  cases b.pendingDeposits.get id with
  | none => exact .inl ⟨rfl, rfl⟩
  | some deposit =>
    refine .inr ⟨deposit, rfl, ?_⟩
    rcases lockAssets_cases { b with pendingDeposits := b.pendingDeposits.erase id }
        deposit.sidechainId deposit.sender deposit.amount with ⟨hle, heq⟩ | ⟨sum, hsum, heq⟩
    · exact .inl ⟨hle, heq⟩
    refine .inr ⟨sum, hsum, ?_, ?_⟩
    · simp only [heq]
    · simp only [heq]
      rfl

variable (block : UInt64)

theorem finalizeWithdrawal_cases {now : UInt64} :
    (¬ (∃ withdrawal, b.pendingWithdrawals.get id = some withdrawal ∧
          withdrawal.disputeDeadline ≤ block) ∧
        ∃ e, b.finalizeWithdrawal id block now = (.error e, b)) ∨
      ∃ withdrawal, b.pendingWithdrawals.get id = some withdrawal ∧
        withdrawal.disputeDeadline ≤ block ∧
        (((∀ held, b.entry withdrawal.sidechainId withdrawal.recipient = some held →
              held.toNat < withdrawal.amount.toNat) ∧
            b.finalizeWithdrawal id block now = (.error .insufficientLockedAssets,
              { b with pendingWithdrawals := b.pendingWithdrawals.erase id })) ∨
          ∃ held rest, b.entry withdrawal.sidechainId withdrawal.recipient = some held ∧
            rest.toNat + withdrawal.amount.toNat = held.toNat ∧
            (b.finalizeWithdrawal id block now).1 = .ok () ∧
            (b.finalizeWithdrawal id block now).2.lockedAssets
              = (b.setEntry withdrawal.sidechainId withdrawal.recipient rest).lockedAssets) := by
  unfold finalizeWithdrawal
  cases b.pendingWithdrawals.get id with
  | none => exact .inl ⟨fun ⟨_, h, _⟩ => (by cases h), _, rfl⟩
  | some withdrawal =>
    dsimp only
    by_cases hwindow : block < withdrawal.disputeDeadline
    · rw [if_pos hwindow]
      refine .inl ⟨?_, _, rfl⟩
      rintro ⟨w, hw, hle⟩
      obtain rfl := Option.some.inj hw
      exact absurd hle (UInt64.not_le.mpr hwindow)
    · rw [if_neg hwindow]
      refine .inr ⟨withdrawal, rfl, UInt64.not_lt.mp hwindow, ?_⟩
      rcases unlockAssets_cases { b with pendingWithdrawals := b.pendingWithdrawals.erase id }
          withdrawal.sidechainId with
        ⟨hheld, heq⟩ | ⟨held, rest, hheld, hrest, heq⟩
      · exact .inl ⟨hheld, by simp only [heq, andThen]⟩
      refine .inr ⟨held, rest, hheld, hrest, ?_, ?_⟩
      · simp only [heq, andThen]
      · simp only [heq, andThen]
        rfl

section

variable {hashData} {b} {op : BridgeOp}

theorem keeps_of_ok (h : (b.call hashData op).1 = .ok ()) : b.Keeps hashData op := by
  intro herror
  rw [h] at herror
  cases herror

theorem keeps_of_error (h : ∃ e, b.call hashData op = (.error e, b)) : b.Keeps hashData op := by
  obtain ⟨e, heq⟩ := h
  intro _
  rw [heq]
  exact .refl b

end

theorem keeps_failDeposit : b.Keeps hashData (.failDeposit id) ↔ ¬ b.Loses (.failDeposit id) := by
  rcases failDeposit_cases b id with ⟨hnone, heq⟩ | ⟨deposit, hsome, hcases⟩
  · refine iff_of_true (keeps_of_error ⟨_, heq⟩) ?_
    rintro ⟨deposit, hsome, -⟩
    cases hnone.symm.trans hsome
  rcases hcases with ⟨hle, heq⟩ | ⟨sum, hsum, hok, -⟩
  · refine iff_of_false (fun h => ?_) fun h => h ⟨deposit, hsome, hle⟩
    simp only [Keeps, call, heq] at h
    exact Table.erase_ne hsome (h rfl).pendingDeposits
  refine iff_of_true (keeps_of_ok hok) ?_
  rintro ⟨_, hother, hle⟩
  obtain rfl := Option.some.inj (hsome.symm.trans hother)
  exact absurd (hsum ▸ sum.toNat_lt) (Nat.not_lt.mpr hle)

theorem keeps_finalizeWithdrawal {now : UInt64} :
    b.Keeps hashData (.finalizeWithdrawal id block now) ↔
      ¬ b.Loses (.finalizeWithdrawal id block now) := by
  rcases finalizeWithdrawal_cases b id block with
    ⟨hnone, herror⟩ | ⟨withdrawal, hsome, hwindow, hcases⟩
  · refine iff_of_true (keeps_of_error herror) ?_
    rintro ⟨withdrawal, hsome, hwindow, -⟩
    exact hnone ⟨withdrawal, hsome, hwindow⟩
  rcases hcases with ⟨hheld, heq⟩ | ⟨held, _, hentry, _, hok, -⟩
  · refine iff_of_false (fun h => ?_) fun h => h ⟨withdrawal, hsome, hwindow, hheld⟩
    simp only [Keeps, call, heq] at h
    exact Table.erase_ne hsome (h rfl).pendingWithdrawals
  refine iff_of_true (keeps_of_ok hok) ?_
  rintro ⟨_, hother, -, hheld⟩
  obtain rfl := Option.some.inj (hsome.symm.trans hother)
  have hlt := hheld held hentry
  omega

/-- The calls that keep everything when they fail. -/
theorem keeps_iff (b : SidechainBridge) (op : BridgeOp) : b.Keeps hashData op ↔ ¬ b.Loses op := by
  cases op with
  | lockAssets s sender amount =>
    refine iff_of_true ?_ id
    rcases lockAssets_cases b s sender amount with ⟨-, heq⟩ | ⟨_, -, heq⟩
    · exact keeps_of_error ⟨_, heq⟩
    · exact keeps_of_ok (congrArg Prod.fst heq)
  | initiateDeposit registry s sender recipient amount asset l1TxHash random now =>
    refine iff_of_true ?_ id
    rcases initiateDeposit_cases hashData b registry s sender recipient amount asset l1TxHash
      random now with herror | ⟨-, hok, -⟩
    · exact keeps_of_error herror
    · exact keeps_of_ok hok
  | completeDeposit id now =>
    refine iff_of_true ?_ fun h => h
    rcases completeDeposit_cases b id with herror | ⟨_, -, hok, -⟩
    · exact keeps_of_error herror
    · exact keeps_of_ok hok
  | failDeposit id => exact keeps_failDeposit ..
  | initiateWithdrawal registry s sender recipient amount asset txHash block random now =>
    refine iff_of_true ?_ id
    obtain ⟨-, hok | hsame⟩ := initiateWithdrawal_cases hashData b registry s sender recipient
      amount asset
    · exact keeps_of_ok hok
    · exact fun _ => hsame
  | finalizeWithdrawal id block now => exact keeps_finalizeWithdrawal ..

end SidechainBridge

/-- To a user who has locked nothing. -/
def unpaidWithdrawal : PendingWithdrawal := ⟨3, 7, 1, 2, ⟨5⟩, .native, 0, 0, .pending, 10⟩

def stuckDeposit : PendingDeposit := ⟨4, 7, 1, 2, ⟨1⟩, .native, 0, 0, .pending⟩

/-- The escrow of the depositor is full. -/
def fullBridge : SidechainBridge :=
  { SidechainBridge.new with
    pendingDeposits := Table.empty.put stuckDeposit
    pendingWithdrawals := Table.empty.put unpaidWithdrawal
    lockedAssets := Table.empty.put (7, Table.empty.put (1, ⟨BitVec.ofNat 128 (2 ^ 128 - 1)⟩)) }

/-- Neither transfer is pending any more, and nothing was paid. -/
theorem failed_calls_lose : let finalized := fullBridge.finalizeWithdrawal 3 10 0
    let failed := fullBridge.failDeposit 4
    (finalized.1 = .error .insufficientLockedAssets ∧
        fullBridge.pendingWithdrawals.get 3 = some unpaidWithdrawal ∧
        finalized.2.pendingWithdrawals.get 3 = none) ∧
      (failed.1 = .error .arithmeticOverflow ∧
        fullBridge.pendingDeposits.get 4 = some stuckDeposit ∧
        failed.2.pendingDeposits.get 4 = none ∧ failed.2.locked 7 1 = fullBridge.locked 7 1) := by
  decide

/-! ## The ledger of a run -/

/-- An amount for one user of one sidechain. -/
def only (s : SidechainId) (u : Address) (n : Nat) (s' : SidechainId) (u' : Address) : Nat :=
  if s = s' ∧ u = u' then n else 0

theorem only_add (s : SidechainId) (u : Address) (m n : Nat) (s' : SidechainId) (u' : Address) :
    only s u (m + n) s' u' = only s u m s' u' + only s u n s' u' := by
  unfold only
  split <;> rfl

/-- The bridge with what has happened: what users paid into the escrow or got
back into it, what they took out for deposits, and the transfers that came to
an end. -/
structure BridgeLedger where
  bridge : SidechainBridge
  paidIn : SidechainId → Address → Nat
  initiated : SidechainId → Address → Nat
  completed : List PendingDeposit
  finalised : List PendingWithdrawal

namespace BridgeLedger

def start : BridgeLedger := ⟨.new, fun _ _ => 0, fun _ _ => 0, [], []⟩

variable (l : BridgeLedger)

/-- The entry for a call that succeeds. -/
def note : BridgeOp → BridgeLedger
  | .lockAssets s u amount =>
    { l with paidIn := fun s' u' => l.paidIn s' u' + only s u amount.toNat s' u' }
  | .initiateDeposit _ s u _ amount _ _ _ _ =>
    { l with initiated := fun s' u' => l.initiated s' u' + only s u amount.toNat s' u' }
  | .completeDeposit id _ =>
    { l with completed := (l.bridge.pendingDeposits.get id).toList ++ l.completed }
  | .failDeposit id =>
    match l.bridge.pendingDeposits.get id with
    | none => l
    | some d =>
      { l with paidIn := fun s' u' =>
          l.paidIn s' u' + only d.sidechainId d.sender d.amount.toNat s' u' }
  | .initiateWithdrawal .. => l
  | .finalizeWithdrawal id _ _ =>
    { l with finalised := (l.bridge.pendingWithdrawals.get id).toList ++ l.finalised }

def step (op : BridgeOp) : BridgeLedger :=
  match l.bridge.call hashData op with
  | (.ok _, b) => { l.note op with bridge := b }
  | (.error _, b) => { l with bridge := b }

/-- The completed deposits to a sidechain. -/
def deposited (s : SidechainId) : Nat :=
  ((l.completed.filter fun d => d.sidechainId == s).map fun d => d.amount.toNat).sum

/-- The finalised withdrawals from a sidechain. -/
def withdrawn (s : SidechainId) : Nat :=
  ((l.finalised.filter fun w => w.sidechainId == s).map fun w => w.amount.toNat).sum

/-- The finalised withdrawals to one user. -/
def paidOut (s : SidechainId) (u : Address) : Nat :=
  (l.finalised.map fun w => only w.sidechainId w.recipient w.amount.toNat s u).sum

/-- Withdrawals from a sidechain are within the deposits to it, and each user
still has in the escrow what was paid in and not taken out for deposits. -/
structure Backed (l : BridgeLedger) : Prop where
  withdrawn_le : ∀ s, l.withdrawn s ≤ l.deposited s
  escrow_intact : ∀ s u, l.paidIn s u ≤ l.bridge.locked s u + l.initiated s u

/-- What was paid in is in the escrow, was taken out for a deposit, or was
paid out by a withdrawal. -/
def Balanced : Prop :=
  ∀ s u, l.bridge.locked s u + l.initiated s u + l.paidOut s u = l.paidIn s u

end BridgeLedger

namespace SidechainBridge

variable {b : SidechainBridge}

theorem locked_congr {b' : SidechainBridge} (h : b'.lockedAssets = b.lockedAssets) :
    b'.locked = b.locked := by
  funext s u
  simp only [locked, entry, h]

section

variable (b : SidechainBridge) (s s' : SidechainId) (u u' : Address) (amount : Amount)

theorem entry_setEntry : (b.setEntry s u amount).entry s' u'
      = if s = s' ∧ u = u' then some amount else b.entry s' u' := by
  unfold entry setEntry
  rw [Table.get_put]
  by_cases hs : s = s'
  · subst hs
    rw [if_pos rfl, Option.bind_some, Table.get_put]
    by_cases hu : u = u'
    · simp [hu]
    · cases b.lockedAssets.get s <;> simp [hu]
  · simp [hs]

theorem locked_setEntry (s' : SidechainId) (u' : Address) :
    (b.setEntry s u amount).locked s' u' + only s u (b.locked s u) s' u'
      = b.locked s' u' + only s u amount.toNat s' u' := by
  unfold locked only
  rw [entry_setEntry]
  by_cases h : s = s' ∧ u = u'
  · obtain ⟨rfl, rfl⟩ := h
    simp [Nat.add_comm]
  · simp [h]

end

theorem locked_deduct {s : SidechainId} {u : Address} {amount : Amount}
    (h : amount.toNat ≤ b.locked s u) (s' : SidechainId) (u' : Address) :
    (b.deduct s u amount).locked s' u' + only s u amount.toNat s' u' = b.locked s' u' := by
  unfold deduct
  cases hentry : b.entry s u with
  | none =>
    have hzero : amount.toNat = 0 := by
      rw [locked, hentry] at h
      exact Nat.le_zero.mp h
    simp [only, hzero]
  | some held =>
    have hheld : b.locked s u = held.toNat := by
      rw [locked, hentry]
      rfl
    have hrest : (⟨held.val - amount.val⟩ : Amount).toNat + amount.toNat = b.locked s u := by
      rw [hheld] at h ⊢
      rw [show (⟨held.val - amount.val⟩ : Amount).toNat = held.toNat - amount.toNat from
        BitVec.toNat_sub_of_le h]
      omega
    have hset := b.locked_setEntry s u ⟨held.val - amount.val⟩ s' u'
    rw [← hrest, only_add] at hset
    dsimp only
    omega

end SidechainBridge

namespace BridgeLedger

variable {hashData}

section

variable {l : BridgeLedger} {op : BridgeOp}

theorem step_of_ok (h : (l.bridge.call hashData op).1 = .ok ()) :
    l.step hashData op = { l.note op with bridge := (l.bridge.call hashData op).2 } := by
  unfold step
  rcases hcall : l.bridge.call hashData op with ⟨e | u, b⟩
  · rw [hcall] at h
    cases h
  · rfl

variable {e : SidechainError} {registry : SidechainRegistry} {s : SidechainId} {amount : Amount}
  {u sender recipient : Address} {asset : AssetType} {id l1TxHash txHash : Hash}
  {random : BitVec 128} {block now : UInt64}

theorem step_of_error (h : (l.bridge.call hashData op).1 = .error e) :
    l.step hashData op = { l with bridge := (l.bridge.call hashData op).2 } := by
  unfold step
  rcases hcall : l.bridge.call hashData op with ⟨e | u, b⟩
  · rfl
  · rw [hcall] at h
    cases h

theorem Balanced.of_escrow (h : l.Balanced) {l' : BridgeLedger}
    (hlocked : l'.bridge.lockedAssets = l.bridge.lockedAssets) (hin : l'.paidIn = l.paidIn)
    (hinitiated : l'.initiated = l.initiated) (hout : l'.finalised = l.finalised) :
    l'.Balanced := by
  intro s u
  rw [SidechainBridge.locked_congr hlocked, hin, hinitiated, paidOut, hout]
  exact h s u

theorem Balanced.of_error (h : l.Balanced) {b : SidechainBridge}
    (hcall : l.bridge.call hashData op = (.error e, b))
    (hlocked : b.lockedAssets = l.bridge.lockedAssets) : (l.step hashData op).Balanced := by
  have herror : (l.bridge.call hashData op).1 = .error e := by rw [hcall]
  rw [step_of_error herror, hcall]
  exact h.of_escrow hlocked rfl rfl rfl

theorem Balanced.of_ok (hok : (l.bridge.call hashData op).1 = .ok ())
    (hbalance : ∀ s u, (l.bridge.call hashData op).2.locked s u + (l.note op).initiated s u
      + (l.note op).paidOut s u = (l.note op).paidIn s u) : (l.step hashData op).Balanced := by
  rw [step_of_ok hok]
  exact hbalance

theorem Balanced.lockAssets (h : l.Balanced) :
    (l.step hashData (.lockAssets s u amount)).Balanced := by
  rcases l.bridge.lockAssets_cases s u amount with ⟨-, heq⟩ | ⟨sum, hsum, heq⟩
  · exact h.of_error heq rfl
  have hcall : l.bridge.call hashData (.lockAssets s u amount)
      = (.ok (), l.bridge.setEntry s u sum) := heq
  refine .of_ok (by rw [hcall]) fun s' u' => ?_
  have hset := l.bridge.locked_setEntry s u sum s' u'
  have hbalance := h s' u'
  rw [hsum, only_add] at hset
  rw [hcall]
  change (l.bridge.setEntry s u sum).locked s' u' + l.initiated s' u' + l.paidOut s' u'
    = l.paidIn s' u' + only s u amount.toNat s' u'
  omega

theorem Balanced.initiateDeposit (h : l.Balanced) :
    (l.step hashData (.initiateDeposit registry s sender recipient amount asset l1TxHash random
      now)).Balanced := by
  rcases SidechainBridge.initiateDeposit_cases hashData l.bridge registry s sender recipient amount
    asset l1TxHash random now with ⟨e, hcall⟩ | ⟨hle, hok, hlocked⟩
  · exact h.of_error hcall rfl
  refine .of_ok hok fun s' u' => ?_
  have hdeduct := SidechainBridge.locked_deduct hle s' u'
  have hbalance := h s' u'
  rw [SidechainBridge.locked_congr hlocked]
  change _ + (l.initiated s' u' + only s sender amount.toNat s' u') + l.paidOut s' u'
    = l.paidIn s' u'
  omega

theorem Balanced.completeDeposit (h : l.Balanced) :
    (l.step hashData (.completeDeposit id now)).Balanced := by
  rcases l.bridge.completeDeposit_cases id with ⟨e, hcall⟩ | ⟨_, -, hok, hlocked⟩
  · exact h.of_error hcall rfl
  refine .of_ok hok fun s' u' => ?_
  change (l.bridge.completeDeposit id now).2.locked s' u' + _ + _ = _
  rw [SidechainBridge.locked_congr hlocked]
  exact h s' u'

theorem Balanced.failDeposit (h : l.Balanced) : (l.step hashData (.failDeposit id)).Balanced := by
  rcases l.bridge.failDeposit_cases id with
    ⟨-, hcall⟩ | ⟨d, hget, ⟨-, hcall⟩ | ⟨sum, hsum, hok, hlocked⟩⟩
  · exact h.of_error hcall rfl
  · exact h.of_error hcall rfl
  · refine .of_ok hok fun s' u' => ?_
    have hset := l.bridge.locked_setEntry d.sidechainId d.sender sum s' u'
    have hbalance := h s' u'
    rw [hsum, only_add] at hset
    simp only [note, hget]
    change (l.bridge.failDeposit id).2.locked s' u' + l.initiated s' u' + l.paidOut s' u' = _
    rw [SidechainBridge.locked_congr hlocked]
    omega

theorem Balanced.initiateWithdrawal (h : l.Balanced) :
    (l.step hashData (.initiateWithdrawal registry s sender recipient amount asset txHash block
      random now)).Balanced := by
  obtain ⟨hlocked, -⟩ := SidechainBridge.initiateWithdrawal_cases hashData l.bridge registry s
    sender recipient amount asset
  rcases hcall : l.bridge.call hashData (.initiateWithdrawal registry s sender recipient amount
      asset txHash block random now) with ⟨e | u, b⟩ <;> rw [hcall] at hlocked
  · exact h.of_error hcall hlocked
  refine .of_ok (by rw [hcall]) fun s' u' => ?_
  rw [hcall, SidechainBridge.locked_congr hlocked]
  exact h s' u'

theorem Balanced.finalizeWithdrawal (h : l.Balanced) :
    (l.step hashData (.finalizeWithdrawal id block now)).Balanced := by
  rcases l.bridge.finalizeWithdrawal_cases id block with
    ⟨-, e, hcall⟩ | ⟨w, hget, -, ⟨-, hcall⟩ | ⟨held, rest, hentry, hrest, hok, hlocked⟩⟩
  · exact h.of_error hcall rfl
  · exact h.of_error hcall rfl
  · refine .of_ok hok fun s' u' => ?_
    have hset := l.bridge.locked_setEntry w.sidechainId w.recipient rest s' u'
    have hbalance := h s' u'
    have hheld : l.bridge.locked w.sidechainId w.recipient = held.toNat := by
      rw [SidechainBridge.locked, hentry]
      rfl
    have hout : (l.note (.finalizeWithdrawal id block now)).paidOut s' u'
        = only w.sidechainId w.recipient w.amount.toNat s' u' + l.paidOut s' u' := by
      simp [note, hget, paidOut]
    rw [hheld, ← hrest, only_add] at hset
    rw [hout]
    change (l.bridge.finalizeWithdrawal id block now).2.locked s' u' + l.initiated s' u' + _
      = l.paidIn s' u'
    rw [SidechainBridge.locked_congr hlocked]
    omega

theorem Balanced.step (h : l.Balanced) (op : BridgeOp) : (l.step hashData op).Balanced := by
  cases op with
  | lockAssets => exact h.lockAssets
  | initiateDeposit => exact h.initiateDeposit
  | completeDeposit => exact h.completeDeposit
  | failDeposit => exact h.failDeposit
  | initiateWithdrawal => exact h.initiateWithdrawal
  | finalizeWithdrawal => exact h.finalizeWithdrawal

theorem amount_le_paidOut {w : PendingWithdrawal} (hw : w ∈ l.finalised) :
    w.amount.toNat ≤ l.paidOut w.sidechainId w.recipient := by
  have hself : w.amount.toNat = only w.sidechainId w.recipient w.amount.toNat w.sidechainId
      w.recipient := (if_pos ⟨rfl, rfl⟩).symm
  refine Nat.le_trans (Nat.le_of_eq hself) ?_
  exact single_le_sum (fun _ _ => Nat.zero_le _) _ (mem_map_of_mem hw)

end

theorem balanced_run {ops : List BridgeOp} : (run (step hashData) start ops).Balanced := by
  refine invariant_of_forall (Q := fun _ => True) (I := Balanced)
    (fun l op hl _ => hl.step op) (fun s u => ?_) fun _ _ => trivial
  rfl

/-- A withdrawal takes what its recipient has locked and not deposited, so
withdrawals are backed in a run only if none of them pays anything. -/
theorem backed_iff (ops : List BridgeOp) : (run (step hashData) start ops).Backed ↔
      ∀ w ∈ (run (step hashData) start ops).finalised, w.amount.toNat = 0 := by
  have hbalanced : (run (step hashData) start ops).Balanced := balanced_run
  constructor
  · intro h w hw
    have hle := amount_le_paidOut hw
    have hescrow := h.escrow_intact w.sidechainId w.recipient
    have hbalance := hbalanced w.sidechainId w.recipient
    omega
  · intro hzero
    constructor
    · intro s
      refine Nat.le_trans (Nat.le_of_eq (sum_eq_zero fun n hn => ?_)) (Nat.zero_le _)
      obtain ⟨w, hw, rfl⟩ := mem_map.mp hn
      exact hzero w (mem_filter.mp hw).1
    · intro s u
      have hout : (run (step hashData) start ops).paidOut s u = 0 := by
        refine sum_eq_zero fun n hn => ?_
        obtain ⟨w, hw, rfl⟩ := mem_map.mp hn
        rw [hzero w hw, only, ite_self]
      have hbalance := hbalanced s u
      omega

end BridgeLedger

/-- A user locks 100 and deposits nothing. A withdrawal pays them out. -/
def unbackedOps : List BridgeOp :=
  [.lockAssets 7 2 ⟨100⟩,
    .initiateWithdrawal sampleRegistry 7 1 2 ⟨100⟩ .native 0 0 0 0,
    .finalizeWithdrawal 0 10 0]

theorem unbackedOps_finalised : let l := run (BridgeLedger.step fun _ => 0) .start unbackedOps
    l.withdrawn 7 = 100 ∧ l.deposited 7 = 0 ∧ l.paidIn 7 2 = 100 ∧ l.initiated 7 2 = 0 ∧
      l.bridge.locked 7 2 = 0 := by
  decide

end Quantos.Sidechains

import Quantos.Fallible
import Quantos.Runs
import Quantos.Types

/-!
# The QN4 fungible token

`standards/qn4.rs`. Every call takes the token by mutable reference and may
fail after it has written to it, so a call is a function to a result
*and* the token it leaves behind, also when the result is an error.

The ledger statement is that the recorded supply is the sum of the
balances and respects the cap. One step breaks it: a transfer from an
address to itself reads both balances before it writes either, so the
second write wins and the amount appears out of nothing.

The parameters `from` and `to`, which Lean reserves, are `src` and `dst`.
-/

namespace Quantos

open Fallible

/-! ## The token -/

def ZERO_ADDRESS : Address := 0

/-- The errors of `standards/mod.rs` that the three token standards return. -/
inductive TokenError where
  | insufficientBalance
  | insufficientAllowance
  | unauthorized
  | invalidAddress
  | tokenNotFound
  | overflow
  | underflow
  | invalidAmount
  | notOwner
  | notApproved
  | arrayLengthMismatch
  | approvalRaceCondition
  | batchSizeTooLarge
  | maxSupplyExceeded
  | reentrancyDetected
  | maxTokensPerOwnerReached
  | duplicateTokenId
deriving DecidableEq, Repr

/-- The events the three token standards return. -/
inductive TokenEvent where
  | transfer (src dst : Address) (value : UInt64)
  | approval (owner spender : Address) (value : UInt64)
  | transferNFT (src dst : Address) (tokenId : UInt64)
  | approvalNFT (owner approved : Address) (tokenId : UInt64)
  | approvalForAll (owner operator : Address) (approved : Bool)
  | transferSingle (operator src dst : Address) (tokenId value : UInt64)
  | transferBatch (operator src dst : Address) (tokenIds values : List UInt64)
  | ownershipTransferStarted (previousOwner newOwner : Address)
  | ownershipTransferred (previousOwner newOwner : Address)

/-- `check_owner` of the three standards. -/
def checkCaller (owner caller : Address) : Except TokenError Unit :=
  if caller ≠ owner then .error .unauthorized else .ok ()

/-- `check_not_zero_address` of the three standards. -/
def checkNotZero (address : Address) : Except TokenError Unit :=
  if address = ZERO_ADDRESS then .error .invalidAddress else .ok ()

theorem eq_of_checkCaller {owner caller : Address} (h : checkCaller owner caller = .ok ()) :
    caller = owner :=
  not_not.mp (not_of_check h)

theorem ne_zero_of_checkNotZero {address : Address} (h : checkNotZero address = .ok ()) :
    address ≠ ZERO_ADDRESS :=
  not_of_check h

structure QN4Token where
  name : String
  symbol : String
  decimals : UInt8
  totalSupply : UInt64
  owner : Address
  pendingOwner : Option Address
  balances : Table (Prod.fst : Address × UInt64 → Address)
  allowances : Table (Prod.fst : (Address × Address) × UInt64 → Address × Address)
  mintable : Bool
  burnable : Bool
  pausable : Bool
  paused : Bool
  maxSupply : Option UInt64

namespace QN4Token

variable (name symbol : String) (decimals : UInt8) (initialSupply : UInt64) (owner : Address)

def new : QN4Token where
  name := name
  symbol := symbol
  decimals := decimals
  totalSupply := initialSupply
  owner := owner
  pendingOwner := none
  balances := Table.empty.put (owner, initialSupply)
  allowances := Table.empty
  mintable := false
  burnable := false
  pausable := false
  paused := false
  maxSupply := none

/-- `new` is this with all three features off. -/
def newFull (mintable burnable pausable : Bool) : QN4Token :=
  { new name symbol decimals initialSupply owner with mintable, burnable, pausable }

/-- A call's answer and the token it leaves. -/
abbrev Call (α : Type) := Outcome TokenError QN4Token α

variable (t : QN4Token) (caller : Address) (amount : UInt64)

def checkNotPaused : Except TokenError Unit :=
  if t.paused then .error .unauthorized else .ok ()

def checkOwner : Except TokenError Unit := checkCaller t.owner caller

variable (owner spender account : Address) (value : UInt64) (address : Address)

def checkNotZeroAddress : Except TokenError Unit := checkNotZero address

def balanceOf : UInt64 :=
  ((t.balances.get account).map Prod.snd).getD 0

def allowance : UInt64 :=
  ((t.allowances.get (owner, spender)).map Prod.snd).getD 0

def setBalance : QN4Token :=
  { t with balances := t.balances.put (account, value) }

def setAllowance : QN4Token :=
  { t with allowances := t.allowances.put ((owner, spender), value) }

/-- Drops a zero balance entry. -/
def cleanupZeroBalance : QN4Token :=
  match t.balances.get address with
  | some row => if row.2 = 0 then { t with balances := t.balances.erase address } else t
  | none => t

/-! ### Administration -/

def transferOwnership (newOwner : Address) : Call TokenEvent :=
  attempt t (t.checkOwner caller) fun _ =>
  attempt t (checkNotZeroAddress newOwner) fun _ =>
  (.ok (.ownershipTransferStarted caller newOwner), { t with pendingOwner := some newOwner })

def acceptOwnership : Call TokenEvent :=
  if t.pendingOwner ≠ some caller then (.error .unauthorized, t)
  else
    (.ok (.ownershipTransferred t.owner caller), { t with owner := caller, pendingOwner := none })

/-- Can only be set once, and not below what is already issued. -/
def setMaxSupply (maxSupply : UInt64) : Call Unit :=
  attempt t (t.checkOwner caller) fun _ =>
  if t.maxSupply.isSome then (.error .unauthorized, t)
  else if maxSupply < t.totalSupply then (.error .invalidAmount, t)
  else (.ok (), { t with maxSupply := some maxSupply })

/-- `pause` and `unpause`. -/
def setPaused (paused : Bool) : Call Unit :=
  attempt t (t.checkOwner caller) fun _ =>
  if !t.pausable then (.error .unauthorized, t) else (.ok (), { t with paused })

def pause : Call Unit := t.setPaused caller true

def unpause : Call Unit := t.setPaused caller false

/-! ### Allowances -/

variable (spender dst : Address) (amount : UInt64)

/-- `increase_allowance` and `decrease_allowance`: the new value is computed
from the current one and may be refused. -/
def adjustAllowance (new : UInt64 → Except TokenError UInt64) : Call TokenEvent :=
  attempt t t.checkNotPaused fun _ =>
  attempt t (checkNotZeroAddress spender) fun _ =>
  attempt t (new (t.allowance caller spender)) fun newAllowance =>
  (.ok (.approval caller spender newAllowance), t.setAllowance caller spender newAllowance)

def increaseAllowance (addedValue : UInt64) : Call TokenEvent :=
  t.adjustAllowance caller spender fun current => okOr (checkedAdd64 current addedValue) .overflow

def decreaseAllowance (subtractedValue : UInt64) : Call TokenEvent :=
  t.adjustAllowance caller spender fun current =>
    okOr (checkedSub64 current subtractedValue) .underflow

/-- One of the current and the new allowance has to be zero. -/
def approve : Call TokenEvent :=
  attempt t t.checkNotPaused fun _ =>
  attempt t (checkNotZeroAddress spender) fun _ =>
  if t.allowance caller spender ≠ 0 ∧ amount ≠ 0 then (.error .approvalRaceCondition, t)
  else (.ok (.approval caller spender amount), t.setAllowance caller spender amount)

/-! ### Moving tokens -/

/-- The tail `transfer` and `transfer_from` share: both balances are read
before either is written. -/
def moveBalance (src dst : Address) (amount : UInt64) : Call TokenEvent :=
  let fromBalance := t.balanceOf src
  let toBalance := t.balanceOf dst
  attempt t (okOr (checkedSub64 fromBalance amount) .underflow) fun newFrom =>
  attempt t (okOr (checkedAdd64 toBalance amount) .overflow) fun newTo =>
  (.ok (.transfer src dst amount),
    ((t.setBalance src newFrom).setBalance dst newTo).cleanupZeroBalance src)

def transfer : Call TokenEvent :=
  attempt t t.checkNotPaused fun _ =>
  attempt t (checkNotZeroAddress dst) fun _ =>
  if amount = 0 then (.error .invalidAmount, t)
  else if t.balanceOf caller < amount then (.error .insufficientBalance, t)
  else t.moveBalance caller dst amount

/-- The allowance is written before the balances are known to fit, and an
allowance of `u64::MAX` is never used up. -/
def transferFrom (src dst : Address) (amount : UInt64) : Call TokenEvent :=
  attempt t t.checkNotPaused fun _ =>
  attempt t (checkNotZeroAddress dst) fun _ =>
  if amount = 0 then (.error .invalidAmount, t)
  else
    let currentAllowance := t.allowance src caller
    if currentAllowance < amount then (.error .insufficientAllowance, t)
    else if t.balanceOf src < amount then (.error .insufficientBalance, t)
    else if currentAllowance ≠ U64_MAX then
      attempt t (okOr (checkedSub64 currentAllowance amount) .underflow) fun newAllowance =>
      (t.setAllowance src caller newAllowance).moveBalance src dst amount
    else t.moveBalance src dst amount

/-! ### Issuing and destroying tokens -/

/-- An overflowing sum counts as `u64::MAX` in the comparison. -/
def exceedsMaxSupply : Bool :=
  match t.maxSupply with
  | some maxSupply => (checkedAdd64 t.totalSupply amount).getD U64_MAX > maxSupply
  | none => false

/-- The supply is raised before the recipient's balance is known to fit. -/
def mint : Call TokenEvent :=
  attempt t t.checkNotPaused fun _ =>
  attempt t (t.checkOwner caller) fun _ =>
  attempt t (checkNotZeroAddress dst) fun _ =>
  if !t.mintable then (.error .unauthorized, t)
  else if t.exceedsMaxSupply amount then (.error .maxSupplyExceeded, t)
  else
    attempt t (okOr (checkedAdd64 t.totalSupply amount) .overflow) fun totalSupply =>
    let t := { t with totalSupply }
    attempt t (okOr (checkedAdd64 (t.balanceOf dst) amount) .overflow) fun newBalance =>
    (.ok (.transfer ZERO_ADDRESS dst amount), t.setBalance dst newBalance)

def burn : Call TokenEvent :=
  attempt t t.checkNotPaused fun _ =>
  if !t.burnable then (.error .unauthorized, t)
  else if t.balanceOf caller < amount then (.error .insufficientBalance, t)
  else
    attempt t (okOr (checkedSub64 (t.balanceOf caller) amount) .underflow) fun newBalance =>
    attempt t (okOr (checkedSub64 t.totalSupply amount) .underflow) fun totalSupply =>
    (.ok (.transfer caller ZERO_ADDRESS amount),
      ({ t with totalSupply }.setBalance caller newBalance).cleanupZeroBalance caller)

def burnFrom (src : Address) (amount : UInt64) : Call TokenEvent :=
  attempt t t.checkNotPaused fun _ =>
  if !t.burnable then (.error .unauthorized, t)
  else if t.allowance src caller < amount then (.error .insufficientAllowance, t)
  else if t.balanceOf src < amount then (.error .insufficientBalance, t)
  else
    attempt t (okOr (checkedSub64 (t.allowance src caller) amount) .underflow)
    fun newAllowance =>
    attempt t (okOr (checkedSub64 (t.balanceOf src) amount) .underflow) fun newBalance =>
    attempt t (okOr (checkedSub64 t.totalSupply amount) .underflow) fun totalSupply =>
    (.ok (.transfer src ZERO_ADDRESS amount),
      (({ t with totalSupply }.setAllowance src caller newAllowance).setBalance src
        newBalance).cleanupZeroBalance src)

end QN4Token

/-! ## The ledger -/

namespace QN4Token

/-- The sum of all balances. -/
def held (t : QN4Token) : Nat := t.balances.sum fun row => row.2.toNat

/-- The supply on record is what the accounts hold and respects the cap. -/
structure Solvent (t : QN4Token) : Prop where
  supply : t.totalSupply.toNat = t.held
  capped : ∀ maxSupply, t.maxSupply = some maxSupply → t.totalSupply ≤ maxSupply

variable (t : QN4Token) (account : Address)

theorem balanceOf_toNat :
    (t.balanceOf account).toNat = (t.balances.get account).elim 0 fun row => row.2.toNat := by
  unfold balanceOf
  cases t.balances.get account <;> rfl

theorem held_setBalance (value : UInt64) :
    (t.setBalance account value).held + (t.balanceOf account).toNat = t.held + value.toNat := by
  rw [balanceOf_toNat]
  exact t.balances.sum_put ..

theorem balanceOf_le_held : (t.balanceOf account).toNat ≤ t.held := by
  rw [balanceOf_toNat]
  exact Table.le_sum ..

theorem balanceOf_setBalance_of_ne {account other : Address} (value : UInt64)
    (h : account ≠ other) : (t.setBalance account value).balanceOf other = t.balanceOf other := by
  unfold balanceOf setBalance
  rw [Table.get_put_of_ne _ h]

theorem held_cleanupZeroBalance (address : Address) :
    (t.cleanupZeroBalance address).held = t.held := by
  unfold cleanupZeroBalance
  cases hrow : t.balances.get address with
  | none => rfl
  | some row =>
    dsimp only
    split
    · rename_i hzero
      have hsum := t.balances.sum_erase (fun row => row.2.toNat) address
      rw [hrow, Option.elim_some, hzero] at hsum
      exact hsum
    · rfl

theorem cleanupZeroBalance_frame {address : Address} :
    (t.cleanupZeroBalance address).totalSupply = t.totalSupply
      ∧ (t.cleanupZeroBalance address).maxSupply = t.maxSupply := by
  unfold cleanupZeroBalance
  split
  · split <;> exact ⟨rfl, rfl⟩
  · exact ⟨rfl, rfl⟩

variable {t : QN4Token}

theorem Solvent.cleanup (h : t.Solvent) (address : Address) :
    (t.cleanupZeroBalance address).Solvent := by
  obtain ⟨hsupply, hmax⟩ := t.cleanupZeroBalance_frame
  constructor
  · rw [hsupply, held_cleanupZeroBalance]
    exact h.supply
  · rw [hsupply, hmax]
    exact h.capped

variable {caller dst src spender newOwner : Address} {amount value : UInt64}

theorem Solvent.setAllowance (h : t.Solvent) : (t.setAllowance src spender value).Solvent :=
  ⟨h.supply, h.capped⟩

theorem Solvent.moveBalance (h : t.Solvent) (hne : src ≠ dst) :
    (t.moveBalance src dst amount).2.Solvent := by
  refine attempt_keeps h fun newFrom hfrom => attempt_keeps h fun newTo hto => ?_
  have hsub := checkedSub64_eq_some (eq_some_of_okOr hfrom)
  have hadd := checkedAdd64_eq_some (eq_some_of_okOr hto)
  have hfirst := t.held_setBalance src newFrom
  have hsecond := (t.setBalance src newFrom).held_setBalance dst newTo
  rw [balanceOf_setBalance_of_ne t newFrom hne] at hsecond
  have hsupply := h.supply
  have hmoved : ((t.setBalance src newFrom).setBalance dst newTo).Solvent := by
    refine ⟨?_, h.capped⟩
    show t.totalSupply.toNat = _
    omega
  exact hmoved.cleanup src

theorem Solvent.transfer (h : t.Solvent) (hne : caller ≠ dst) :
    (t.transfer caller dst amount).2.Solvent := by
  refine attempt_keeps h fun _ _ => attempt_keeps h fun _ _ => ?_
  exact guard_keeps h fun _ => guard_keeps h fun _ => h.moveBalance hne

theorem Solvent.transferFrom (h : t.Solvent) (hne : src ≠ dst) :
    (t.transferFrom caller src dst amount).2.Solvent := by
  refine attempt_keeps h fun _ _ => attempt_keeps h fun _ _ => guard_keeps h fun _ => ?_
  refine guard_keeps h fun _ => guard_keeps h fun _ => ?_
  split
  · exact attempt_keeps h fun _ _ => h.setAllowance.moveBalance hne
  · exact h.moveBalance hne

/-- A balance is part of the supply, so raising the supply without an
overflow leaves room for the balance: the failing branch after the write is
never taken. -/
theorem Solvent.mint (h : t.Solvent) : (t.mint caller dst amount).2.Solvent := by
  refine attempt_keeps h fun _ _ => attempt_keeps h fun _ _ => attempt_keeps h fun _ _ => ?_
  refine guard_keeps h fun _ => guard_keeps h fun hcap => ?_
  refine attempt_keeps h fun totalSupply hsupply => ?_
  have htotal := eq_some_of_okOr hsupply
  have hraised := checkedAdd64_eq_some htotal
  have hroom := t.balanceOf_le_held dst
  have hheld := h.supply
  have hcapped : ∀ maxSupply, t.maxSupply = some maxSupply → totalSupply ≤ maxSupply := by
    intro maxSupply hmax
    simpa [exceedsMaxSupply, hmax, htotal] using hcap
  dsimp only
  cases hbalance : checkedAdd64 (QN4Token.balanceOf { t with totalSupply } dst) amount with
  | none =>
    have hover : 2 ^ 64 ≤ (t.balanceOf dst).toNat + amount.toNat :=
      checkedAdd64_eq_none hbalance
    have hfits := totalSupply.toNat_lt
    omega
  | some newBalance =>
    have hnew : newBalance.toNat = (t.balanceOf dst).toNat + amount.toNat :=
      checkedAdd64_eq_some hbalance
    have hput := t.held_setBalance dst newBalance
    refine ⟨?_, hcapped⟩
    show totalSupply.toNat = (t.setBalance dst newBalance).held
    omega

theorem Solvent.destroy (h : t.Solvent) {account : Address} {newBalance totalSupply : UInt64}
    (hbalance : newBalance.toNat + amount.toNat = (t.balanceOf account).toNat)
    (hsupply : totalSupply.toNat + amount.toNat = t.totalSupply.toNat) :
    Solvent
    (({ t with totalSupply }.setBalance account newBalance).cleanupZeroBalance account) := by
  refine Solvent.cleanup ?_ account
  have hput := t.held_setBalance account newBalance
  have hheld := h.supply
  constructor
  · show totalSupply.toNat = (t.setBalance account newBalance).held
    omega
  · intro maxSupply hmax
    have hle := UInt64.le_iff_toNat_le.mp (h.capped maxSupply hmax)
    refine UInt64.le_iff_toNat_le.mpr ?_
    show totalSupply.toNat ≤ _
    omega

theorem Solvent.burn (h : t.Solvent) : (t.burn caller amount).2.Solvent := by
  refine attempt_keeps h fun _ _ => guard_keeps h fun _ => guard_keeps h fun _ => ?_
  refine attempt_keeps h fun newBalance hbalance =>
    attempt_keeps h fun totalSupply hsupply => ?_
  exact h.destroy (checkedSub64_eq_some (eq_some_of_okOr hbalance))
    (checkedSub64_eq_some (eq_some_of_okOr hsupply))

theorem Solvent.burnFrom (h : t.Solvent) : (t.burnFrom caller src amount).2.Solvent := by
  refine attempt_keeps h fun _ _ => guard_keeps h fun _ => guard_keeps h fun _ => ?_
  refine guard_keeps h fun _ => attempt_keeps h fun _ _ =>
    attempt_keeps h fun newBalance hbalance =>
    attempt_keeps h fun totalSupply hsupply => ?_
  exact h.setAllowance.destroy (checkedSub64_eq_some (eq_some_of_okOr hbalance))
    (checkedSub64_eq_some (eq_some_of_okOr hsupply))

theorem Solvent.adjustAllowance (h : t.Solvent) {new : UInt64 → Except TokenError UInt64} :
    (t.adjustAllowance caller spender new).2.Solvent :=
  attempt_keeps h fun _ _ => attempt_keeps h fun _ _ => attempt_keeps h fun _ _ => h.setAllowance

theorem Solvent.approve (h : t.Solvent) : (t.approve caller spender amount).2.Solvent := by
  refine attempt_keeps h fun _ _ => attempt_keeps h fun _ _ => ?_
  exact guard_keeps h fun _ => h.setAllowance

theorem Solvent.setMaxSupply (h : t.Solvent) : (t.setMaxSupply caller value).2.Solvent := by
  refine attempt_keeps h fun _ _ => guard_keeps h fun _ => guard_keeps h fun hfits => ?_
  refine ⟨h.supply, fun cap hcap => ?_⟩
  obtain rfl := Option.some.inj hcap
  exact UInt64.not_lt.mp hfits

theorem Solvent.setPaused (h : t.Solvent) {paused : Bool} :
    (t.setPaused caller paused).2.Solvent :=
  attempt_keeps h fun _ _ => guard_keeps h fun _ => ⟨h.supply, h.capped⟩

theorem Solvent.transferOwnership (h : t.Solvent) :
    (t.transferOwnership caller newOwner).2.Solvent :=
  attempt_keeps h fun _ _ => attempt_keeps h fun _ _ => ⟨h.supply, h.capped⟩

theorem Solvent.acceptOwnership (h : t.Solvent) : (t.acceptOwnership caller).2.Solvent :=
  guard_keeps h fun _ => ⟨h.supply, h.capped⟩

theorem solvent_newFull {name symbol : String} {decimals : UInt8} {initialSupply : UInt64}
    {owner : Address} {mintable burnable pausable : Bool} :
    (newFull name symbol decimals initialSupply owner mintable burnable pausable).Solvent := by
  refine ⟨?_, fun _ h => nomatch h⟩
  exact (Nat.add_zero ..).symm

end QN4Token

/-! ## Runs -/

/-- Every call that changes a token, with the caller first. -/
inductive TokenCall where
  | transfer (caller dst : Address) (amount : UInt64)
  | transferFrom (caller src dst : Address) (amount : UInt64)
  | approve (caller spender : Address) (amount : UInt64)
  | increaseAllowance (caller spender : Address) (addedValue : UInt64)
  | decreaseAllowance (caller spender : Address) (subtractedValue : UInt64)
  | mint (caller dst : Address) (amount : UInt64)
  | burn (caller : Address) (amount : UInt64)
  | burnFrom (caller src : Address) (amount : UInt64)
  | setMaxSupply (caller : Address) (maxSupply : UInt64)
  | pause (caller : Address)
  | unpause (caller : Address)
  | transferOwnership (caller newOwner : Address)
  | acceptOwnership (caller : Address)

namespace TokenCall

/-- The token a call leaves, whether it succeeds or fails. -/
def step (t : QN4Token) : TokenCall → QN4Token
  | transfer caller dst amount => (t.transfer caller dst amount).2
  | transferFrom caller src dst amount => (t.transferFrom caller src dst amount).2
  | approve caller spender amount => (t.approve caller spender amount).2
  | increaseAllowance caller spender added => (t.increaseAllowance caller spender added).2
  | decreaseAllowance caller spender sub => (t.decreaseAllowance caller spender sub).2
  | mint caller dst amount => (t.mint caller dst amount).2
  | burn caller amount => (t.burn caller amount).2
  | burnFrom caller src amount => (t.burnFrom caller src amount).2
  | setMaxSupply caller maxSupply => (t.setMaxSupply caller maxSupply).2
  | pause caller => (t.pause caller).2
  | unpause caller => (t.unpause caller).2
  | transferOwnership caller newOwner => (t.transferOwnership caller newOwner).2
  | acceptOwnership caller => (t.acceptOwnership caller).2

/-- Not a transfer from an address to itself. -/
def BetweenTwo : TokenCall → Prop
  | transfer caller dst _ => caller ≠ dst
  | transferFrom _ src dst _ => src ≠ dst
  | _ => True

instance : DecidablePred BetweenTwo
  | transfer .. => inferInstanceAs (Decidable (_ ≠ _))
  | transferFrom .. => inferInstanceAs (Decidable (_ ≠ _))
  | approve .. | increaseAllowance .. | decreaseAllowance .. | mint .. | burn .. | burnFrom ..
  | setMaxSupply .. | pause .. | unpause .. | transferOwnership .. | acceptOwnership .. =>
    inferInstanceAs (Decidable True)

theorem step_solvent {t : QN4Token} (h : t.Solvent) {c : TokenCall} (hc : c.BetweenTwo) :
    (c.step t).Solvent := by
  cases c with
  | transfer => exact h.transfer hc
  | transferFrom => exact h.transferFrom hc
  | approve => exact h.approve
  | increaseAllowance => exact h.adjustAllowance
  | decreaseAllowance => exact h.adjustAllowance
  | mint => exact h.mint
  | burn => exact h.burn
  | burnFrom => exact h.burnFrom
  | setMaxSupply => exact h.setMaxSupply
  | pause => exact h.setPaused
  | unpause => exact h.setPaused
  | transferOwnership => exact h.transferOwnership
  | acceptOwnership => exact h.acceptOwnership

end TokenCall

/-- From a new token, calls by any callers with any arguments keep the
supply equal to the sum of the balances and within the cap, failing calls
included, as long as none of them is a transfer of an address to itself. -/
theorem token_solvent (name symbol : String) (decimals : UInt8) (initialSupply : UInt64)
    (owner : Address) (mintable burnable pausable : Bool) {calls : List TokenCall}
    (hcalls : ∀ c ∈ calls, c.BetweenTwo) :
    (Runs.run TokenCall.step
      (.newFull name symbol decimals initialSupply owner mintable burnable pausable)
      calls).Solvent := by
  have hstep : ∀ (t : QN4Token) (c : TokenCall), t.Solvent → c.BetweenTwo → (c.step t).Solvent :=
    fun _ _ h hc => TokenCall.step_solvent h hc
  exact Runs.invariant_of_forall hstep
    QN4Token.solvent_newFull
    hcalls

/-- A token with supply 100, all features on. -/
def sampleToken : QN4Token := .newFull "Sample" "SMP" 18 100 1 true true true

/-- Transfers to oneself excluded, the books balance through payments,
an approved payment, minting, burning and a refused call. -/
theorem token_solvent_payments : (Runs.run TokenCall.step sampleToken
      [.setMaxSupply 1 200, .transfer 1 2 30, .approve 2 3 20, .transferFrom 3 2 4 5, .mint 1 4 100,
        .burn 2 25, .transfer 2 3 1]).Solvent :=
  token_solvent "Sample" "SMP" 18 100 1 true true true (by decide)

/-- Paying 50 to oneself out of 100 leaves 150 under a supply of 100. -/
theorem self_transfer_inflates : (Runs.run TokenCall.step sampleToken [.transfer 1 1 50]).held = 150
      ∧ (Runs.run TokenCall.step sampleToken [.transfer 1 1 50]).totalSupply = 100 := by
  decide

end Quantos

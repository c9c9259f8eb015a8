import Quantos.Qn4

/-!
# The QN12 multi-token

`standards/qn12.rs`. One contract keeps balances of many token types,
`(token_id, account) -> amount`, and the supply of each type beside them.

The ledger statement is per id: the recorded supply is the sum of the
balances of that id. Four steps break it. A transfer to oneself, single or
in a batch, lets the second write win, as in QN4. A mint writes the balance
before it knows that the supply fits. And `create_token` writes balance and
supply of the next id as if nobody could hold any of it, although `mint`
accepts every id. `Keeps` asks of a call that it does none of these; then,
failing calls and half-done batches included, every supply stays right.
-/

namespace Quantos

open Fallible Runs List Table

structure QN12Token where
  name : String
  owner : Address
  pendingOwner : Option Address
  balances : Table (Prod.fst : (UInt64 × Address) × UInt64 → UInt64 × Address)
  operatorApprovals : Table (Prod.fst : (Address × Address) × Bool → Address × Address)
  tokenUris : Table (Prod.fst : UInt64 × String → UInt64)
  tokenSupplies : Table (Prod.fst : UInt64 × UInt64 → UInt64)
  baseUri : String
  nextTokenId : UInt64

namespace QN12Token

def MAX_BATCH_SIZE : Nat := 1000

def new (name : String) (owner : Address) (baseUri : String) : QN12Token where
  name := name
  owner := owner
  pendingOwner := none
  balances := Table.empty
  operatorApprovals := Table.empty
  tokenUris := Table.empty
  tokenSupplies := Table.empty
  baseUri := baseUri
  nextTokenId := 1

/-- A call's answer and the contract it leaves. -/
abbrev Call (α : Type) := Outcome TokenError QN12Token α

/-! ### Reading -/

variable (t : QN12Token) (caller : Address) (tokenId : UInt64) (src : Address)

def checkOwner : Except TokenError Unit := checkCaller t.owner caller

def checkNotZeroAddress (address : Address) : Except TokenError Unit := checkNotZero address

variable (account : Address)

def balanceOf (tokenId : UInt64) : UInt64 :=
  ((t.balances.get (tokenId, account)).map Prod.snd).getD 0

def totalSupply : UInt64 :=
  ((t.tokenSupplies.get tokenId).map Prod.snd).getD 0

def isApprovedForAll (operator : Address) : Bool :=
  ((t.operatorApprovals.get (account, operator)).map Prod.snd).getD false

def isApprovedOrOwner : Bool :=
  caller == src || t.isApprovedForAll src caller

/-! ### Writing -/

def setBalance (tokenId value : UInt64) : QN12Token :=
  { t with balances := t.balances.put ((tokenId, account), value) }

def setSupply (value : UInt64) : QN12Token :=
  { t with tokenSupplies := t.tokenSupplies.put (tokenId, value) }

def transferOwnership (newOwner : Address) : Call Unit :=
  attempt t (t.checkOwner caller) fun _ =>
  attempt t (checkNotZeroAddress newOwner) fun _ =>
  (.ok (), { t with pendingOwner := some newOwner })

def acceptOwnership : Call Unit :=
  if t.pendingOwner ≠ some caller then (.error .unauthorized, t)
  else (.ok (), { t with owner := caller, pendingOwner := none })

def setApprovalForAll (operator : Address) (approved : Bool) : Call TokenEvent :=
  if caller = operator then (.error .invalidAddress, t)
  else
    (.ok (.approvalForAll caller operator approved),
      { t with operatorApprovals := t.operatorApprovals.put ((caller, operator), approved) })

/-! ### Transfers -/

variable (dst : Address) (tokenId amount : UInt64)

/-- One transfer, behind the checks: both balances are read before either
is written. -/
def moveBalance : Call Unit :=
  let fromBalance := t.balanceOf src tokenId
  let toBalance := t.balanceOf dst tokenId
  attempt t (okOr (checkedSub64 fromBalance amount) .underflow) fun newFrom =>
  attempt t (okOr (checkedAdd64 toBalance amount) .overflow) fun newTo =>
  (.ok (), (t.setBalance src tokenId newFrom).setBalance dst tokenId newTo)

def safeTransferFrom : Call TokenEvent :=
  attempt t (checkNotZeroAddress dst) fun _ =>
  if !t.isApprovedOrOwner caller src then (.error .notApproved, t)
  else if t.balanceOf src tokenId < amount then (.error .insufficientBalance, t)
  else
    andThen (t.moveBalance src dst tokenId amount) fun _ t =>
      (.ok (.transferSingle caller src dst tokenId amount), t)

/-- The balances cover every entry of a batch, each taken for itself. -/
def covers (items : List (UInt64 × UInt64)) : Bool :=
  items.all fun item => !(t.balanceOf src item.1 < item.2)

variable (tokenIds amounts : List UInt64)

def safeBatchTransferFrom : Call TokenEvent :=
  attempt t (checkNotZeroAddress dst) fun _ =>
  if tokenIds.length > MAX_BATCH_SIZE then (.error .batchSizeTooLarge, t)
  else if tokenIds.length ≠ amounts.length then (.error .arrayLengthMismatch, t)
  else if !t.isApprovedOrOwner caller src then (.error .notApproved, t)
  else if !t.covers src (tokenIds.zip amounts) then (.error .insufficientBalance, t)
  else
    andThen (mapEach (fun t item => t.moveBalance src dst item.1 item.2) t
      (tokenIds.zip amounts)) fun _ t =>
      (.ok (.transferBatch caller src dst tokenIds amounts), t)

/-! ### Minting -/

/-- The balance is written before the supply is known to fit. -/
def issue : Call Unit :=
  attempt t (okOr (checkedAdd64 (t.balanceOf dst tokenId) amount) .overflow) fun newBalance =>
  let t := t.setBalance dst tokenId newBalance
  attempt t (okOr (checkedAdd64 (t.totalSupply tokenId) amount) .overflow) fun newSupply =>
  (.ok (), t.setSupply tokenId newSupply)

def mint (uri : Option String) : Call TokenEvent :=
  attempt t (t.checkOwner caller) fun _ =>
  attempt t (checkNotZeroAddress dst) fun _ =>
  andThen (t.issue dst tokenId amount) fun _ t =>
  let t := match uri with
    | some uri => { t with tokenUris := t.tokenUris.put (tokenId, uri) }
    | none => t
  (.ok (.transferSingle caller ZERO_ADDRESS dst tokenId amount), t)

def mintBatch : Call TokenEvent :=
  attempt t (t.checkOwner caller) fun _ =>
  attempt t (checkNotZeroAddress dst) fun _ =>
  if tokenIds.length ≠ amounts.length then (.error .arrayLengthMismatch, t)
  else if tokenIds.length > MAX_BATCH_SIZE then (.error .batchSizeTooLarge, t)
  else if ¬ tokenIds.Nodup then (.error .duplicateTokenId, t)
  else
    andThen (mapEach (fun t item => t.issue dst item.1 item.2) t (tokenIds.zip amounts))
      fun _ t => (.ok (.transferBatch caller ZERO_ADDRESS dst tokenIds amounts), t)

/-- Writes the next id over whatever is stored under it. -/
def createToken (initialSupply : UInt64) (uri : String) : Call UInt64 :=
  attempt t (t.checkOwner caller) fun _ =>
  let tokenId := t.nextTokenId
  attempt t (okOr (checkedAdd64 t.nextTokenId 1) .overflow) fun nextTokenId =>
  let t := { t with nextTokenId, tokenUris := t.tokenUris.put (tokenId, uri) }
  if initialSupply > 0 then
    (.ok tokenId, (t.setBalance caller tokenId initialSupply).setSupply tokenId initialSupply)
  else (.ok tokenId, t)

/-! ### Burning -/

def burn : Call TokenEvent :=
  if !t.isApprovedOrOwner caller src then (.error .notApproved, t)
  else if t.balanceOf src tokenId < amount then (.error .insufficientBalance, t)
  else
    attempt t (okOr (checkedSub64 (t.balanceOf src tokenId) amount) .underflow) fun newBalance =>
    attempt t (okOr (checkedSub64 (t.totalSupply tokenId) amount) .underflow) fun newSupply =>
    (.ok (.transferSingle caller src ZERO_ADDRESS tokenId amount),
      (t.setBalance src tokenId newBalance).setSupply tokenId newSupply)

/-- One entry of `burn_batch`. Unlike in `burn`, the balance is written
before the supply is read. -/
def destroy : Call Unit :=
  attempt t (okOr (checkedSub64 (t.balanceOf src tokenId) amount) .underflow) fun newBalance =>
  let t := t.setBalance src tokenId newBalance
  attempt t (okOr (checkedSub64 (t.totalSupply tokenId) amount) .underflow) fun newSupply =>
  (.ok (), t.setSupply tokenId newSupply)

def burnBatch : Call TokenEvent :=
  if tokenIds.length > MAX_BATCH_SIZE then (.error .batchSizeTooLarge, t)
  else if tokenIds.length ≠ amounts.length then (.error .arrayLengthMismatch, t)
  else if !t.isApprovedOrOwner caller src then (.error .notApproved, t)
  else if !t.covers src (tokenIds.zip amounts) then (.error .insufficientBalance, t)
  else
    andThen (mapEach (fun t item => t.destroy src item.1 item.2) t (tokenIds.zip amounts))
      fun _ t => (.ok (.transferBatch caller src ZERO_ADDRESS tokenIds amounts), t)

/-! ## The ledger -/

/-- What the accounts hold of an id; one without an entry holds nothing. -/
def held : Nat :=
  t.balances.sum fun row => if row.1.1 = tokenId then row.2.toNat else 0

/-- Every supply on record is what the accounts hold. -/
def Solvent : Prop := ∀ tokenId, (t.totalSupply tokenId).toNat = t.held tokenId

variable (t : QN12Token) (account : Address) (tokenId : UInt64)

theorem balance_share (other : UInt64) : ((t.balances.get (tokenId, account)).elim 0
      fun row => if row.1.1 = other then row.2.toNat else 0)
    = if tokenId = other then (t.balanceOf account tokenId).toNat else 0 := by
  unfold balanceOf
  cases hget : t.balances.get (tokenId, account) with
  | none => simp
  | some row =>
    have hkey : row.1 = (tokenId, account) := key_of_get hget
    simp [hkey]

theorem held_setBalance (value other : UInt64) :
    (t.setBalance account tokenId value).held other
        + (if tokenId = other then (t.balanceOf account tokenId).toNat else 0)
      = t.held other + if tokenId = other then value.toNat else 0 := by
  rw [← balance_share]
  exact t.balances.sum_put _ ((tokenId, account), value)

theorem balanceOf_setBalance (account' : Address) (tokenId tokenId' value : UInt64) :
    (t.setBalance account tokenId value).balanceOf account' tokenId'
      = if (tokenId', account') = (tokenId, account) then value
        else t.balanceOf account' tokenId' :=
  getD_put ..

variable {account : Address}

theorem balanceOf_setBalance_of_ne (t : QN12Token) {other : Address} (tokenId value : UInt64)
    (hne : account ≠ other) :
    (t.setBalance account tokenId value).balanceOf other tokenId = t.balanceOf other tokenId := by
  rw [balanceOf_setBalance, if_neg fun h => hne (Prod.mk.inj h).2.symm]

variable {tokenId : UInt64} (t : QN12Token)

theorem balanceOf_setBalance_other {account account' : Address} {other : UInt64} {value : UInt64}
    (hne : tokenId ≠ other) :
    (t.setBalance account tokenId value).balanceOf account' other = t.balanceOf account' other := by
  rw [balanceOf_setBalance, if_neg fun h => hne (Prod.mk.inj h).1.symm]

theorem totalSupply_setSupply (tokenId value other : UInt64) :
    (t.setSupply tokenId value).totalSupply other
      = if other = tokenId then value else t.totalSupply other :=
  getD_put ..

theorem balanceOf_le_held (account : Address) (tokenId : UInt64) :
    (t.balanceOf account tokenId).toNat ≤ t.held tokenId := by
  have hle := le_sum (fun row => if row.1.1 = tokenId then row.2.toNat else 0) t.balances
    (tokenId, account)
  rwa [balance_share, if_pos rfl] at hle

variable {t : QN12Token}

/-- Writes to balance and supply of one id are judged by that id alone. -/
theorem Solvent.setBoth (h : t.Solvent) {newBalance newSupply : UInt64}
    (hnew : newSupply.toNat + (t.balanceOf account tokenId).toNat
      = (t.totalSupply tokenId).toNat + newBalance.toNat) :
    ((t.setBalance account tokenId newBalance).setSupply tokenId newSupply).Solvent := by
  intro other
  rw [totalSupply_setSupply]
  show _ = (t.setBalance account tokenId newBalance).held other
  have hheld := t.held_setBalance account tokenId newBalance other
  have hsupply := h other
  by_cases hid : other = tokenId
  · subst hid
    simp only [if_true] at hheld ⊢
    omega
  · simp only [if_neg (Ne.symm hid)] at hheld
    rw [if_neg hid]
    exact hsupply.trans hheld.symm

/-! ### Transfers -/

theorem Solvent.setBalances {t : QN12Token} (h : t.Solvent) {tokenId : UInt64} {t' : QN12Token}
    (hsupply : ∀ id, t'.totalSupply id = t.totalSupply id)
    (hheld : t'.held tokenId = t.held tokenId) (hother : ∀ id ≠ tokenId, t'.held id = t.held id) :
    t'.Solvent := by
  intro id
  rw [hsupply, h]
  by_cases hid : id = tokenId
  · rw [hid, hheld]
  · rw [hother id hid]

/-- Between two accounts, or with nothing to move, a transfer keeps the sum;
to oneself it has to fail. -/
theorem Solvent.moveBalance {t : QN12Token} (h : t.Solvent) {src dst : Address}
    {tokenId amount : UInt64} (hkeeps : src = dst → amount ≠ 0 →
      2 ^ 64 ≤ (t.balanceOf dst tokenId).toNat + amount.toNat) :
    (t.moveBalance src dst tokenId amount).2.Solvent := by
  refine attempt_keeps h fun newFrom hfrom => attempt_keeps h fun newTo hto => ?_
  have hsub := checkedSub64_eq_some (eq_some_of_okOr hfrom)
  have hadd := checkedAdd64_eq_some (eq_some_of_okOr hto)
  have hfirst := t.held_setBalance src tokenId newFrom
  have hsecond := (t.setBalance src tokenId newFrom).held_setBalance dst tokenId newTo
  show ((t.setBalance src tokenId newFrom).setBalance dst tokenId newTo).Solvent
  refine @Solvent.setBalances t h tokenId _ (fun _ => rfl) ?_ ?_
  · replace hfirst := hfirst tokenId
    replace hsecond := hsecond tokenId
    simp only [if_true] at hfirst hsecond
    by_cases hne : src = dst
    · subst hne
      have hself : (t.setBalance src tokenId newFrom).balanceOf src tokenId = newFrom := by
        simp [balanceOf, setBalance]
      rw [hself] at hsecond
      have hzero : amount = 0 := by
        by_contra hamount
        have := hkeeps rfl hamount
        have := newTo.toNat_lt
        omega
      have hval : amount.toNat = 0 := by rw [hzero]; rfl
      omega
    · rw [balanceOf_setBalance_of_ne t _ _ hne] at hsecond
      omega
  · intro id hid
    replace hfirst := hfirst id
    replace hsecond := hsecond id
    simp only [if_neg (Ne.symm hid)] at hfirst hsecond
    exact hsecond.trans hfirst

/-- The checks of `safe_transfer_from` and its batch form on recipient,
caller and balances. -/
def Admits (t : QN12Token) (caller src dst : Address) (items : List (UInt64 × UInt64)) : Prop :=
  dst ≠ ZERO_ADDRESS ∧ t.isApprovedOrOwner caller src = true ∧ t.covers src items = true

instance decidableAdmits (t : QN12Token) (caller src dst : Address)
    (items : List (UInt64 × UInt64)) : Decidable (t.Admits caller src dst items) :=
  inferInstanceAs (Decidable (_ ∧ _ ∧ _))

variable {caller : Address}

/-- In a batch to oneself the first entry that moves anything has to fail. -/
def SelfMovesFail (t : QN12Token) (account : Address) : List (UInt64 × UInt64) → Prop
  | [] => True
  | item :: rest =>
    if item.2 = 0 then t.SelfMovesFail account rest
    else 2 ^ 64 ≤ (t.balanceOf account item.1).toNat + item.2.toNat

instance decidableSelfMovesFail (t : QN12Token) (account : Address) :
    ∀ items, Decidable (t.SelfMovesFail account items)
  | [] => isTrue trivial
  | item :: rest =>
    have : Decidable (t.SelfMovesFail account rest) := decidableSelfMovesFail t account rest
    inferInstanceAs (Decidable (if item.2 = 0 then t.SelfMovesFail account rest
      else 2 ^ 64 ≤ (t.balanceOf account item.1).toNat + item.2.toNat))

variable {t' : QN12Token}

theorem SelfMovesFail.congr (heq : ∀ id, t'.balanceOf account id = t.balanceOf account id) :
    ∀ {items : List (UInt64 × UInt64)}, t.SelfMovesFail account items →
      t'.SelfMovesFail account items := by
  intro items h
  induction items with
  | nil => trivial
  | cons item rest ih =>
    unfold SelfMovesFail at h ⊢
    split
    · rename_i hzero
      rw [if_pos hzero] at h
      exact ih h
    rename_i hzero
    rw [if_neg hzero] at h
    rw [heq]
    exact h

variable {dst src : Address} {amount : UInt64} {u : Unit}

theorem moveBalance_ok (h : t.moveBalance src dst tokenId amount = (.ok u, t')) :
    ∃ newFrom newTo, newFrom.toNat + amount.toNat = (t.balanceOf src tokenId).toNat
      ∧ newTo.toNat = (t.balanceOf dst tokenId).toNat + amount.toNat
      ∧ t' = (t.setBalance src tokenId newFrom).setBalance dst tokenId newTo := by
  unfold QN12Token.moveBalance at h
  cases hsub : checkedSub64 (t.balanceOf src tokenId) amount with
  | none => simp [hsub, okOr, attempt] at h
  | some newFrom =>
    cases hadd : checkedAdd64 (t.balanceOf dst tokenId) amount with
    | none => simp [hsub, hadd, okOr, attempt] at h
    | some newTo =>
      simp only [hsub, hadd, okOr, attempt, Prod.mk.injEq] at h
      exact ⟨newFrom, newTo, checkedSub64_eq_some hsub, checkedAdd64_eq_some hadd, h.2.symm⟩

theorem balanceOf_moveBalance_zero (h : t.moveBalance account account tokenId 0 = (.ok u, t'))
    (id : UInt64) : t'.balanceOf account id = t.balanceOf account id := by
  obtain ⟨_, newTo, -, hnew, rfl⟩ := moveBalance_ok h
  have hsame : newTo = t.balanceOf account tokenId := UInt64.toNat_inj.mp hnew
  by_cases hid : tokenId = id
  · subst hid
    rw [← hsame]
    simp [balanceOf, setBalance]
  · rw [balanceOf_setBalance_other _ hid, balanceOf_setBalance_other _ hid]

variable {rest : List (UInt64 × UInt64)} {item : UInt64 × UInt64}

theorem SelfMovesFail.head (h : t.SelfMovesFail account (item :: rest)) (hamount : item.2 ≠ 0) :
    2 ^ 64 ≤ (t.balanceOf account item.1).toNat + item.2.toNat := by
  unfold SelfMovesFail at h
  rwa [if_neg hamount] at h

theorem SelfMovesFail.tail (h : t.SelfMovesFail account (item :: rest)) (hamount : item.2 = 0) :
    t.SelfMovesFail account rest := by
  unfold SelfMovesFail at h
  rwa [if_pos hamount] at h

theorem Solvent.safeTransferFrom (h : t.Solvent)
    (hkeeps : t.Admits caller src dst [(tokenId, amount)] → src = dst →
      t.SelfMovesFail dst [(tokenId, amount)]) :
    (t.safeTransferFrom caller src dst tokenId amount).2.Solvent := by
  refine attempt_keeps h fun _ hzero => guard_keeps h fun happroved => ?_
  refine guard_keeps h fun hcovered => andThen_keeps (h.moveBalance ?_) fun _ _ hu => hu
  intro hself hamount
  have hfail := hkeeps ⟨ne_zero_of_checkNotZero hzero, by simpa using happroved,
    by simpa [covers] using hcovered⟩ hself
  exact hfail.head hamount

variable {tokenIds amounts : List UInt64}

theorem Solvent.safeBatchTransferFrom (h : t.Solvent)
    (hkeeps : tokenIds.length ≤ MAX_BATCH_SIZE → tokenIds.length = amounts.length →
      t.Admits caller src dst (tokenIds.zip amounts) → src = dst →
      t.SelfMovesFail dst (tokenIds.zip amounts)) :
    (t.safeBatchTransferFrom caller src dst tokenIds amounts).2.Solvent := by
  refine attempt_keeps h fun _ hzero => guard_keeps h fun hsize => guard_keeps h fun hlength => ?_
  refine guard_keeps h fun happroved => guard_keeps h fun hcovered =>
    andThen_keeps ?_ fun _ _ hu => hu
  have hstart := hkeeps (Nat.not_lt.mp hsize) (not_not.mp hlength)
    ⟨ne_zero_of_checkNotZero hzero, by simpa using happroved, by simpa using hcovered⟩
  -- to oneself, the entries so far have moved nothing
  refine mapEach_keeps (J := fun left u => src = dst → u.SelfMovesFail dst left) ?_ ?_ h hstart
  · intro u item left hu hleft
    exact hu.moveBalance fun hself => (hleft hself).head
  · intro u item left _ u' _ hleft hmove hself
    by_cases hamount : item.2 = 0
    · subst hself
      rw [hamount] at hmove
      exact ((hleft rfl).tail hamount).congr (balanceOf_moveBalance_zero hmove)
    -- a transfer that overflows does not go through
    have hfull := (hleft hself).head hamount
    obtain ⟨_, newTo, -, _, -⟩ := moveBalance_ok hmove
    have hlt := newTo.toNat_lt
    omega

/-! ### Minting and burning -/

/-- Whenever the balance takes an issue, so does the supply. -/
theorem Solvent.issue (h : t.Solvent)
    (hkeeps : (t.balanceOf dst tokenId).toNat + amount.toNat < 2 ^ 64 →
      (t.totalSupply tokenId).toNat + amount.toNat < 2 ^ 64) :
    (t.issue dst tokenId amount).2.Solvent := by
  refine attempt_keeps h fun newBalance hbalance => ?_
  have hnew := checkedAdd64_eq_some (eq_some_of_okOr hbalance)
  obtain ⟨_, hadd, _⟩ := checkedAdd64_of_lt
    (hkeeps (by have := newBalance.toNat_lt; omega))
  have hsame : (t.setBalance dst tokenId newBalance).totalSupply tokenId
      = t.totalSupply tokenId := rfl
  simp only [hsame, hadd, okOr, attempt]
  exact h.setBoth (by omega)

theorem Solvent.mint (h : t.Solvent) {uri : Option String}
    (hkeeps : caller = t.owner → dst ≠ ZERO_ADDRESS →
      (t.balanceOf dst tokenId).toNat + amount.toNat < 2 ^ 64 →
      (t.totalSupply tokenId).toNat + amount.toNat < 2 ^ 64) :
    (t.mint caller dst tokenId amount uri).2.Solvent := by
  refine attempt_keeps h fun _ howner => attempt_keeps h fun _ hzero => ?_
  refine andThen_keeps
    (h.issue (hkeeps (eq_of_checkCaller howner) (ne_zero_of_checkNotZero hzero))) ?_
  intro _ u hu
  cases uri <;> exact hu

/-- Up to the first entry whose balance overflows, every entry of a batch
fits its supply. -/
def IssuesFit (t : QN12Token) (dst : Address) : List (UInt64 × UInt64) → Prop
  | [] => True
  | item :: rest =>
    (t.balanceOf dst item.1).toNat + item.2.toNat < 2 ^ 64 →
      (t.totalSupply item.1).toNat + item.2.toNat < 2 ^ 64 ∧ t.IssuesFit dst rest

instance decidableIssuesFit (t : QN12Token) (dst : Address) :
    ∀ items, Decidable (t.IssuesFit dst items)
  | [] => isTrue trivial
  | item :: rest =>
    have : Decidable (t.IssuesFit dst rest) := decidableIssuesFit t dst rest
    inferInstanceAs (Decidable ((t.balanceOf dst item.1).toNat + item.2.toNat < 2 ^ 64 →
      (t.totalSupply item.1).toNat + item.2.toNat < 2 ^ 64 ∧ t.IssuesFit dst rest))

theorem IssuesFit.congr : ∀ {items : List (UInt64 × UInt64)},
      (∀ item ∈ items, t'.balanceOf dst item.1 = t.balanceOf dst item.1
        ∧ t'.totalSupply item.1 = t.totalSupply item.1) →
      t.IssuesFit dst items → t'.IssuesFit dst items := by
  intro items heq h
  induction items with
  | nil => trivial
  | cons item rest ih =>
    obtain ⟨hbalance, hsupply⟩ := heq item mem_cons_self
    intro hfits
    rw [hbalance] at hfits
    rw [hsupply]
    have hrest := fun item hitem => heq item (mem_cons_of_mem _ hitem)
    exact ⟨(h hfits).1, ih hrest (h hfits).2⟩

theorem issue_ok (h : t.issue dst tokenId amount = (.ok u, t')) :
    (t.balanceOf dst tokenId).toNat + amount.toNat < 2 ^ 64
      ∧ ∀ id ≠ tokenId, t'.balanceOf dst id = t.balanceOf dst id
        ∧ t'.totalSupply id = t.totalSupply id := by
  unfold QN12Token.issue at h
  cases hbalance : checkedAdd64 (t.balanceOf dst tokenId) amount with
  | none => simp [hbalance, okOr, attempt] at h
  | some newBalance =>
    have hnew := checkedAdd64_eq_some hbalance
    simp only [hbalance, okOr, attempt] at h
    split at h
    · cases h
    cases h
    refine ⟨by have := newBalance.toNat_lt; omega, ?_⟩
    intro id hid
    rw [totalSupply_setSupply, if_neg hid]
    exact ⟨balanceOf_setBalance_other t (Ne.symm hid), rfl⟩

theorem Solvent.mintBatch (h : t.Solvent)
    (hkeeps : caller = t.owner → dst ≠ ZERO_ADDRESS → tokenIds.length = amounts.length →
      tokenIds.length ≤ MAX_BATCH_SIZE → tokenIds.Nodup → t.IssuesFit dst (tokenIds.zip amounts)) :
    (t.mintBatch caller dst tokenIds amounts).2.Solvent := by
  refine attempt_keeps h fun _ howner => attempt_keeps h fun _ hzero => ?_
  refine guard_keeps h fun hlength => guard_keeps h fun hsize => guard_keeps h fun hnodup => ?_
  refine andThen_keeps ?_ fun _ _ hu => hu
  have hstart := hkeeps (eq_of_checkCaller howner) (ne_zero_of_checkNotZero hzero)
    (not_not.mp hlength) (Nat.not_lt.mp hsize) (not_not.mp hnodup)
  have hids : ((tokenIds.zip amounts).map Prod.fst).Nodup := by
    rw [map_fst_zip (not_not.mp hlength).le]
    exact not_not.mp hnodup
  -- the ids still to come are not the one just issued
  refine mapEach_keeps (J := fun left u => u.IssuesFit dst left ∧ (left.map Prod.fst).Nodup)
    ?_ ?_ h ⟨hstart, hids⟩
  · intro u item left hu hleft
    exact hu.issue fun hroom => (hleft.1 hroom).1
  · rintro u item left _ u' _ ⟨hfit, hnd⟩ hissue
    rw [map_cons, nodup_cons] at hnd
    obtain ⟨hroom, hother⟩ := issue_ok hissue
    refine ⟨(hfit hroom).2.congr ?_, hnd.2⟩
    intro item' hitem'
    exact hother _ fun heq => hnd.1 (heq ▸ mem_map_of_mem hitem')

/-- Nobody but the caller may hold any of the id that is created. -/
theorem Solvent.createToken (h : t.Solvent) {initialSupply : UInt64} {uri : String}
    (hkeeps : caller = t.owner → t.nextTokenId ≠ U64_MAX → initialSupply ≠ 0 →
      t.totalSupply t.nextTokenId = t.balanceOf caller t.nextTokenId) :
    (t.createToken caller initialSupply uri).2.Solvent := by
  refine attempt_keeps h fun _ howner => attempt_keeps h fun next hnext => ?_
  have hmax : t.nextTokenId ≠ U64_MAX := by
    intro hmax
    rw [hmax] at hnext
    cases hnext
  split
  · rename_i hpos
    have hsame := hkeeps (eq_of_checkCaller howner) hmax (UInt64.pos_iff_ne_zero.mp hpos)
    have hrenamed : Solvent { t with
        nextTokenId := next, tokenUris := t.tokenUris.put (t.nextTokenId, uri) } := h
    refine hrenamed.setBoth ?_
    show initialSupply.toNat + (t.balanceOf caller t.nextTokenId).toNat
      = (t.totalSupply t.nextTokenId).toNat + initialSupply.toNat
    rw [hsame]
    omega
  · exact h

theorem Solvent.destroy (h : t.Solvent) (src : Address) (tokenId amount : UInt64) :
    (t.destroy src tokenId amount).2.Solvent := by
  refine attempt_keeps h fun newBalance hbalance => ?_
  have hnew := checkedSub64_eq_some (eq_some_of_okOr hbalance)
  have hle := t.balanceOf_le_held src tokenId
  rw [← h] at hle
  obtain ⟨_, hsub, _⟩ := checkedSub64_of_le (a := t.totalSupply tokenId)
    (b := amount) (by omega)
  have hsame : (t.setBalance src tokenId newBalance).totalSupply tokenId
      = t.totalSupply tokenId := rfl
  simp only [hsame, hsub, okOr, attempt]
  exact h.setBoth (by omega)

theorem Solvent.burn (h : t.Solvent) (caller src : Address) (tokenId amount : UInt64) :
    (t.burn caller src tokenId amount).2.Solvent := by
  refine guard_keeps h fun _ => guard_keeps h fun _ => ?_
  refine attempt_keeps h fun newBalance hbalance => attempt_keeps h fun newSupply hsupply => ?_
  have hnew := checkedSub64_eq_some (eq_some_of_okOr hbalance)
  have hnew' := checkedSub64_eq_some (eq_some_of_okOr hsupply)
  exact h.setBoth (by omega)

theorem Solvent.burnBatch (h : t.Solvent) (caller src : Address)
    (tokenIds amounts : List UInt64) : (t.burnBatch caller src tokenIds amounts).2.Solvent := by
  refine guard_keeps h fun _ => guard_keeps h fun _ => guard_keeps h fun _ => ?_
  refine guard_keeps h fun _ => andThen_keeps ?_ fun _ _ hu => hu
  exact mapEach_keeps (J := fun _ _ => True) (fun u item _ hu _ => hu.destroy src item.1 item.2)
    (fun _ _ _ _ _ _ _ _ => trivial) h trivial

theorem solvent_new {name : String} {owner : Address} {baseUri : String} :
    (new name owner baseUri).Solvent := fun _ => rfl

end QN12Token

/-! ## Runs of calls -/

/-- The calls a contract takes. -/
inductive MultiTokenCall where
  | createToken (caller : Address) (initialSupply : UInt64) (uri : String)
  | mint (caller dst : Address) (tokenId amount : UInt64) (uri : Option String)
  | mintBatch (caller dst : Address) (tokenIds amounts : List UInt64)
  | safeTransferFrom (caller src dst : Address) (tokenId amount : UInt64)
  | safeBatchTransferFrom (caller src dst : Address) (tokenIds amounts : List UInt64)
  | burn (caller src : Address) (tokenId amount : UInt64)
  | burnBatch (caller src : Address) (tokenIds amounts : List UInt64)
  | setApprovalForAll (caller operator : Address) (approved : Bool)
  | transferOwnership (caller newOwner : Address)
  | acceptOwnership (caller : Address)

namespace MultiTokenCall

open QN12Token

variable (t : QN12Token)

/-- The contract a call leaves, whatever it answers. -/
def step : MultiTokenCall → QN12Token
  | createToken caller initialSupply uri => (t.createToken caller initialSupply uri).2
  | mint caller dst tokenId amount uri => (t.mint caller dst tokenId amount uri).2
  | mintBatch caller dst tokenIds amounts => (t.mintBatch caller dst tokenIds amounts).2
  | safeTransferFrom caller src dst tokenId amount =>
    (t.safeTransferFrom caller src dst tokenId amount).2
  | safeBatchTransferFrom caller src dst tokenIds amounts =>
    (t.safeBatchTransferFrom caller src dst tokenIds amounts).2
  | burn caller src tokenId amount => (t.burn caller src tokenId amount).2
  | burnBatch caller src tokenIds amounts => (t.burnBatch caller src tokenIds amounts).2
  | setApprovalForAll caller operator approved => (t.setApprovalForAll caller operator approved).2
  | transferOwnership caller newOwner => (t.transferOwnership caller newOwner).2
  | acceptOwnership caller => (t.acceptOwnership caller).2

/-- Of the calls that are let through: a created id is held by nobody else,
a mint that fits the balance fits the supply, and a transfer to oneself
moves nothing or overflows. -/
def Keeps : MultiTokenCall → Prop
  | createToken caller initialSupply _ =>
    caller = t.owner → t.nextTokenId ≠ U64_MAX → initialSupply ≠ 0 →
      t.totalSupply t.nextTokenId = t.balanceOf caller t.nextTokenId
  | mint caller dst tokenId amount _ =>
    caller = t.owner → dst ≠ ZERO_ADDRESS →
      (t.balanceOf dst tokenId).toNat + amount.toNat < 2 ^ 64 →
      (t.totalSupply tokenId).toNat + amount.toNat < 2 ^ 64
  | mintBatch caller dst tokenIds amounts =>
    caller = t.owner → dst ≠ ZERO_ADDRESS → tokenIds.length = amounts.length →
      tokenIds.length ≤ MAX_BATCH_SIZE → tokenIds.Nodup →
      t.IssuesFit dst (tokenIds.zip amounts)
  | safeTransferFrom caller src dst tokenId amount =>
    t.Admits caller src dst [(tokenId, amount)] → src = dst →
      t.SelfMovesFail dst [(tokenId, amount)]
  | safeBatchTransferFrom caller src dst tokenIds amounts =>
    tokenIds.length ≤ MAX_BATCH_SIZE → tokenIds.length = amounts.length →
      t.Admits caller src dst (tokenIds.zip amounts) → src = dst →
      t.SelfMovesFail dst (tokenIds.zip amounts)
  | _ => True

instance decidableKeeps : ∀ c : MultiTokenCall, Decidable (c.Keeps t)
  | createToken .. => inferInstanceAs (Decidable (_ → _ → _ → _))
  | mint .. => inferInstanceAs (Decidable (_ → _ → _ → _))
  | mintBatch .. => inferInstanceAs (Decidable (_ → _ → _ → _ → _ → _))
  | safeTransferFrom .. => inferInstanceAs (Decidable (_ → _ → _))
  | safeBatchTransferFrom .. => inferInstanceAs (Decidable (_ → _ → _ → _ → _))
  | burn .. | burnBatch .. | setApprovalForAll .. | transferOwnership ..
  | acceptOwnership .. => isTrue trivial

theorem step_solvent {t : QN12Token} (h : t.Solvent) {c : MultiTokenCall} (hc : c.Keeps t) :
    (step t c).Solvent := by
  cases c with
  | createToken => exact h.createToken hc
  | mint => exact h.mint hc
  | mintBatch => exact h.mintBatch hc
  | safeTransferFrom => exact h.safeTransferFrom hc
  | safeBatchTransferFrom =>
    exact h.safeBatchTransferFrom hc
  | burn caller src tokenId amount => exact h.burn caller src tokenId amount
  | burnBatch caller src tokenIds amounts => exact h.burnBatch caller src tokenIds amounts
  | setApprovalForAll => exact guard_keeps h fun _ => h
  | transferOwnership =>
    exact attempt_keeps h fun _ _ => attempt_keeps h fun _ _ => h
  | acceptOwnership => exact guard_keeps h fun _ => h

end MultiTokenCall

/-- From a new contract, calls by any callers with any ids and amounts keep
every supply equal to what the accounts hold of it, failing calls and
half-done batches included, as long as every call of the run meets `Keeps`
where it is made. -/
theorem multi_token_solvent (name : String) (owner : Address) (baseUri : String)
    {calls : List MultiTokenCall}
    (hcalls : Runs.StepsMeet MultiTokenCall.step (fun t c => c.Keeps t) (.new name owner baseUri)
      calls) :
    (run MultiTokenCall.step (.new name owner baseUri) calls).Solvent := by
  have hstep : ∀ (t : QN12Token) (c : MultiTokenCall), t.Solvent → c.Keeps t →
      (MultiTokenCall.step t c).Solvent := fun _ _ h hc => MultiTokenCall.step_solvent h hc
  exact invariant_of_stepsMeet hstep QN12Token.solvent_new hcalls

def sampleMultiToken : QN12Token := .new "Sample" 1 "ipfs://"

/-- A created and a minted id, a batch with a repeated id that fails half
way, burns, and a transfer of nothing to oneself. -/
theorem multi_token_solvent_batches : (run MultiTokenCall.step sampleMultiToken
      [.createToken 1 100 "a", .mint 1 2 7 50 none, .mintBatch 1 3 [7, 8] [5, 6],
        .safeTransferFrom 1 1 2 1 30, .safeBatchTransferFrom 2 2 3 [7, 1, 7] [30, 10, 30],
        .safeTransferFrom 3 3 3 7 0, .burnBatch 3 3 [8, 7] [6, 1], .burn 4 1 1 1]).Solvent :=
  multi_token_solvent "Sample" 1 "ipfs://" (by decide)

/-- Sent to its own holder, 50 of 100 become 150. A mint beyond the supply's
range is refused with the balance written. An id minted before it is created
keeps its holder under a supply that does not know of it. -/
theorem multi_token_supplies_diverge : ((run MultiTokenCall.step sampleMultiToken
        [.createToken 1 100 "a", .safeTransferFrom 1 1 1 1 50]).totalSupply 1 = 100
      ∧ (run MultiTokenCall.step sampleMultiToken
          [.createToken 1 100 "a", .safeTransferFrom 1 1 1 1 50]).held 1 = 150)
      ∧ ((run MultiTokenCall.step sampleMultiToken
          [.mint 1 2 5 U64_MAX none, .mint 1 3 5 1 none]).totalSupply 5 = U64_MAX
        ∧ (run MultiTokenCall.step sampleMultiToken
            [.mint 1 2 5 U64_MAX none, .mint 1 3 5 1 none]).held 5 = 2 ^ 64)
      ∧ ((run MultiTokenCall.step sampleMultiToken
          [.mint 1 2 1 40 none, .createToken 1 100 "a"]).totalSupply 1 = 100
        ∧ (run MultiTokenCall.step sampleMultiToken
            [.mint 1 2 1 40 none, .createToken 1 100 "a"]).held 1 = 140) := by
  decide

end Quantos

import Quantos.Effects

/-!
# Amounts moved by a transaction

The account operations in terms of natural numbers, and from them what a
debit and a credit do to balance and stake. `sent tx` is what leaves the
sender for the recipient; the other types only move value between the
sender's own balance and stake. The bounds at the end are what makes the
silently dropped credits (`addBalance`, `addStakeDirect` on overflow)
disappear in the ledgers we consider.
-/

namespace Quantos

open StateManager Account Amount

namespace Account

variable {a a' : Account} {amount : Amount}

theorem subBalance_true (h : a.subBalance amount = (a', true)) :
    ∃ b : Amount, a' = { a with balance := b } ∧ b.toNat + amount.toNat = a.balance.toNat := by
  unfold subBalance at h
  split at h
  · rename_i b hb
    obtain ⟨rfl, -⟩ := Prod.mk.inj h
    exact ⟨b, rfl, checkedSub_eq_some.mp hb⟩
  · cases h

theorem subtractStake_true (h : a.subtractStake amount = (a', true)) :
    ∃ st : Amount, a' = { a with stake := st } ∧ st.toNat + amount.toNat = a.stake.toNat := by
  unfold subtractStake at h
  split at h
  · rename_i st hst
    obtain ⟨rfl, -⟩ := Prod.mk.inj h
    exact ⟨st, rfl, checkedSub_eq_some.mp hst⟩
  · cases h

theorem addStake_true (h : a.addStake amount = (a', true)) :
    ∃ b st : Amount, a' = { a with stake := st, balance := b }
      ∧ b.toNat + amount.toNat = a.balance.toNat ∧ st.toNat = a.stake.toNat + amount.toNat := by
  unfold addStake at h
  split at h
  · cases h
  rename_i st hst
  split at h
  · cases h
  rename_i b hb
  obtain ⟨rfl, -⟩ := Prod.mk.inj h
  exact ⟨b, st, rfl, checkedSub_eq_some.mp hb, checkedAdd_eq_some.mp hst⟩

theorem removeStake_true (h : a.removeStake amount = (a', true)) :
    ∃ b st : Amount, a' = { a with stake := st, balance := b }
      ∧ b.toNat = a.balance.toNat + amount.toNat ∧ st.toNat + amount.toNat = a.stake.toNat := by
  unfold removeStake addBalance at h
  split at h
  · rename_i st hst
    split at h
    · rename_i b hb
      obtain ⟨rfl, -⟩ := Prod.mk.inj h
      exact ⟨b, st, rfl, checkedAdd_eq_some.mp hb, checkedSub_eq_some.mp hst⟩
    · cases h
  · cases h

theorem addBalance_fst (a : Account) (amount : Amount) :
    ∃ b : Amount, (a.addBalance amount).1 = { a with balance := b } ∧
      b.toNat = if a.balance.toNat + amount.toNat < 2 ^ 128
        then a.balance.toNat + amount.toNat else a.balance.toNat := by
  unfold addBalance
  cases h : a.balance.checkedAdd amount with
  | some b =>
    have hb := checkedAdd_eq_some.mp h
    exact ⟨b, rfl, by rw [if_pos (hb ▸ b.toNat_lt), hb]⟩
  | none =>
    have hb := checkedAdd_eq_none.mp h
    exact ⟨a.balance, rfl, by rw [if_neg (by omega)]⟩

theorem addStakeDirect_eq (a : Account) (amount : Amount) :
    ∃ st : Amount, a.addStakeDirect amount = { a with stake := st } ∧
      st.toNat = if a.stake.toNat + amount.toNat < 2 ^ 128
        then a.stake.toNat + amount.toNat else a.stake.toNat := by
  unfold addStakeDirect
  cases h : a.stake.checkedAdd amount with
  | some st =>
    have hst := checkedAdd_eq_some.mp h
    exact ⟨st, rfl, by rw [if_pos (hst ▸ st.toNat_lt), hst]⟩
  | none =>
    have hst := checkedAdd_eq_none.mp h
    exact ⟨a.stake, rfl, by rw [if_neg (by omega)]⟩

end Account

/-! ## Debits -/

/-- What a successful debit leaves behind, by transaction type. -/
def Debited (tx : Transaction) (a a' : Account) : Prop :=
  match tx.txType with
  | .transfer | .contractCall =>
    ∃ b : Amount, a' = { a with balance := b } ∧ b.toNat + tx.amount.toNat = a.balance.toNat
  | .stake =>
    ∃ b st : Amount, a' = { a with balance := b, stake := st }
      ∧ b.toNat + tx.amount.toNat = a.balance.toNat
      ∧ st.toNat = a.stake.toNat + tx.amount.toNat
  | .unstake =>
    ∃ b st : Amount, a' = { a with balance := b, stake := st }
      ∧ b.toNat = a.balance.toNat + tx.amount.toNat
      ∧ st.toNat + tx.amount.toNat = a.stake.toNat
  | .stakeTransfer =>
    ∃ st : Amount, a' = { a with stake := st } ∧ st.toNat + tx.amount.toNat = a.stake.toNat
  | .contractDeploy => a' = a
  | .validatorRegister =>
    ∃ b st : Amount, a' = { a with balance := b, stake := st, isValidator := true }
      ∧ b.toNat + tx.amount.toNat = a.balance.toNat
      ∧ st.toNat = a.stake.toNat + tx.amount.toNat
  | .validatorExit =>
    ∃ b st : Amount, a' = { a with balance := b, stake := st, isValidator := false }
      ∧ b.toNat = a.balance.toNat + a.stake.toNat ∧ st.toNat = 0

variable {cm' cm : Option CommitteeManager} {a' : Account} {failure : StateError}

theorem reported_ok {op : Account × Bool} (h : reported failure cm op = .ok (a', cm')) :
    op = (a', true) ∧ cm' = cm := by
  rcases op with ⟨x, _ | _⟩
  · cases h
  · cases h; exact ⟨rfl, rfl⟩

/-- The entry a registration asks for. -/
def registration (tx : Transaction) : Validator where
  address := tx.from
  publicKey := tx.publicKey
  finalityPublicKey := []
  stake := tx.amount
  commissionRate :=
    if 258 ≤ tx.data.length then UInt16.ofNat (leValue ((tx.data.drop 256).take 2)) else 500
  active := true
  jailed := false
  slashCount := 0
  lastActiveSlot := 0
  vrfPublicKey := tx.data.take 256

variable {tx : Transaction}

theorem registration_of_new {w : Validator}
    (h : Validator.new tx.from tx.publicKey tx.amount (tx.data.take 256) = .ok w) :
    { w with commissionRate := if 258 ≤ tx.data.length
        then UInt16.ofNat (leValue ((tx.data.drop 256).take 2)) else 500 } = registration tx := by
  unfold Validator.new at h
  split at h
  · cases h
  split at h
  · cases h
  · cases h; rfl

variable {a : Account}

/-- A registration locks the stake and enters the validator; what the
committee manager thinks of it only decides whether it happens. -/
theorem validatorRegister_ok (h : validatorRegister cm tx a = .ok (a', cm')) :
    ∃ a₁, a.addStake tx.amount = (a₁, true) ∧ a' = { a₁ with isValidator := true }
      ∧ cm' = cm.map (fun c => ⟨c.validatorSet.enter (registration tx)⟩)
      ∧ ∀ c ∈ cm, ∀ w ∈ c.validatorSet.validators, w.address ≠ tx.from := by
  unfold validatorRegister at h
  split at h
  · cases h
  rcases hadd : a.addStake tx.amount with ⟨a₁, _ | _⟩
  · simp [hadd] at h
  refine ⟨a₁, rfl, ?_⟩
  simp only [hadd] at h
  cases cm with
  | none => cases h; exact ⟨rfl, rfl, fun c hc => by cases hc⟩
  | some =>
    dsimp only at h
    split at h
    · cases h
    rename_i w hw
    rw [registration_of_new hw] at h
    split at h
    · cases h
    rename_i c' hc'
    obtain ⟨rfl, hfresh⟩ := CommitteeManager.addValidator_ok hc'
    cases h
    refine ⟨rfl, rfl, fun c₁ hc₁ => ?_⟩
    obtain rfl := Option.mem_some.mp hc₁
    exact hfresh

theorem validatorExit_ok (h : validatorExit failure cm tx a = .ok (a', cm')) :
    ∃ a₁, a.removeStake a.stake = (a₁, true) ∧ a' = { a₁ with isValidator := false }
      ∧ cm' = cm.map fun cm => cm.removeValidator tx.from := by
  unfold validatorExit at h
  rcases hrem : a.removeStake a.stake with ⟨a₁, _ | _⟩
  · simp [hrem] at h
  simp only [hrem] at h
  cases h
  exact ⟨a₁, rfl, rfl, rfl⟩

theorem debit_ok (h : debit cm tx a = .ok (a', cm')) : Debited tx a a' := by
  unfold debit at h
  unfold Debited
  cases ht : tx.txType with
  | transfer | contractCall =>
    rw [ht] at h
    exact subBalance_true (reported_ok h).1
  | stake =>
    rw [ht] at h
    obtain ⟨b, st, rfl, hb, hst⟩ := addStake_true (reported_ok h).1
    exact ⟨b, st, rfl, hb, hst⟩
  | unstake =>
    rw [ht] at h
    obtain ⟨b, st, rfl, hb, hst⟩ := removeStake_true (reported_ok h).1
    exact ⟨b, st, rfl, hb, hst⟩
  | stakeTransfer =>
    rw [ht] at h
    exact subtractStake_true (reported_ok h).1
  | contractDeploy => rw [ht] at h; cases h; rfl
  | validatorRegister =>
    rw [ht] at h
    obtain ⟨a₁, hadd, rfl, -⟩ := validatorRegister_ok h
    obtain ⟨b, st, rfl, hb, hst⟩ := addStake_true hadd
    exact ⟨b, st, rfl, hb, hst⟩
  | validatorExit =>
    rw [ht] at h
    obtain ⟨a₁, hrem, rfl, -⟩ := validatorExit_ok h
    obtain ⟨b, st, rfl, hb, hst⟩ := removeStake_true hrem
    exact ⟨b, st, rfl, hb, by omega⟩

theorem Debited.frame (h : Debited tx a a') :
    a'.address = a.address ∧ a'.nonce = a.nonce ∧ a'.codeHash = a.codeHash
      ∧ a'.storageRoot = a.storageRoot := by
  unfold Debited at h
  split at h
  · obtain ⟨b, rfl, -⟩ := h; exact ⟨rfl, rfl, rfl, rfl⟩
  · obtain ⟨b, rfl, -⟩ := h; exact ⟨rfl, rfl, rfl, rfl⟩
  · obtain ⟨b, st, rfl, -⟩ := h; exact ⟨rfl, rfl, rfl, rfl⟩
  · obtain ⟨b, st, rfl, -⟩ := h; exact ⟨rfl, rfl, rfl, rfl⟩
  · obtain ⟨st, rfl, -⟩ := h; exact ⟨rfl, rfl, rfl, rfl⟩
  · subst h; exact ⟨rfl, rfl, rfl, rfl⟩
  · obtain ⟨b, st, rfl, -⟩ := h; exact ⟨rfl, rfl, rfl, rfl⟩
  · obtain ⟨b, st, rfl, -⟩ := h; exact ⟨rfl, rfl, rfl, rfl⟩

/-! ## What is sent -/

section

variable (tx : Transaction)

/-- The balance a transaction sends to its recipient. -/
def sentBalance : Nat :=
  match tx.txType with
  | .transfer | .contractCall => tx.amount.toNat
  | _ => 0

/-- The stake a transaction sends to its recipient. -/
def sentStake : Nat :=
  match tx.txType with
  | .stakeTransfer => tx.amount.toNat
  | _ => 0

def sent : Nat := sentBalance tx + sentStake tx

theorem sentBalance_le : sentBalance tx ≤ tx.amount.toNat := by
  unfold sentBalance
  split <;> omega

theorem sentStake_le : sentStake tx ≤ tx.amount.toNat := by
  unfold sentStake
  split <;> omega

end

theorem Debited.value (h : Debited tx a a') : a'.value + sent tx = a.value := by
  unfold Debited at h
  unfold sent sentBalance sentStake Account.value
  split at h <;> rename_i ht
  · obtain ⟨b, rfl, hb⟩ := h; simp only [ht]; omega
  · obtain ⟨b, rfl, hb⟩ := h; simp only [ht]; omega
  · obtain ⟨b, st, rfl, hb, hst⟩ := h; simp only [ht]; omega
  · obtain ⟨b, st, rfl, hb, hst⟩ := h; simp only [ht]; omega
  · obtain ⟨st, rfl, hst⟩ := h; simp only [ht]; omega
  · subst h; simp only [ht]; omega
  · obtain ⟨b, st, rfl, hb, hst⟩ := h; simp only [ht]; omega
  · obtain ⟨b, st, rfl, hb, hst⟩ := h; simp only [ht]; omega

/-- A credit changes balance and stake only, each by what is sent or, if
that overflows, not at all. -/
theorem credit_eq (tx : Transaction) (r : Account) :
    ∃ b st : Amount, credit tx r = { r with balance := b, stake := st }
      ∧ b.toNat = (if r.balance.toNat + sentBalance tx < 2 ^ 128
          then r.balance.toNat + sentBalance tx else r.balance.toNat)
      ∧ st.toNat = (if r.stake.toNat + sentStake tx < 2 ^ 128
          then r.stake.toNat + sentStake tx else r.stake.toNat) := by
  unfold credit sentBalance sentStake
  cases tx.txType with
  | transfer | contractCall =>
    obtain ⟨b, heq, hb'⟩ := r.addBalance_fst tx.amount
    exact ⟨b, r.stake, heq, hb', by simp⟩
  | stakeTransfer =>
    obtain ⟨st, heq, hst'⟩ := r.addStakeDirect_eq tx.amount
    exact ⟨r.balance, st, heq, by simp, hst'⟩
  | _ => exact ⟨r.balance, r.stake, rfl, by simp, by simp⟩

variable {r : Account}

theorem credit_of_fits (hb : r.balance.toNat + sentBalance tx < 2 ^ 128)
    (hst : r.stake.toNat + sentStake tx < 2 ^ 128) :
    ∃ b st : Amount, credit tx r = { r with balance := b, stake := st }
      ∧ b.toNat = r.balance.toNat + sentBalance tx ∧ st.toNat = r.stake.toNat + sentStake tx := by
  obtain ⟨b, st, heq, hb', hst'⟩ := credit_eq tx r
  exact ⟨b, st, heq, by rw [hb', if_pos hb], by rw [hst', if_pos hst]⟩

theorem credit_value (h : r.value + sent tx < 2 ^ 128) :
    (credit tx r).value = r.value + sent tx := by
  unfold sent Account.value at *
  obtain ⟨b, _, heq, _, _⟩ := credit_of_fits
    (show r.balance.toNat + sentBalance tx < 2 ^ 128 by omega) (by omega)
  rw [heq]
  dsimp only
  omega

/-- The sender's own credit undoes the balance debit, and only that. -/
theorem Debited.refund_value (h : Debited tx a a') :
    (refund tx a').value + sentStake tx = a.value := by
  have ha := a.balance.toNat_lt
  have hv := h.value
  unfold Debited at h
  unfold refund
  unfold sent sentBalance sentStake at *
  cases ht : tx.txType with
  | transfer | contractCall =>
    simp only [ht] at h
    obtain ⟨b, rfl, _⟩ := h
    obtain ⟨_, heq, hb'⟩ := addBalance_fst { a with balance := b } tx.amount
    dsimp only at hb'
    rw [if_pos (by omega)] at hb'
    simp only [heq, Account.value]
    omega
  | _ => simp only [ht] at hv ⊢; omega

/-! ## Settling -/

section

variable {V : Type} {env : Platform V}

theorem amount_of_check {tx : Transaction} (h : checkTransaction env tx = .ok ()) :
    tx.amount.toNat ≤ MAX_TRANSACTION_AMOUNT
      ∧ (requiresAmount tx.txType = true → MIN_TRANSACTION_AMOUNT ≤ tx.amount.toNat) := by
  unfold checkTransaction at h
  split at h
  · cases h
  split at h
  · cases h
  split at h
  · cases h
  rename_i hmin
  split at h
  · cases h
  exact ⟨by omega, fun hreq => by
    by_contra hlt
    exact hmin ⟨hreq, by omega⟩⟩

variable {sender sender' : Account} {w : Verdict}

/-- Everything a successful `settle` says: the checks passed, the debit went
through, the engine agreed and the nonce had room. -/
theorem settle_ok {e : Event} (h : (settle env e sender).1 = .ok (sender', w)) :
    checkTransaction env e.tx.transaction = .ok ()
      ∧ e.tx.transaction.nonce = sender.nonce ∧ e.verdict = .ok w
      ∧ ∃ d, debit e.committee e.tx.transaction sender = .ok (d, (settle env e sender).2)
        ∧ Debited e.tx.transaction sender d ∧ sender.nonce.toNat + 1 < 2 ^ 64
        ∧ sender' = { d with nonce := sender.nonce + 1 } := by
  unfold settle at h ⊢
  cases hcheck : checkTransaction env e.tx.transaction with
  | error => simp [hcheck] at h
  | ok =>
    by_cases hnonce : e.tx.transaction.nonce = sender.nonce
    · simp only [hcheck, checkNonce, hnonce, ne_eq, not_true, if_false] at h ⊢
      cases hd : debit e.committee e.tx.transaction sender with
      | error => simp [hd] at h
      | ok debited =>
        obtain ⟨d, _⟩ := debited
        cases hw : e.verdict with
        | error => simp [hd, hw] at h
        | ok =>
          cases hn : d.incrementNonce with
          | error => simp [hd, hw, hn] at h
          | ok =>
            simp only [hd, hw, hn, Except.ok.injEq, Prod.mk.injEq] at h ⊢
            obtain ⟨rfl, rfl⟩ := h
            have hdeb := debit_ok hd
            obtain ⟨hlt, rfl⟩ := incrementNonce_ok.mp hn
            rw [hdeb.frame.2.1] at hlt ⊢
            exact ⟨trivial, trivial, rfl, d, ⟨rfl, trivial⟩, hdeb, hlt, rfl⟩
    · simp [hcheck, checkNonce, hnonce] at h

theorem debit_committee {tx : Transaction} (h : tx.txType ≠ .validatorRegister)
    (cm cm' : Option CommitteeManager) (a : Account) :
    (debit cm tx a).map Prod.fst = (debit cm' tx a).map Prod.fst := by
  have hrep : ∀ (err : StateError) (op : Account × Bool),
      (reported err cm op).map Prod.fst = (reported err cm' op).map Prod.fst := by
    rintro err ⟨x, _ | _⟩ <;> rfl
  unfold debit
  cases ht : tx.txType with
  | transfer | contractCall | stake | unstake | stakeTransfer => exact hrep _ _
  | contractDeploy => rfl
  | validatorRegister => exact absurd ht h
  | validatorExit =>
    unfold validatorExit
    rcases a.removeStake a.stake with ⟨x, _ | _⟩ <;> rfl

theorem settle_committee {tx : SignedTransaction}
    (h : tx.transaction.txType ≠ .validatorRegister) (cm cm' : Option CommitteeManager)
    (a : Account) :
    (settle env (.plain tx cm) a).1 = (settle env (.plain tx cm') a).1 := by
  have hd := debit_committee h cm cm' a
  unfold settle Event.plain
  cases checkTransaction env tx.transaction with
  | error => rfl
  | ok =>
    cases checkNonce tx.transaction a with
    | error => rfl
    | ok =>
      cases h₁ : debit cm tx.transaction a <;> cases h₂ : debit cm' tx.transaction a <;>
        simp only [h₁, h₂, Except.map, reduceCtorEq, Except.error.injEq, Except.ok.injEq]
          at hd ⊢
      · rw [hd]
      · rw [hd]
        cases (Prod.fst _ : Account).incrementNonce <;> rfl

/-- Whether a transaction no engine is asked about passes all its checks:
signature, amount, nonce, funds, committee manager and nonce range. -/
def accepts (env : Platform V) (cm : Option CommitteeManager) (tx : SignedTransaction)
    (sender : Account) : Bool :=
  (settle env (.plain tx cm) sender).1.isOk

theorem accepts_iff {cm : Option CommitteeManager} {tx : SignedTransaction} :
    accepts env cm tx sender = true ↔ ∃ sender', (settle env (.plain tx cm) sender).1
          = .ok (sender', ⟨tx.transaction.to, none, []⟩) := by
  unfold accepts
  constructor
  · intro h
    cases hs : (settle env (.plain tx cm) sender).1 with
    | error => rw [hs] at h; cases h
    | ok r =>
      obtain ⟨sender', w⟩ := r
      have hw : (Event.plain tx cm).verdict = .ok w := (settle_ok hs).2.2.1
      exact ⟨sender', by rw [← Except.ok.inj hw]⟩
  · rintro ⟨sender', hs⟩
    rw [hs]; rfl

/-! ## The accounts an event writes -/

variable (tx)

section

variable (a : Account) (w : Verdict) (sender : Account)

@[simp] theorem refund_address : (refund tx a).address = a.address := by
  unfold refund
  split <;> simp

@[simp] theorem deliver_address (tx : Transaction) (r : Account) :
    (w.deliver tx r).address = r.address :=
  credit_address tx r

theorem refund_eq : ∃ b : Amount, refund tx a = { a with balance := b } := by
  unfold refund
  cases tx.txType with
  | transfer | contractCall =>
    obtain ⟨b, h, -⟩ := a.addBalance_fst tx.amount
    exact ⟨b, h⟩
  | _ => exact ⟨a.balance, rfl⟩

@[simp] theorem refund_nonce : (refund tx a).nonce = a.nonce := by
  obtain ⟨b, h⟩ := refund_eq tx a
  rw [h]

@[simp] theorem credit_nonce (r : Account) : (credit tx r).nonce = r.nonce := by
  obtain ⟨b, _, h, -⟩ := credit_eq tx r
  rw [h]

/-- The sender's account after an accepted event. -/
def keptSender : Account :=
  if tx.from = w.address then refund tx sender else sender

@[simp] theorem keptSender_address : (keptSender tx w sender).address = sender.address := by
  unfold keptSender
  split <;> simp

@[simp] theorem keptSender_nonce : (keptSender tx w sender).nonce = sender.nonce := by
  unfold keptSender
  split
  · exact refund_nonce ..
  · rfl

end

/-- What an accepted transaction adds to the sender's balance, unless it is
an exit. -/
def balanceChange (recipient : Address) : Int :=
  match tx.txType with
  | .transfer | .contractCall => if tx.from = recipient then 0 else -tx.amount.toNat
  | .stake | .validatorRegister => -tx.amount.toNat
  | .unstake => tx.amount.toNat
  | _ => 0

/-- What an accepted transaction adds to the sender's stake, unless it is an
exit. -/
def stakeChange : Int :=
  match tx.txType with
  | .stake | .validatorRegister => tx.amount.toNat
  | .unstake | .stakeTransfer => -tx.amount.toNat
  | _ => 0

/-- The sender's validator flag after an accepted transaction. -/
def flagAfter (flag : Bool) : Bool :=
  match tx.txType with
  | .validatorRegister => true
  | .validatorExit => false
  | _ => flag

theorem Debited.kept_eq {tx : Transaction} {a d : Account} (h : Debited tx a d) (w : Verdict)
    (nonce : UInt64) :
    ∃ b st : Amount, keptSender tx w { d with nonce }
        = { a with balance := b, stake := st, nonce, isValidator := flagAfter tx a.isValidator }
      ∧ (tx.txType ≠ .validatorExit →
        (b.toNat : Int) = a.balance.toNat + balanceChange tx w.address
          ∧ (st.toNat : Int) = a.stake.toNat + stakeChange tx)
      ∧ (tx.txType = .validatorExit →
        b.toNat = a.balance.toNat + a.stake.toNat ∧ st.toNat = 0) := by
  have ha := a.balance.toNat_lt
  unfold Debited at h
  unfold keptSender refund balanceChange stakeChange flagAfter
  cases ht : tx.txType with
  | transfer | contractCall =>
    simp only [ht] at h
    obtain ⟨b, rfl, hb⟩ := h
    dsimp only
    split
    · obtain ⟨b', heq, hb'⟩ := addBalance_fst { a with balance := b, nonce } tx.amount
      dsimp only at hb'
      rw [if_pos (by omega)] at hb'
      exact ⟨b', a.stake, heq, fun _ => ⟨by omega, by omega⟩, nofun⟩
    · exact ⟨b, a.stake, rfl, fun _ => ⟨by omega, by omega⟩, nofun⟩
  | stake | unstake | validatorRegister =>
    simp only [ht] at h
    obtain ⟨b, st, rfl, hb, hst⟩ := h
    exact ⟨b, st, by simp, fun _ => ⟨by dsimp only; omega, by dsimp only; omega⟩, nofun⟩
  | stakeTransfer =>
    simp only [ht] at h
    obtain ⟨st, rfl, hst⟩ := h
    exact ⟨a.balance, st, by simp, fun _ => ⟨by dsimp only; omega, by dsimp only; omega⟩, nofun⟩
  | contractDeploy =>
    simp only [ht] at h
    subst h
    exact ⟨d.balance, d.stake, by simp, fun _ => ⟨by dsimp only; omega, by dsimp only; omega⟩,
      nofun⟩
  | validatorExit =>
    simp only [ht] at h
    obtain ⟨b, st, rfl, hb, hst⟩ := h
    exact ⟨b, st, by simp, fun h => absurd rfl h, fun _ => ⟨hb, hst⟩⟩

variable {e : Event} {v : Address → Account} {overlay : AccountTable}

theorem keptSender_frame (h : (settle env e sender).1 = .ok (sender', w)) :
    (keptSender e.tx.transaction w sender').codeHash = sender.codeHash
      ∧ (keptSender e.tx.transaction w sender').storageRoot = sender.storageRoot := by
  obtain ⟨-, -, -, d, -, hd, -, rfl⟩ := settle_ok h
  obtain ⟨-, -, hcode, hroot⟩ := hd.frame
  unfold keptSender
  split
  · obtain ⟨b, heq⟩ := refund_eq e.tx.transaction { d with nonce := sender.nonce + 1 }
    rw [heq]
    exact ⟨hcode, hroot⟩
  · exact ⟨hcode, hroot⟩

theorem effect_of_error {err : StateError}
    (h : (settle env e (look v overlay e.tx.transaction.from)).1 = .error err) :
    effect env v overlay e = overlay := by
  unfold effect
  rw [h]

theorem effect_of_rejected {tx : SignedTransaction} {cm : Option CommitteeManager}
    (h : accepts env cm tx (look v overlay tx.transaction.from) = false) :
    effect env v overlay (.plain tx cm) = overlay := by
  cases hset : (settle env (.plain tx cm) (look v overlay tx.transaction.from)).1 with
  | error => exact effect_of_error hset
  | ok => rw [accepts, hset] at h; cases h

theorem settle_address (h : (settle env e sender).1 = .ok (sender', w)) :
    sender'.address = sender.address := by
  obtain ⟨-, -, -, d, -, hd, -, rfl⟩ := settle_ok h
  exact hd.frame.1

theorem settle_nonce (h : (settle env e sender).1 = .ok (sender', w)) :
    sender'.nonce.toNat = sender.nonce.toNat + 1 ∧ e.tx.transaction.nonce = sender.nonce := by
  obtain ⟨-, hnonce, -, d, -, -, hlt, rfl⟩ := settle_ok h
  refine ⟨?_, hnonce⟩
  rw [UInt64.toNat_add]
  exact Nat.mod_eq_of_lt hlt

theorem receiptOf_outcome_success (v : Address → Account) (overlay : AccountTable) (e : Event)
    (tx : SignedTransaction) :
    (receiptOf tx (outcome env v overlay e)).success
      = (settle env e (look v overlay e.tx.transaction.from)).1.isOk := by
  unfold outcome
  cases (settle env e (look v overlay e.tx.transaction.from)).1 <;> rfl

theorem effect_committee {tx : SignedTransaction}
    (h : tx.transaction.txType ≠ .validatorRegister) (v : Address → Account)
    (overlay : AccountTable) (cm cm' : Option CommitteeManager) :
    effect env v overlay (.plain tx cm) = effect env v overlay (.plain tx cm')
      ∧ outcome env v overlay (.plain tx cm) = outcome env v overlay (.plain tx cm') := by
  have hs : (settle env (.plain tx cm) (look v overlay tx.transaction.from)).1 = _ :=
    settle_committee h cm cm' _
  constructor
  · unfold effect
    rw [Event.plain_tx, hs]
    rfl
  · unfold outcome
    rw [Event.plain_tx, hs]
    rfl

section

variable (hv : ∀ a, (v a).address = a)
  (h : (settle env e (look v overlay e.tx.transaction.from)).1 = .ok (sender, w))

include hv h

/-- An accepted event writes the sender's account and the recipient's, and
leaves every other address alone. -/
theorem get_effect (a : Address) : (effect env v overlay e).get a
      = if e.tx.transaction.from = a then some (keptSender e.tx.transaction w sender)
        else if w.address = a then
          some (w.deliver e.tx.transaction (look v overlay w.address))
        else overlay.get a := by
  have hs : sender.address = e.tx.transaction.from :=
    (settle_address h).trans (look_address hv overlay _)
  have hr : (w.deliver e.tx.transaction (look v overlay w.address)).address = w.address := by
    rw [deliver_address, look_address hv]
  unfold effect keptSender
  rw [h]
  by_cases hself : e.tx.transaction.from = w.address
  · simp only [hself, ne_eq, not_true, if_false, if_true, Table.get_put, refund_address, hs]
    split <;> rfl
  simp only [hself, ne_eq, not_false_eq_true, if_true, if_false, Table.get_put, hr, hs]
  by_cases ha : w.address = a
  · subst ha
    simp [hself]
  · simp [ha]

theorem look_effect (a : Address) : look v (effect env v overlay e) a
      = if e.tx.transaction.from = a then keptSender e.tx.transaction w sender
        else if w.address = a then w.deliver e.tx.transaction (look v overlay a)
        else look v overlay a := by
  unfold look
  rw [get_effect hv h]
  by_cases hf : e.tx.transaction.from = a
  · simp [hf]
  by_cases ha : w.address = a
  · subst ha; simp [hf, look]
  · simp [hf, ha]

end

variable (env) in
theorem look_effect_others {v : Address → Account} (hv : ∀ a, (v a).address = a)
    {overlay : AccountTable} {e : Event} {a : Address} (ha : a ≠ e.tx.transaction.from) :
    (look v overlay a).balance.toNat ≤ (look v (effect env v overlay e) a).balance.toNat
      ∧ (look v overlay a).stake.toNat ≤ (look v (effect env v overlay e) a).stake.toNat
      ∧ (look v (effect env v overlay e) a).isValidator = (look v overlay a).isValidator
      ∧ (look v (effect env v overlay e) a).nonce = (look v overlay a).nonce := by
  cases hset : (settle env e (look v overlay e.tx.transaction.from)).1 with
  | error =>
    rw [effect_of_error hset]
    exact ⟨Nat.le_refl _, Nat.le_refl _, rfl, rfl⟩
  | ok r =>
    obtain ⟨_, w⟩ := r
    rw [look_effect hv hset, if_neg (Ne.symm ha)]
    split
    · obtain ⟨b, _, heq, hb, hst⟩ := credit_eq e.tx.transaction (look v overlay a)
      unfold Verdict.deliver
      rw [heq]
      dsimp only
      refine ⟨?_, ?_, rfl, rfl⟩
      · split at hb <;> omega
      · split at hst <;> omega
    · exact ⟨Nat.le_refl _, Nat.le_refl _, rfl, rfl⟩

end

end Quantos

import Quantos.Reads

/-!
# What one transaction does

The executors are long case analyses over transaction types. This file
says once what each of them can do, in a form that does not mention the
manager:

- `debit` is the sender's side, `credit` the recipient's;
- an `Event` is a transaction together with the two answers it gets from
  outside the accounts, the committee manager it meets and the verdict of
  the contract engine;
- `settle` runs all checks of an event against the sender's account, and
  `effect` is the overlay after the event.

`executeTransactionOverlay_spec` and `applyTransaction_spec` tie the two
executors to them. Everything about whole batches is then an induction over
`effect`.
-/

namespace Quantos

open StateManager

namespace Account

theorem incrementNonce_ok {a a' : Account} : a.incrementNonce = .ok a'
      ↔ a.nonce.toNat + 1 < 2 ^ 64 ∧ a' = { a with nonce := a.nonce + 1 } := by
  unfold incrementNonce
  by_cases h : a.nonce.toNat + 1 < 2 ^ 64
  · rw [if_pos h, Except.ok.injEq, eq_comm]
    exact ⟨fun h' => ⟨h, h'⟩, And.right⟩
  · rw [if_neg h]
    exact ⟨fun h' => (by cases h'), fun h' => absurd h'.1 h⟩

variable (a : Account) (amount : Amount)

theorem incrementNonce_addBalance : (a.addBalance amount).1.incrementNonce
      = a.incrementNonce.map fun a' => (a'.addBalance amount).1 := by
  unfold addBalance incrementNonce
  by_cases h : a.nonce.toNat + 1 < 2 ^ 64
  · cases hb : a.balance.checkedAdd amount <;> simp only [if_pos h, Except.map, hb]
  · cases a.balance.checkedAdd amount <;> simp only [if_neg h, Except.map]

@[simp] theorem addBalance_address : (a.addBalance amount).1.address = a.address := by
  unfold addBalance; split <;> rfl

@[simp] theorem addStakeDirect_address : (a.addStakeDirect amount).address = a.address := by
  unfold addStakeDirect; split <;> rfl

end Account

/-- What a contract engine decides about a transaction: the account the
receipt names, its new code if it was deployed, and the logs. -/
structure Verdict where
  address : Address
  codeHash : Option Hash
  logs : List Log

/-- A transaction and the answers waiting for it outside the accounts. -/
structure Event where
  tx : SignedTransaction
  committee : Option CommitteeManager
  verdict : Except StateError Verdict

variable (cm : Option CommitteeManager) (tx : Transaction)

/-- The event of a transaction no engine is asked about. -/
def Event.plain (tx : SignedTransaction) (cm : Option CommitteeManager) : Event :=
  ⟨tx, cm, .ok ⟨tx.transaction.to, none, []⟩⟩

@[simp] theorem Event.plain_tx (tx : SignedTransaction) (cm : Option CommitteeManager) :
    (Event.plain tx cm).tx = tx := rfl

/-- An account operation that reports success, as a fallible one. -/
def reported (failure : StateError) (cm : Option CommitteeManager) :
    Account × Bool → Except StateError (Account × Option CommitteeManager)
  | (_, false) => .error failure
  | (sender, true) => .ok (sender, cm)

/-- The sender's side of a transaction, before its nonce advances. -/
def debit (sender : Account) : Except StateError (Account × Option CommitteeManager) :=
  match tx.txType with
  | .transfer | .contractCall => reported .insufficientBalance cm (sender.subBalance tx.amount)
  | .stake => reported .insufficientBalance cm (sender.addStake tx.amount)
  | .unstake => reported .insufficientBalance cm (sender.removeStake tx.amount)
  | .stakeTransfer => reported .insufficientBalance cm (sender.subtractStake tx.amount)
  | .contractDeploy => .ok (sender, cm)
  | .validatorRegister => validatorRegister cm tx sender
  | .validatorExit => validatorExit (.executionError "No stake to remove") cm tx sender

/-- The recipient's side of a transaction. -/
def credit (recipient : Account) : Account :=
  match tx.txType with
  | .transfer | .contractCall => (recipient.addBalance tx.amount).1
  | .stakeTransfer => recipient.addStakeDirect tx.amount
  | _ => recipient

/-- The sender's own credit when it pays itself. `StakeTransfer` has none. -/
def refund (sender : Account) : Account :=
  match tx.txType with
  | .transfer | .contractCall => (sender.addBalance tx.amount).1
  | _ => sender

/-- The recipient after the transaction, deployed code included. -/
def Verdict.deliver (w : Verdict) (tx : Transaction) (recipient : Account) : Account :=
  { credit tx recipient with codeHash := w.codeHash.or recipient.codeHash }

section

variable {V : Type} (env : Platform V) (v : Address → Account) (overlay : AccountTable) (e : Event)

/-- All checks of a transaction in order, with the debited sender on
success. The committee manager keeps the changes of the `ValidatorRegister`
and `ValidatorExit` arms even when the nonce check behind them fails. -/
def settle (sender : Account) : Except StateError (Account × Verdict) × Option CommitteeManager :=
  match checkTransaction env e.tx.transaction with
  | .error err => (.error err, e.committee)
  | .ok () =>
    match checkNonce e.tx.transaction sender with
    | .error err => (.error err, e.committee)
    | .ok () =>
      match debit e.committee e.tx.transaction sender with
      | .error err => (.error err, e.committee)
      | .ok (sender, cm) =>
        match e.verdict with
        | .error err => (.error err, cm)
        | .ok w =>
          match sender.incrementNonce with
          | .error err => (.error (.storageError err), cm)
          | .ok sender => (.ok (sender, w), cm)

/-- The overlay after an event. -/
def effect : AccountTable :=
  match (settle env e (look v overlay e.tx.transaction.from)).1 with
  | .error _ => overlay
  | .ok (sender, w) =>
    if e.tx.transaction.from ≠ w.address then
      (overlay.put sender).put (w.deliver e.tx.transaction (look v overlay w.address))
    else overlay.put (refund e.tx.transaction sender)

/-- The receipt of an event. -/
def outcome : Except StateError TransactionReceipt :=
  (settle env e (look v overlay e.tx.transaction.from)).1.map fun (_, w) =>
    finalizedReceipt e.tx w.address w.logs

/-! ## The overlay executor -/

/-- The result of an executor's match, once the debit has succeeded: the
engine's verdict decides, and only the account that will be written back
counts. -/
def Delivered (tx : Transaction) (sender : Account) (verdict : Except StateError Verdict)
    (result : Except StateError (Account × Account × List Log)) : Prop :=
  match verdict with
  | .error err => result = .error err
  | .ok w => ∃ recipient : Account,
      result = .ok (if tx.from = w.address then refund tx sender else sender, recipient, w.logs)
        ∧ recipient.address = w.address
        ∧ (tx.from ≠ w.address → recipient = w.deliver tx (look v overlay w.address))

@[simp] theorem deliver_plain (a : Address) (logs : List Log) (tx : Transaction)
    (recipient : Account) :
    (Verdict.mk a none logs).deliver tx recipient = credit tx recipient := by
  unfold Verdict.deliver credit Account.addBalance Account.addStakeDirect
  cases tx.txType <;> dsimp only <;> (try split) <;> rfl

variable {tx : Transaction} {sender recipient : Account}

/-- Paying out of the balance, with the credit on the copy that is kept. -/
theorem moveBalance_eq (hpay : tx.txType = .transfer ∨ tx.txType = .contractCall) :
    moveBalance tx sender recipient
      = (sender.subBalance tx.amount |> reported .insufficientBalance none).map fun (sender', _) =>
          (if sender.address = recipient.address then refund tx sender' else sender',
            if sender.address = recipient.address then recipient else credit tx recipient) := by
  unfold moveBalance Account.subBalance
  cases sender.balance.checkedSub tx.amount with
  | none => rfl
  | some =>
    rcases hpay with h | h <;>
      by_cases ha : sender.address = recipient.address <;>
      simp [reported, Except.map, refund, credit, h, ha]

@[simp] theorem credit_address (tx : Transaction) (recipient : Account) :
    (credit tx recipient).address = recipient.address := by
  unfold credit
  split <;> simp

variable {v : Address → Account}

/-- An arm that credits the recipient's copy whoever the recipient is. -/
theorem delivered_credit (hv : ∀ a, (v a).address = a) (overlay : AccountTable)
    (hrefund : refund tx sender = sender) :
    Delivered v overlay tx sender (.ok ⟨tx.to, none, []⟩)
      (.ok (sender, credit tx (look v overlay tx.to), [])) :=
  ⟨_, by rw [hrefund, ite_self], by rw [credit_address, look_address hv],
    fun _ => (deliver_plain ..).symm⟩

/-- An arm that credits the copy which is kept. -/
theorem delivered_paid (hv : ∀ a, (v a).address = a) {overlay : AccountTable} {tx : Transaction}
    {sender : Account} {logs : List Log} :
    Delivered v overlay tx sender (.ok ⟨tx.to, none, logs⟩)
      (.ok (if tx.from = tx.to then refund tx sender else sender,
        if tx.from = tx.to then look v overlay tx.to else credit tx (look v overlay tx.to),
        logs)) := by
  refine ⟨_, rfl, ?_, fun h => ?_⟩
  · split <;> simp [look_address hv]
  · rw [if_neg h, deliver_plain]

theorem callValue_eq (ht : tx.txType = .contractCall) :
    (if tx.amount.toNat > 0 then moveBalance tx sender recipient else .ok (sender, recipient))
      = (reported .insufficientBalance none (sender.subBalance tx.amount)).map fun (sender', _) =>
          (if sender.address = recipient.address then refund tx sender' else sender',
            if sender.address = recipient.address then recipient else credit tx recipient) := by
  by_cases h : tx.amount.toNat > 0
  · rw [if_pos h, moveBalance_eq (.inr ht)]
  have hsub : sender.balance.checkedSub tx.amount = some sender.balance :=
    Amount.checkedSub_eq_some.mpr (by omega)
  have hadd : ∀ b : Amount, b.checkedAdd tx.amount = some b := fun b =>
    Amount.checkedAdd_eq_some.mpr (by omega)
  rw [if_neg h]
  simp [Account.subBalance, Account.addBalance, hsub, hadd, reported, Except.map, refund,
    credit, ht]

variable (s : StateManager V) (overlay : AccountTable) (p : Bool)

/-- An arm of the match fails with the debit or delivers what it calls for,
and leaves the ledger alone. -/
abbrev Arm (tx : Transaction) (sender : Account) (verdict : Except StateError Verdict)
    (answer : Except StateError (Account × Account × List Log) × StateManager V) : Prop :=
  ∃ result s', answer = (result, s') ∧ SameLedger s s' ∧
    match debit s.committeeManager tx sender with
    | .error err => result = .error err ∧ s'.committeeManager = s.committeeManager
    | .ok (sender', cm) => s'.committeeManager = cm
        ∧ Delivered s.view overlay tx sender' verdict result

/-- `ContractCall`: the value moves as in a transfer, the engine decides. -/
theorem callOverlay_spec (hsender : sender.address = tx.from) (ht : tx.txType = .contractCall) :
    ∃ verdict, Arm s overlay tx sender verdict
      (s.callOverlay env tx p sender (look s.view overlay tx.to)) := by
  have hto : (look s.view overlay tx.to).address = tx.to := look_address s.view_address _ _
  simp only [Arm, callOverlay, callValue_eq ht, hsender, hto, debit, ht]
  rcases sender.subBalance tx.amount with ⟨_, _ | _⟩
  · exact ⟨.error .unauthorized, _, _, rfl, .refl s, rfl, rfl⟩
  simp only [reported, Except.map]
  by_cases hcm : (!s.contractManager) = true
  · simp only [if_pos hcm]
    exact ⟨.error _, _, _, rfl, .refl s, rfl, rfl⟩
  simp only [if_neg hcm]
  generalize (if p = true then env.executeContract s.world _
    else env.simulateContract s.world _) = answer
  obtain ⟨_ | result, world⟩ := answer
  · exact ⟨.error _, _, _, rfl, (SameLedger.refl s).set_world world, rfl, rfl⟩
  by_cases hok : (!result.success) = true
  · simp only [if_pos hok]
    exact ⟨.error _, _, _, rfl, (SameLedger.refl s).set_world world, rfl, rfl⟩
  simp only [if_neg hok]
  exact ⟨_, _, _, rfl, (SameLedger.refl s).set_world world, rfl,
    delivered_paid s.view_address⟩

theorem delivered_deployed (hv : ∀ a, (v a).address = a) {overlay : AccountTable}
    (ht : tx.txType = .contractDeploy) {sender : Account} {a : Address} {code : Hash}
    {logs : List Log} :
    Delivered v overlay tx sender (.ok ⟨a, some code, logs⟩)
      (.ok (sender, { look v overlay a with codeHash := some code }, logs)) := by
  refine ⟨{ look v overlay a with codeHash := some code }, ?_, look_address hv overlay a,
    fun _ => ?_⟩
  · simp [refund, ht]
  · simp [Verdict.deliver, credit, ht]

/-- `ContractDeploy`: the sender only pays its nonce, the recipient is the
new contract's account. -/
theorem deployOverlay_spec {sender : Account} (ht : tx.txType = .contractDeploy) :
    ∃ verdict : Except StateError Verdict,
      ∃ result s', s.deployOverlay env tx overlay p sender = (result, s') ∧
        SameLedger s s' ∧ s'.committeeManager = s.committeeManager
          ∧ Delivered s.view overlay tx sender verdict result := by
  unfold deployOverlay
  rcases decodeContractDeployPayload tx.data with e | ⟨bytecode, _⟩
  · exact ⟨.error _, _, _, rfl, .refl s, rfl, rfl⟩
  dsimp only
  by_cases hempty : bytecode.isEmpty = true
  · rw [if_pos hempty]
    exact ⟨.error _, _, _, rfl, .refl s, rfl, rfl⟩
  rw [if_neg hempty]
  obtain ⟨s₁, hread, hs₁, hcm₁, -⟩ := s.overlayAccount_isRead overlay
    (contractAddress env tx (env.hashData bytecode))
  rw [hread]
  dsimp only
  cases p with
  | false =>
    exact ⟨_, _, _, rfl, hs₁, hcm₁, delivered_deployed s.view_address ht ..⟩
  | true =>
    rw [if_pos rfl]
    by_cases hcm : (!s₁.contractManager) = true
    · rw [if_pos hcm]
      exact ⟨.error _, _, _, rfl, hs₁, hcm₁, rfl⟩
    rw [if_neg hcm]
    generalize env.deployContract s₁.world _ = answer
    obtain ⟨_ | deployed, world⟩ := answer
    · exact ⟨.error _, _, _, rfl, hs₁.set_world .., hcm₁, rfl⟩
    obtain ⟨_, hread₂, hs₂, hcm₂, -⟩ :=
      StateManager.overlayAccount_isRead { s₁ with world } overlay deployed.address
    dsimp only
    rw [hread₂, (hs₁.set_world ..).view]
    exact ⟨_, _, _, rfl, (hs₁.set_world ..).trans hs₂, hcm₂.trans hcm₁,
      delivered_deployed s.view_address ht ..⟩

/-- The arms that the executors share fail with the debit, or pass it on
together with the credit of the recipient's copy. -/
theorem executeArms_spec (hpay : tx.txType ≠ .transfer) (hc : tx.txType.isContract = false)
    (sender recipient : Account) (exitFailure : StateError)
    (transfer deploy call : Except StateError (Account × Account × List Log) × StateManager V) :
    ∃ result s', s.executeArms tx sender recipient exitFailure transfer deploy call = (result, s') ∧
      SameLedger s s' ∧
      match debit s.committeeManager tx sender with
      | .error err => (∃ err', result = .error err' ∧
            (exitFailure = .executionError "No stake to remove" → err' = err))
          ∧ s'.committeeManager = s.committeeManager
      | .ok (sender', cm) => result = .ok (sender', credit tx recipient, [])
          ∧ s'.committeeManager = cm := by
  unfold executeArms debit credit
  cases ht : tx.txType with
  | stake =>
    rcases sender.addStake tx.amount with ⟨sender', _ | _⟩
    · exact ⟨_, _, rfl, .refl s, ⟨_, rfl, fun _ => rfl⟩, rfl⟩
    · exact ⟨_, _, rfl, .refl s, rfl, rfl⟩
  | unstake =>
    rcases sender.removeStake tx.amount with ⟨sender', _ | _⟩
    · exact ⟨_, _, rfl, .refl s, ⟨_, rfl, fun _ => rfl⟩, rfl⟩
    · exact ⟨_, _, rfl, .refl s, rfl, rfl⟩
  | stakeTransfer =>
    rcases sender.subtractStake tx.amount with ⟨sender', _ | _⟩
    · exact ⟨_, _, rfl, .refl s, ⟨_, rfl, fun _ => rfl⟩, rfl⟩
    · exact ⟨_, _, rfl, .refl s, rfl, rfl⟩
  | validatorRegister =>
    rcases validatorRegister s.committeeManager tx sender with e | ⟨sender', cm⟩
    · exact ⟨_, _, rfl, .refl s, ⟨_, rfl, fun _ => rfl⟩, rfl⟩
    · exact ⟨_, _, rfl, (SameLedger.refl s).set_committee cm, rfl, rfl⟩
  | validatorExit =>
    dsimp only [validatorExit]
    rcases sender.removeStake sender.stake with ⟨sender', _ | _⟩
    · exact ⟨_, _, rfl, .refl s, ⟨_, rfl, id⟩, rfl⟩
    · exact ⟨_, _, rfl, (SameLedger.refl s).set_committee _, rfl, rfl⟩
  | transfer => exact absurd ht hpay
  | contractCall | contractDeploy => rw [ht] at hc; cases hc

theorem executeTransactionType_spec {tx : Transaction} (overlay : AccountTable) (p : Bool)
    (hsender : sender.address = tx.from) :
    ∃ verdict, (tx.txType.isContract = false → verdict = .ok ⟨tx.to, none, []⟩) ∧
      Arm s overlay tx sender verdict
        (s.executeTransactionType env tx overlay p sender (look s.view overlay tx.to)) := by
  have hto : (look s.view overlay tx.to).address = tx.to := look_address s.view_address _ _
  cases ht : tx.txType with
  | transfer =>
    refine ⟨.ok ⟨tx.to, none, []⟩, fun _ => rfl, ?_⟩
    simp only [Arm, executeTransactionType, executeArms, debit, ht]
    rw [moveBalance_eq (.inl ht), hsender, hto]
    rcases sender.subBalance tx.amount with ⟨_, _ | _⟩
    · exact ⟨_, _, rfl, .refl s, rfl, rfl⟩
    · exact ⟨_, s, rfl, .refl s, rfl, delivered_paid s.view_address⟩
  | stake | unstake | stakeTransfer | validatorRegister | validatorExit =>
    refine ⟨.ok ⟨tx.to, none, []⟩, fun _ => rfl, ?_⟩
    have hpay : tx.txType ≠ .transfer := by simp [ht]
    obtain ⟨result, s', hrun, hs', hdebit⟩ := executeArms_spec s hpay (by rw [ht]; rfl) sender
      (look s.view overlay tx.to) (.executionError "No stake to remove") _ _ _
    refine ⟨result, s', hrun, hs', ?_⟩
    rcases hd : debit s.committeeManager tx sender with err | ⟨sender', cm⟩ <;> rw [hd] at hdebit
    · obtain ⟨⟨err', rfl, herr⟩, hcm⟩ := hdebit
      exact ⟨by rw [herr rfl], hcm⟩
    · obtain ⟨rfl, hcm⟩ := hdebit
      exact ⟨hcm, delivered_credit s.view_address overlay (by simp [refund, ht])⟩
  | contractCall =>
    obtain ⟨verdict, h⟩ := callOverlay_spec env s overlay p hsender ht
    refine ⟨verdict, (fun h => by cases h), ?_⟩
    simpa only [executeTransactionType, executeArms, ht] using h
  | contractDeploy =>
    obtain ⟨verdict, result, s', h⟩ := deployOverlay_spec env s overlay p ht
    refine ⟨verdict, (fun h => by cases h), result, s', ?_⟩
    simpa only [executeTransactionType, executeArms, debit, ht] using h

/-- A failed debit, a refused engine call and an exhausted nonce leave the
overlay alone; otherwise both accounts are written back. -/
theorem writeBack_delivered {overlay : AccountTable} {sender' : Account} {w : Verdict}
    (hnonce : sender.incrementNonce = .ok sender') (haddr : recipient.address = w.address)
    (hrec : tx.from ≠ w.address → recipient = w.deliver tx (look v overlay w.address)) :
    ∃ kept, (if tx.from = w.address then refund tx sender else sender).incrementNonce = .ok kept
      ∧ writeBack overlay tx kept recipient
        = if tx.from ≠ w.address then
            (overlay.put sender').put (w.deliver tx (look v overlay w.address))
          else overlay.put (refund tx sender') := by
  by_cases h : tx.from = w.address
  · refine ⟨refund tx sender', ?_, ?_⟩
    · rw [if_pos h]
      unfold refund
      split <;> simp [Account.incrementNonce_addBalance, hnonce, Except.map]
    · simp [writeBack, haddr, h]
  · refine ⟨sender', by rw [if_neg h, hnonce], ?_⟩
    rw [writeBack, haddr, if_pos h, if_pos h, hrec h]

theorem incrementNonce_kept_error {err : String} {a : Address}
    (h : sender.incrementNonce = .error err) :
    (if tx.from = a then refund tx sender else sender).incrementNonce = .error err := by
  by_cases ha : tx.from = a
  · rw [if_pos ha]
    unfold refund
    split <;> simp [Account.incrementNonce_addBalance, h, Except.map]
  · rw [if_neg ha, h]

/-- `execute_transaction_overlay` runs one event: receipt, overlay and
committee manager are the event's, and the ledger underneath is untouched. -/
theorem executeTransactionOverlay_spec (tx : SignedTransaction) (overlay : AccountTable)
    (p : Bool) :
    ∃ e : Event, e.tx = tx ∧ e.committee = s.committeeManager ∧
      (tx.transaction.txType.isContract = false → e = .plain tx s.committeeManager) ∧
      ∃ s', s.executeTransactionOverlay env tx overlay p
          = (outcome env s.view overlay e, effect env s.view overlay e, s') ∧ SameLedger s s' ∧
        s'.committeeManager = (settle env e (look s.view overlay tx.transaction.from)).2 := by
  unfold executeTransactionOverlay validateTransactionAgainstOverlay
  cases hcheck : checkTransaction env tx.transaction with
  | error =>
    refine ⟨.plain tx s.committeeManager, rfl, rfl, fun _ => rfl, s, ?_, .refl s, ?_⟩ <;>
      simp [outcome, effect, settle, Event.plain, hcheck, Except.map]
  | ok =>
    obtain ⟨s₀, hread₀, hs₀, hcm₀, -⟩ := s.overlayAccount_isRead overlay tx.transaction.from
    obtain ⟨s₁, hread₁, hs₁, hcm₁, -⟩ := s₀.overlayAccount_isRead overlay tx.transaction.from
    obtain ⟨s₂, hread₂, hs₂, hcm₂, -⟩ := s₁.overlayAccount_isRead overlay tx.transaction.to
    have hsame : SameLedger s s₂ := (hs₀.trans hs₁).trans hs₂
    have hcm : s₂.committeeManager = s.committeeManager := hcm₂.trans (hcm₁.trans hcm₀)
    simp only [hread₀, hs₀.view] at hread₁ ⊢
    cases hnonce : checkNonce tx.transaction (look s.view overlay tx.transaction.from) with
    | error =>
      refine ⟨.plain tx s.committeeManager, rfl, rfl, fun _ => rfl, s₀, ?_, hs₀, ?_⟩
      · simp [outcome, effect, settle, Event.plain, hcheck, hnonce, Except.map]
      · simp [settle, Event.plain, hcheck, hnonce, hcm₀]
    | ok =>
      simp only [hread₁, hread₂, (hs₀.trans hs₁).view]
      obtain ⟨verdict, hplain, result, s', hrun, hs', hdebit⟩ :=
        executeTransactionType_spec env s₂ overlay p
          (look_address s₂.view_address overlay tx.transaction.from)
      rw [hsame.view] at hrun hdebit
      rw [hcm] at hdebit
      simp only [hrun]
      refine ⟨⟨tx, s.committeeManager, verdict⟩, rfl, rfl, fun hc => ?_, ?_⟩
      · rw [hplain hc]; rfl
      simp only [outcome, effect, settle, hcheck, hnonce]
      cases hd : debit s.committeeManager tx.transaction
          (look s.view overlay tx.transaction.from) with
      | error err =>
        simp only [hd] at hdebit
        obtain ⟨rfl, hcm'⟩ := hdebit
        exact ⟨s', rfl, hsame.trans hs', hcm'⟩
      | ok debited =>
        obtain ⟨sender', _⟩ := debited
        simp only [hd] at hdebit
        obtain ⟨hcm', hdel⟩ := hdebit
        cases verdict with
        | error err =>
          obtain rfl : result = .error err := hdel
          exact ⟨s', rfl, hsame.trans hs', hcm'⟩
        | ok =>
          obtain ⟨_, rfl, haddr, hrec⟩ := hdel
          cases hn : sender'.incrementNonce with
          | ok =>
            obtain ⟨_, hkept, hwrite⟩ := writeBack_delivered hn haddr hrec
            simp only [hkept, hwrite, haddr, hn]
            exact ⟨s', rfl, hsame.trans hs', hcm'⟩
          | error =>
            simp only [incrementNonce_kept_error hn, hn]
            exact ⟨s', rfl, hsame.trans hs', hcm'⟩

/-! ## The direct executor -/

/-- The match of `apply_transaction` outside contracts: the same debit, but
the credit always goes to the recipient's copy. -/
theorem applyTransactionType_spec (hc : tx.txType.isContract = false) (sender recipient : Account) :
    ∃ result s', s.applyTransactionType env tx sender recipient = (result, s') ∧
      SameLedger s s' ∧
      match debit s.committeeManager tx sender with
      | .error _ => (∃ err, result = .error err) ∧ s'.committeeManager = s.committeeManager
      | .ok (sender', cm) => result = .ok (sender', credit tx recipient, [])
          ∧ s'.committeeManager = cm := by
  by_cases ht : tx.txType = .transfer
  · simp only [applyTransactionType, executeArms, transferDirect, debit, credit, ht]
    rcases sender.subBalance tx.amount with ⟨sender', _ | _⟩
    · exact ⟨_, _, rfl, .refl s, ⟨_, rfl⟩, rfl⟩
    · exact ⟨_, _, rfl, .refl s, rfl, rfl⟩
  · obtain ⟨result, s', hrun, hs', hdebit⟩ := executeArms_spec s ht hc sender recipient
      .insufficientBalance _ _ _
    refine ⟨result, s', hrun, hs', ?_⟩
    rcases hd : debit s.committeeManager tx sender with err | ⟨sender', cm⟩ <;> rw [hd] at hdebit
    · obtain ⟨⟨err', herr, -⟩, hcm⟩ := hdebit
      exact ⟨⟨err', herr⟩, hcm⟩
    · exact hdebit

/-- `apply_transaction` outside contracts accepts what `settle` accepts and
writes both copies, the recipient's last. -/
theorem applyTransaction_spec {tx : SignedTransaction}
    (hc : tx.transaction.txType.isContract = false) :
    ∃ s', SameLedger s s' ∧
      s'.committeeManager
        = (settle env (.plain tx s.committeeManager) (s.view tx.transaction.from)).2 ∧
      match (settle env (.plain tx s.committeeManager) (s.view tx.transaction.from)).1 with
      | .error _ => ∃ err, s.applyTransaction env tx = (.error err, s')
      | .ok (sender, _) => s.applyTransaction env tx
          = (.ok (finalizedReceipt tx tx.transaction.to []), s'.persistAccounts env
              [sender, credit tx.transaction (s.view tx.transaction.to)]) := by
  unfold applyTransaction validateTransaction settle Event.plain
  cases hcheck : checkTransaction env tx.transaction with
  | error => exact ⟨s, .refl s, rfl, _, rfl⟩
  | ok =>
    obtain ⟨s₀, hread₀, hs₀, hcm₀, -⟩ := s.getAccount_isRead tx.transaction.from
    obtain ⟨s₁, hread₁, hs₁, hcm₁, -⟩ := s₀.getAccount_isRead tx.transaction.from
    obtain ⟨s₂, hread₂, hs₂, hcm₂, -⟩ := s₁.getAccount_isRead tx.transaction.to
    have hsame : SameLedger s s₂ := (hs₀.trans hs₁).trans hs₂
    have hcm : s₂.committeeManager = s.committeeManager := hcm₂.trans (hcm₁.trans hcm₀)
    simp only [hread₀, hs₀.view] at hread₁ ⊢
    cases hnonce : checkNonce tx.transaction (s.view tx.transaction.from) with
    | error => exact ⟨s₀, hs₀, hcm₀, _, rfl⟩
    | ok =>
      simp only [hread₁, hread₂, (hs₀.trans hs₁).view]
      obtain ⟨_, s', hrun, hs', hdebit⟩ := applyTransactionType_spec env s₂ hc
        (s.view tx.transaction.from) (s.view tx.transaction.to)
      rw [hcm] at hdebit
      simp only [hrun]
      cases hd : debit s.committeeManager tx.transaction (s.view tx.transaction.from) with
      | error =>
        simp only [hd] at hdebit
        obtain ⟨⟨_, rfl⟩, hcm'⟩ := hdebit
        exact ⟨s', hsame.trans hs', hcm', _, rfl⟩
      | ok debited =>
        obtain ⟨sender', _⟩ := debited
        simp only [hd] at hdebit
        obtain ⟨rfl, hcm'⟩ := hdebit
        refine ⟨s', hsame.trans hs', ?_⟩
        cases hn : sender'.incrementNonce with
        | error =>
          simp only [hn]
          exact ⟨hcm', _, rfl⟩
        | ok =>
          simp only [hn, credit_address, s.view_address]
          exact ⟨hcm', trivial⟩

end

end Quantos

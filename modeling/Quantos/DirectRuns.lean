import Quantos.Batches
import Quantos.Runs

/-!
# The direct executor

`apply_transaction` and `apply_transactions_atomically` are written
separately. Outside contracts they accept the same transactions and write
the same accounts whenever sender and recipient differ. With `from = to`
they part: the direct executor writes the sender's copy and then the
recipient's over it, so the nonce does not advance, the debit is lost, and
the same transaction can be applied again. Calls that do not do this are
conservative and replay-safe, over whole runs: an accepted call leaves the
sender's nonce above the one it carried (`nonce_le_of_directAccepted`), for good.
-/

namespace Quantos

open StateManager Runs List Table

variable {V : Type} (env : Platform V)

/-- One call of `apply_transaction`. -/
def directStep (s : StateManager V) (tx : SignedTransaction) : StateManager V :=
  (s.applyTransaction env tx).2

/-- The transactions of a run that returned `Ok`. -/
def directAccepted : StateManager V → List SignedTransaction → List SignedTransaction
  | _, [] => []
  | s, tx :: txs =>
    if (s.applyTransaction env tx).1.isOk then tx :: directAccepted (directStep env s tx) txs
    else directAccepted (directStep env s tx) txs

/-- The call does not pay its own sender, or is rejected. -/
def NotSelfPaying (s : StateManager V) (tx : SignedTransaction) : Prop :=
  tx.transaction.from ≠ tx.transaction.to
    ∨ accepts env s.committeeManager tx (s.view tx.transaction.from) = false

variable {s : StateManager V} {tx : SignedTransaction}

theorem NotSelfPaying.ne (h : NotSelfPaying env s tx) {r : Account × Verdict}
    (hset : (settle env (.plain tx s.committeeManager) (s.view tx.transaction.from)).1 = .ok r) :
    tx.transaction.from ≠ tx.transaction.to :=
  h.resolve_right (by rw [accepts, hset]; exact Bool.true_eq_false_eq_False)

/-- What one call can do, when it is not contractual. -/
theorem directStep_cases (hc : tx.transaction.txType.isContract = false) :
    (∃ e, (settle env (.plain tx s.committeeManager) (s.view tx.transaction.from)).1 = .error e
      ∧ (s.applyTransaction env tx).1.isOk = false ∧ SameLedger s (directStep env s tx)) ∨
    ∃ sender s', (settle env (.plain tx s.committeeManager) (s.view tx.transaction.from)).1
        = .ok (sender, ⟨tx.transaction.to, none, []⟩)
      ∧ (s.applyTransaction env tx).1.isOk = true ∧ SameLedger s s' ∧ directStep env s tx
        = s'.persistAccounts env [sender, credit tx.transaction (s.view tx.transaction.to)]
      ∧ sender.address = tx.transaction.from := by
  obtain ⟨s', hs', -, hrun⟩ := applyTransaction_spec env s hc
  unfold directStep
  cases hset : (settle env (.plain tx s.committeeManager) (s.view tx.transaction.from)).1 with
  | error e =>
    simp only [hset] at hrun
    obtain ⟨_, hrun⟩ := hrun
    rw [hrun]
    exact .inl ⟨e, rfl, rfl, hs'⟩
  | ok r =>
    obtain ⟨sender, hsender⟩ := accepts_iff.mp (by rw [accepts, hset]; rfl)
    simp only [hsender] at hrun
    refine .inr ⟨sender, s', hset.symm.trans hsender, by rw [hrun]; rfl, hs', by rw [hrun], ?_⟩
    exact (settle_address hsender).trans (s.view_address _)

/-! ## Beside the batch executor -/

/-- The two executors give the same verdict on a transaction and leave the
same accounts in storage. -/
def ExecutorsAgree (s : StateManager V) (tx : SignedTransaction) (schedule : Schedule [tx]) :
    Prop :=
  ((s.applyTransaction env tx).1.isOk = true
      ↔ ∃ r ∈ (s.applyTransactionsAtomically env [tx] schedule).1.receipts, r.success = true)
    ∧ ∀ a, (s.applyTransaction env tx).2.storage.get a
      = (s.applyTransactionsAtomically env [tx] schedule).2.storage.get a

theorem batchRun_singleton {s : StateManager V} (hc : tx.transaction.txType.isContract = false)
    {schedule : Schedule [tx]} :
    (batchRun env true s [tx] schedule).1
        = [receiptOf tx (outcome env s.view Table.empty (.plain tx s.committeeManager))]
      ∧ (batchRun env true s [tx] schedule).2.1
        = effect env s.view Table.empty (.plain tx s.committeeManager) := by
  obtain ⟨e, -, -, hplain, _, hrun, -⟩ :=
    executeTransactionOverlay_spec env s tx Table.empty true
  obtain rfl := hplain hc
  simp [batchRun, executeSequence, hrun]

/-- What the two executors leave at an address after an accepted transaction. -/
theorem storage_of_accepted (s : StateManager V) (hc : tx.transaction.txType.isContract = false)
    (schedule : Schedule [tx]) {sender : Account}
    (hset : (settle env (.plain tx s.committeeManager) (s.view tx.transaction.from)).1
      = .ok (sender, ⟨tx.transaction.to, none, []⟩)) (a : Address) :
    (s.applyTransaction env tx).2.storage.get a
        = (if tx.transaction.to = a then
            some (credit tx.transaction (s.view tx.transaction.to))
          else if tx.transaction.from = a then some sender else s.storage.get a)
      ∧ (s.applyTransactionsAtomically env [tx] schedule).2.storage.get a
        = (if tx.transaction.from = a then
            some (keptSender tx.transaction ⟨tx.transaction.to, none, []⟩ sender)
          else if tx.transaction.to = a then
            some (credit tx.transaction (s.view tx.transaction.to))
          else s.storage.get a) := by
  constructor
  · rcases directStep_cases env hc with ⟨_, hset', -⟩ | ⟨sender', _, hset', -, hs', hstep, hsender⟩
    · rw [hset] at hset'; cases hset'
    obtain rfl : sender' = sender := by simpa [hset] using hset'.symm
    rw [← directStep, hstep, persistAccounts_eq, hs'.storage]
    simp only [Table.putAll, foldl_cons, foldl_nil, get_put, credit_address,
      s.view_address, hsender]
  · rw [applyTransactionsAtomically_storage, (batchRun_singleton env hc).2,
      get_effect s.view_address hset]
    simp only [Event.plain, deliver_plain, look_empty]
    by_cases hf : tx.transaction.from = a
    · simp [hf]
    · by_cases ht : tx.transaction.to = a <;> simp [hf, ht]

/-- The executors agree on exactly the transactions that do not pay their
own sender or are rejected anyway. -/
theorem executorsAgree_iff (s : StateManager V) (tx : SignedTransaction)
    (hc : tx.transaction.txType.isContract = false) (schedule : Schedule [tx]) :
    ExecutorsAgree env s tx schedule ↔ tx.transaction.from ≠ tx.transaction.to
        ∨ accepts env s.committeeManager tx (s.view tx.transaction.from) = false := by
  obtain ⟨hreceipts, hoverlay⟩ := batchRun_singleton env hc
  have hsuccess : (∃ r ∈ (s.applyTransactionsAtomically env [tx] schedule).1.receipts,
      r.success = true)
        ↔ accepts env s.committeeManager tx (s.view tx.transaction.from) = true := by
    rw [applyTransactionsAtomically_receipts, hreceipts]
    simp only [mem_singleton, exists_eq_left, receiptOf_outcome_success]
    rfl
  unfold ExecutorsAgree
  rw [hsuccess]
  rcases directStep_cases env hc with ⟨_, hset, hrej, hs'⟩ | ⟨_, _, hset, hok, -⟩
  · -- both reject, and a rejected transaction writes nothing
    have hacc : accepts env s.committeeManager tx (s.view tx.transaction.from) = false := by
      rw [accepts, hset]; rfl
    refine iff_of_true ⟨by rw [hrej, hacc], fun a => ?_⟩ (.inr hacc)
    rw [applyTransactionsAtomically_storage, hoverlay, effect_of_error hset, ← directStep,
      hs'.storage]
    rfl
  · have hacc : accepts env s.committeeManager tx (s.view tx.transaction.from) = true := by
      rw [accepts, hset]; rfl
    have hstorage := storage_of_accepted env s hc schedule hset
    simp only [hok, hacc, true_and, Bool.true_eq_false, or_false]
    constructor
    · -- with `from = to` the direct executor leaves the old nonce behind
      intro hagree hself
      have h := hagree tx.transaction.from
      rw [(hstorage _).1, (hstorage _).2, if_pos hself.symm, if_pos rfl] at h
      have hn := congrArg Account.nonce (Option.some.inj h)
      rw [keptSender, if_pos hself, refund_nonce, credit_nonce, ← hself] at hn
      have hstep := (settle_nonce hset).1
      rw [← hn] at hstep
      omega
    · intro hne a
      rw [(hstorage a).1, (hstorage a).2, keptSender, if_neg hne]
      by_cases hf : tx.transaction.from = a
      · rw [if_pos hf, if_pos hf, if_neg (fun ht => hne (hf.trans ht.symm))]
      · rw [if_neg hf, if_neg hf]

/-- A transfer of an account to itself, accepted by both executors: the
direct one credits the amount without debiting it. -/
theorem executors_disagree_on_self_transfer :
    let s := StateManager.new (Table.empty.put (sampleAccount 1 10 0)) 0 ()
    let tx := sampleTx .transfer 1 1 5 0
    tx.transaction.txType.isContract = false
      ∧ ¬ ExecutorsAgree Platform.sample s tx (Schedule.inOrder [tx]) := by
  refine ⟨rfl, fun h => ?_⟩
  have := h.2 1
  revert this
  decide

/-- The same payment to another account. -/
theorem executors_agree_on_transfer :
    let s := StateManager.new (Table.empty.put (sampleAccount 1 10 0)) 0 ()
    let tx := sampleTx .transfer 1 2 5 0
    ExecutorsAgree Platform.sample s tx (Schedule.inOrder [tx]) := by
  intro s tx
  exact (executorsAgree_iff Platform.sample s tx rfl _).mpr (.inl (by decide))

/-! ## Conservation -/

/-- A coherent ledger holding a fixed total that fits in `u128`. -/
structure Holds (T : Nat) (s : StateManager V) : Prop where
  coherent : s.Coherent
  total : s.total = T
  fits : T < 2 ^ 128

variable {T : Nat}

theorem Holds.of_sameLedger {s' : StateManager V} (h : Holds T s) (hs : SameLedger s s') :
    Holds T s' :=
  ⟨hs.coherent h.coherent, by rw [StateManager.total, hs.storage]; exact h.total, h.fits⟩

theorem Holds.step (h : Holds T s) (hc : tx.transaction.txType.isContract = false)
    (hsafe : NotSelfPaying env s tx) : Holds T (directStep env s tx) := by
  rcases directStep_cases env hc with ⟨_, -, -, hs'⟩ | ⟨sender, _, hset, -, hs', hstep, hfrom⟩
  · exact h.of_sameLedger hs'
  have hne := hsafe.ne env hset
  refine ⟨by rw [hstep]; exact (hs'.coherent h.coherent).persist env _, ?_, h.fits⟩
  obtain ⟨-, -, -, d, -, hd, -, hsender⟩ := settle_ok hset
  have hval : sender.value + sent tx.transaction = (s.view tx.transaction.from).value := by
    rw [hsender]; exact hd.value
  have hpair := h.coherent.value_add_le_total hne
  have hcredit : (credit tx.transaction (s.view tx.transaction.to)).value
      = (s.view tx.transaction.to).value + sent tx.transaction := by
    refine credit_value ?_
    have := h.total
    have := h.fits
    omega
  have hput₁ := sum_put Account.value s.storage sender
  have hput₂ := sum_put Account.value (s.storage.put sender)
    (credit tx.transaction (s.view tx.transaction.to))
  rw [credit_address, s.view_address, get_put_of_ne _ (by rw [hfrom]; exact hne),
    ← h.coherent.value] at hput₂
  rw [hfrom, ← h.coherent.value] at hput₁
  rw [hstep, persistAccounts_eq, StateManager.total, hs'.storage, ← h.total]
  simp only [Table.putAll, foldl_cons, foldl_nil, StateManager.total]
  omega

/-! ## Replay -/

/-- Nonces never go down, and an accepted call lifts its sender's above the
one it used. -/
theorem directStep_nonce (hc : tx.transaction.txType.isContract = false)
    (hsafe : NotSelfPaying env s tx) :
    (∀ a, (s.view a).nonce.toNat ≤ ((directStep env s tx).view a).nonce.toNat) ∧
    ((s.applyTransaction env tx).1.isOk = true →
      (s.view tx.transaction.from).nonce = tx.transaction.nonce ∧ tx.transaction.nonce.toNat
        < ((directStep env s tx).view tx.transaction.from).nonce.toNat) := by
  rcases directStep_cases env hc with ⟨_, -, hrej, hs'⟩ | ⟨sender, _, hset, -, hs', hstep, hfrom⟩
  · rw [hs'.view, hrej]
    exact ⟨fun a => Nat.le_refl _, fun h => by cases h⟩
  obtain ⟨hlift, hnonce⟩ := settle_nonce hset
  have hview : ∀ a, (directStep env s tx).view a
      = if tx.transaction.to = a then credit tx.transaction (s.view tx.transaction.to)
        else if tx.transaction.from = a then sender else s.view a := by
    intro a
    rw [hstep, persistAccounts_view, hs'.view]
    simp only [reverse_cons, reverse_nil, nil_append, cons_append,
      find?_cons, credit_address, s.view_address, hfrom, find?_nil]
    by_cases ht : tx.transaction.to = a
    · simp [ht]
    · by_cases hf : tx.transaction.from = a <;> simp [ht, hf]
  refine ⟨fun a => ?_, fun _ => ⟨hnonce.symm, ?_⟩⟩
  · rw [hview]
    split
    · rename_i ht; subst ht; rw [credit_nonce]
    split
    · rename_i hf; subst hf; omega
    · exact Nat.le_refl _
  · rw [hview, if_neg (hsafe.ne env hset).symm, if_pos rfl, hlift]
    have hn : tx.transaction.nonce = (s.view tx.transaction.from).nonce := hnonce
    rw [hn]
    exact Nat.lt_succ_self _

variable {txs : List SignedTransaction}

/-- Whatever a run accepts carries a nonce the sender had not used before it. -/
theorem nonce_le_of_directAccepted (hc : ∀ tx ∈ txs, tx.transaction.txType.isContract = false)
    (hsafe : StepsMeet (directStep env) (NotSelfPaying env) s txs) :
    ∀ tx ∈ directAccepted env s txs,
      (s.view tx.transaction.from).nonce.toNat ≤ tx.transaction.nonce.toNat := by
  induction txs generalizing s with
  | nil => intro tx htx; cases htx
  | cons head txs ih =>
    obtain ⟨hmono, hacc⟩ := directStep_nonce env (hc head mem_cons_self) hsafe.1
    have hlater : ∀ tx ∈ directAccepted env (directStep env s head) txs,
        (s.view tx.transaction.from).nonce.toNat ≤ tx.transaction.nonce.toNat := fun tx htx =>
      Nat.le_trans (hmono _) (ih (fun tx h => hc tx (mem_cons_of_mem _ h)) hsafe.2 tx htx)
    intro tx htx
    rw [directAccepted] at htx
    split at htx
    · rename_i hok
      rcases mem_cons.mp htx with rfl | htx
      · rw [(hacc hok).1]
      · exact hlater tx htx
    · exact hlater tx htx

theorem directAccepted_pairs_nodup (hc : ∀ tx ∈ txs, tx.transaction.txType.isContract = false)
    (hsafe : StepsMeet (directStep env) (NotSelfPaying env) s txs) :
    ((directAccepted env s txs).map fun tx =>
      (tx.transaction.from, tx.transaction.nonce)).Nodup := by
  induction txs generalizing s with
  | nil => exact nodup_nil
  | cons head txs ih =>
    have hc' : ∀ tx ∈ txs, tx.transaction.txType.isContract = false :=
      fun tx h => hc tx (mem_cons_of_mem _ h)
    rw [directAccepted]
    split
    · rename_i hok
      rw [map_cons, nodup_cons]
      refine ⟨fun hmem => ?_, ih hc' hsafe.2⟩
      -- a later one of the same sender starts above this nonce
      obtain ⟨tx, htx, heq⟩ := mem_map.mp hmem
      obtain ⟨hfrom, hnonce⟩ := Prod.mk.inj heq
      have hfloor := nonce_le_of_directAccepted env hc' hsafe.2 tx htx
      have hlift := ((directStep_nonce env (hc head mem_cons_self) hsafe.1).2 hok).2
      rw [hfrom, hnonce] at hfloor
      omega
    · exact ih hc' hsafe.2

/-! ## Runs -/

/-- In a run whose calls do not pay their own sender, every signed
transaction succeeds at most once and no call mints. -/
theorem directRun_safe (s : StateManager V) (hs : s.Coherent) (hfits : s.total < 2 ^ 128)
    (txs : List SignedTransaction) (hc : ∀ tx ∈ txs, tx.transaction.txType.isContract = false)
    (hsafe : StepsMeet (directStep env) (NotSelfPaying env) s txs) :
    (directAccepted env s txs).Nodup ∧ ∀ pre tx post, txs = pre ++ tx :: post →
      (run (directStep env) s (pre ++ [tx])).total ≤ (run (directStep env) s pre).total := by
  refine ⟨(directAccepted_pairs_nodup env hc hsafe).of_map _, ?_⟩
  rintro pre tx post rfl
  have hmeet := (hsafe.and_mem hc).append
  have hpre : Holds s.total (run (directStep env) s pre) :=
    invariant_of_stepsMeet (fun s tx h hp => h.step env hp.2 hp.1) ⟨hs, rfl, hfits⟩ hmeet.1
  rw [run_append, run_cons, run_nil, (hpre.step env hmeet.2.1.2 hmeet.2.1.1).total, hpre.total]

/-- A transfer to oneself: it succeeds, its nonce stays, and it succeeds
again, crediting the amount each time. -/
theorem self_transfer_replays :
    let s := StateManager.new (empty.put (sampleAccount 1 10 0)) 0 ()
    let tx := sampleTx .transfer 1 1 5 0
    s.Coherent ∧ s.total < 2 ^ 128 ∧ tx.transaction.txType.isContract = false
      ∧ ¬ (directAccepted Platform.sample s [tx, tx]).Nodup
      ∧ s.total < (directStep Platform.sample s tx).total := by
  refine ⟨new_coherent _ _ _, ?_⟩
  decide

/-- Two payments between two accounts, the first one replayed. -/
theorem transfers_safe :
    let s := StateManager.new
      ((empty.put (sampleAccount 1 10 0)).put (sampleAccount 2 0 0)) 0 ()
    let txs := [sampleTx .transfer 1 2 5 0, sampleTx .transfer 2 1 2 0, sampleTx .transfer 1 2 5 0]
    (directAccepted Platform.sample s txs).Nodup ∧
    ∀ pre tx post, txs = pre ++ tx :: post →
      (run (directStep Platform.sample) s (pre ++ [tx])).total
        ≤ (run (directStep Platform.sample) s pre).total := by
  intro s txs
  exact directRun_safe Platform.sample s (new_coherent _ _ _) (by decide) txs
    (by decide) ⟨.inl (by decide), .inl (by decide), .inl (by decide), trivial⟩

end Quantos

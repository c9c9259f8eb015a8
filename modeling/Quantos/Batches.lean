import Quantos.Persistence

/-!
# Whole batches

Both paths of `execute_transactions_overlay` run transactions on overlays
and end by rooting one overlay. `batchRun` is what they have before that
last step - receipts, overlay and manager - and the lemmas here say what a
batch does to the manager it runs on: nothing that an account read could
notice (`batchRun_ledger`). What it does to the overlay is the subject of
the later modules; they all go through `batchRun` and the two recursions
`executeSequence` and `executeGroups`.
-/

namespace Quantos

/-- A transaction with what it finds when it runs. -/
structure Turn where
  tx : SignedTransaction
  overlay : AccountTable
  committee : Option CommitteeManager

/-- The sender's account when the transaction runs. -/
def Turn.sender (v : Address → Account) (t : Turn) : Account :=
  look v t.overlay t.tx.transaction.from

/-- An event that can happen at a turn: engines are asked about contracts
only. -/
structure Event.At (t : Turn) (e : Event) : Prop where
  tx : e.tx = t.tx
  committee : e.committee = t.committee
  plain : t.tx.transaction.txType.isContract = false → e = .plain t.tx t.committee

namespace StateManager

variable {V : Type} (env : Platform V)

theorem executeTransactionOverlay_ledger (s : StateManager V) (tx : SignedTransaction)
    (overlay : AccountTable) (p : Bool) :
    SameLedger s (s.executeTransactionOverlay env tx overlay p).2.2 := by
  obtain ⟨e, -, -, -, _, hrun, hs', -⟩ := executeTransactionOverlay_spec env s tx overlay p
  rw [hrun]
  exact hs'

variable (p : Bool) (s : StateManager V) (overlay : AccountTable)
  (overlays : Address → AccountTable) (tx : SignedTransaction)

theorem executeSequence_cons (txs : List SignedTransaction) :
    executeSequence env p s overlay (tx :: txs)
      = (receiptOf tx (s.executeTransactionOverlay env tx overlay p).1
          :: (executeSequence env p (s.executeTransactionOverlay env tx overlay p).2.2
              (s.executeTransactionOverlay env tx overlay p).2.1 txs).1,
        (executeSequence env p (s.executeTransactionOverlay env tx overlay p).2.2
              (s.executeTransactionOverlay env tx overlay p).2.1 txs).2) := rfl

/-- The group overlays after one transaction. -/
def stepOverlays (p : Bool) (s : StateManager V) (overlays : Address → AccountTable)
    (tx : SignedTransaction) : Address → AccountTable := fun g =>
  if g = tx.transaction.from then
    (s.executeTransactionOverlay env tx (overlays tx.transaction.from) p).2.1
  else overlays g

theorem executeGroups_cons (i : Nat) (order : List (SignedTransaction × Nat)) :
    executeGroups env p s overlays ((tx, i) :: order) = { executeGroups env p
            (s.executeTransactionOverlay env tx (overlays tx.transaction.from) p).2.2
            (stepOverlays env p s overlays tx) order with results := ((tx, i),
              (s.executeTransactionOverlay env tx (overlays tx.transaction.from) p).1)
            :: (executeGroups env p
                (s.executeTransactionOverlay env tx (overlays tx.transaction.from) p).2.2
                (stepOverlays env p s overlays tx) order).results } := rfl

theorem executeSequence_ledger (txs : List SignedTransaction) :
    SameLedger s (executeSequence env p s overlay txs).2.2 := by
  induction txs generalizing s overlay with
  | nil => exact .refl s
  | cons tx txs ih =>
    rw [executeSequence_cons]
    exact (executeTransactionOverlay_ledger ..).trans (ih _ _)

theorem executeGroups_ledger (order : List (SignedTransaction × Nat)) :
    SameLedger s (executeGroups env p s overlays order).manager := by
  induction order generalizing s overlays with
  | nil => exact .refl s
  | cons head order ih =>
    obtain ⟨tx, i⟩ := head
    rw [executeGroups_cons]
    exact (executeTransactionOverlay_ledger ..).trans (ih _ _)

/-! ## Invariants of overlays -/

/-- The events a batch of transactions can give rise to. -/
structure Event.From (txs : List SignedTransaction) (e : Event) : Prop where
  mem : e.tx ∈ txs
  plain : e.tx.transaction.txType.isContract = false → e = .plain e.tx e.committee

theorem Event.From.mono {txs txs' : List SignedTransaction} (h : txs ⊆ txs') {e : Event}
    (he : Event.From txs e) : Event.From txs' e :=
  ⟨h he.mem, he.plain⟩

theorem Event.From.of_at {txs : List SignedTransaction} {t : Turn} {e : Event} (he : Event.At t e)
    (h : t.tx ∈ txs) : Event.From txs e := by
  refine ⟨he.tx ▸ h, fun hc => ?_⟩
  rw [he.tx, he.committee]
  exact he.plain (he.tx ▸ hc)

theorem executeTransactionOverlay_at (s : StateManager V) (tx : SignedTransaction)
    (overlay : AccountTable) (p : Bool) :
    ∃ e, Event.At ⟨tx, overlay, s.committeeManager⟩ e
      ∧ (s.executeTransactionOverlay env tx overlay p).1 = outcome env s.view overlay e
      ∧ (s.executeTransactionOverlay env tx overlay p).2.1 = effect env s.view overlay e
      ∧ (s.executeTransactionOverlay env tx overlay p).2.2.committeeManager
        = (settle env e (look s.view overlay tx.transaction.from)).2 := by
  obtain ⟨e, htx, hcm, hplain, _, hrun, -, hcm'⟩ :=
    executeTransactionOverlay_spec env s tx overlay p
  rw [hrun]
  exact ⟨e, ⟨htx, hcm, hplain⟩, rfl, rfl, hcm'⟩

/-- What the events of a sender preserve holds of its group's overlay. -/
theorem executeGroups_induct {I : Address → AccountTable → Prop} {v : Address → Account}
    {order : List (SignedTransaction × Nat)}
    (hstep : ∀ e overlay, Event.From (order.map Prod.fst) e → I e.tx.transaction.from overlay →
      I e.tx.transaction.from (effect env v overlay e)) :
    ∀ {s : StateManager V} {overlays : Address → AccountTable}, s.view = v →
      (∀ g, I g (overlays g)) → ∀ g, I g ((executeGroups env p s overlays order).overlays g) := by
  induction order with
  | nil => exact fun _ h => h
  | cons head order ih =>
    obtain ⟨tx, i⟩ := head
    intro s overlays hv h
    obtain ⟨e, hat, -, heff, -⟩ :=
      executeTransactionOverlay_at env s tx (overlays tx.transaction.from) p
    have he : Event.From (tx :: order.map Prod.fst) e := .of_at hat List.mem_cons_self
    obtain rfl : e.tx = tx := hat.tx
    rw [executeGroups_cons]
    refine ih (fun e overlay he => hstep e overlay (he.mono (by simp)))
      ((executeTransactionOverlay_ledger ..).view.trans hv) fun g => ?_
    unfold stepOverlays
    by_cases hg : g = e.tx.transaction.from
    · subst hg
      rw [if_pos rfl, heff, hv]
      exact hstep e _ he (h _)
    · rw [if_neg hg]
      exact h g

/-! ## Merging -/

/-- The merge of two versions of one account over a view of the ledger. -/
def mergeOver (v : Address → Account) (existing account : Account) : Account :=
  mergeAccount (v account.address) existing account

theorem mergeOver_address (v : Address → Account) (existing account : Account)
    (_ : existing.address = account.address) :
    (mergeOver v existing account).address = account.address := rfl

/-- The merge loop is the keyed merge over the manager's view. -/
theorem mergeOverlays_spec (rest : List Account) :
    ∃ s', mergeOverlays s overlay rest = (overlay.mergeAll (mergeOver s.view) rest, s')
      ∧ SameLedger s s' ∧ s'.committeeManager = s.committeeManager := by
  induction rest generalizing s overlay with
  | nil => exact ⟨s, rfl, .refl s, rfl⟩
  | cons account rest ih =>
    rw [mergeOverlays, Table.mergeAll, List.foldl_cons]
    cases hget : overlay.get account.address with
    | none => exact ih s _
    | some existing =>
      obtain ⟨s₁, hread, hs₁, hcm₁, -⟩ := s.getAccount_isRead account.address
      simp only [hread]
      obtain ⟨s', hrun, hs', hcm'⟩ := ih s₁
        (overlay.put (mergeAccount (s.view account.address) existing account))
      rw [hs₁.view] at hrun
      exact ⟨s', hrun, hs₁.trans hs', hcm'.trans hcm₁⟩

/-! ## Both paths -/

/-- Receipts, overlay and manager of a batch before its root is taken. -/
def batchRun (p : Bool) (s : StateManager V) (txs : List SignedTransaction)
    (schedule : Schedule txs) : List TransactionReceipt × AccountTable × StateManager V :=
  if txs.length ≤ 8 then executeSequence env p s Table.empty txs
  else
    let run := runGroups env p s schedule.order
    (collectReceipts schedule.groups run.results,
      mergeOverlays run.manager Table.empty (contributions schedule run.overlays))

variable (txs : List SignedTransaction) (schedule : Schedule txs)

theorem executeTransactionsOverlay_eq : s.executeTransactionsOverlay env txs p schedule
      = (batchRun env p s txs schedule).2.2.finishExecution env
          (batchRun env p s txs schedule).1 (batchRun env p s txs schedule).2.1 := by
  unfold executeTransactionsOverlay batchRun
  split <;> rfl

theorem batchRun_ledger : SameLedger s (batchRun env p s txs schedule).2.2 := by
  unfold batchRun
  split
  · exact executeSequence_ledger ..
  obtain ⟨_, hrun, hs', -⟩ := mergeOverlays_spec
    (runGroups env p s schedule.order).manager Table.empty
    (contributions schedule
      (runGroups env p s schedule.order).overlays)
  simp only [hrun]
  exact (executeGroups_ledger ..).trans hs'

theorem batchRun_sequential {txs : List SignedTransaction} (schedule : Schedule txs)
    (h : txs.length ≤ 8) :
    batchRun env p s txs schedule = executeSequence env p s Table.empty txs := by
  rw [batchRun, if_pos h]

/-- The parallel path: receipts by group, overlays merged over the view. -/
theorem batchRun_parallel {txs : List SignedTransaction}
    (schedule : Schedule txs) (h : ¬ txs.length ≤ 8) :
    let run := runGroups env p s schedule.order
    (batchRun env p s txs schedule).1 = collectReceipts schedule.groups run.results ∧
    (batchRun env p s txs schedule).2.1
      = Table.empty.mergeAll (mergeOver s.view) (contributions schedule run.overlays) ∧
    (batchRun env p s txs schedule).2.2.committeeManager = run.manager.committeeManager := by
  intro run
  obtain ⟨_, hrun, -, hcm⟩ := mergeOverlays_spec run.manager Table.empty
    (contributions schedule run.overlays)
  rw [(executeGroups_ledger ..).view] at hrun
  rw [batchRun, if_neg h]
  exact ⟨rfl, congrArg Prod.fst hrun,
    (congrArg (fun r => r.2.committeeManager) hrun).trans hcm⟩

theorem executeTransactionsOverlay_fst (p : Bool) (schedule : Schedule txs) :
    (s.executeTransactionsOverlay env txs p schedule).1
      = ⟨s.overlayRoot env (batchRun env p s txs schedule).2.1,
          (batchRun env p s txs schedule).1, (batchRun env p s txs schedule).2.1.toSorted⟩ := by
  have h := batchRun_ledger env p s txs schedule
  rw [executeTransactionsOverlay_eq, finishExecution_eq]
  unfold overlayRoot loadedIndex
  rw [h.accountHashIndex, h.storage]

theorem executeTransactionsOverlaySequential_fst :
    (s.executeTransactionsOverlaySequential env txs p).1
      = ⟨s.overlayRoot env (executeSequence env p s Table.empty txs).2.1,
          (executeSequence env p s Table.empty txs).1,
          (executeSequence env p s Table.empty txs).2.1.toSorted⟩ := by
  have h := executeSequence_ledger env p s Table.empty txs
  unfold executeTransactionsOverlaySequential
  dsimp only
  rw [finishExecution_eq]
  unfold overlayRoot loadedIndex
  rw [h.accountHashIndex, h.storage]

/-- The manager a batch leaves behind: the index is loaded, the ledger is
the same. -/
theorem executeTransactionsOverlay_snd (p : Bool) (schedule : Schedule txs) : ∃ s', SameLedger s s'
      ∧ s'.committeeManager = (batchRun env p s txs schedule).2.2.committeeManager
      ∧ (s.executeTransactionsOverlay env txs p schedule).2
          = { s' with accountHashIndex := some (s.loadedIndex env) } := by
  have h := batchRun_ledger env p s txs schedule
  refine ⟨_, h, rfl, ?_⟩
  rw [executeTransactionsOverlay_eq, finishExecution_eq]
  unfold loadedIndex
  rw [h.accountHashIndex, h.storage]

theorem applyTransactionsAtomically_storage (a : Address) :
    (s.applyTransactionsAtomically env txs schedule).2.storage.get a
      = ((batchRun env true s txs schedule).2.1.get a).or (s.storage.get a) := by
  obtain ⟨_, hs', -, hsnd⟩ := executeTransactionsOverlay_snd env s txs true schedule
  have hfst := executeTransactionsOverlay_fst env s txs true schedule
  unfold applyTransactionsAtomically prepareTransactions
  rw [commitExecution_storage env _ _ (congrArg StateExecution.accounts hfst), hsnd]
  rw [hs'.storage]

theorem applyTransactionsAtomically_view : (s.applyTransactionsAtomically env txs schedule).2.view
      = look s.view (batchRun env true s txs schedule).2.1 := by
  obtain ⟨_, hs', -, hsnd⟩ := executeTransactionsOverlay_snd env s txs true schedule
  have hfst := executeTransactionsOverlay_fst env s txs true schedule
  have hview : (s.executeTransactionsOverlay env txs true schedule).2.view = s.view := by
    rw [hsnd]
    exact hs'.view
  unfold applyTransactionsAtomically prepareTransactions
  rw [commitExecution_view env _ _ (congrArg StateExecution.accounts hfst), hview]

theorem applyTransactionsAtomically_receipts :
    (s.applyTransactionsAtomically env txs schedule).1.receipts
      = (batchRun env true s txs schedule).1 := by
  have hfst := executeTransactionsOverlay_fst env s txs true schedule
  exact congrArg StateExecution.receipts hfst

theorem applyTransactionsAtomically_committee :
    (s.applyTransactionsAtomically env txs schedule).2.committeeManager
      = (batchRun env true s txs schedule).2.2.committeeManager := by
  obtain ⟨_, -, hcm, hsnd⟩ := executeTransactionsOverlay_snd env s txs true schedule
  unfold applyTransactionsAtomically prepareTransactions commitExecution
  dsimp only
  rw [hsnd, persistAccounts_eq, ← hcm]

theorem Coherent.applyTransactionsAtomically {s : StateManager V} (hs : s.Coherent)
    (txs : List SignedTransaction) (schedule : Schedule txs) :
    (s.applyTransactionsAtomically env txs schedule).2.Coherent := by
  obtain ⟨_, hs', -, hsnd⟩ := executeTransactionsOverlay_snd env s txs true schedule
  have hcoherent : (s.executeTransactionsOverlay env txs true schedule).2.Coherent := by
    rw [hsnd]
    exact hs'.coherent hs
  exact hcoherent.persist env _

end StateManager

end Quantos

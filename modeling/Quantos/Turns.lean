import Quantos.Groups

/-!
# The turns of a batch

What a transaction does depends on what it finds when its turn comes: the
overlay of its run or group, and the committee manager as the transactions
before it left it. `turns` lists both for every transaction of a batch, in
the order in which they run, so that a condition on a batch can speak about
the state before each of its steps. Two rules carry an invariant of overlay
and committee manager from turn to turn.

Registrations and exits reach the committee manager the moment their debit
goes through, whatever becomes of the batch. `setChange` is the change a
turn makes to the validator set, and `batchRun_committee` the committee
manager a batch leaves behind: its set after the changes of all turns, in
the order of the turns.
-/

namespace Quantos

open StateManager List

section

variable {V : Type} (env : Platform V)

/-- The turns of the sequential loop. -/
def sequenceTurns (p : Bool) : StateManager V → AccountTable → List SignedTransaction → List Turn
  | _, _, [] => []
  | s, overlay, tx :: txs =>
    ⟨tx, overlay, s.committeeManager⟩
      :: sequenceTurns p (s.executeTransactionOverlay env tx overlay p).2.2
          (s.executeTransactionOverlay env tx overlay p).2.1 txs

/-- The turns of interleaved groups. -/
def groupTurns (p : Bool) : StateManager V → (Address → AccountTable) →
    List (SignedTransaction × Nat) → List Turn
  | _, _, [] => []
  | s, overlays, (tx, _) :: order =>
    ⟨tx, overlays tx.transaction.from, s.committeeManager⟩
      :: groupTurns p (s.executeTransactionOverlay env tx (overlays tx.transaction.from) p).2.2
          (stepOverlays env p s overlays tx) order

/-- The turns of a batch on the path its length selects. -/
def turns (p : Bool) (s : StateManager V) (txs : List SignedTransaction)
    (schedule : Schedule txs) : List Turn :=
  if txs.length ≤ 8 then sequenceTurns env p s Table.empty txs
  else groupTurns env p s (fun _ => Table.empty) schedule.order

variable (p : Bool)

theorem sequenceTurns_map (s : StateManager V) (overlay : AccountTable)
    (txs : List SignedTransaction) : (sequenceTurns env p s overlay txs).map Turn.tx = txs := by
  induction txs generalizing s overlay with
  | nil => rfl
  | cons tx txs ih => rw [sequenceTurns, map_cons, ih]

theorem groupTurns_map (s : StateManager V) (overlays : Address → AccountTable)
    (order : List (SignedTransaction × Nat)) :
    (groupTurns env p s overlays order).map Turn.tx = order.map Prod.fst := by
  induction order generalizing s overlays with
  | nil => rfl
  | cons head order ih =>
    obtain ⟨_, i⟩ := head
    rw [groupTurns, map_cons, ih, map_cons]

variable {txs : List SignedTransaction}

theorem mem_of_turns {p : Bool} {s : StateManager V} {schedule : Schedule txs} {t : Turn}
    (h : t ∈ turns env p s txs schedule) : t.tx ∈ txs := by
  unfold turns at h
  split at h
  · have hmem := mem_map_of_mem (f := Turn.tx) h
    rwa [sequenceTurns_map] at hmem
  have hmem := mem_map_of_mem (f := Turn.tx) h
  rw [groupTurns_map] at hmem
  obtain ⟨_, hti, htx⟩ := mem_map.mp hmem
  exact htx ▸ schedule.mem_of_order hti

variable {v : Address → Account}

theorem executeSequence_turns {I : Option CommitteeManager → AccountTable → Prop} :
    ∀ {s : StateManager V} {overlay : AccountTable}, s.view = v →
      (∀ t ∈ sequenceTurns env p s overlay txs, ∀ e, Event.At t e → I t.committee t.overlay →
        I (settle env e (t.sender v)).2 (effect env v t.overlay e)) → I s.committeeManager overlay →
      I (executeSequence env p s overlay txs).2.2.committeeManager
        (executeSequence env p s overlay txs).2.1 := by
  induction txs with
  | nil => exact fun _ _ h => h
  | cons tx txs ih =>
    intro s overlay hv hstep h
    obtain ⟨e, he, -, heff, hcm⟩ := executeTransactionOverlay_at env s tx overlay p
    rw [executeSequence_cons]
    refine ih ((executeTransactionOverlay_ledger ..).view.trans hv)
      (fun t ht => hstep t (mem_cons_of_mem _ ht)) ?_
    rw [heff, hcm, hv]
    exact hstep _ mem_cons_self e he h

theorem executeGroups_turns {I : Option CommitteeManager → (Address → AccountTable) → Prop}
    {order : List (SignedTransaction × Nat)} :
    ∀ {s : StateManager V} {overlays : Address → AccountTable}, s.view = v →
      (∀ t ∈ groupTurns env p s overlays order, ∀ e, Event.At t e → ∀ overlays,
        overlays t.tx.transaction.from = t.overlay → I t.committee overlays →
        I (settle env e (t.sender v)).2
          (fun g => if g = t.tx.transaction.from then effect env v t.overlay e else overlays g)) →
      I s.committeeManager overlays →
      I (executeGroups env p s overlays order).manager.committeeManager
        (executeGroups env p s overlays order).overlays := by
  induction order with
  | nil => exact fun _ _ h => h
  | cons head order ih =>
    obtain ⟨tx, i⟩ := head
    intro s overlays hv hstep h
    obtain ⟨e, he, -, heff, hcm⟩ :=
      executeTransactionOverlay_at env s tx (overlays tx.transaction.from) p
    rw [executeGroups_cons]
    refine ih ((executeTransactionOverlay_ledger ..).view.trans hv)
      (fun t ht => hstep t (mem_cons_of_mem _ ht)) ?_
    have hnew := hstep _ mem_cons_self e he overlays rfl h
    unfold stepOverlays
    rw [heff, hcm, hv]
    exact hnew

end

/-! ## Changes of the validator set -/

inductive SetChange where
  | enter (v : Validator)
  | leave (address : Address)

def ValidatorSet.change (set : ValidatorSet) : SetChange → ValidatorSet
  | .enter v => set.enter v
  | .leave a => set.leave a

/-- The change a transaction makes if it gets that far. -/
def changeOf (tx : Transaction) : Option SetChange :=
  match tx.txType with
  | .validatorRegister => some (.enter (registration tx))
  | .validatorExit => some (.leave tx.from)
  | _ => none

theorem committee_eta (cm : Option CommitteeManager) :
    cm = cm.map fun c => ⟨c.validatorSet⟩ := by
  cases cm <;> rfl

theorem debit_change {cm cm' : Option CommitteeManager} {tx : Transaction} {a a' : Account}
    (h : debit cm tx a = .ok (a', cm')) :
    cm' = cm.map fun c => ⟨(changeOf tx).elim c.validatorSet c.validatorSet.change⟩ := by
  unfold debit at h
  unfold changeOf
  cases ht : tx.txType with
  | transfer | contractCall | stake | unstake | stakeTransfer =>
    rw [ht] at h
    rw [(reported_ok h).2]
    exact committee_eta _
  | contractDeploy =>
    rw [ht] at h
    cases h
    exact committee_eta _
  | validatorRegister =>
    rw [ht] at h
    obtain ⟨-, -, -, hcm, -⟩ := validatorRegister_ok h
    exact hcm
  | validatorExit =>
    rw [ht] at h
    obtain ⟨-, -, -, hcm⟩ := validatorExit_ok h
    exact hcm

section

variable {V : Type} (env : Platform V)

/-- Signature, amount, nonce and debit of a turn are in order. The nonce
range is checked later. -/
def Turn.passes (v : Address → Account) (t : Turn) : Bool :=
  (checkTransaction env t.tx.transaction).isOk
    && (checkNonce t.tx.transaction (t.sender v)).isOk
    && (debit t.committee t.tx.transaction (t.sender v)).isOk

/-- The change a turn makes to the validator set. -/
def setChange (v : Address → Account) (t : Turn) : Option SetChange :=
  if t.passes env v then changeOf t.tx.transaction else none

variable {v : Address → Account} {t : Turn}

/-- What becomes of the committee manager at a turn. Contracts do not reach
it, whatever their engine answers. -/
theorem settle_change {e : Event} (he : Event.At t e) :
    (settle env e (t.sender v)).2 = t.committee.map fun c =>
      ⟨(setChange env v t).elim c.validatorSet c.validatorSet.change⟩ := by
  unfold settle setChange Turn.passes
  rw [he.tx, he.committee]
  cases checkTransaction env t.tx.transaction with
  | error => exact committee_eta _
  | ok =>
    cases checkNonce t.tx.transaction (t.sender v) with
    | error => exact committee_eta _
    | ok =>
      cases hd : debit t.committee t.tx.transaction (t.sender v) with
      | error => exact committee_eta _
      | ok r =>
        obtain ⟨a, _⟩ := r
        have hcm := debit_change hd
        cases e.verdict with
        | error => exact hcm
        | ok =>
          dsimp only
          cases a.incrementNonce <;> exact hcm

/-! ## Whole batches -/

/-- The changes of a list of turns. -/
def changes (v : Address → Account) (ts : List Turn) : List SetChange :=
  ts.filterMap (setChange env v)

theorem map_changes_cons {ts : List Turn} {cm : Option CommitteeManager} :
    ((cm.map fun c => (⟨(setChange env v t).elim c.validatorSet c.validatorSet.change⟩ :
        CommitteeManager)).map fun c =>
          (⟨(changes env v ts).foldl ValidatorSet.change c.validatorSet⟩ : CommitteeManager))
      = cm.map fun c => ⟨(changes env v (t :: ts)).foldl ValidatorSet.change c.validatorSet⟩ := by
  rw [Option.map_map]
  unfold changes
  rw [List.filterMap_cons]
  cases setChange env v t <;> rfl

variable {txs : List SignedTransaction} (p : Bool)

theorem executeSequence_committee :
    ∀ {s : StateManager V} {overlay : AccountTable}, s.view = v →
      (executeSequence env p s overlay txs).2.2.committeeManager
        = s.committeeManager.map fun c =>
            ⟨(changes env v (sequenceTurns env p s overlay txs)).foldl ValidatorSet.change
              c.validatorSet⟩ := by
  induction txs with
  | nil => exact fun _ => committee_eta _
  | cons tx txs ih =>
    intro s overlay hv
    obtain ⟨e, he, -, -, hcm⟩ := executeTransactionOverlay_at env s tx overlay p
    rw [executeSequence_cons, sequenceTurns, ← map_changes_cons, ← settle_change _ he]
    rw [hv] at hcm
    rw [ih ((executeTransactionOverlay_ledger ..).view.trans hv), hcm]
    rfl

theorem executeGroups_committee {order : List (SignedTransaction × Nat)} :
    ∀ {s : StateManager V} {overlays : Address → AccountTable}, s.view = v →
      (executeGroups env p s overlays order).manager.committeeManager
        = s.committeeManager.map fun c =>
            ⟨(changes env v (groupTurns env p s overlays order)).foldl ValidatorSet.change
              c.validatorSet⟩ := by
  induction order with
  | nil => exact fun _ => committee_eta _
  | cons head order ih =>
    obtain ⟨tx, i⟩ := head
    intro s overlays hv
    obtain ⟨e, he, -, -, hcm⟩ :=
      executeTransactionOverlay_at env s tx (overlays tx.transaction.from) p
    rw [executeGroups_cons, groupTurns, ← map_changes_cons, ← settle_change _ he]
    rw [hv] at hcm
    rw [ih ((executeTransactionOverlay_ledger ..).view.trans hv), hcm]
    rfl

theorem batchRun_committee (s : StateManager V) (schedule : Schedule txs) :
    (batchRun env p s txs schedule).2.2.committeeManager
      = s.committeeManager.map fun c =>
          ⟨(changes env s.view (turns env p s txs schedule)).foldl ValidatorSet.change
            c.validatorSet⟩ := by
  unfold turns
  split
  · rename_i hlen
    rw [batchRun_sequential _ p s _ hlen]
    exact executeSequence_committee env p rfl
  rename_i hlen
  rw [(batchRun_parallel env p s schedule hlen).2.2]
  exact executeGroups_committee env p rfl

end

end Quantos

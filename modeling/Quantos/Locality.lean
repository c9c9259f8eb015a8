import Quantos.MergedOverlay
import Quantos.Turns

/-!
# What a batch depends on

A batch without contracts reads the accounts its transactions name and,
if it registers validators, the committee manager. Two managers that agree
on these run it alike: same receipts, same overlay (`batchRun_alike`).
-/

namespace Quantos

open StateManager List

/-- The addresses a transaction names. -/
def Names (tx : SignedTransaction) (a : Address) : Prop :=
  a = tx.transaction.from ∨ a = tx.transaction.to

section

variable {V : Type} (env : Platform V)

/-! ## One transaction -/

variable {tx : SignedTransaction} {cm' cm : Option CommitteeManager}

section

variable {v v' : Address → Account} {overlay : AccountTable}
  (hcm : tx.transaction.txType = .validatorRegister → cm = cm')

include hcm

theorem settle_alike (sender : Account) :
    (settle env (.plain tx cm) sender).1 = (settle env (.plain tx cm') sender).1 := by
  by_cases hreg : tx.transaction.txType = .validatorRegister
  · rw [hcm hreg]
  · exact settle_committee hreg cm cm' sender

/-- Receipt and overlay of a transaction only depend on the accounts it
names. -/
theorem plain_alike (hview : ∀ a, Names tx a → look v overlay a = look v' overlay a) :
    outcome env v overlay (.plain tx cm) = outcome env v' overlay (.plain tx cm')
      ∧ effect env v overlay (.plain tx cm) = effect env v' overlay (.plain tx cm') := by
  have hset : (settle env (.plain tx cm) (look v overlay tx.transaction.from)).1
      = (settle env (.plain tx cm') (look v' overlay tx.transaction.from)).1 := by
    rw [hview _ (.inl rfl)]
    exact settle_alike env hcm _
  constructor
  · unfold outcome
    rw [Event.plain_tx, hset]
    rfl
  · unfold effect
    rw [Event.plain_tx, hset, Event.plain_tx]
    cases hres : (settle env (.plain tx cm') (look v' overlay tx.transaction.from)).1 with
    | error => rfl
    | ok r =>
      obtain ⟨_, w⟩ := r
      obtain rfl : Verdict.mk tx.transaction.to none [] = w :=
        Except.ok.inj (settle_ok hres).2.2.1
      dsimp only
      rw [hview _ (.inr rfl)]

end

theorem executeTransactionOverlay_plain (s : StateManager V)
    (hc : tx.transaction.txType.isContract = false) (overlay : AccountTable) (p : Bool) :
    (s.executeTransactionOverlay env tx overlay p).1
        = outcome env s.view overlay (.plain tx s.committeeManager)
      ∧ (s.executeTransactionOverlay env tx overlay p).2.1
        = effect env s.view overlay (.plain tx s.committeeManager)
      ∧ (s.executeTransactionOverlay env tx overlay p).2.2.committeeManager
        = (settle env (.plain tx s.committeeManager)
            (look s.view overlay tx.transaction.from)).2 := by
  obtain ⟨e, he, hout, heff, hcm⟩ := executeTransactionOverlay_at env s tx overlay p
  have hplain := he.plain hc
  subst hplain
  exact ⟨hout, heff, hcm⟩

/-! ## Batches -/

/-- Two managers a batch cannot tell apart. -/
structure Alike (txs : List SignedTransaction) (s s' : StateManager V) : Prop where
  view : ∀ tx ∈ txs, ∀ a, Names tx a → s.view a = s'.view a
  committee : s.committeeManager = s'.committeeManager
    ∨ ∀ tx ∈ txs, tx.transaction.txType ≠ .validatorRegister

variable {txs : List SignedTransaction} {s' s : StateManager V}

theorem Alike.tail (h : Alike (tx :: txs) s s') : Alike txs s s' :=
  ⟨fun tx' h' => h.view tx' (mem_cons_of_mem _ h'),
    h.committee.imp id fun h tx' h' => h tx' (mem_cons_of_mem _ h')⟩

theorem Alike.step (h : Alike (tx :: txs) s s') (hc : tx.transaction.txType.isContract = false)
    (overlay : AccountTable) (p : Bool) :
    (s.executeTransactionOverlay env tx overlay p).1
        = (s'.executeTransactionOverlay env tx overlay p).1
      ∧ (s.executeTransactionOverlay env tx overlay p).2.1
        = (s'.executeTransactionOverlay env tx overlay p).2.1
      ∧ Alike txs (s.executeTransactionOverlay env tx overlay p).2.2
          (s'.executeTransactionOverlay env tx overlay p).2.2 := by
  obtain ⟨hout, heff, hcm⟩ := executeTransactionOverlay_plain env s hc overlay p
  obtain ⟨hout', heff', hcm'⟩ := executeTransactionOverlay_plain env s' hc overlay p
  have hlook : ∀ a, Names tx a → look s.view overlay a = look s'.view overlay a := by
    intro a ha
    rw [look, look, h.view tx mem_cons_self a ha]
  have hreg : tx.transaction.txType = .validatorRegister →
      s.committeeManager = s'.committeeManager := fun ht =>
    h.committee.resolve_right fun hno => hno tx mem_cons_self ht
  obtain ⟨ho, he⟩ := plain_alike env hreg hlook
  refine ⟨by rw [hout, hout', ho], by rw [heff, heff', he], ?_, ?_⟩
  · rw [(executeTransactionOverlay_ledger ..).view, (executeTransactionOverlay_ledger ..).view]
    exact h.tail.view
  · refine h.tail.committee.imp (fun hsame => ?_) id
    rw [hcm, hcm', hsame, hlook _ (.inl rfl)]

variable (p : Bool)

theorem executeSequence_alike (hc : ∀ tx ∈ txs, tx.transaction.txType.isContract = false) :
    ∀ {s s' : StateManager V} {overlay : AccountTable}, Alike txs s s' →
      (executeSequence env p s overlay txs).1 = (executeSequence env p s' overlay txs).1
        ∧ (executeSequence env p s overlay txs).2.1
          = (executeSequence env p s' overlay txs).2.1 := by
  induction txs with
  | nil => exact fun _ => ⟨rfl, rfl⟩
  | cons tx txs ih =>
    intro s s' overlay h
    obtain ⟨hout, heff, halike⟩ := h.step env (hc tx mem_cons_self) overlay p
    obtain ⟨hrest, hrest'⟩ := ih (fun tx h => hc tx (mem_cons_of_mem _ h)) halike
    rw [executeSequence_cons, executeSequence_cons, hout, heff]
    rw [hrest, hrest']
    exact ⟨rfl, rfl⟩

variable {order : List (SignedTransaction × Nat)}

theorem executeGroups_alike (hc : ∀ ti ∈ order, ti.1.transaction.txType.isContract = false) :
    ∀ {s s' : StateManager V} {overlays : Address → AccountTable}, Alike (order.map Prod.fst) s s' →
      (executeGroups env p s overlays order).results
          = (executeGroups env p s' overlays order).results
        ∧ (executeGroups env p s overlays order).overlays
          = (executeGroups env p s' overlays order).overlays := by
  induction order with
  | nil => exact fun _ => ⟨rfl, rfl⟩
  | cons head order ih =>
    obtain ⟨tx, i⟩ := head
    intro s s' overlays h
    obtain ⟨hout, heff, halike⟩ := Alike.step env h (hc _ mem_cons_self)
      (overlays tx.transaction.from) p
    have hstep : stepOverlays env p s overlays tx = stepOverlays env p s' overlays tx := by
      funext g
      rw [stepOverlays, stepOverlays, heff]
    obtain ⟨hrest, hrest'⟩ := @ih (fun ti h => hc ti (mem_cons_of_mem _ h)) _ _
      (stepOverlays env p s overlays tx) halike
    rw [executeGroups_cons, executeGroups_cons, hout, ← hstep, hrest]
    exact ⟨rfl, hrest'⟩

theorem executeGroups_named (s : StateManager V)
    (hc : ∀ ti ∈ order, ti.1.transaction.txType.isContract = false) (g : Address) :
    ∀ a acc, ((runGroups env p s order).overlays g).get a = some acc →
      ∃ tx ∈ order.map Prod.fst, Names tx a := by
  refine executeGroups_induct env (I := fun _ overlay => ∀ a acc, overlay.get a = some acc →
    ∃ tx ∈ order.map Prod.fst, Names tx a) (v := s.view) p ?_ rfl (fun _ _ _ h => by cases h) g
  intro e overlay he h a acc hget
  obtain ⟨ti, hti, htx⟩ := mem_map.mp he.mem
  have hplain := he.plain (htx ▸ hc ti hti)
  cases hset : (settle env e (look s.view overlay e.tx.transaction.from)).1 with
  | error =>
    rw [effect_of_error hset] at hget
    exact h a acc hget
  | ok r =>
    obtain ⟨_, w⟩ := r
    have hw : w.address = e.tx.transaction.to := by
      have hverdict := (settle_ok hset).2.2.1
      rw [hplain] at hverdict
      rw [← Except.ok.inj hverdict]
    rw [get_effect s.view_address hset] at hget
    split at hget
    · rename_i hfrom
      exact ⟨e.tx, he.mem, .inl hfrom.symm⟩
    split at hget
    · rename_i hto
      exact ⟨e.tx, he.mem, .inr (hto ▸ hw)⟩
    · exact h a acc hget

section

variable (hc : ∀ tx ∈ txs, tx.transaction.txType.isContract = false) (schedule : Schedule txs)
  (h : Alike txs s s')

include hc h

theorem batchRun_alike : (batchRun env p s txs schedule).1 = (batchRun env p s' txs schedule).1
      ∧ (batchRun env p s txs schedule).2.1 = (batchRun env p s' txs schedule).2.1 := by
  by_cases hlen : txs.length ≤ 8
  · rw [batchRun_sequential _ p s _ hlen, batchRun_sequential _ p _ _ hlen]
    exact executeSequence_alike env p hc h
  obtain ⟨hrec, hov, -⟩ := batchRun_parallel env p s schedule hlen
  obtain ⟨hrec', hov', -⟩ := batchRun_parallel env p s' schedule hlen
  have hc' : ∀ ti ∈ schedule.order, ti.1.transaction.txType.isContract = false :=
    fun ti hti => hc _ (schedule.mem_of_order hti)
  have hmem : ∀ tx ∈ schedule.order.map Prod.fst, tx ∈ txs := by
    intro tx htx
    obtain ⟨ti, hti, rfl⟩ := mem_map.mp htx
    exact schedule.mem_of_order hti
  obtain ⟨hresults, hoverlays⟩ := @executeGroups_alike V env p schedule.order hc' s s'
    (fun _ => Table.empty) ⟨fun tx htx => h.view tx (hmem tx htx),
      h.committee.imp id fun hno tx htx => hno tx (hmem tx htx)⟩
  rw [hrec, hrec', hov, hov', hresults, hoverlays]
  refine ⟨rfl, Table.mergeAll_congr fun r hr e => ?_⟩
  obtain ⟨g, -, hget⟩ := mem_contributions hr
  rw [← hoverlays] at hget
  obtain ⟨tx, htx, hname⟩ := executeGroups_named env p s hc' g r.address r hget
  rw [mergeOver, mergeOver, h.view _ (hmem tx htx) _ hname]

/-- A vertex prepared on one of two alike managers is what applying it to
the other would give. -/
theorem prepareTransactions_alike : (s.prepareTransactions env txs schedule).1.receipts
        = (s'.applyTransactionsAtomically env txs schedule).1.receipts
      ∧ (s.prepareTransactions env txs schedule).1.accounts
        = (batchRun env true s' txs schedule).2.1.toSorted := by
  obtain ⟨hreceipts, hoverlay⟩ := batchRun_alike env true hc schedule h
  have hfst := executeTransactionsOverlay_fst env s txs true schedule
  unfold prepareTransactions
  rw [applyTransactionsAtomically_receipts, hfst, hreceipts, hoverlay]
  exact ⟨rfl, rfl⟩

end

end

end Quantos

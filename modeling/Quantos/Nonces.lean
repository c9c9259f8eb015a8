import Quantos.Locality

/-!
# Nonces

A transaction is accepted at exactly one nonce of its sender and moves it
up, and nothing else moves a nonce. So the nonces of a batch's accepted
transactions lie between the sender's nonce before the batch and the one
after it (`batchRun_spends`), which is what keeps a nonce from being used
twice. The merge of the parallel path keeps the nonce of the sender's own
group (`executeGroups_merged_nonce`).
-/

namespace Quantos

open StateManager List

/-- A transaction that its batch accepted. -/
def Succeeds (txs : List SignedTransaction) (receipts : List TransactionReceipt)
    (tx : SignedTransaction) : Prop :=
  ∃ r, (tx, r) ∈ txs.zip receipts ∧ r.success = true

instance decidableSucceeds (txs : List SignedTransaction) (receipts : List TransactionReceipt)
    (tx : SignedTransaction) : Decidable (Succeeds txs receipts tx) :=
  decidable_of_iff (∃ q ∈ txs.zip receipts, q.1 = tx ∧ q.2.success = true)
    ⟨fun ⟨q, hq, htx, hok⟩ => ⟨q.2, htx ▸ hq, hok⟩, fun ⟨r, hr, hok⟩ => ⟨(tx, r), hr, rfl, hok⟩⟩

/-- The nonce of `tx` is one its sender had before and has no longer. -/
def Spends (before after : Address → Account) (tx : SignedTransaction) : Prop :=
  (before tx.transaction.from).nonce.toNat ≤ tx.transaction.nonce.toNat
    ∧ tx.transaction.nonce.toNat < (after tx.transaction.from).nonce.toNat

section

variable {V : Type} (env : Platform V) {v : Address → Account} (hv : ∀ a, (v a).address = a)
include hv

/-! ## One transaction -/

theorem effect_nonce_le (overlay : AccountTable) (e : Event) (a : Address) :
    (look v overlay a).nonce.toNat ≤ (look v (effect env v overlay e) a).nonce.toNat := by
  by_cases ha : a = e.tx.transaction.from
  · subst ha
    cases hset : (settle env e (look v overlay e.tx.transaction.from)).1 with
    | error => rw [effect_of_error hset]
    | ok r =>
      obtain ⟨_, w⟩ := r
      rw [look_effect hv hset, if_pos rfl, keptSender_nonce, (settle_nonce hset).1]
      exact Nat.le_succ _
  · rw [(look_effect_others env hv ha).2.2.2]

theorem effect_spends {overlay : AccountTable} {e : Event}
    (hok : (settle env e (look v overlay e.tx.transaction.from)).1.isOk = true) :
    Spends (look v overlay) (look v (effect env v overlay e)) e.tx := by
  cases hset : (settle env e (look v overlay e.tx.transaction.from)).1 with
  | error =>
    rw [hset] at hok
    cases hok
  | ok r =>
    obtain ⟨_, w⟩ := r
    obtain ⟨hup, heq⟩ := settle_nonce hset
    unfold Spends
    rw [look_effect hv hset, if_pos rfl, keptSender_nonce, hup, heq]
    exact ⟨Nat.le_refl _, Nat.lt_succ_self _⟩

end

section

variable {V : Type} (env : Platform V) (p : Bool) (s : StateManager V)
  {v : Address → Account} {txs : List SignedTransaction} (schedule : Schedule txs)

theorem executeTransactionOverlay_spends {tx : SignedTransaction} {overlay : AccountTable}
    {p : Bool} :
    (∀ a, (look s.view overlay a).nonce.toNat
        ≤ (look s.view (s.executeTransactionOverlay env tx overlay p).2.1 a).nonce.toNat)
      ∧ ((receiptOf tx (s.executeTransactionOverlay env tx overlay p).1).success = true →
        Spends (look s.view overlay)
          (look s.view (s.executeTransactionOverlay env tx overlay p).2.1) tx) := by
  obtain ⟨e, he, hout, heff, -⟩ := executeTransactionOverlay_at env s tx overlay p
  have htx : e.tx = tx := he.tx
  rw [hout, heff]
  refine ⟨effect_nonce_le env s.view_address overlay e, fun hok => ?_⟩
  rw [receiptOf_outcome_success] at hok
  exact htx ▸ effect_spends env s.view_address hok

/-! ## Batches -/

theorem executeSequence_spends : ∀ {s : StateManager V} {overlay : AccountTable}, s.view = v →
      (∀ a, (look v overlay a).nonce.toNat
          ≤ (look v (executeSequence env p s overlay txs).2.1 a).nonce.toNat)
        ∧ ∀ tx, Succeeds txs (executeSequence env p s overlay txs).1 tx →
          Spends (look v overlay) (look v (executeSequence env p s overlay txs).2.1) tx := by
  induction txs with
  | nil => exact fun _ => ⟨fun _ => Nat.le_refl _, by rintro tx ⟨r, hr, -⟩; cases hr⟩
  | cons tx txs ih =>
    intro s overlay hs
    subst hs
    obtain ⟨hup, hspend⟩ := executeTransactionOverlay_spends env s
    obtain ⟨hup', hspend'⟩ := @ih (s.executeTransactionOverlay env tx overlay p).2.2
      (s.executeTransactionOverlay env tx overlay p).2.1
      (executeTransactionOverlay_ledger ..).view
    rw [executeSequence_cons]
    refine ⟨fun a => (hup a).trans (hup' a), ?_⟩
    rintro tx' ⟨r, hr, hok⟩
    rcases mem_cons.mp hr with heq | hr
    · obtain ⟨rfl, rfl⟩ := Prod.mk.inj heq
      exact ⟨(hspend hok).1, (hspend hok).2.trans_le (hup' _)⟩
    · have hrest := hspend' tx' ⟨r, hr, hok⟩
      exact ⟨(hup _).trans hrest.1, hrest.2⟩

theorem executeGroups_spends {order : List (SignedTransaction × Nat)} :
    ∀ {s : StateManager V} {overlays : Address → AccountTable}, s.view = v →
      (∀ g a, (look v (overlays g) a).nonce.toNat
          ≤ (look v ((executeGroups env p s overlays order).overlays g) a).nonce.toNat)
        ∧ ∀ r ∈ (executeGroups env p s overlays order).results,
          (receiptOf r.1.1 r.2).success = true → Spends (look v (overlays r.1.1.transaction.from))
            (look v ((executeGroups env p s overlays order).overlays r.1.1.transaction.from))
            r.1.1 := by
  induction order with
  | nil => exact fun _ => ⟨fun _ _ => Nat.le_refl _, by intro r hr; cases hr⟩
  | cons head order ih =>
    obtain ⟨tx, i⟩ := head
    intro s overlays hs
    subst hs
    obtain ⟨hup, hspend⟩ :=
      executeTransactionOverlay_spends env s
    obtain ⟨hup', hspend'⟩ := @ih
      (s.executeTransactionOverlay env tx (overlays tx.transaction.from) p).2.2
      (stepOverlays env p s overlays tx) (executeTransactionOverlay_ledger ..).view
    have hown : stepOverlays env p s overlays tx tx.transaction.from
        = (s.executeTransactionOverlay env tx (overlays tx.transaction.from) p).2.1 :=
      if_pos rfl
    have hstep : ∀ g a, (look s.view (overlays g) a).nonce.toNat
        ≤ (look s.view (stepOverlays env p s overlays tx g) a).nonce.toNat := by
      intro g a
      by_cases hg : g = tx.transaction.from
      · rw [hg, hown]
        exact hup a
      · rw [stepOverlays, if_neg hg]
    rw [executeGroups_cons]
    refine ⟨fun g a => (hstep g a).trans (hup' g a), fun r hr hok => ?_⟩
    rcases mem_cons.mp hr with rfl | hr
    · have hnow := hspend hok
      rw [← hown] at hnow
      exact ⟨hnow.1, hnow.2.trans_le (hup' _ _)⟩
    · have hrest := hspend' r hr hok
      exact ⟨(hstep _ _).trans hrest.1, hrest.2⟩

theorem executeGroups_merged_nonce (a : Address) : (look s.view (merged s.view schedule
        (runGroups env p s schedule.order).overlays) a).nonce
      = (look s.view ((runGroups env p s schedule.order).overlays a) a).nonce := by
  have hup := (@executeGroups_spends V env p s.view schedule.order s (fun _ => Table.empty) rfl).1
  exact look_merged_nonce schedule (executeGroups_idle env schedule p s)
    (fun g hg => (executeGroups_others env p s schedule.order hg.symm).2) (hup a a)

/-- A batch takes no nonce down and spends the nonces of the transactions
it accepts. -/
theorem batchRun_spends : (∀ a, (s.view a).nonce.toNat
        ≤ (look s.view (batchRun env p s txs schedule).2.1 a).nonce.toNat)
      ∧ ∀ tx, Succeeds txs (batchRun env p s txs schedule).1 tx →
        Spends s.view (look s.view (batchRun env p s txs schedule).2.1) tx := by
  by_cases hlen : txs.length ≤ 8
  · rw [batchRun_sequential _ p s _ hlen]
    exact @executeSequence_spends V env p s.view txs s Table.empty rfl
  obtain ⟨hrec, hov, -⟩ := batchRun_parallel env p s schedule hlen
  obtain ⟨hup, hspend⟩ := @executeGroups_spends V env p s.view schedule.order s
    (fun _ => Table.empty) rfl
  rw [hrec, hov]
  have hnonce := executeGroups_merged_nonce env p s schedule
  unfold merged at hnonce
  refine ⟨fun a => ?_, ?_⟩
  · rw [hnonce]
    exact hup a a
  · rintro tx ⟨r, hr, hok⟩
    obtain ⟨sorted, hperm, htxs, hreceipts⟩ := collectReceipts_sorted schedule
      (executeGroups_results_map env p s _ schedule.order)
    have hzip : txs.zip (sorted.map fun r => receiptOf r.1.1 r.2)
        = sorted.map fun r => (r.1.1, receiptOf r.1.1 r.2) := by
      conv_lhs => rw [← map_fst_of_zipIdx htxs]
      rw [zip_map']
    rw [hreceipts, hzip] at hr
    obtain ⟨q, hq, heq⟩ := mem_map.mp hr
    obtain ⟨rfl, rfl⟩ := Prod.mk.inj heq
    have hown := hspend q (hperm.mem_iff.mp hq) hok
    refine ⟨hown.1, ?_⟩
    rw [hnonce]
    exact hown.2

end

end Quantos

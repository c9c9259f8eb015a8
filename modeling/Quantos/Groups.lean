import Quantos.Batches
import Quantos.Grouping

/-!
# The sender groups of a parallel batch

In the parallel path a group only ever sees its own overlay and the
committee manager, so its outcome is a replay of its own transactions
(`executeGroups_replay`): the events of the run, filtered by sender,
folded over an empty overlay. What the schedule decides is the committee
manager each event meets and the order in which the pieces are put
together again, and `collectReceipts_eq` shows that the latter is undone
for the receipts by sorting.
-/

namespace Quantos

open StateManager List

/-- A result with the transaction and the batch index it belongs to. -/
abbrev Tagged (α : Type) := (SignedTransaction × Nat) × α

section

variable {V : Type} (env : Platform V)

/-- Results and overlay of indexed events run one after another. -/
def replay (v : Address → Account) : AccountTable → List (Event × Nat) →
    List (Tagged (Except StateError TransactionReceipt)) × AccountTable
  | overlay, [] => ([], overlay)
  | overlay, (e, i) :: rest =>
    (((e.tx, i), outcome env v overlay e) :: (replay v (effect env v overlay e) rest).1,
      (replay v (effect env v overlay e) rest).2)

/-- The events of an interleaved run without contracts. -/
def groupTrace (p : Bool) : StateManager V → (Address → AccountTable) →
    List (SignedTransaction × Nat) → List (Event × Nat)
  | _, _, [] => []
  | s, overlays, (tx, i) :: rest =>
    (.plain tx s.committeeManager, i)
      :: groupTrace p (s.executeTransactionOverlay env tx (overlays tx.transaction.from) p).2.2
          (stepOverlays env p s overlays tx) rest

variable (p : Bool) (s : StateManager V)
  (overlays : Address → AccountTable) (order : List (SignedTransaction × Nat))

theorem groupTrace_map :
    (groupTrace env p s overlays order).map (fun ei => (ei.1.tx, ei.2)) = order := by
  induction order generalizing s overlays with
  | nil => rfl
  | cons head order ih =>
    obtain ⟨_, i⟩ := head
    rw [groupTrace, map_cons, ih]
    rfl

theorem groupTrace_plain :
    ∀ ei ∈ groupTrace env p s overlays order, ei.1 = .plain ei.1.tx ei.1.committee := by
  induction order generalizing s overlays with
  | nil => intro ei h; cases h
  | cons head order ih =>
    obtain ⟨_, i⟩ := head
    intro ei h
    rw [groupTrace] at h
    rcases mem_cons.mp h with rfl | h
    · rfl
    · exact ih _ _ ei h

/-- Each group's share of an interleaved run is the replay of its own events. -/
theorem executeGroups_replay {s : StateManager V} {v : Address → Account}
    {overlays : Address → AccountTable} {order : List (SignedTransaction × Nat)} (hv : s.view = v)
    (hc : ∀ ti ∈ order, ti.1.transaction.txType.isContract = false) (g : Address) :
    ((executeGroups env p s overlays order).results.filter fun r => r.1.1.transaction.from = g,
      (executeGroups env p s overlays order).overlays g)
    = replay env v (overlays g)
        ((groupTrace env p s overlays order).filter fun ei => ei.1.tx.transaction.from = g) := by
  induction order generalizing s overlays with
  | nil => rfl
  | cons head order ih =>
    obtain ⟨tx, i⟩ := head
    obtain ⟨e, he, hout, heff, -⟩ :=
      executeTransactionOverlay_at env s tx (overlays tx.transaction.from) p
    obtain rfl : e.tx = tx := he.tx
    have hplain : e = .plain e.tx s.committeeManager := he.plain (hc _ mem_cons_self)
    have hstep := @ih (s.executeTransactionOverlay env e.tx
        (overlays e.tx.transaction.from) p).2.2 (stepOverlays env p s overlays e.tx)
      ((executeTransactionOverlay_ledger ..).view.trans hv)
      (fun ti h => hc ti (mem_cons_of_mem _ h))
    rw [executeGroups_cons, groupTrace, ← hplain]
    by_cases hg : e.tx.transaction.from = g
    · subst hg
      rw [filter_cons_of_pos (by simp), filter_cons_of_pos (by simp), replay, hout, hv]
      have hself : stepOverlays env p s overlays e.tx e.tx.transaction.from
          = effect env v (overlays e.tx.transaction.from) e := by
        rw [stepOverlays, if_pos rfl, heff, hv]
      rw [hself] at hstep
      rw [← hstep]
    · rw [filter_cons_of_neg (by simpa using hg), filter_cons_of_neg (by simpa using hg)]
      have hother : stepOverlays env p s overlays e.tx g = overlays g := by
        rw [stepOverlays, if_neg (Ne.symm hg)]
      rw [hother] at hstep
      exact hstep

/-- A group leaves flags and nonces of all accounts but its sender's alone. -/
theorem executeGroups_others {g a : Address} (ha : a ≠ g) :
    (look s.view ((runGroups env p s order).overlays g) a).isValidator = (s.view a).isValidator
      ∧ (look s.view ((runGroups env p s order).overlays g) a).nonce = (s.view a).nonce := by
  refine executeGroups_induct env
    (I := fun g overlay => ∀ a, a ≠ g →
      (look s.view overlay a).isValidator = (s.view a).isValidator
        ∧ (look s.view overlay a).nonce = (s.view a).nonce) p ?_ rfl
    (fun _ _ _ => ⟨rfl, rfl⟩) g a ha
  intro e overlay _ h a ha
  obtain ⟨-, -, hflag, hnonce⟩ := @look_effect_others V env s.view s.view_address overlay e a ha
  exact ⟨hflag.trans (h a ha).1, hnonce.trans (h a ha).2⟩

end

/-! ## Schedules -/

namespace Schedule

variable {txs : List SignedTransaction} (schedule : Schedule txs)

/-- A group's transactions come in batch order whatever the schedule. -/
theorem filter_order (g : Address) : (schedule.order.filter fun ti => ti.1.transaction.from = g)
      = txs.zipIdx.filter fun ti => ti.1.transaction.from = g :=
  Grouping.filter_eq_of_perm (fun ti => ti.1.transaction.from) Prod.snd schedule.order_perm
    schedule.order_sender (Schedule.inOrder txs).order_sender g

theorem groups_nodup : schedule.groups.Nodup :=
  schedule.groups_perm.nodup_iff.mpr (nodup_dedup _)

theorem mem_groups {g : Address} : g ∈ schedule.groups ↔ ∃ tx ∈ txs, tx.transaction.from = g := by
  rw [schedule.groups_perm.mem_iff, mem_dedup, mem_map]

theorem mem_of_order {ti : SignedTransaction × Nat} (h : ti ∈ schedule.order) : ti.1 ∈ txs :=
  fst_mem_of_mem_zipIdx (schedule.order_perm.mem_iff.mp h)

theorem order_indices_nodup : (schedule.order.map Prod.snd).Nodup := by
  rw [(schedule.order_perm.map Prod.snd).nodup_iff, zipIdx_map_snd]
  exact nodup_range'

end Schedule

/-! ## Code -/

/-- Code and storage roots are those of the view underneath. -/
def SameCode (v : Address → Account) (overlay : AccountTable) : Prop :=
  ∀ a, (look v overlay a).codeHash = (v a).codeHash
    ∧ (look v overlay a).storageRoot = (v a).storageRoot

variable {V : Type}

theorem SameCode.effect {env : Platform V} {v : Address → Account} (hv : ∀ a, (v a).address = a)
    {overlay : AccountTable} (h : SameCode v overlay) (tx : SignedTransaction)
    (cm : Option CommitteeManager) : SameCode v (effect env v overlay (.plain tx cm)) := by
  intro a
  cases hacc : accepts env cm tx (look v overlay tx.transaction.from) with
  | false => rw [effect_of_rejected hacc]; exact h a
  | true =>
    obtain ⟨_, hset⟩ := accepts_iff.mp hacc
    rw [look_effect hv hset]
    split
    · rename_i hf
      obtain ⟨hcode, hroot⟩ := keptSender_frame hset
      rw [hcode, hroot, ← hf]
      exact h _
    · split
      · obtain ⟨b, _, heq, -⟩ := credit_eq tx.transaction (look v overlay a)
        rw [Event.plain_tx, deliver_plain, heq]
        exact h a
      · exact h a

section

variable (env : Platform V) {txs : List SignedTransaction} (schedule : Schedule txs) (p : Bool)
  (s : StateManager V)

theorem groupTrace_filter (overlays : Address → AccountTable) (g : Address) :
    ((groupTrace env p s overlays schedule.order).filter
        fun ei => ei.1.tx.transaction.from = g).map (fun ei => (ei.1.tx, ei.2))
      = txs.zipIdx.filter fun ti => ti.1.transaction.from = g := by
  rw [← schedule.filter_order g]
  conv_rhs => rw [← groupTrace_map env p s overlays schedule.order, filter_map]
  rfl

theorem tx_mem_of_groupTrace (overlays : Address → AccountTable) {ei : Event × Nat}
    (h : ei ∈ groupTrace env p s overlays schedule.order) : ei.1.tx ∈ txs := by
  have hmem : (ei.1.tx, ei.2) ∈ schedule.order := by
    rw [← groupTrace_map env p s overlays schedule.order]
    exact mem_map_of_mem (f := fun ei : Event × Nat => (ei.1.tx, ei.2)) h
  exact schedule.mem_of_order hmem

theorem executeGroups_sameCode (hc : ∀ tx ∈ txs, tx.transaction.txType.isContract = false)
    (g : Address) :
    SameCode s.view ((runGroups env p s schedule.order).overlays g) := by
  refine executeGroups_induct env (I := fun _ overlay => SameCode s.view overlay) p ?_ rfl
    (fun _ _ => ⟨rfl, rfl⟩) g
  intro e overlay he h
  obtain ⟨_, hti, htx⟩ := mem_map.mp he.mem
  rw [he.plain (htx ▸ hc _ (schedule.mem_of_order hti))]
  exact h.effect s.view_address e.tx e.committee

theorem executeGroups_idle {g : Address} (hg : g ∉ schedule.groups) :
    (runGroups env p s schedule.order).overlays g = Table.empty := by
  refine executeGroups_induct env
    (I := fun g overlay => g ∉ schedule.groups → overlay = Table.empty) (v := s.view) p ?_ rfl
    (fun _ _ => rfl) g hg
  intro e overlay he _ hnot
  obtain ⟨_, hti, htx⟩ := mem_map.mp he.mem
  exact absurd (schedule.mem_groups.mpr ⟨_, htx ▸ schedule.mem_of_order hti, rfl⟩) hnot

end

variable {txs : List SignedTransaction}

theorem mem_contributions {σ : Schedule txs} {overlays : Address → AccountTable} {r : Account}
    (h : r ∈ contributions σ overlays) : ∃ g ∈ σ.groups, (overlays g).get r.address = some r := by
  obtain ⟨g, hg, hr⟩ := mem_flatMap.mp h
  exact ⟨g, hg, Table.get_of_mem ((σ.overlayOrder_perm g _).mem_iff.mp hr)⟩

/-! ## Collecting receipts -/

theorem executeGroups_results_map (env : Platform V) (p : Bool) (s : StateManager V)
    (overlays : Address → AccountTable) (order : List (SignedTransaction × Nat)) :
    (executeGroups env p s overlays order).results.map Prod.fst = order := by
  induction order generalizing s overlays with
  | nil => rfl
  | cons head order ih =>
    obtain ⟨_, i⟩ := head
    rw [executeGroups_cons, map_cons, ih]

/-- The receipt of a result under its index. -/
def indexedReceipt (r : Tagged (Except StateError TransactionReceipt)) : Nat × TransactionReceipt :=
  (r.1.2, receiptOf r.1.1 r.2)

variable {results : List (Tagged (Except StateError TransactionReceipt))} {groups : List Address}

/-- Collecting by groups and sorting is sorting. -/
theorem collectReceipts_eq (hgroups : groups.Nodup)
    (hmem : ∀ r ∈ results, r.1.1.transaction.from ∈ groups)
    (hidx : (results.map fun r => r.1.2).Nodup) :
    collectReceipts groups results
      = ((results.map indexedReceipt).insertionSort fun p q => p.1 ≤ q.1).map Prod.snd := by
  have hperm : (groups.flatMap fun g =>
      (results.filter fun r => r.1.1.transaction.from = g).map indexedReceipt).Perm
        (results.map indexedReceipt) := by
    rw [← map_flatMap]
    exact (Grouping.flatMap_filter_perm
      (fun r : Tagged (Except StateError TransactionReceipt) => r.1.1.transaction.from)
      hgroups hmem).map _
  have hkeys : ((results.map indexedReceipt).map Prod.fst).Nodup := by
    rw [map_map]
    exact hidx
  exact congrArg (List.map Prod.snd)
    (Table.insertionSort_of_perm (t := ⟨results.map indexedReceipt, hkeys⟩) hperm)

theorem collectReceipts_congr {groups' : List Address}
    {results' : List (Tagged (Except StateError TransactionReceipt))} (hgroups : groups.Nodup)
    (hmem : ∀ r ∈ results, r.1.1.transaction.from ∈ groups) (hgroups' : groups'.Nodup)
    (hmem' : ∀ r ∈ results', r.1.1.transaction.from ∈ groups')
    (hidx : (results.map fun r => r.1.2).Nodup) (hperm : results.Perm results') :
    collectReceipts groups results = collectReceipts groups' results' := by
  have hidx' : (results'.map fun r => r.1.2).Nodup := (hperm.map _).nodup_iff.mp hidx
  have hkeys' : ((results'.map indexedReceipt).map Prod.fst).Nodup := by
    rw [map_map]
    exact hidx'
  rw [collectReceipts_eq hgroups hmem hidx, collectReceipts_eq hgroups' hmem' hidx']
  exact congrArg (List.map Prod.snd)
    (Table.insertionSort_of_perm (t := ⟨results'.map indexedReceipt, hkeys'⟩) (hperm.map _))

theorem map_fst_of_zipIdx {ρ : Type} {sorted : List (Tagged ρ)}
    (h : sorted.map Prod.fst = txs.zipIdx) : (sorted.map fun r => r.1.1) = txs := by
  have hfst := congrArg (map Prod.fst) h
  rwa [zipIdx_map_fst, map_map] at hfst

theorem collectReceipts_sorted (schedule : Schedule txs)
    (hmap : results.map Prod.fst = schedule.order) :
    ∃ sorted : List (Tagged (Except StateError TransactionReceipt)),
      sorted.Perm results ∧ sorted.map Prod.fst = txs.zipIdx
        ∧ collectReceipts schedule.groups results = sorted.map fun r => receiptOf r.1.1 r.2 := by
  have hidx : (results.map fun r => r.1.2).Nodup := by
    have h := schedule.order_indices_nodup
    rwa [← hmap, map_map] at h
  have hmem : ∀ r ∈ results, r.1.1.transaction.from ∈ schedule.groups := by
    intro r hr
    have hr' : r.1 ∈ schedule.order := hmap ▸ mem_map_of_mem hr
    exact schedule.mem_groups.mpr ⟨_, schedule.mem_of_order hr', rfl⟩
  refine ⟨results.insertionSort fun r q => r.1.2 ≤ q.1.2, perm_insertionSort _ _, ?_, ?_⟩
  · exact Grouping.map_insertionSort_zipIdx Prod.fst (hmap ▸ schedule.order_perm)
  · rw [collectReceipts_eq schedule.groups_nodup hmem hidx, ← map_insertionSort (fun r q => r.1.2 ≤
      q.1.2) (fun p q => p.1 ≤ q.1) indexedReceipt results (fun _ _ _ _ => Iff.rfl), map_map]
    rfl

end Quantos

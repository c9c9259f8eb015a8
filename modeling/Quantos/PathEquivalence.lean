import Quantos.Lanes
import Quantos.Nonces

/-!
# The parallel path against the sequential loop

Both paths of a batch, laid over the lanes: read in batch order, the groups
of any schedule run the lanes (`executeGroups_lanes`), and the sequential
loop runs beside them (`executeSequence_serial`). What differs between the
two are the committee managers that registrations meet, so a batch becomes
the list of its `meetings`. The merge then adds up what the lanes hold
(`Sums`), and `parallel_sequential_iff` says exactly when the two paths
return the same flags, accounts and root.
-/

namespace Quantos

open StateManager Runs List Table

section

variable {V : Type} (env : Platform V)

/-! ## The groups in batch order -/

/-- The event of a meeting in its group. -/
def Meeting.event (m : Meeting) : Event := .plain m.tx m.grouped

/-- The results of the lanes, in batch order. -/
def laneResults (v : Address → Account) : Lanes → Nat → List Meeting →
    List (Tagged (Except StateError TransactionReceipt))
  | _, _, [] => []
  | l, i, m :: ms =>
    ((m.tx, i), outcome env v (l.overlays m.tx.transaction.from) m.event)
      :: laneResults v (l.step env v m) (i + 1) ms

variable (v : Address → Account) (l : Lanes) (i : Nat)

theorem laneResults_map (ms : List Meeting) :
    (laneResults env v l i ms).map Prod.fst = (ms.map Meeting.tx).zipIdx i := by
  induction ms generalizing l i with
  | nil => rfl
  | cons m ms ih => rw [laneResults, map_cons, ih, map_cons, zipIdx_cons]

theorem laneResults_flags (ms : List Meeting) :
    ((laneResults env v l i ms).map fun r => (receiptOf r.1.1 r.2).success)
      = laneFlags env v l ms := by
  induction ms generalizing l i with
  | nil => rfl
  | cons m ms ih =>
    rw [laneResults, map_cons, ih, laneFlags, receiptOf_outcome_success]
    rfl

theorem lanes_replay (ms : List Meeting) (g : Address) :
    ((laneResults env v l i ms).filter fun r => r.1.1.transaction.from = g,
      (run (Lanes.step env v) l ms).overlays g)
    = replay env v (l.overlays g)
        (((ms.map Meeting.event).zipIdx i).filter fun ei => ei.1.tx.transaction.from = g) := by
  induction ms generalizing l i with
  | nil => rfl
  | cons m ms ih =>
    have hstep := ih (l.step env v m) (i + 1)
    rw [laneResults, run_cons, map_cons, zipIdx_cons]
    by_cases hg : m.tx.transaction.from = g
    · subst hg
      have hown : (l.step env v m).overlays m.tx.transaction.from
          = effect env v (l.overlays m.tx.transaction.from) m.event := if_pos rfl
      rw [hown] at hstep
      rw [filter_cons_of_pos (by simp), filter_cons_of_pos (by simp [Meeting.event]),
        replay, ← hstep]
      rfl
    · have hother : (l.step env v m).overlays g = l.overlays g := if_neg (Ne.symm hg)
      rw [hother] at hstep
      rw [filter_cons_of_neg (by simpa using hg),
        filter_cons_of_neg (by simpa using (show m.event.tx.transaction.from ≠ g from hg))]
      exact hstep

variable (p : Bool) (s : StateManager V) {txs : List SignedTransaction} (schedule : Schedule txs)

/-- The events of the groups, put back into batch order. -/
def batchTrace : List (Event × Nat) :=
  (groupTrace env p s (fun _ => Table.empty) schedule.order).insertionSort fun x y => x.2 ≤ y.2

theorem batchTrace_map :
    (batchTrace env p s schedule).map (fun ei => (ei.1.tx, ei.2)) = txs.zipIdx := by
  refine Grouping.map_insertionSort_zipIdx (fun ei : Event × Nat => (ei.1.tx, ei.2)) ?_
  rw [groupTrace_map]
  exact schedule.order_perm

theorem batchTrace_tx : (batchTrace env p s schedule).map (fun ei => ei.1.tx) = txs := by
  have hmap := congrArg (List.map Prod.fst) (batchTrace_map env p s schedule)
  rw [map_map, zipIdx_map_fst] at hmap
  exact hmap

/-- Sorting does not reorder a group. -/
theorem batchTrace_filter (g : Address) :
    ((groupTrace env p s (fun _ => Table.empty) schedule.order).filter
        fun ei => ei.1.tx.transaction.from = g)
      = (batchTrace env p s schedule).filter fun ei => ei.1.tx.transaction.from = g := by
  have hsender : ∀ {es : List (Event × Nat)} {ts : List (SignedTransaction × Nat)},
      es.map (fun ei => (ei.1.tx, ei.2)) = ts →
      (ts.Pairwise fun x y => x.1.transaction.from = y.1.transaction.from → x.2 < y.2) →
      es.Pairwise fun x y =>
        x.1.tx.transaction.from = y.1.tx.transaction.from → x.2 < y.2 := by
    rintro es ts rfl h
    exact pairwise_map.mp h
  exact Grouping.filter_eq_of_perm (fun ei : Event × Nat => ei.1.tx.transaction.from) Prod.snd
    (perm_insertionSort _ _).symm
    (hsender (groupTrace_map ..) schedule.order_sender)
    (hsender (batchTrace_map ..) (Schedule.inOrder txs).order_sender) g

/-- Every transaction of the batch with the committee managers it meets on
the two paths. -/
def meetings : List Meeting :=
  ((batchTrace env p s schedule).zip (sequenceTurns env p s Table.empty txs)).map
    fun q => ⟨q.1.1.tx, q.1.1.committee, q.2.committee⟩

theorem batchTrace_length : (batchTrace env p s schedule).length = txs.length := by
  have h := congrArg List.length (batchTrace_tx env p s schedule)
  simpa using h

theorem sequenceTurns_length (overlay : AccountTable) :
    (sequenceTurns env p s overlay txs).length = txs.length := by
  have h := congrArg List.length (sequenceTurns_map env p s overlay txs)
  simpa using h

theorem meetings_events :
    ((meetings env p s schedule).map Meeting.event).zipIdx = batchTrace env p s schedule := by
  have hlen := batchTrace_length env p s schedule
  have hlen' := @sequenceTurns_length V env p s txs Table.empty
  have hplain : ∀ ei ∈ batchTrace env p s schedule, ei.1 = .plain ei.1.tx ei.1.committee := by
    intro ei hei
    exact groupTrace_plain env p s _ schedule.order ei
      ((perm_insertionSort _ _).mem_iff.mp hei)
  have hevents : (meetings env p s schedule).map Meeting.event
      = (batchTrace env p s schedule).map Prod.fst := by
    have hfst : (batchTrace env p s schedule).map Prod.fst
        = (((batchTrace env p s schedule).zip (sequenceTurns env p s Table.empty txs)).map
          Prod.fst).map Prod.fst := by
      rw [map_fst_zip (by omega)]
    unfold meetings
    rw [hfst, map_map, map_map]
    refine map_congr_left fun q hq => ?_
    exact (hplain q.1 (of_mem_zip hq).1).symm
  have hidx : (batchTrace env p s schedule).map Prod.snd = List.range' 0 txs.length := by
    have h := congrArg (List.map Prod.snd) (batchTrace_map env p s schedule)
    rw [map_map, zipIdx_map_snd] at h
    exact h
  rw [hevents, zipIdx_eq_zip_range', length_map, hlen, ← hidx]
  exact (zip_of_prod rfl rfl).symm

theorem meetings_tx : (meetings env p s schedule).map Meeting.tx = txs := by
  have hevents := congrArg (List.map Prod.fst) (meetings_events env p s schedule)
  rw [zipIdx_map_fst] at hevents
  have htx := congrArg (List.map Event.tx) hevents
  rw [map_map, map_map] at htx
  exact htx.trans (batchTrace_tx env p s schedule)

theorem executeGroups_lanes (hc : ∀ tx ∈ txs, tx.transaction.txType.isContract = false) :
    (runGroups env p s schedule.order).overlays
        = (run (Lanes.step env s.view) Lanes.start (meetings env p s schedule)).overlays
      ∧ ((collectReceipts schedule.groups
            (runGroups env p s schedule.order).results).map
          fun r => r.success)
        = laneFlags env s.view Lanes.start (meetings env p s schedule) := by
  have hgroup : ∀ g, _ := @executeGroups_replay V env p s s.view (fun _ => Table.empty)
    schedule.order rfl fun ti hti => hc _ (schedule.mem_of_order hti)
  have hlane := lanes_replay env s.view Lanes.start 0 (meetings env p s schedule)
  rw [meetings_events] at hlane
  have hsame : ∀ g, _ := fun g => (hgroup g).trans
    ((congrArg (replay env s.view Table.empty) (batchTrace_filter ..)).trans
      (hlane g).symm)
  refine ⟨funext fun g => congrArg Prod.snd (hsame g), ?_⟩
  obtain ⟨sorted, hperm, hfst, hreceipts⟩ := collectReceipts_sorted schedule
    (executeGroups_results_map env p s (fun _ => Table.empty) schedule.order)
  -- the results of the lanes are the results of the groups, and both are in batch order
  have hresults : sorted
      = laneResults env s.view Lanes.start 0 (meetings env p s schedule) := by
    have hmap := laneResults_map env s.view Lanes.start 0 (meetings env p s schedule)
    rw [meetings_tx] at hmap
    refine Grouping.eq_of_perm_of_map_eq (f := Prod.fst) (hperm.trans
      (Grouping.perm_of_filter_eq (fun r => r.1.1.transaction.from)
        fun g => congrArg Prod.fst (hsame g))) (hfst.trans hmap.symm) ?_
    rw [hfst]
    exact List.Nodup.of_map Prod.snd (by rw [zipIdx_map_snd]; exact nodup_range')
  rw [hreceipts, hresults, map_map]
  exact laneResults_flags env s.view Lanes.start 0 (meetings env p s schedule)

/-! ## The sequential loop beside them -/

theorem executeSequence_serial {v : Address → Account} :
    ∀ {txs : List SignedTransaction} {s : StateManager V} {overlay : AccountTable}
      {ms : List Meeting}, s.view = v →
      (∀ tx ∈ txs, tx.transaction.txType.isContract = false) →
      ms.map (fun m => (m.tx, m.sequential))
        = (sequenceTurns env p s overlay txs).map (fun t => (t.tx, t.committee)) →
      (executeSequence env p s overlay txs).2.1 = run (serialStep env v) overlay ms
        ∧ ((executeSequence env p s overlay txs).1.map fun r => r.success)
          = serialFlags env v overlay ms := by
  intro txs
  induction txs with
  | nil =>
    intro s overlay ms _ _ hms
    obtain rfl := map_eq_nil_iff.mp hms
    exact ⟨rfl, rfl⟩
  | cons tx txs ih =>
    intro s overlay ms hv hc hms
    obtain ⟨m, ms, rfl⟩ : ∃ m ms', ms = m :: ms' := by
      cases ms with
      | nil => simp [sequenceTurns] at hms
      | cons m ms => exact ⟨m, ms, rfl⟩
    rw [sequenceTurns, map_cons, map_cons] at hms
    obtain ⟨hm, hrest⟩ := List.cons.inj hms
    obtain ⟨rfl, hcm⟩ := Prod.mk.inj hm
    replace hcm : m.sequential = s.committeeManager := hcm
    obtain ⟨hout, heff, -⟩ :=
      executeTransactionOverlay_plain env s (hc m.tx mem_cons_self) overlay p
    obtain ⟨hoverlay, hflags⟩ := @ih
      (s.executeTransactionOverlay env m.tx overlay p).2.2
      (s.executeTransactionOverlay env m.tx overlay p).2.1 ms
      ((executeTransactionOverlay_ledger ..).view.trans hv)
      (fun tx h => hc tx (mem_cons_of_mem _ h)) hrest
    have hstep : (s.executeTransactionOverlay env m.tx overlay p).2.1
        = serialStep env v overlay m := by
      rw [heff, hv, serialStep, hcm]
    rw [hstep] at hoverlay hflags
    rw [executeSequence_cons, run_cons, serialFlags, map_cons]
    rw [hstep, hoverlay, hflags, hout, receiptOf_outcome_success, hv, ← hcm]
    exact ⟨rfl, rfl⟩

theorem meetings_sequential : (meetings env p s schedule).map (fun m => (m.tx, m.sequential))
    = (sequenceTurns env p s Table.empty txs).map (fun t => (t.tx, t.committee)) := by
  have hlen := batchTrace_length env p s schedule
  have hlen' := @sequenceTurns_length V env p s txs Table.empty
  have hstep : (batchTrace env p s schedule).map (fun ei => ei.1.tx)
      = (sequenceTurns env p s Table.empty txs).map Turn.tx := by
    rw [batchTrace_tx, sequenceTurns_map]
  have hsnd : (sequenceTurns env p s Table.empty txs).map (fun t => (t.tx, t.committee))
      = (((batchTrace env p s schedule).zip (sequenceTurns env p s Table.empty txs)).map
        Prod.snd).map fun t => (t.tx, t.committee) := by
    rw [map_snd_zip (by omega)]
  unfold meetings
  rw [hsnd, map_map, map_map]
  refine map_congr_left fun q hq => ?_
  exact congrArg (fun tx => (tx, q.2.committee)) (Grouping.zip_in_step hstep q hq)

end

/-! ## What the merge adds up -/

/-- One of the two amounts of an account, as credits and merges treat it. -/
structure AmountField where
  amount : Account → Amount
  received : Received → Nat
  sent : Transaction → Nat
  received_zero : received ⟨0, 0⟩ = 0
  received_add : ∀ r tx, received (r.add tx) = received r + sent tx
  sent_le : ∀ tx, sent tx ≤ tx.amount.toNat
  amount_credit : ∀ tx r, (amount (credit tx r)).toNat
    = if (amount r).toNat + sent tx < 2 ^ 128 then (amount r).toNat + sent tx
      else (amount r).toNat
  amount_merge : ∀ v e r, (amount (mergeOver v e r)).val
    = (amount r).val + (amount e).val - (amount (v r.address)).val

def balanceField : AmountField where
  amount := Account.balance
  received := Received.balance
  sent := sentBalance
  received_zero := rfl
  received_add := fun _ _ => rfl
  sent_le := sentBalance_le
  amount_credit := fun tx r => by
    obtain ⟨b, st, heq, hb, -⟩ := credit_eq tx r
    rw [heq]
    exact hb
  amount_merge := fun _ _ _ => rfl

def stakeField : AmountField where
  amount := Account.stake
  received := Received.stake
  sent := sentStake
  received_zero := rfl
  received_add := fun _ _ => rfl
  sent_le := sentStake_le
  amount_credit := fun tx r => by
    obtain ⟨b, st, heq, -, hst⟩ := credit_eq tx r
    rw [heq]
    exact hst
  amount_merge := fun _ _ _ => rfl

/-- The groups' changes to an amount add up to the owner's own change and
what it received, and there is room for `k` more transactions. -/
structure Sums (f : AmountField) (v : Address → Account) (groups : List Address) (k : Nat)
    (l : Lanes) : Prop where
  sum : ∀ a, (groups.map fun g => ((f.amount (look v (l.overlays g) a)).toNat : Int)
      - (f.amount (v a)).toNat).sum
    = (f.amount (l.own v a)).toNat - (f.amount (v a)).toNat + f.received (l.received a)
  room : ∀ g a, g ≠ a →
    (f.amount (look v (l.overlays g) a)).toNat + k * MAX_TRANSACTION_AMOUNT < 2 ^ 128
  received_lt : ∀ a, f.received (l.received a) + k * MAX_TRANSACTION_AMOUNT < 2 ^ 127

section

variable {V : Type} {env : Platform V} {f : AmountField} {v : Address → Account}
  {groups : List Address} {k : Nat}

theorem start_sums (hv : ∀ a, (f.amount (v a)).toNat < 2 ^ 127)
    (hk : k * MAX_TRANSACTION_AMOUNT < 2 ^ 127) : Sums f v groups k Lanes.start where
  sum := fun a => by
    have hown : Lanes.start.own v a = v a := rfl
    have hzero : f.received (Lanes.start.received a) = 0 := f.received_zero
    rw [hown, hzero]
    simp [Lanes.start, look]
  room := fun g a _ => by
    have hbase := hv a
    have hlook : look v (Lanes.start.overlays g) a = v a := rfl
    rw [hlook]
    omega
  received_lt := fun a => by
    have hzero : f.received (Lanes.start.received a) = 0 := f.received_zero
    rw [hzero]
    omega

variable {l : Lanes} {m : Meeting} {own' : Account} {a : Address}

theorem Lanes.look_step (hv : ∀ a, (v a).address = a)
    (h : (settle env (.plain m.tx m.grouped) (l.own v m.tx.transaction.from)).1
      = .ok (own', ⟨m.tx.transaction.to, none, []⟩)) (ha : a ≠ m.tx.transaction.from) :
    look v ((l.step env v m).overlays m.tx.transaction.from) a
      = if a = m.tx.transaction.to then
          credit m.tx.transaction (look v (l.overlays m.tx.transaction.from) a)
        else look v (l.overlays m.tx.transaction.from) a := by
  have hown : (l.step env v m).overlays m.tx.transaction.from
      = effect env v (l.overlays m.tx.transaction.from) (.plain m.tx m.grouped) := if_pos rfl
  have hlook := look_effect hv h a
  rw [Event.plain_tx, deliver_plain, if_neg (Ne.symm ha)] at hlook
  rw [hown, hlook]
  simp only [eq_comm]

theorem AmountField.received_step (f : AmountField) (haccept : l.accepts env v m = true)
    (a : Address) :
    f.received ((l.step env v m).received a)
      = f.received (l.received a)
        + if a = m.tx.transaction.to ∧ a ≠ m.tx.transaction.from then
            f.sent m.tx.transaction else 0 := by
  unfold Lanes.step
  simp only [haccept, true_and]
  split
  · exact f.received_add _ _
  · rfl

/-- What the sender's group shows of another address: the credit always
arrives, there being room for it. -/
theorem Sums.amount_step (hv : ∀ a, (v a).address = a) (h : Sums f v groups (k + 1) l)
    (hown : (settle env (.plain m.tx m.grouped) (l.own v m.tx.transaction.from)).1
      = .ok (own', ⟨m.tx.transaction.to, none, []⟩))
    (hsent : f.sent m.tx.transaction ≤ MAX_TRANSACTION_AMOUNT) (ha : a ≠ m.tx.transaction.from) :
    (f.amount (look v ((l.step env v m).overlays m.tx.transaction.from) a)).toNat
      = (f.amount (look v (l.overlays m.tx.transaction.from) a)).toNat
        + if a = m.tx.transaction.to then f.sent m.tx.transaction else 0 := by
  have hroom := h.room m.tx.transaction.from a (Ne.symm ha)
  have hk : (k + 1) * MAX_TRANSACTION_AMOUNT
      = k * MAX_TRANSACTION_AMOUNT + MAX_TRANSACTION_AMOUNT := Nat.succ_mul _ _
  rw [Lanes.look_step hv hown ha]
  split
  · rw [f.amount_credit, if_pos (by omega)]
  · rfl

theorem Sums.step (hv : ∀ a, (v a).address = a) (h : Sums f v groups (k + 1) l)
    (hnd : groups.Nodup) (hmem : m.tx.transaction.from ∈ groups) :
    Sums f v groups k (l.step env v m) := by
  have hk : (k + 1) * MAX_TRANSACTION_AMOUNT
      = k * MAX_TRANSACTION_AMOUNT + MAX_TRANSACTION_AMOUNT := Nat.succ_mul _ _
  cases haccept : l.accepts env v m with
  | false =>
    rw [Lanes.step_of_rejected haccept]
    refine ⟨h.sum, fun g a hg => ?_, fun a => ?_⟩
    · have := h.room g a hg
      omega
    · have := h.received_lt a
      omega
  | true =>
    obtain ⟨_, hown⟩ := accepts_iff.mp haccept
    have hsent : f.sent m.tx.transaction ≤ MAX_TRANSACTION_AMOUNT :=
      (f.sent_le _).trans (amount_of_check (settle_ok hown).1).1
    have hother : ∀ g ≠ m.tx.transaction.from, (l.step env v m).overlays g = l.overlays g :=
      fun g hg => if_neg hg
    refine ⟨fun a => ?_, fun g a hg => ?_, fun a => ?_⟩
    · rw [Grouping.sum_map_change hnd hmem fun g hg => by rw [hother g hg], h.sum a,
        f.received_step haccept]
      by_cases ha : a = m.tx.transaction.from
      · subst ha
        simp only [ne_eq, not_true, and_false, if_false, Lanes.own]
        omega
      have hsame : (l.step env v m).own v a = l.own v a := by
        unfold Lanes.own
        rw [hother a ha]
      rw [hsame, h.amount_step hv hown hsent ha]
      simp only [ne_eq, ha, not_false_eq_true, and_true]
      push_cast
      omega
    · by_cases hfrom : g = m.tx.transaction.from
      · subst hfrom
        have hroom := h.room m.tx.transaction.from a hg
        rw [h.amount_step hv hown hsent (Ne.symm hg)]
        split <;> omega
      · rw [hother g hfrom]
        have hroom := h.room g a hg
        omega
    · have hlt := h.received_lt a
      rw [f.received_step haccept]
      split <;> omega

theorem Sums.run (hv : ∀ a, (v a).address = a) (hnd : groups.Nodup) {ms : List Meeting}
    (hmem : ∀ m ∈ ms, m.tx.transaction.from ∈ groups) :
    ∀ {l : Lanes}, Sums f v groups ms.length l →
      Sums f v groups 0 (run (Lanes.step env v) l ms) := by
  induction ms with
  | nil => exact fun h => h
  | cons m ms ih =>
    intro l h
    exact ih (fun m h => hmem m (mem_cons_of_mem _ h))
      (h.step hv hnd (hmem m mem_cons_self))

theorem Sums.merged {txs : List SignedTransaction} {schedule : Schedule txs}
    (h : Sums f v schedule.groups k l) (a : Address) :
    (f.amount (look v (merged v schedule l.overlays) a)).toNat
      = ((f.amount (l.own v a)).toNat + f.received (l.received a)) % 2 ^ 128 := by
  have hfield := look_merged_field (fun acc => (f.amount acc).val) (f.amount_merge v) schedule
    l.overlays a
  have hbase : (((f.amount (v a)).val.toNat : Nat) : Int)
      = ((f.amount (v a)).toNat : Int) % 2 ^ 128 := by
    have := (f.amount (v a)).toNat_lt
    unfold Amount.toNat at this ⊢
    omega
  have hdiffs := toNat_diffs (fun g => (f.amount (look v (l.overlays g) a)).val)
    (f.amount (v a)).val schedule.groups hbase
  rw [← hfield] at hdiffs
  have hsum := h.sum a
  unfold Amount.toNat at hsum hdiffs ⊢
  rw [hsum] at hdiffs
  omega

end

/-! ## Both results -/

/-- The same success flags, changed accounts and state root. -/
structure SameOutcome (x y : StateExecution) : Prop where
  flags : (x.receipts.map fun r => r.success) = y.receipts.map fun r => r.success
  accounts : x.accounts = y.accounts
  stateRoot : x.stateRoot = y.stateRoot

/-- No account of a validator that resigns has been touched by another
group. -/
def ResignedUntouched (v : Address → Account) (l : Lanes) : Prop :=
  ∀ a, (v a).isValidator = true → (l.own v a).isValidator = false →
    ∀ g ≠ a, (l.overlays g).get a = none

/-- Accounts and root are functions of what an overlay holds. -/
theorem sameOutcome_iff {V : Type} (env : Platform V) (s : StateManager V)
    {receipts receipts' : List TransactionReceipt} {overlay overlay' : AccountTable} :
    SameOutcome ⟨s.overlayRoot env overlay, receipts, overlay.toSorted⟩
        ⟨s.overlayRoot env overlay', receipts', overlay'.toSorted⟩ ↔
      ((receipts.map fun r => r.success) = receipts'.map fun r => r.success)
        ∧ ∀ a, overlay.get a = overlay'.get a := by
  constructor
  · rintro ⟨hflags, haccounts, -⟩
    refine ⟨hflags, fun a => ?_⟩
    have haccounts' : overlay.toSorted = overlay'.toSorted := haccounts
    rw [← find?_of_perm overlay.toSorted_perm a, haccounts',
      find?_of_perm overlay'.toSorted_perm a]
  · rintro ⟨hflags, hget⟩
    refine ⟨hflags, toSorted_congr hget, ?_⟩
    rw [overlayRoot_congr _ s hget]

theorem get_eq_iff_look_eq {v : Address → Account} {t u : AccountTable} {a : Address}
    (h : t.get a = none ↔ u.get a = none) : t.get a = u.get a ↔ look v t a = look v u a := by
  unfold look
  cases ht : t.get a <;> cases hu : u.get a <;> simp_all

section

variable {V : Type} (env : Platform V) (p : Bool) (s : StateManager V)
  {txs : List SignedTransaction} (schedule : Schedule txs) {l : Lanes}

theorem look_merged_lanes (hc : ∀ tx ∈ txs, tx.transaction.txType.isContract = false)
    (hl : (runGroups env p s schedule.order).overlays = l.overlays)
    (a : Address) :
    ∃ b st flag, look s.view (merged s.view schedule l.overlays) a
        = { l.own s.view a with balance := b, stake := st, isValidator := flag }
      ∧ (flag = (l.own s.view a).isValidator ↔
        ((s.view a).isValidator = true → (l.own s.view a).isValidator = false →
          ∀ g ≠ a, (l.overlays g).get a = none)) := by
  have hcode : ∀ g, SameCode s.view (l.overlays g) := by
    intro g
    rw [← hl]
    exact executeGroups_sameCode env schedule p s hc g
  have hflag := @look_merged_isValidator_iff txs s.view schedule l.overlays a
    (fun g hg => hl ▸ executeGroups_idle env schedule p s hg)
    (fun g hg => hl ▸ (executeGroups_others env p s schedule.order (Ne.symm hg)).1)
  have hnonce := executeGroups_merged_nonce env p s schedule a
  rw [hl] at hnonce
  have hmerged := @look_merged_induct txs s.view schedule l.overlays a
    (fun acc => acc.codeHash = (s.view a).codeHash ∧ acc.storageRoot = (s.view a).storageRoot)
    (fun e r _ he hr => ⟨by simp [mergeOver, mergeAccount, he.1, hr.1], hr.2⟩) ⟨rfl, rfl⟩
    (fun g => hcode g a)
  have haddr := look_address s.view_address (merged s.view schedule l.overlays) a
  have haddr' := look_address s.view_address (l.overlays a) a
  obtain ⟨_, _⟩ := hmerged
  obtain ⟨_, _⟩ := hcode a a
  unfold Lanes.own
  generalize look s.view (merged s.view schedule l.overlays) a = acc at *
  generalize look s.view (l.overlays a) a = own at *
  refine ⟨acc.balance, acc.stake, acc.isValidator, ?_, hflag⟩
  cases acc
  cases own
  simp_all

/-- On one address: the merge agrees with the loop exactly if nothing is
missing there and no resigned validator was touched. -/
theorem merged_agrees_iff (hc : ∀ tx ∈ txs, tx.transaction.txType.isContract = false)
    {overlay : AccountTable} (hlags : Lags s.view l overlay)
    (hl : (runGroups env p s schedule.order).overlays = l.overlays)
    (hbalance : Sums balanceField s.view schedule.groups 0 l)
    (hstake : Sums stakeField s.view schedule.groups 0 l) (a : Address) :
    (merged s.view schedule l.overlays).get a = overlay.get a ↔ l.gap s.view overlay a = 0
        ∧ ((s.view a).isValidator = true → (l.own s.view a).isValidator = false →
          ∀ g ≠ a, (l.overlays g).get a = none) := by
  have hkeys : (merged s.view schedule l.overlays).get a = none ↔ overlay.get a = none := by
    rw [hlags.touched a, get_merged_eq_none_iff]
    refine ⟨fun hnone g => ?_, fun hnone g _ => hnone g⟩
    by_cases hg : g ∈ schedule.groups
    · exact hnone g hg
    · rw [← hl, executeGroups_idle _ _ p s hg]
      rfl
  obtain ⟨b, st, flag, heq, hflag⟩ := look_merged_lanes env p s schedule hc hl a
  have hb : b.toNat = ((l.own s.view a).balance.toNat + (l.received a).balance) % 2 ^ 128 :=
    (congrArg (fun acc : Account => acc.balance.toNat) heq).symm.trans (hbalance.merged a)
  have hst : st.toNat = ((l.own s.view a).stake.toNat + (l.received a).stake) % 2 ^ 128 :=
    (congrArg (fun acc : Account => acc.stake.toNat) heq).symm.trans (hstake.merged a)
  have hrb : (l.received a).balance + 0 < 2 ^ 127 := hbalance.received_lt a
  have hrs : (l.received a).stake + 0 < 2 ^ 127 := hstake.received_lt a
  have hlag := hlags.lag a
  have hfull := (look s.view overlay a).balance.toNat_lt
  have hfull' := (look s.view overlay a).stake.toNat_lt
  rw [get_eq_iff_look_eq (v := s.view) hkeys, ← hflag, Lanes.gap, ← hlag.tied_iff, heq]
  constructor
  · intro hsame
    have hbeq : b.toNat = (look s.view overlay a).balance.toNat := by rw [← hsame]
    have hsteq : st.toNat = (look s.view overlay a).stake.toNat := by rw [← hsame]
    have hflageq : flag = (look s.view overlay a).isValidator := by rw [← hsame]
    obtain ⟨hframe, _, _, h₃, h₄⟩ := hlag
    unfold Account.value at h₃ h₄
    refine ⟨⟨hframe, by omega, by omega⟩, ?_⟩
    rw [hflageq, hframe]
  · rintro ⟨htied, rfl⟩
    have hb' := htied.balance
    have hst' := htied.stake
    have hbeq : b = (look s.view overlay a).balance := Amount.toNat_inj (by omega)
    have hsteq : st = (look s.view overlay a).stake := Amount.toNat_inj (by omega)
    rw [htied.frame, hbeq, hsteq]

/-- The parallel path returns what the sequential loop returns exactly if
every transaction is unaided and no resigned validator is touched by another
group. -/
theorem parallel_sequential_iff (hlen : 8 < txs.length) (hmax : txs.length < 2 ^ 63)
    (hc : ∀ tx ∈ txs, tx.transaction.txType.isContract = false)
    (hfits : ∀ a, (s.view a).balance.toNat < 2 ^ 127 ∧ (s.view a).stake.toNat < 2 ^ 127) :
    SameOutcome (s.executeTransactionsOverlay env txs p schedule).1
        (s.executeTransactionsOverlaySequential env txs p).1 ↔
      StepsMeet (Lanes.step env s.view) (Unaided env s.view) Lanes.start (meetings env p s schedule)
        ∧ ResignedUntouched s.view
          (run (Lanes.step env s.view) Lanes.start (meetings env p s schedule)) := by
  obtain ⟨hoverlays, hgroupFlags⟩ := executeGroups_lanes env p s schedule hc
  obtain ⟨hserial, hserialFlags⟩ := executeSequence_serial env p rfl hc
    (meetings_sequential ..)
  obtain ⟨hreceipts, hmerged, -⟩ := batchRun_parallel env p s schedule (Nat.not_le.mpr hlen)
  rw [executeTransactionsOverlay_fst, executeTransactionsOverlaySequential_fst, sameOutcome_iff,
    hreceipts, hgroupFlags, hserialFlags, hmerged, hserial, hoverlays,
    unaided_iff s.view_address (start_lags ..) (start_gap s.view), and_assoc]
  -- the lanes of the whole batch have room for it
  have hcount : (meetings env p s schedule).length = txs.length := by
    have h := congrArg List.length (meetings_tx env p s schedule)
    simpa using h
  have hroom : (meetings env p s schedule).length * MAX_TRANSACTION_AMOUNT < 2 ^ 127 := by
    rw [hcount]
    unfold MAX_TRANSACTION_AMOUNT
    omega
  have hsenders : ∀ m ∈ meetings env p s schedule,
      m.tx.transaction.from ∈ schedule.groups := by
    intro m hm
    have htx : m.tx ∈ txs := by
      rw [← meetings_tx env p s schedule]
      exact mem_map_of_mem hm
    exact schedule.mem_groups.mpr ⟨m.tx, htx, rfl⟩
  have hbalance : Sums balanceField s.view schedule.groups 0
      (run (Lanes.step env s.view) Lanes.start (meetings env p s schedule)) :=
    Sums.run s.view_address schedule.groups_nodup hsenders
      (start_sums (fun a => (hfits a).1) hroom)
  have hstake : Sums stakeField s.view schedule.groups 0
      (run (Lanes.step env s.view) Lanes.start (meetings env p s schedule)) :=
    Sums.run s.view_address schedule.groups_nodup hsenders
      (start_sums (fun a => (hfits a).2) hroom)
  refine and_congr_right fun hflags => ?_
  have hlags := (Lags.run s.view_address (start_lags ..) hflags).1
  have hagree := merged_agrees_iff env p s schedule hc hlags hoverlays hbalance hstake
  exact (forall_congr' hagree).trans forall_and

end

instance decidableUnaided {V : Type} (env : Platform V) (v : Address → Account) (l : Lanes)
    (m : Meeting) : Decidable (Unaided env v l m) :=
  decidable_of_iff (_ ∧ _ ∧ _) ⟨fun h => ⟨h.1, h.2.1, h.2.2⟩, fun h => ⟨h.1, h.2, h.3⟩⟩

/-- A payment out of what an earlier transaction of the batch has paid in:
the sequential loop accepts it, its own group does not. -/
theorem forwarded_payment_rejected :
    let s := StateManager.new (empty.put (sampleAccount 1 20 0)) 0 ()
    let txs := sampleTx .transfer 1 2 5 0 :: sampleTx .transfer 2 3 5 0
      :: (List.range 7).map fun n => sampleTx .transfer 1 7 1 (UInt64.ofNat (n + 1))
    8 < txs.length ∧ (∀ tx ∈ txs, tx.transaction.txType.isContract = false)
      ∧ (∀ a, (s.view a).balance.toNat < 2 ^ 127 ∧ (s.view a).stake.toNat < 2 ^ 127)
      ∧ ¬ SameOutcome
          (s.executeTransactionsOverlay Platform.sample txs true (Schedule.inOrder txs)).1
          (s.executeTransactionsOverlaySequential Platform.sample txs true).1 := by
  refine ⟨by decide, by decide, ?_, fun h => absurd h.flags (by decide)⟩
  exact new_view (P := fun acc => acc.balance.toNat < 2 ^ 127 ∧ acc.stake.toNat < 2 ^ 127)
    (by decide) (fun _ => ⟨Nat.two_pow_pos 127, Nat.two_pow_pos 127⟩)

/-- The same batch with funds of its own for the second payment. -/
theorem funded_payment_accepted :
    let s := StateManager.new ((empty.put (sampleAccount 1 20 0)).put
      (sampleAccount 2 5 0)) 0 ()
    let txs := sampleTx .transfer 1 2 5 0 :: sampleTx .transfer 2 3 5 0
      :: (List.range 7).map fun n => sampleTx .transfer 1 7 1 (UInt64.ofNat (n + 1))
    SameOutcome (s.executeTransactionsOverlay Platform.sample txs true (Schedule.inOrder txs)).1
      (s.executeTransactionsOverlaySequential Platform.sample txs true).1 := by
  intro s txs
  refine (parallel_sequential_iff Platform.sample true s (Schedule.inOrder txs) (by decide)
    (by decide) (by decide) ?_).mpr ⟨by decide, fun a hflag => ?_⟩
  · exact new_view (P := fun acc => acc.balance.toNat < 2 ^ 127 ∧ acc.stake.toNat < 2 ^ 127)
      (by decide) (fun _ => ⟨Nat.two_pow_pos 127, Nat.two_pow_pos 127⟩)
  · have hnone : (s.view a).isValidator = false :=
      new_view (P := fun acc => acc.isValidator = false) (by decide) (fun _ => rfl) a
    rw [hnone] at hflag
    cases hflag

end Quantos

import Quantos.Turns
import Quantos.MergedOverlay
import Mathlib.Algebra.Order.BigOperators.Group.Finset
import Mathlib.Algebra.BigOperators.Ring.Finset

/-!
# Conservation of value in batches

Every transaction moves value between balances and stakes, with one
exception: a `StakeTransfer` of an account to itself subtracts the stake
from the sender's copy and adds it to the recipient's, and the recipient's
copy is not written back. `burn` is what a turn destroys this way.

`worth` is the value of all addresses under an overlay. A turn lowers it by
what it burns (`worth_effect`), so does a sequential batch, and so does each
group of a parallel one. The merge adds up the groups' differences
(`worth_merged`): no account but the sender's own can lose anything in a
group, so no sum of differences is negative, and none exceeds the total,
which fits.
-/

namespace Quantos

open StateManager List Table

noncomputable instance : Fintype Address :=
  Fintype.ofInjective BitVec.toFin fun _ _ h => BitVec.eq_of_toFin_eq h

/-- Balances plus stakes of all addresses. -/
noncomputable def worth (v : Address → Account) (overlay : AccountTable) : Nat :=
  ∑ a, (look v overlay a).value

theorem value_add_le_worth (v : Address → Account) (overlay : AccountTable) {a b : Address}
    (h : a ≠ b) : (look v overlay a).value + (look v overlay b).value ≤ worth v overlay := by
  rw [← Finset.sum_pair (f := fun a => (look v overlay a).value) h]
  exact Finset.sum_le_sum_of_subset (Finset.subset_univ _)

/-! ## One turn -/

/-- A `StakeTransfer` to its own sender. -/
def SelfStake (tx : Transaction) : Prop := tx.txType = .stakeTransfer ∧ tx.from = tx.to

instance (tx : Transaction) : Decidable (SelfStake tx) := inferInstanceAs (Decidable (_ ∧ _))

section

variable {V : Type} {env : Platform V} {v : Address → Account}

variable (env v) in
/-- The stake a turn destroys. -/
def burn (t : Turn) : Nat :=
  if SelfStake t.tx.transaction ∧ accepts env t.committee t.tx (t.sender v) then
    t.tx.transaction.amount.toNat
  else 0

variable {t : Turn} {e : Event}

theorem SelfStake.event (h : SelfStake t.tx.transaction) (he : Event.At t e) :
    e = .plain t.tx t.committee :=
  he.plain (by rw [h.1]; rfl)

theorem burn_of_error (he : Event.At t e) {err : StateError}
    (h : (settle env e (t.sender v)).1 = .error err) : burn env v t = 0 := by
  unfold burn
  rw [if_neg]
  rintro ⟨hself, hacc⟩
  obtain ⟨_, hok⟩ := accepts_iff.mp hacc
  rw [hself.event he, hok] at h
  cases h

/-- An accepted event burns the stake it sends to its own sender. -/
theorem burn_of_ok (he : Event.At t e) {sender : Account} {w : Verdict}
    (h : (settle env e (t.sender v)).1 = .ok (sender, w)) :
    burn env v t
      = if t.tx.transaction.from = w.address then sentStake t.tx.transaction else 0 := by
  unfold burn
  by_cases hstake : t.tx.transaction.txType = .stakeTransfer
  · have hplain : e = .plain t.tx t.committee := he.plain (by rw [hstake]; rfl)
    subst hplain
    obtain rfl : Verdict.mk t.tx.transaction.to none [] = w :=
      Except.ok.inj (settle_ok h).2.2.1
    have hacc : accepts env t.committee t.tx (t.sender v) = true := accepts_iff.mpr ⟨sender, h⟩
    by_cases hself : t.tx.transaction.from = t.tx.transaction.to
    · rw [if_pos ⟨⟨hstake, hself⟩, hacc⟩, if_pos hself, sentStake, hstake]
    · rw [if_neg fun hb => hself hb.1.2, if_neg hself]
  · have hsent : sentStake t.tx.transaction = 0 := by
      unfold sentStake
      split
      · contradiction
      · rfl
    rw [if_neg fun hb => hstake hb.1.1, hsent, ite_self]

theorem refund_value_nonce (tx : Transaction) (a : Account) (nonce : UInt64) :
    (refund tx { a with nonce }).value = (refund tx a).value := by
  unfold refund Account.addBalance
  cases tx.txType <;> dsimp only <;> (try split) <;> rfl

variable (env) in
theorem worth_effect (hv : ∀ a, (v a).address = a) {t : Turn} {e : Event} (he : Event.At t e)
    (hfits : worth v t.overlay < 2 ^ 128) :
    worth v (effect env v t.overlay e) + burn env v t = worth v t.overlay := by
  have hsender : t.sender v = look v t.overlay e.tx.transaction.from := by
    rw [Turn.sender, he.tx]
  cases hset : (settle env e (t.sender v)).1 with
  | error =>
    rw [burn_of_error he hset]
    rw [hsender] at hset
    rw [effect_of_error hset, Nat.add_zero]
  | ok r =>
    obtain ⟨_, w⟩ := r
    rw [burn_of_ok he hset, ← he.tx]
    rw [hsender] at hset
    obtain ⟨-, -, -, d, -, hd, -, rfl⟩ := settle_ok hset
    have hlook := look_effect hv hset
    unfold worth
    by_cases hself : e.tx.transaction.from = w.address
    · -- the sender is credited with what it paid, except for stake
      rw [if_pos hself]
      have hpoint : ∀ a, (look v (effect env v t.overlay e) a).value
          + (if e.tx.transaction.from = a then sentStake e.tx.transaction else 0)
          = (look v t.overlay a).value := by
        intro a
        rw [hlook a]
        by_cases ha : e.tx.transaction.from = a
        · rw [if_pos ha, if_pos ha, keptSender, if_pos hself, refund_value_nonce, ← ha]
          exact hd.refund_value
        · rw [if_neg ha, if_neg ha, if_neg (hself ▸ ha), Nat.add_zero]
      rw [← Finset.sum_congr rfl fun a _ => hpoint a, Finset.sum_add_distrib]
      simp
    · -- what the sender loses the recipient gains
      rw [if_neg hself, Nat.add_zero]
      have hpair := value_add_le_worth v t.overlay hself
      have hvalue := hd.value
      have hpoint : ∀ a, (look v (effect env v t.overlay e) a).value
          + (if e.tx.transaction.from = a then sent e.tx.transaction else 0)
          = (look v t.overlay a).value
            + (if w.address = a then sent e.tx.transaction else 0) := by
        intro a
        rw [hlook a]
        by_cases ha : e.tx.transaction.from = a
        · rw [if_pos ha, if_pos ha, keptSender, if_neg hself, if_neg (ha ▸ Ne.symm hself), ← ha]
          exact hvalue
        rw [if_neg ha, if_neg ha]
        by_cases hw : w.address = a
        · rw [if_pos hw, if_pos hw, ← hw]
          exact credit_value (by omega)
        · rw [if_neg hw, if_neg hw]
      have hsum := Finset.sum_congr (rfl : (Finset.univ : Finset Address) = _) fun a _ => hpoint a
      rw [Finset.sum_add_distrib, Finset.sum_add_distrib] at hsum
      simpa using hsum

/-! ## Runs of turns -/

variable (env) in
theorem executeSequence_worth (p : Bool) {txs : List SignedTransaction} :
    ∀ {s : StateManager V} {overlay : AccountTable}, s.view = v → worth v overlay < 2 ^ 128 →
      worth v (executeSequence env p s overlay txs).2.1
        + ((sequenceTurns env p s overlay txs).map (burn env v)).sum = worth v overlay := by
  induction txs with
  | nil => intro s overlay _ _; rfl
  | cons tx txs ih =>
    intro s overlay hv hfits
    obtain ⟨e, he, -, heff, -⟩ := executeTransactionOverlay_at env s tx overlay p
    have hstep := worth_effect env (hv ▸ s.view_address) he hfits
    rw [hv] at heff
    have hrest := @ih (s.executeTransactionOverlay env tx overlay p).2.2
      (s.executeTransactionOverlay env tx overlay p).2.1
      ((executeTransactionOverlay_ledger ..).view.trans hv)
      (by rw [heff]; dsimp only at hstep; omega)
    rw [executeSequence_cons, sequenceTurns, map_cons, sum_cons]
    rw [heff] at hrest ⊢
    dsimp only at hstep ⊢
    omega

variable (env) in
theorem executeGroups_worth (p : Bool) (g : Address) {order : List (SignedTransaction × Nat)} :
    ∀ {s : StateManager V} {overlays : Address → AccountTable}, s.view = v →
      worth v (overlays g) < 2 ^ 128 →
      worth v ((executeGroups env p s overlays order).overlays g)
        + (((groupTurns env p s overlays order).filter
            fun t => t.tx.transaction.from = g).map (burn env v)).sum = worth v (overlays g) := by
  induction order with
  | nil => intro s overlays _ _; rfl
  | cons head order ih =>
    obtain ⟨tx, i⟩ := head
    intro s overlays hv hfits
    obtain ⟨e, he, -, heff, -⟩ :=
      executeTransactionOverlay_at env s tx (overlays tx.transaction.from) p
    have hrest := @ih (s.executeTransactionOverlay env tx (overlays tx.transaction.from) p).2.2
      (stepOverlays env p s overlays tx)
      ((executeTransactionOverlay_ledger ..).view.trans hv)
    rw [executeGroups_cons, groupTurns]
    by_cases hg : tx.transaction.from = g
    · subst hg
      have hstep := worth_effect env (hv ▸ s.view_address) he hfits
      have hself : stepOverlays env p s overlays tx tx.transaction.from
          = effect env v (overlays tx.transaction.from) e := by
        rw [stepOverlays, if_pos rfl, heff, hv]
      rw [hself] at hrest
      rw [filter_cons_of_pos (by simp), map_cons, sum_cons]
      dsimp only at hstep ⊢
      omega
    · have hother : stepOverlays env p s overlays tx g = overlays g := by
        rw [stepOverlays, if_neg (Ne.symm hg)]
      rw [hother] at hrest
      rw [filter_cons_of_neg (by simpa using hg)]
      exact hrest hfits

/-- A group only lowers its own sender. -/
def OthersRise (v : Address → Account) (g : Address) (overlay : AccountTable) : Prop :=
  ∀ a, a ≠ g → (v a).balance.toNat ≤ (look v overlay a).balance.toNat
    ∧ (v a).stake.toNat ≤ (look v overlay a).stake.toNat

theorem OthersRise.effect (hv : ∀ a, (v a).address = a) {overlay : AccountTable} {e : Event}
    (h : OthersRise v e.tx.transaction.from overlay) :
    OthersRise v e.tx.transaction.from (effect env v overlay e) := by
  intro a ha
  obtain ⟨hb, hst⟩ := h a ha
  obtain ⟨hb', hst', -⟩ := look_effect_others env hv ha
  exact ⟨Nat.le_trans hb hb', Nat.le_trans hst hst'⟩

variable (env) in
theorem executeGroups_othersRise (p : Bool) (s : StateManager V)
    (order : List (SignedTransaction × Nat)) (g : Address) :
    OthersRise s.view g ((runGroups env p s order).overlays g) :=
  executeGroups_induct env (I := OthersRise s.view) p
    (fun _ _ _ h => h.effect s.view_address) rfl
    (fun _ _ _ => ⟨Nat.le_refl _, Nat.le_refl _⟩) g

/-! ## The merge -/

/-- Of changes that are nonnegative with one exception, the exception bounds
the sum from below. -/
theorem single_le_sum_map {groups : List Address} (hnd : groups.Nodup) {a : Address}
    {d : Address → Int} (hothers : ∀ g, g ≠ a → 0 ≤ d g) :
    (if a ∈ groups then d a else 0) ≤ (groups.map d).sum := by
  induction groups with
  | nil => simp
  | cons g groups ih =>
    rw [nodup_cons] at hnd
    have hrest := ih hnd.2
    rw [map_cons, sum_cons]
    by_cases hg : g = a
    · subst hg
      rw [if_neg hnd.1] at hrest
      rw [if_pos mem_cons_self]
      omega
    · have := hothers g hg
      have hmem : a ∈ g :: groups ↔ a ∈ groups := by simp [Ne.symm hg]
      simp only [hmem]
      omega

/-- The base and all differences to it, as integers. -/
def summed {txs : List SignedTransaction} (x : Account → Amount) (v : Address → Account)
    (schedule : Schedule txs) (overlays : Address → AccountTable) (a : Address) : Int :=
  (x (v a)).toNat + (schedule.groups.map fun g =>
    ((x (look v (overlays g) a)).toNat : Int) - (x (v a)).toNat).sum

section Merge

variable {txs : List SignedTransaction} {schedule : Schedule txs}
  {overlays : Address → AccountTable} {x : Account → Amount} {a : Address}

section

variable (hrise : ∀ g, g ≠ a → (x (v a)).toNat ≤ (x (look v (overlays g) a)).toNat)

include hrise

/-- The sum is at least what the account's own group made of it. -/
theorem le_summed : ((if a ∈ schedule.groups then (x (look v (overlays a) a)).toNat
        else (x (v a)).toNat : Nat) : Int)
      ≤ summed x v schedule overlays a := by
  have h := single_le_sum_map (a := a) (d := fun g =>
    ((x (look v (overlays g) a)).toNat : Int) - (x (v a)).toNat) schedule.groups_nodup
    fun g hg => by have := hrise g hg; omega
  unfold summed
  split at h <;> rename_i hmem
  · rw [if_pos hmem]; omega
  · rw [if_neg hmem]; omega

theorem summed_nonneg : 0 ≤ summed x v schedule overlays a :=
  Int.le_trans (Int.natCast_nonneg _) (le_summed hrise)

end

/-- All differences together are the groups' differences in worth. -/
theorem sum_summed :
    ∑ a, (summed Account.balance v schedule overlays a + summed Account.stake v schedule overlays a)
      = (worth v Table.empty : Int)
        + (schedule.groups.map fun g =>
            (worth v (overlays g) : Int) - worth v Table.empty).sum := by
  have hsplit : ∀ a, summed Account.balance v schedule overlays a
        + summed Account.stake v schedule overlays a
      = ((v a).value : Int) + ∑ g ∈ schedule.groups.toFinset,
          (((look v (overlays g) a).value : Int) - (v a).value) := by
    intro a
    unfold summed Account.value
    rw [← sum_toFinset _ schedule.groups_nodup, ← sum_toFinset _ schedule.groups_nodup]
    push_cast
    rw [add_add_add_comm, ← Finset.sum_add_distrib]
    congr 1
    refine Finset.sum_congr rfl fun g _ => ?_
    omega
  rw [← sum_toFinset _ schedule.groups_nodup, Finset.sum_congr rfl fun a _ => hsplit a,
    Finset.sum_add_distrib, Finset.sum_comm]
  unfold worth
  push_cast
  simp only [Finset.sum_sub_distrib, look_empty]

theorem merged_exact (hrise : ∀ g, OthersRise v g (overlays g))
    (hworth : ∀ g, worth v (overlays g) ≤ worth v Table.empty)
    (hfits : worth v Table.empty < 2 ^ 128) (a : Address) :
    ((look v (merged v schedule overlays) a).balance.toNat : Int)
        = summed Account.balance v schedule overlays a
      ∧ ((look v (merged v schedule overlays) a).stake.toNat : Int)
        = summed Account.stake v schedule overlays a := by
  have hb : ∀ a, 0 ≤ summed Account.balance v schedule overlays a := fun a =>
    summed_nonneg fun g hg => (hrise g a (Ne.symm hg)).1
  have hst : ∀ a, 0 ≤ summed Account.stake v schedule overlays a := fun a =>
    summed_nonneg fun g hg => (hrise g a (Ne.symm hg)).2
  have hchange : (schedule.groups.map fun g =>
      (worth v (overlays g) : Int) - worth v Table.empty).sum ≤ 0 := by
    rw [← sum_toFinset _ schedule.groups_nodup]
    refine Finset.sum_nonpos fun g _ => ?_
    have := hworth g
    omega
  have hle : summed Account.balance v schedule overlays a
      + summed Account.stake v schedule overlays a ≤ worth v Table.empty := by
    have hone := Finset.single_le_sum (f := fun a => summed Account.balance v schedule overlays a
      + summed Account.stake v schedule overlays a)
      (fun a _ => Int.add_nonneg (hb a) (hst a)) (Finset.mem_univ a)
    rw [sum_summed] at hone
    omega
  have hb' := hb a
  have hst' := hst a
  exact ⟨toNat_merged_amount _ (fun _ _ => rfl) rfl (hb a)
      (by unfold summed at *; omega),
    toNat_merged_amount _ (fun _ _ => rfl) rfl (hst a)
      (by unfold summed at *; omega)⟩

theorem worth_merged (hrise : ∀ g, OthersRise v g (overlays g)) {lost : Address → Nat}
    (hworth : ∀ g, worth v (overlays g) + lost g = worth v Table.empty)
    (hfits : worth v Table.empty < 2 ^ 128) :
    worth v (merged v schedule overlays) + (schedule.groups.map lost).sum
      = worth v Table.empty := by
  have hvalue : ∀ a, ((look v (merged v schedule overlays) a).value : Int)
      = summed Account.balance v schedule overlays a
        + summed Account.stake v schedule overlays a := by
    intro a
    obtain ⟨hb, hst⟩ := @merged_exact v txs schedule overlays hrise
      (fun g => by have := hworth g; omega) hfits a
    rw [← hb, ← hst]
    exact Nat.cast_add _ _
  have hlost : ∀ g, (worth v (overlays g) : Int) - worth v Table.empty = -(lost g : Int) := by
    intro g
    have := hworth g
    omega
  have hsum : (worth v (merged v schedule overlays) : Int)
      = worth v Table.empty - ((schedule.groups.map lost).sum : Nat) := by
    rw [← sum_toFinset _ schedule.groups_nodup, worth, Nat.cast_sum, Finset.sum_congr rfl fun a _ =>
      hvalue a, sum_summed, ← sum_toFinset _ schedule.groups_nodup, Finset.sum_congr rfl fun g _ =>
      hlost g, Finset.sum_neg_distrib, Nat.cast_sum]
    rfl
  omega

end Merge

/-! ## Batches -/

variable (env) in
theorem batchRun_worth (p : Bool) (s : StateManager V) (txs : List SignedTransaction)
    (schedule : Schedule txs) (hfits : worth s.view Table.empty < 2 ^ 128) :
    worth s.view (batchRun env p s txs schedule).2.1
      + ((turns env p s txs schedule).map (burn env s.view)).sum = worth s.view Table.empty := by
  unfold turns
  split
  · rename_i hlen
    rw [batchRun_sequential _ p s _ hlen]
    exact executeSequence_worth env p rfl hfits
  rename_i hlen
  have hmem : ∀ t ∈ groupTurns env p s (fun _ => Table.empty) schedule.order,
      t.tx.transaction.from ∈ schedule.groups := by
    intro t ht
    have htx := mem_map_of_mem (f := Turn.tx) ht
    rw [groupTurns_map] at htx
    obtain ⟨_, hti, htx⟩ := mem_map.mp htx
    exact schedule.mem_groups.mpr ⟨_, htx ▸ schedule.mem_of_order hti, rfl⟩
  rw [(batchRun_parallel env p s schedule hlen).2.1,
    ← Grouping.sum_map_filter _ _ schedule.groups_nodup hmem]
  exact worth_merged (executeGroups_othersRise env p s schedule.order)
    (fun g => executeGroups_worth env p g rfl hfits) hfits

/-- Over a coherent cache the worth of the view is the total of storage. -/
theorem worth_view {s : StateManager V} (hs : s.Coherent) : worth s.view Table.empty = s.total := by
  unfold worth total
  rw [sum_eq_univ]
  exact Finset.sum_congr rfl fun a _ => hs.value a

variable (env) in
theorem total_applyTransactionsAtomically {s : StateManager V} (hs : s.Coherent)
    (txs : List SignedTransaction) (schedule : Schedule txs) :
    (s.applyTransactionsAtomically env txs schedule).2.total
      = worth s.view (batchRun env true s txs schedule).2.1 := by
  unfold worth total
  rw [sum_eq_univ]
  refine Finset.sum_congr rfl fun a _ => ?_
  rw [applyTransactionsAtomically_storage, look]
  cases (batchRun env true s txs schedule).2.1.get a with
  | some => rfl
  | none => exact (hs.value a).symm

/-- An accepted `StakeTransfer` to its own sender burns a positive amount. -/
theorem burn_eq_zero_iff {t : Turn} : burn env v t = 0 ↔ (SelfStake t.tx.transaction →
      accepts env t.committee t.tx (t.sender v) = false) := by
  unfold burn
  by_cases hself : SelfStake t.tx.transaction
  · cases hacc : accepts env t.committee t.tx (t.sender v) with
    | false => simp
    | true =>
      obtain ⟨_, hset⟩ := accepts_iff.mp hacc
      have hpos : 1 ≤ t.tx.transaction.amount.toNat :=
        (amount_of_check (settle_ok hset).1).2 (by rw [Event.plain_tx, hself.1]; rfl)
      simp only [hself, true_and, if_true, forall_true_left, Bool.true_eq_false, iff_false]
      omega
  · simp [hself]

variable (env) in
/-- Conservation of value: a batch of any length, run on either path, keeps
the total of balances and stakes exactly if every `StakeTransfer` of an
account to itself is rejected at its turn. -/
theorem total_conserved_iff {s : StateManager V} (hs : s.Coherent) (htotal : s.total < 2 ^ 128)
    (txs : List SignedTransaction) (schedule : Schedule txs) :
    (s.applyTransactionsAtomically env txs schedule).2.total = s.total ↔
      ∀ t ∈ turns env true s txs schedule, SelfStake t.tx.transaction →
        accepts env t.committee t.tx (t.sender s.view) = false := by
  have hworth := worth_view hs
  have hbatch := batchRun_worth env true s txs schedule (by omega)
  have hzero : ((turns env true s txs schedule).map (burn env s.view)).sum = 0 ↔
      ∀ t ∈ turns env true s txs schedule, burn env s.view t = 0 := by
    simp [sum_eq_zero_iff]
  rw [total_applyTransactionsAtomically _ hs]
  constructor
  · intro h t ht
    exact burn_eq_zero_iff.mp (hzero.mp (by omega) t ht)
  · intro h
    have := hzero.mpr fun t ht => burn_eq_zero_iff.mpr (h t ht)
    omega

end

/-- An account that transfers stake to itself loses it. -/
theorem self_stake_burns : let s := StateManager.new (empty.put (sampleAccount 1 0 10)) 0 ()
    let txs := [sampleTx .stakeTransfer 1 1 4 0]
    s.total = 10 ∧ (s.applyTransactionsAtomically Platform.sample txs
      (Schedule.inOrder txs)).2.total = 6 := by
  decide

/-- A batch of payments. -/
theorem payments_conserved :
    let s := StateManager.new (empty.put (sampleAccount 1 10 10)) 0 ()
    let txs := [sampleTx .transfer 1 2 4 0, sampleTx .stakeTransfer 1 2 4 1]
    (s.applyTransactionsAtomically Platform.sample txs (Schedule.inOrder txs)).2.total
      = s.total := by
  intro s txs
  refine (total_conserved_iff Platform.sample (new_coherent _ _ _) (by decide) txs _).mpr ?_
  intro t ht hself
  have htx := mem_of_turns Platform.sample ht
  exact absurd hself.2 ((by decide : ∀ tx ∈ txs, tx.transaction.from ≠ tx.transaction.to) _ htx)

end Quantos

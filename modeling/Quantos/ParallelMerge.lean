import Quantos.Groups
import Mathlib.Tactic.Ring
import Mathlib.Algebra.BigOperators.Ring.List

/-!
# Replica agreement of the parallel path

Every node iterates its hash maps in its own order. For batches that touch
neither contracts nor the committee manager the result does not depend on
it: the groups replay the same events, the field-wise merge is commutative
on versions of one account that share code and storage root, and sorting
puts receipts and accounts into one order. The arithmetic of the merge is
`u128`, so intermediate sums may wrap without changing the result; the
second half bounds the ledgers on which they do not.
-/

namespace Quantos

open StateManager List

/-- Neither contracts nor validator registration or exit. -/
def Quiet (tx : SignedTransaction) : Prop :=
  tx.transaction.txType.isContract = false ∧ tx.transaction.txType ≠ .validatorRegister
    ∧ tx.transaction.txType ≠ .validatorExit

instance (tx : SignedTransaction) : Decidable (Quiet tx) :=
  inferInstanceAs (Decidable (_ ∧ _ ∧ _))

section

variable {V : Type} (env : Platform V)

/-! ## The groups -/

/-- A replay does not depend on the committee managers its events meet. -/
theorem replay_congr {v : Address → Account} {es es' : List (Event × Nat)}
    (h : (es.map fun ei => (ei.1.tx, ei.2)) = es'.map fun ei => (ei.1.tx, ei.2))
    (hes : ∀ ei ∈ es, ei.1 = .plain ei.1.tx ei.1.committee)
    (hes' : ∀ ei ∈ es', ei.1 = .plain ei.1.tx ei.1.committee)
    (hreg : ∀ ei ∈ es, ei.1.tx.transaction.txType ≠ .validatorRegister)
    {overlay : AccountTable} : replay env v overlay es = replay env v overlay es' := by
  induction es generalizing es' overlay with
  | nil =>
    cases es' with
    | nil => rfl
    | cons => simp at h
  | cons ei es ih =>
    cases es' with
    | nil => simp at h
    | cons ei' =>
      obtain ⟨e, i⟩ := ei
      obtain ⟨e', _⟩ := ei'
      simp only [map_cons, List.cons.injEq, Prod.mk.injEq] at h
      obtain ⟨⟨htx, rfl⟩, hrest⟩ := h
      have he := hes _ mem_cons_self
      have he' := hes' _ mem_cons_self
      obtain ⟨heff, hout⟩ : effect env v overlay (.plain e.tx e.committee) = _
          ∧ outcome env v overlay (.plain e.tx e.committee) = _ :=
        effect_committee (hreg _ mem_cons_self) v overlay e.committee e'.committee
      rw [htx, ← he', ← htx, ← he] at heff hout
      rw [replay, replay, heff, hout, htx,
        ih hrest (fun ei h => hes ei (mem_cons_of_mem _ h))
          (fun ei h => hes' ei (mem_cons_of_mem _ h)) (fun ei h => hreg ei (mem_cons_of_mem _ h))]

variable {txs : List SignedTransaction} (p : Bool) (s : StateManager V)

theorem executeGroups_schedule (hquiet : ∀ tx ∈ txs, Quiet tx) {σ σ' : Schedule txs} {g : Address} :
    ((runGroups env p s σ.order).results.filter
        fun r => r.1.1.transaction.from = g,
      (runGroups env p s σ.order).overlays g)
    = ((runGroups env p s σ'.order).results.filter
        fun r => r.1.1.transaction.from = g,
      (runGroups env p s σ'.order).overlays g) := by
  have hc : ∀ σ : Schedule txs, ∀ ti ∈ σ.order, ti.1.transaction.txType.isContract = false :=
    fun σ ti h => (hquiet _ (σ.mem_of_order h)).1
  rw [executeGroups_replay _ p rfl (hc σ) g, executeGroups_replay _ p rfl (hc σ') g]
  refine replay_congr env ((groupTrace_filter ..).trans
    (groupTrace_filter ..).symm)
    (fun ei h => groupTrace_plain env p s _ _ ei (mem_of_mem_filter h))
    (fun ei h => groupTrace_plain env p s _ _ ei (mem_of_mem_filter h)) ?_
  intro ei h
  exact (hquiet _ (tx_mem_of_groupTrace env σ p s _ (mem_of_mem_filter h))).2.1

theorem collectReceipts_schedule (hquiet : ∀ tx ∈ txs, Quiet tx) (σ σ' : Schedule txs) :
    collectReceipts σ.groups (runGroups env p s σ.order).results = collectReceipts σ'.groups
          (runGroups env p s σ'.order).results := by
  have hmem : ∀ τ ρ : Schedule txs,
      ∀ r ∈ (runGroups env p s τ.order).results,
        r.1.1.transaction.from ∈ ρ.groups := by
    intro τ ρ r hr
    have hr' : r.1 ∈ τ.order := by
      rw [← executeGroups_results_map env p s (fun _ => Table.empty) τ.order]
      exact mem_map_of_mem hr
    exact ρ.mem_groups.mpr ⟨_, τ.mem_of_order hr', rfl⟩
  refine collectReceipts_congr σ.groups_nodup (hmem σ σ) σ'.groups_nodup (hmem σ' σ') ?_ ?_
  · have hidx := σ.order_indices_nodup
    rw [← executeGroups_results_map env p s (fun _ => Table.empty) σ.order, map_map] at hidx
    exact hidx
  · -- both are their own groups put together, and the groups agree
    have hsplit := fun τ => Grouping.flatMap_filter_perm
      (fun r : Tagged (Except StateError TransactionReceipt) => r.1.1.transaction.from)
      σ.groups_nodup (hmem τ σ)
    have hsame : (σ.groups.flatMap fun g =>
          (runGroups env p s σ.order).results.filter
            fun r => r.1.1.transaction.from = g)
        = σ.groups.flatMap fun g =>
          (runGroups env p s σ'.order).results.filter
            fun r => r.1.1.transaction.from = g :=
      flatMap_congr fun g _ =>
        congrArg Prod.fst (executeGroups_schedule env p s hquiet)
    exact (hsplit σ).symm.trans (hsame ▸ hsplit σ')

theorem contributions_schedule (hquiet : ∀ tx ∈ txs, Quiet tx) {σ σ' : Schedule txs} :
    (contributions σ (runGroups env p s σ.order).overlays).Perm
      (contributions σ' (runGroups env p s σ'.order).overlays) := by
  have hoverlays : (runGroups env p s σ.order).overlays
      = (runGroups env p s σ'.order).overlays :=
    funext fun g => congrArg Prod.snd (executeGroups_schedule env p s hquiet)
  rw [hoverlays]
  refine (List.Perm.flatMap_left _ fun g _ => σ.overlayOrder_perm g _).trans ?_
  refine (List.Perm.flatMap_right _ (σ.groups_perm.trans σ'.groups_perm.symm)).trans ?_
  exact List.Perm.flatMap_left _ fun g _ => (σ'.overlayOrder_perm g _).symm

/-! ## The merge -/

/-- Versions of one account with the same code can be merged in any order. -/
theorem mergeOver_comm {v : Address → Account} {x y : Account} (haddr : x.address = y.address)
    (hcode : x.codeHash = y.codeHash) (hroot : x.storageRoot = y.storageRoot) {z : Option Account} :
    Table.mergeOpt (mergeOver v) (Table.mergeOpt (mergeOver v) z x) y
      = Table.mergeOpt (mergeOver v) (Table.mergeOpt (mergeOver v) z y) x := by
  have hnonce : ∀ a b c : UInt64, max a (max b c) = max b (max a c) := by
    intro a b c
    apply UInt64.toNat_inj.mp
    simp only [UInt64.toNat_max]
    omega
  have hnonce₂ : ∀ a b : UInt64, max a b = max b a := by
    intro a b
    apply UInt64.toNat_inj.mp
    simp only [UInt64.toNat_max]
    omega
  cases z with
  | none =>
    simp only [Table.mergeOpt, mergeOver, mergeAccount, haddr, hcode, hroot, Option.some.injEq,
      Account.mk.injEq, Amount.mk.injEq, true_and]
    exact ⟨by ring, hnonce₂ _ _, by ring, Bool.or_comm _ _⟩
  | some =>
    simp only [Table.mergeOpt, mergeOver, mergeAccount, haddr, hcode, hroot, Option.some.injEq,
      Account.mk.injEq, Amount.mk.injEq, true_and]
    refine ⟨by ring, hnonce _ _ _, by ring, ?_⟩
    rw [← Bool.or_assoc, Bool.or_comm y.isValidator, Bool.or_assoc]

theorem contribution_code (hquiet : ∀ tx ∈ txs, Quiet tx) {σ : Schedule txs} {r : Account}
    (hr : r ∈ contributions σ (runGroups env p s σ.order).overlays) :
    r.codeHash = (s.view r.address).codeHash ∧ r.storageRoot = (s.view r.address).storageRoot := by
  obtain ⟨g, -, hget⟩ := mem_contributions hr
  have h := executeGroups_sameCode env σ p s (fun tx htx => (hquiet tx htx).1) g r.address
  rwa [look_of_some hget] at h

/-- The merged overlay of a quiet batch reads the same under every schedule. -/
theorem mergeAll_schedule (hquiet : ∀ tx ∈ txs, Quiet tx) (σ σ' : Schedule txs) (a : Address) :
    ((Table.empty : AccountTable).mergeAll (mergeOver s.view)
      (contributions σ (runGroups env p s σ.order).overlays)).get a
    = ((Table.empty : AccountTable).mergeAll (mergeOver s.view) (contributions σ'
        (runGroups env p s σ'.order).overlays)).get a := by
  refine Table.get_mergeAll_perm _ (mergeOver_address s.view)
    (contributions_schedule env p s hquiet) _ a ?_
  intro x hx y hy hxa hya z
  obtain ⟨hxc, hxr⟩ := contribution_code env p s hquiet hx
  obtain ⟨hyc, hyr⟩ := contribution_code env p s hquiet hy
  rw [hxa] at hxc hxr
  rw [hya] at hyc hyr
  exact mergeOver_comm (hxa.trans hya.symm) (hxc.trans hyc.symm) (hxr.trans hyr.symm)

/-- Two replicas with different hash seeds and thread timing compute the
same execution. -/
theorem executeTransactionsOverlay_schedule (hlen : 8 < txs.length) (p : Bool)
    (hquiet : ∀ tx ∈ txs, Quiet tx) (σ σ' : Schedule txs) :
    (s.executeTransactionsOverlay env txs p σ).1
      = (s.executeTransactionsOverlay env txs p σ').1 := by
  obtain ⟨hrec, hov, -⟩ := batchRun_parallel env p s σ (by omega)
  obtain ⟨hrec', hov', -⟩ := batchRun_parallel env p s σ' (by omega)
  have hget := mergeAll_schedule env p s hquiet σ σ'
  rw [executeTransactionsOverlay_fst, executeTransactionsOverlay_fst, hrec, hrec', hov, hov',
    collectReceipts_schedule _ p s hquiet, overlayRoot_congr _ s hget, Table.toSorted_congr hget]

end

/-! ## The arithmetic of the merge -/

/-- `account + existing` stays within `u128`, for balance and stake. -/
def NoOverflow (existing account : Account) : Prop :=
  account.balance.toNat + existing.balance.toNat < 2 ^ 128
    ∧ account.stake.toNat + existing.stake.toNat < 2 ^ 128

/-- The (wrapped) sum is at least the base it is reduced by. -/
def NoUnderflow (base existing account : Account) : Prop :=
  base.balance.val ≤ account.balance.val + existing.balance.val
    ∧ base.stake.val ≤ account.stake.val + existing.stake.val

instance (base existing account : Account) : Decidable (NoUnderflow base existing account) :=
  inferInstanceAs (Decidable (_ ∧ _))

/-- Every merge of two versions that the merge loop performs meets `P`. -/
def MergesMeet (P : Account → Account → Account → Prop) (v : Address → Account) :
    AccountTable → List Account → Prop
  | _, [] => True
  | overlay, account :: rest =>
    match overlay.get account.address with
    | some existing => P (v account.address) existing account
        ∧ MergesMeet P v (overlay.put (mergeOver v existing account)) rest
    | none => MergesMeet P v (overlay.put account) rest

instance decidableMergesMeet {P : Account → Account → Account → Prop}
    [∀ base existing account, Decidable (P base existing account)] (v : Address → Account) :
    ∀ overlay rows, Decidable (MergesMeet P v overlay rows)
  | _, [] => .isTrue trivial
  | overlay, account :: rest =>
    show Decidable (match overlay.get account.address with
      | some existing => P (v account.address) existing account
          ∧ MergesMeet P v (overlay.put (mergeOver v existing account)) rest
      | none => MergesMeet P v (overlay.put account) rest) from
    match overlay.get account.address with
    | some existing =>
      @instDecidableAnd _ _ inferInstance
        (decidableMergesMeet v (overlay.put (mergeOver v existing account)) rest)
    | none => decidableMergesMeet v (overlay.put account) rest

/-- An account at most `w` above its base, in balance and in stake, and not
below it if `floor` says so. -/
structure Above (v : Address → Account) (w : Nat) (floor : Prop) (acc : Account) : Prop where
  balance_le : acc.balance.toNat ≤ (v acc.address).balance.toNat + w
  stake_le : acc.stake.toNat ≤ (v acc.address).stake.toNat + w
  balance_ge : floor → (v acc.address).balance.toNat ≤ acc.balance.toNat
  stake_ge : floor → (v acc.address).stake.toNat ≤ acc.stake.toNat

variable {v : Address → Account} {floor' floor : Prop} {w w' : Nat}

theorem Above.mono {acc : Account} (h : Above v w floor acc) (hw : w ≤ w')
    (hfloor : floor' → floor) : Above v w' floor' acc :=
  ⟨Nat.le_trans h.balance_le (by omega), Nat.le_trans h.stake_le (by omega),
    fun hf => h.balance_ge (hfloor hf), fun hf => h.stake_ge (hfloor hf)⟩

theorem toNat_merged {x y b : BitVec 128} (hsum : x.toNat + y.toNat < 2 ^ 128)
    (hb : b.toNat ≤ x.toNat + y.toNat) :
    (x + y - b).toNat = x.toNat + y.toNat - b.toNat ∧ b ≤ x + y := by
  have hadd : (x + y).toNat = x.toNat + y.toNat := by
    rw [BitVec.toNat_add]
    exact Nat.mod_eq_of_lt hsum
  have hle : b ≤ x + y := by
    rw [BitVec.le_def, hadd]
    exact hb
  rw [BitVec.toNat_sub_of_le hle, hadd]
  exact ⟨rfl, hle⟩

/-- Two versions of an account of which at most one lies below the base
merge without wrapping, and the distances above the base add up. -/
theorem Above.merge {existing account : Account} (h : Above v w floor existing)
    (h' : Above v w' floor' account) (haddr : existing.address = account.address)
    (hfloor : floor ∨ floor') (hbal : 2 * (v account.address).balance.toNat + w + w' < 2 ^ 128)
    (hstake : 2 * (v account.address).stake.toNat + w + w' < 2 ^ 128) :
    NoOverflow existing account ∧ NoUnderflow (v account.address) existing account
      ∧ Above v (w + w') (floor ∧ floor') (mergeOver v existing account) := by
  obtain ⟨hb, hst, hbf, hstf⟩ := h
  obtain ⟨_, _, hbf', hstf'⟩ := h'
  rw [haddr] at hb hst hbf hstf
  have hlow : (v account.address).balance.toNat
        ≤ account.balance.toNat + existing.balance.toNat
      ∧ (v account.address).stake.toNat ≤ account.stake.toNat + existing.stake.toNat := by
    rcases hfloor with hf | hf
    · have := hbf hf; have := hstf hf; omega
    · have := hbf' hf; have := hstf' hf; omega
  have hbound : account.balance.toNat + existing.balance.toNat < 2 ^ 128
      ∧ account.stake.toNat + existing.stake.toNat < 2 ^ 128 := by omega
  obtain ⟨hbval, hble⟩ := toNat_merged hbound.1 hlow.1
  obtain ⟨hsval, hsle⟩ := toNat_merged hbound.2 hlow.2
  have hmb : (mergeOver v existing account).balance.toNat
      = account.balance.toNat + existing.balance.toNat - (v account.address).balance.toNat := hbval
  have hms : (mergeOver v existing account).stake.toNat
      = account.stake.toNat + existing.stake.toNat - (v account.address).stake.toNat := hsval
  refine ⟨hbound, ⟨hble, hsle⟩, ?_⟩
  constructor
  · rw [hmb, mergeOver_address v _ _ haddr]; omega
  · rw [hms, mergeOver_address v _ _ haddr]; omega
  · rintro ⟨hf, hf'⟩
    have := hbf hf; have := hbf' hf'
    rw [hmb, mergeOver_address v _ _ haddr]; omega
  · rintro ⟨hf, hf'⟩
    have := hstf hf; have := hstf' hf'
    rw [hms, mergeOver_address v _ _ haddr]; omega

/-- A merge neither overflows nor underflows. -/
def Exact (base existing account : Account) : Prop :=
  NoOverflow existing account ∧ NoUnderflow base existing account

theorem mergesMeet_append {P : Account → Account → Account → Prop} {l l' : List Account} :
    ∀ {overlay : AccountTable}, MergesMeet P v overlay l →
      MergesMeet P v (overlay.mergeAll (mergeOver v) l) l' → MergesMeet P v overlay (l ++ l') := by
  induction l with
  | nil => intro overlay _ h'; exact h'
  | cons x l ih =>
    intro overlay h h'
    rw [Table.mergeAll, foldl_cons] at h'
    rw [cons_append, MergesMeet]
    rw [MergesMeet] at h
    cases hget : overlay.get x.address with
    | none =>
      rw [hget] at h h'
      exact ih h h'
    | some =>
      rw [hget] at h h'
      exact ⟨h.1, ih h.2 h'⟩

/-- Merging the rows of one more group. `G` are the groups merged so far,
`W` what they may have added. -/
theorem mergesMeet_rows {W : Nat} {g : Address} {G : List Address} (hg : g ∉ G)
    (hfits : ∀ a, 2 * (v a).balance.toNat + W + w < 2 ^ 128
      ∧ 2 * (v a).stake.toNat + W + w < 2 ^ 128) :
    ∀ {rows : List Account} {overlay : AccountTable}, (rows.map Account.address).Nodup →
      (∀ r ∈ rows, Above v w (r.address ≠ g) r) →
      (∀ k e, overlay.get k = some e → Above v (W + w) (k ∉ g :: G) e
        ∧ (k ∈ rows.map Account.address → Above v W (k ∉ G) e)) → MergesMeet Exact v overlay rows ∧
      ∀ k e, (overlay.mergeAll (mergeOver v) rows).get k = some e
        → Above v (W + w) (k ∉ g :: G) e := by
  intro rows
  induction rows with
  | nil => exact fun _ _ hM => ⟨trivial, fun k e h => (hM k e h).1⟩
  | cons r rows ih =>
    intro overlay hnd hrows hM
    rw [map_cons, nodup_cons] at hnd
    have hr := hrows r mem_cons_self
    have hrows' : ∀ r ∈ rows, Above v w (r.address ≠ g) r :=
      fun r h => hrows r (mem_cons_of_mem _ h)
    -- writing a bounded row at `r.address` restores the hypothesis for the rest
    have hput : ∀ x : Account, x.address = r.address → Above v (W + w) (r.address ∉ g :: G) x →
        ∀ k e, (overlay.put x).get k = some e → Above v (W + w) (k ∉ g :: G) e
          ∧ (k ∈ rows.map Account.address → Above v W (k ∉ G) e) := by
      intro x hx habove k e h
      rw [Table.get_put, hx] at h
      split at h
      · rename_i hk
        subst hk
        obtain rfl := Option.some.inj h
        exact ⟨habove, fun hmem => absurd hmem hnd.1⟩
      · exact ⟨(hM k e h).1, fun hmem => (hM k e h).2 (mem_cons_of_mem _ hmem)⟩
    rw [MergesMeet, Table.mergeAll, foldl_cons]
    cases hget : overlay.get r.address with
    | none =>
      refine ih hnd.2 hrows' (hput r rfl (hr.mono (by omega) ?_))
      intro hnot heq
      exact hnot (heq ▸ mem_cons_self)
    | some e =>
      have he := (hM _ _ hget).2 (by simp)
      obtain ⟨hover, hunder, habove⟩ := he.merge hr (Table.key_of_get hget)
        (by
          by_cases heq : r.address = g
          · exact .inl (heq ▸ hg)
          · exact .inr heq)
        (hfits _).1 (hfits _).2
      obtain ⟨hmeet, hall⟩ := ih hnd.2 hrows' (hput (mergeOver v e r) rfl (habove.mono
        (Nat.le_refl _) fun hnot =>
          ⟨fun h => hnot (mem_cons_of_mem _ h), fun h => hnot (h ▸ mem_cons_self)⟩))
      exact ⟨⟨⟨hover, hunder⟩, hmeet⟩, hall⟩

theorem mergesMeet_groups {w : Address → Nat} {rowsOf : Address → List Account}
    (hnd : ∀ g, ((rowsOf g).map Account.address).Nodup)
    (hrows : ∀ g, ∀ r ∈ rowsOf g, Above v (w g) (r.address ≠ g) r) :
    ∀ {groups G : List Address} {W : Nat} {overlay : AccountTable}, groups.Nodup →
      (∀ g ∈ groups, g ∉ G) → (∀ a, 2 * (v a).balance.toNat + W + (groups.map w).sum < 2 ^ 128
        ∧ 2 * (v a).stake.toNat + W + (groups.map w).sum < 2 ^ 128) →
      (∀ k e, overlay.get k = some e → Above v W (k ∉ G) e) →
      MergesMeet Exact v overlay (groups.flatMap rowsOf) := by
  intro groups
  induction groups with
  | nil => exact fun _ _ _ _ => trivial
  | cons g groups ih =>
    intro G W overlay hgroups hdisj hfits hM
    rw [nodup_cons] at hgroups
    simp only [map_cons, sum_cons] at hfits
    obtain ⟨hmeet, hall⟩ := mergesMeet_rows (hdisj g mem_cons_self)
      (fun a => by have := hfits a; omega) (hnd g) (hrows g)
      (fun k e h => ⟨(hM k e h).mono (by omega) fun hnot hk => hnot (mem_cons_of_mem _ hk),
        fun _ => hM k e h⟩)
    rw [flatMap_cons]
    refine mergesMeet_append hmeet (ih hgroups.2 ?_ (fun a => by have := hfits a; omega) hall)
    intro g' hg' hmem
    rcases mem_cons.mp hmem with rfl | hmem
    · exact hgroups.1 hg'
    · exact hdisj g' (mem_cons_of_mem _ hg') hmem

/-! ## What a group can add -/

/-- A sender gains at most the amount of its transaction, unless it exits. -/
theorem Debited.kept_le {tx : Transaction} {a d : Account} (h : Debited tx a d)
    (hexit : tx.txType ≠ .validatorExit) (nonce : UInt64) (w : Verdict) :
    (keptSender tx w { d with nonce }).balance.toNat ≤ a.balance.toNat + tx.amount.toNat
      ∧ (keptSender tx w { d with nonce }).stake.toNat ≤ a.stake.toNat + tx.amount.toNat := by
  obtain ⟨b, _, heq, hmove, -⟩ := h.kept_eq w nonce
  obtain ⟨_, _⟩ := hmove hexit
  have hchange : balanceChange tx w.address ≤ tx.amount.toNat
      ∧ stakeChange tx ≤ tx.amount.toNat := by
    unfold balanceChange stakeChange
    cases tx.txType <;> dsimp only <;> (try split) <;> omega
  rw [heq]
  dsimp only
  omega

section

variable {V : Type} {env : Platform V}

theorem Above.effect (hv : ∀ a, (v a).address = a) {overlay : AccountTable} {w : Nat}
    {g : Address} (h : ∀ a, Above v w (a ≠ g) (look v overlay a)) {tx : SignedTransaction}
    (hquiet : Quiet tx) (hg : tx.transaction.from = g) (cm : Option CommitteeManager)
    (a : Address) :
    Above v (w + MAX_TRANSACTION_AMOUNT) (a ≠ g)
      (look v (effect env v overlay (.plain tx cm)) a) := by
  cases hacc : accepts env cm tx (look v overlay tx.transaction.from) with
  | false =>
    rw [effect_of_rejected hacc]
    exact (h a).mono (by omega) id
  | true =>
    obtain ⟨_, hset⟩ := accepts_iff.mp hacc
    obtain ⟨hcheck, -, -, d, -, hd, -, rfl⟩ := settle_ok hset
    have hamount := (amount_of_check hcheck).1
    rw [look_effect hv hset, Event.plain_tx]
    rw [Event.plain_tx] at hamount hd
    obtain ⟨hb, hst, hbf, hstf⟩ := h a
    split
    · rename_i hfrom
      subst hfrom
      obtain ⟨_, _⟩ := hd.kept_le hquiet.2.2
        ((look v overlay tx.transaction.from).nonce + 1) ⟨tx.transaction.to, none, []⟩
      have haddr := (keptSender_address tx.transaction ⟨tx.transaction.to, none, []⟩
        { d with nonce := (look v overlay tx.transaction.from).nonce + 1 }).trans hd.frame.1
      constructor
      · rw [haddr]; omega
      · rw [haddr]; omega
      · exact fun hne => absurd hg hne
      · exact fun hne => absurd hg hne
    · rw [look_address hv] at hb hst hbf hstf
      split
      · rw [deliver_plain]
        obtain ⟨b, _, heq, hb', hst'⟩ := credit_eq tx.transaction (look v overlay a)
        have := sentBalance_le tx.transaction
        have := sentStake_le tx.transaction
        rw [heq]
        constructor <;> dsimp only <;> rw [look_address hv]
        · split at hb' <;> omega
        · split at hst' <;> omega
        · intro hne
          have := hbf hne
          split at hb' <;> omega
        · intro hne
          have := hstf hne
          split at hst' <;> omega
      · exact (h a).mono (by omega) id

variable (env) in
/-- A whole group adds at most one amount per transaction. -/
theorem replay_above (hv : ∀ a, (v a).address = a) {g : Address} {es : List (Event × Nat)}
    (hes : ∀ ei ∈ es, ei.1 = .plain ei.1.tx ei.1.committee ∧ Quiet ei.1.tx
      ∧ ei.1.tx.transaction.from = g) :
    ∀ {overlay : AccountTable} {w : Nat}, (∀ a, Above v w (a ≠ g) (look v overlay a)) →
      ∀ a, Above v (w + es.length * MAX_TRANSACTION_AMOUNT) (a ≠ g)
        (look v (replay env v overlay es).2 a) := by
  induction es with
  | nil =>
    intro overlay w h a
    simpa [replay] using h a
  | cons ei es ih =>
    obtain ⟨e, i⟩ := ei
    intro overlay w h a
    obtain ⟨hplain, hquiet, hg⟩ := hes _ mem_cons_self
    dsimp only at hplain hquiet hg
    have hstep : ∀ a, Above v (w + MAX_TRANSACTION_AMOUNT) (a ≠ g)
        (look v (effect env v overlay e) a) := by
      intro a
      rw [hplain]
      exact Above.effect hv h hquiet hg e.committee a
    refine (ih (fun ei h => hes ei (mem_cons_of_mem _ h)) hstep a).mono ?_ id
    rw [length_cons, Nat.add_mul]
    omega

end

/-! ## Replica agreement -/

section

variable {V : Type} (env : Platform V) {txs : List SignedTransaction}

theorem executeGroups_above (p : Bool) (s : StateManager V) (hquiet : ∀ tx ∈ txs, Quiet tx)
    (σ : Schedule txs) (g a : Address) :
    Above s.view
      ((txs.zipIdx.filter fun ti => ti.1.transaction.from = g).length * MAX_TRANSACTION_AMOUNT)
      (a ≠ g)
      (look s.view ((runGroups env p s σ.order).overlays g) a) := by
  have hreplay : (runGroups env p s σ.order).overlays g
      = (replay env s.view Table.empty ((groupTrace env p s (fun _ => Table.empty) σ.order).filter
          fun ei => ei.1.tx.transaction.from = g)).2 :=
    congrArg Prod.snd (executeGroups_replay env p rfl
      (fun ti h => (hquiet _ (σ.mem_of_order h)).1) g)
  rw [hreplay, ← groupTrace_filter _ _ p s (fun _ => Table.empty) g, length_map]
  have hbase : ∀ a, Above s.view 0 (a ≠ g) (look s.view Table.empty a) := by
    intro a
    rw [look_empty]
    constructor <;> simp [s.view_address]
  refine (replay_above env s.view_address ?_ hbase a).mono (by rw [Nat.zero_add]) id
  intro ei hei
  obtain ⟨hei, hg⟩ := mem_filter.mp hei
  exact ⟨groupTrace_plain env p s _ _ ei hei,
    hquiet _ (tx_mem_of_groupTrace env σ p s _ hei), of_decide_eq_true hg⟩

/-- The merge of a quiet batch does plain arithmetic if every balance and
stake leaves room for the batch. -/
theorem contributions_exact {p : Bool} {s : StateManager V} (hquiet : ∀ tx ∈ txs, Quiet tx)
    {σ : Schedule txs}
    (hroom : ∀ a, 2 * (s.view a).balance.toNat + txs.length * MAX_TRANSACTION_AMOUNT < 2 ^ 128
      ∧ 2 * (s.view a).stake.toNat + txs.length * MAX_TRANSACTION_AMOUNT < 2 ^ 128) :
    MergesMeet Exact s.view Table.empty (contributions σ (runGroups env p s σ.order).overlays) := by
  -- the groups' shares add up to the batch
  have hcount : (σ.groups.map fun g =>
      (txs.zipIdx.filter fun ti => ti.1.transaction.from = g).length
        * MAX_TRANSACTION_AMOUNT).sum = txs.length * MAX_TRANSACTION_AMOUNT := by
    rw [sum_map_mul_right, ← length_flatMap, (Grouping.flatMap_filter_perm (fun ti :
      SignedTransaction × Nat => ti.1.transaction.from) σ.groups_nodup fun ti hti =>
      σ.mem_groups.mpr ⟨ti.1, fst_mem_of_mem_zipIdx hti, rfl⟩).length_eq, length_zipIdx]
  refine mergesMeet_groups (G := []) (W := 0) (w := fun g =>
    (txs.zipIdx.filter fun ti => ti.1.transaction.from = g).length * MAX_TRANSACTION_AMOUNT)
    (fun g => ?_) (fun g r hr => ?_) σ.groups_nodup
    (fun _ _ => not_mem_nil) (fun a => ?_) (fun k e h => by cases h)
  · exact ((σ.overlayOrder_perm g _).map Account.address).nodup_iff.mpr (Table.nodup _)
  · have hget := Table.get_of_mem ((σ.overlayOrder_perm g _).mem_iff.mp hr)
    have h := executeGroups_above env p s hquiet σ g r.address
    rwa [look_of_some hget] at h
  · rw [hcount]
    exact hroom a

/-- Two replicas compute the same receipts, accounts and root from a quiet
batch, and if every balance and stake leaves room for the batch the merge
wraps nowhere. -/
theorem replica_agreement (s : StateManager V) {txs : List SignedTransaction}
    (hlen : 8 < txs.length) (p : Bool) (hquiet : ∀ tx ∈ txs, Quiet tx) :
    (∀ σ σ' : Schedule txs, (s.executeTransactionsOverlay env txs p σ).1
      = (s.executeTransactionsOverlay env txs p σ').1) ∧
    ((∀ a, 2 * (s.view a).balance.toNat + txs.length * MAX_TRANSACTION_AMOUNT < 2 ^ 128
        ∧ 2 * (s.view a).stake.toNat + txs.length * MAX_TRANSACTION_AMOUNT < 2 ^ 128) →
      ∀ σ : Schedule txs, MergesMeet Exact s.view Table.empty
        (contributions σ (executeGroups env p s (fun _ => Table.empty) σ.order).overlays)) :=
  ⟨executeTransactionsOverlay_schedule env s hlen p hquiet,
    fun hroom _ => contributions_exact env hquiet hroom⟩

end

/-- Eight payments by account 1 and one by account 2, all to account 7. -/
def paymentsToSeven : List SignedTransaction :=
  (List.range 8).map (fun n => sampleTx .transfer 1 7 1 (UInt64.ofNat n))
    ++ [sampleTx .transfer 2 7 1 0]

/-- Two groups paying into one large account, with the balances of all
accounts below `2 ^ 127`: the sum of the two versions wraps around and the
base is subtracted from what is left. -/
theorem merge_underflows : let s := StateManager.new (((Table.empty.put (sampleAccount 1 10 0)).put
      (sampleAccount 2 10 0)).put (sampleAccount 7 (2 ^ 127 - 1) 0)) 0 ()
    8 < paymentsToSeven.length ∧ (∀ tx ∈ paymentsToSeven, Quiet tx)
      ∧ (∀ a, (s.view a).balance.toNat < 2 ^ 127 ∧ (s.view a).stake.toNat < 2 ^ 127)
      ∧ ¬ MergesMeet NoUnderflow s.view Table.empty
          (contributions (Schedule.inOrder paymentsToSeven)
            (executeGroups Platform.sample true s (fun _ => Table.empty)
              (Schedule.inOrder paymentsToSeven).order).overlays) := by
  refine ⟨by decide, by decide, ?_, by decide⟩
  exact new_view (P := fun acc => acc.balance.toNat < 2 ^ 127 ∧ acc.stake.toNat < 2 ^ 127)
    (by decide) (fun _ => ⟨Nat.two_pow_pos 127, Nat.two_pow_pos 127⟩)

/-- The same payments into a small account. -/
theorem payments_agree : let s := StateManager.new (((Table.empty.put (sampleAccount 1 10 0)).put
      (sampleAccount 2 10 0)).put (sampleAccount 7 10 0)) 0 ()
    (∀ σ σ' : Schedule paymentsToSeven,
      (s.executeTransactionsOverlay Platform.sample paymentsToSeven true σ).1
        = (s.executeTransactionsOverlay Platform.sample paymentsToSeven true σ').1) ∧
    ∀ σ : Schedule paymentsToSeven, MergesMeet Exact s.view Table.empty
      (contributions σ (executeGroups Platform.sample true s (fun _ => Table.empty)
        σ.order).overlays) := by
  intro s
  have h := @replica_agreement Unit Platform.sample s paymentsToSeven (by decide) true (by decide)
  have hfresh : 2 * 0 + paymentsToSeven.length * MAX_TRANSACTION_AMOUNT < 2 ^ 128 := by decide
  refine ⟨h.1, h.2 ?_⟩
  exact new_view (P := fun acc =>
      2 * acc.balance.toNat + paymentsToSeven.length * MAX_TRANSACTION_AMOUNT < 2 ^ 128
        ∧ 2 * acc.stake.toNat + paymentsToSeven.length * MAX_TRANSACTION_AMOUNT < 2 ^ 128)
    (by decide) (fun _ => ⟨hfresh, hfresh⟩)

end Quantos

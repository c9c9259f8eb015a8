import Quantos.Turns
import Quantos.Conservation
import Quantos.Runs

/-!
# Voting power and stake

The stake of a validator is kept twice, in its account and in its entry of
the committee manager's set. Nothing ties the two together after the
registration: `Unstake` and `StakeTransfer` only look at the account, and a
registration whose nonce cannot advance has entered the set by the time it
fails. `KeepsBacking` asks of a turn that it does neither, and the rest of
the file shows that then, batch after batch, every entry stays covered by
the stake of an account that is flagged as a validator.

Within a group the account that counts is the one the validator's own group
works on: other groups can only add to its stake, and the merge keeps what
the own group left (`le_summed`).
-/

namespace Quantos

open StateManager Runs List

/-- Every entry of the set is covered by its account. -/
def Backed (cm : Option CommitteeManager) (account : Address → Account) : Prop :=
  ∀ c ∈ cm, ∀ w ∈ c.validatorSet.validators,
    w.stake.toNat ≤ (account w.address).stake.toNat ∧ (account w.address).isValidator = true

theorem Backed.mono {cm : Option CommitteeManager} {account account' : Address → Account}
    (h : Backed cm account) (hmono : ∀ a, (account a).isValidator = true →
      (account a).stake.toNat ≤ (account' a).stake.toNat ∧ (account' a).isValidator = true) :
    Backed cm account' := by
  intro c hc w hw
  obtain ⟨hle, hflag⟩ := h c hc w hw
  obtain ⟨hmore, hflag'⟩ := hmono _ hflag
  exact ⟨Nat.le_trans hle hmore, hflag'⟩

/-! ## One turn -/

section

variable {V : Type} (env : Platform V)

/-- Stake that leaves an account is not covering an entry, and a
registration has a nonce left to advance to. -/
structure KeepsBacking (v : Address → Account) (t : Turn) : Prop where
  unlocks : t.tx.transaction.txType = .unstake ∨ t.tx.transaction.txType = .stakeTransfer →
    accepts env t.committee t.tx (t.sender v) = true →
    ∀ c ∈ t.committee, ∀ w ∈ c.validatorSet.validators, w.address = t.tx.transaction.from →
      w.stake.toNat + t.tx.transaction.amount.toNat ≤ (t.sender v).stake.toNat
  nonce : t.tx.transaction.txType = .validatorRegister → t.passes env v = true →
    (t.sender v).nonce.toNat + 1 < 2 ^ 64

variable {env} {v : Address → Account} {t : Turn} {w : Validator}

/-- The entries of the sender after a turn, if it passes: the old ones
unless it exits, and the one it registers. -/
theorem mem_setChange {set : ValidatorSet}
    (h : w ∈ ((setChange env v t).elim set set.change).validators) :
    (w ∈ set.validators ∧ (t.passes env v = true → t.tx.transaction.txType = .validatorExit →
      w.address ≠ t.tx.transaction.from))
    ∨ (w = registration t.tx.transaction ∧ t.tx.transaction.txType = .validatorRegister
      ∧ t.passes env v = true) := by
  unfold setChange at h
  split at h
  · rename_i hpass
    unfold changeOf at h
    split at h
    · rename_i hreg
      rcases mem_append.mp h with h | h
      · exact .inl ⟨h, fun _ hexit => by rw [hreg] at hexit; cases hexit⟩
      · exact .inr ⟨mem_singleton.mp h, hreg, hpass⟩
    · obtain ⟨hmem, hne⟩ := mem_filter.mp h
      exact .inl ⟨hmem, fun _ _ => of_decide_eq_true hne⟩
    · rename_i hexit
      exact .inl ⟨h, fun _ ht => absurd ht hexit⟩
  · rename_i hpass
    exact .inl ⟨h, fun hp => absurd hp hpass⟩

variable {e : Event}

theorem passes_of_settle_ok (he : Event.At t e) {r : Account × Verdict}
    (h : (settle env e (t.sender v)).1 = .ok r) : t.passes env v = true := by
  obtain ⟨hcheck, hnonce, -, d, hd, -⟩ := settle_ok h
  rw [he.tx] at hcheck hnonce hd
  rw [he.committee] at hd
  unfold Turn.passes checkNonce
  rw [hcheck, hd, if_neg (by rw [hnonce]; exact fun h => h rfl)]
  rfl

theorem settle_of_passes (he : Event.At t e) (hreg : t.tx.transaction.txType = .validatorRegister)
    (hpass : t.passes env v = true) (hlt : (t.sender v).nonce.toNat + 1 < 2 ^ 64) :
    ∃ r, (settle env e (t.sender v)).1 = .ok r := by
  unfold Turn.passes at hpass
  rw [he.plain (by rw [hreg]; rfl)]
  unfold settle Event.plain
  cases hcheck : checkTransaction env t.tx.transaction with
  | error => simp [hcheck, Except.isOk, Except.toBool] at hpass
  | ok =>
    cases hnonce : checkNonce t.tx.transaction (t.sender v) with
    | error => simp [hnonce, Except.isOk, Except.toBool] at hpass
    | ok =>
      cases hd : debit t.committee t.tx.transaction (t.sender v) with
      | error => simp [hd, Except.isOk, Except.toBool] at hpass
      | ok r =>
        obtain ⟨d, _⟩ := r
        have hinc := Account.incrementNonce_ok.mpr
          ⟨(debit_ok hd).frame.2.1 ▸ hlt, (rfl : _ = { d with nonce := d.nonce + 1 })⟩
        dsimp only
        rw [hinc]
        exact ⟨_, rfl⟩

theorem Debited.kept_stake {tx : Transaction} {a d : Account} (h : Debited tx a d)
    (hexit : tx.txType ≠ .validatorExit) {nonce : UInt64} {w : Verdict} :
    a.stake.toNat ≤ (keptSender tx w { d with nonce }).stake.toNat
        + (if tx.txType = .unstake ∨ tx.txType = .stakeTransfer then tx.amount.toNat else 0)
      ∧ (a.isValidator = true → (keptSender tx w { d with nonce }).isValidator = true)
      ∧ (tx.txType = .validatorRegister →
          tx.amount.toNat ≤ (keptSender tx w { d with nonce }).stake.toNat
            ∧ (keptSender tx w { d with nonce }).isValidator = true) := by
  obtain ⟨b, _, heq, hmove, -⟩ := h.kept_eq w nonce
  obtain ⟨-, hst⟩ := hmove hexit
  rw [heq]
  dsimp only
  unfold stakeChange at hst
  unfold flagAfter
  cases ht : tx.txType with
  | validatorExit => exact absurd ht hexit
  | validatorRegister =>
    simp only [ht] at hst
    exact ⟨by omega, fun _ => rfl, fun _ => ⟨by omega, rfl⟩⟩
  | unstake | stakeTransfer =>
    simp only [ht] at hst
    exact ⟨by rw [if_pos (by simp)]; omega, id, nofun⟩
  | transfer | contractCall | stake | contractDeploy =>
    simp only [ht] at hst
    exact ⟨by omega, id, nofun⟩

variable {sender : Account} {word : Verdict}

/-- An accepted turn covers the entries its sender has had and still has. -/
theorem KeepsBacking.kept_entry (he : Event.At t e) (hkeeps : KeepsBacking env v t)
    (hset : (settle env e (t.sender v)).1 = .ok (sender, word))
    (hexit : t.tx.transaction.txType ≠ .validatorExit) {c : CommitteeManager}
    (hc : c ∈ t.committee) (hw : w ∈ c.validatorSet.validators)
    (hown : w.address = t.tx.transaction.from) (hle : w.stake.toNat ≤ (t.sender v).stake.toNat)
    (hval : (t.sender v).isValidator = true) :
    w.stake.toNat ≤ (keptSender t.tx.transaction word sender).stake.toNat
      ∧ (keptSender t.tx.transaction word sender).isValidator = true := by
  obtain ⟨-, -, -, d, -, hd, -, rfl⟩ := settle_ok hset
  rw [he.tx] at hd
  obtain ⟨hstake, hflag, -⟩ := hd.kept_stake hexit
  refine ⟨?_, hflag hval⟩
  split at hstake
  · rename_i hun
    have hplain := he.plain (by rcases hun with ht | ht <;> rw [ht] <;> rfl)
    have hacc : accepts env t.committee t.tx (t.sender v) = true := by
      unfold accepts
      rw [← hplain, hset]
      rfl
    have := hkeeps.unlocks hun hacc c hc w hw hown
    omega
  · omega

theorem registration_covered (he : Event.At t e)
    (hset : (settle env e (t.sender v)).1 = .ok (sender, word))
    (hreg : t.tx.transaction.txType = .validatorRegister) :
    (registration t.tx.transaction).stake.toNat
        ≤ (keptSender t.tx.transaction word sender).stake.toNat
      ∧ (keptSender t.tx.transaction word sender).isValidator = true := by
  obtain ⟨-, -, -, d, -, hd, -, rfl⟩ := settle_ok hset
  rw [he.tx] at hd
  have hexit : t.tx.transaction.txType ≠ .validatorExit := by
    rw [hreg]
    decide
  exact (hd.kept_stake hexit).2.2 hreg

/-- A turn that keeps the backing, as seen by any reading of the accounts
that gives the sender what it has at its turn and does not take stake from
anyone else. -/
theorem Backed.turn (hv : ∀ a, (v a).address = a) (he : Event.At t e)
    (hkeeps : KeepsBacking env v t) {account account' : Address → Account}
    (h : Backed t.committee account) (hsender : account t.tx.transaction.from = t.sender v)
    (hself : account' t.tx.transaction.from
      = look v (effect env v t.overlay e) t.tx.transaction.from)
    (hothers : ∀ a, a ≠ t.tx.transaction.from → (account a).stake.toNat ≤ (account' a).stake.toNat
        ∧ (account' a).isValidator = (account a).isValidator) :
    Backed (settle env e (t.sender v)).2 account' := by
  intro c hc w hw
  rw [settle_change _ he] at hc
  obtain ⟨c₀, hc₀, rfl⟩ := Option.map_eq_some_iff.mp hc
  have hsettle : settle env e (t.sender v)
      = settle env e (look v t.overlay e.tx.transaction.from) := by
    rw [Turn.sender, he.tx]
  by_cases hown : w.address = t.tx.transaction.from
  · rw [hown, hself]
    cases hset : (settle env e (t.sender v)).1 with
    | error =>
      -- rejected: no entry is new, and the account is as it was
      rcases mem_setChange hw with ⟨hold, -⟩ | ⟨-, hreg, hpass⟩
      · have hb := h c₀ hc₀ w hold
        rw [hown, hsender] at hb
        rw [effect_of_error (hsettle ▸ hset)]
        exact hb
      · obtain ⟨r, hok⟩ := settle_of_passes he hreg hpass (hkeeps.nonce hreg hpass)
        rw [hok] at hset
        cases hset
    | ok r =>
      obtain ⟨_, _⟩ := r
      have hlook := look_effect hv (hsettle ▸ hset) e.tx.transaction.from
      rw [if_pos rfl, he.tx] at hlook
      rw [hlook]
      rcases mem_setChange hw with ⟨hold, hexit⟩ | ⟨rfl, hreg, -⟩
      · obtain ⟨hle, hval⟩ := h c₀ hc₀ w hold
        rw [hown, hsender] at hle hval
        have hne : t.tx.transaction.txType ≠ .validatorExit :=
          fun ht => hexit (passes_of_settle_ok he hset) ht hown
        exact hkeeps.kept_entry he hset hne hc₀ hold hown hle hval
      · exact registration_covered he hset hreg
  · rcases mem_setChange hw with ⟨hold, -⟩ | ⟨rfl, -, -⟩
    · obtain ⟨hle, hval⟩ := h c₀ hc₀ w hold
      obtain ⟨hmore, hsame⟩ := hothers _ hown
      exact ⟨Nat.le_trans hle hmore, hsame.trans hval⟩
    · exact absurd rfl hown

/-! ## Batches -/

variable (env) in
theorem executeSequence_backed {p : Bool} {s : StateManager V} {txs : List SignedTransaction}
    (hkeeps : ∀ t ∈ sequenceTurns env p s Table.empty txs, KeepsBacking env s.view t)
    (h : Backed s.committeeManager s.view) :
    Backed (executeSequence env p s Table.empty txs).2.2.committeeManager
      (look s.view (executeSequence env p s Table.empty txs).2.1) := by
  refine executeSequence_turns env (I := fun cm overlay => Backed cm (look s.view overlay)) p rfl
    (fun t ht e he h => ?_) h
  refine h.turn s.view_address he (hkeeps t ht) rfl rfl fun a ha => ?_
  obtain ⟨-, hstake, hflag, -⟩ := look_effect_others env s.view_address (he.tx ▸ ha)
  exact ⟨hstake, hflag⟩

variable (env) in
theorem executeGroups_backed {p : Bool} {s : StateManager V}
    {order : List (SignedTransaction × Nat)}
    (hkeeps : ∀ t ∈ groupTurns env p s (fun _ => Table.empty) order, KeepsBacking env s.view t)
    (h : Backed s.committeeManager s.view) :
    Backed (runGroups env p s order).manager.committeeManager
      (fun a => look s.view
        ((runGroups env p s order).overlays a) a) := by
  refine executeGroups_turns env
    (I := fun cm overlays => Backed cm fun a => look s.view (overlays a) a) p rfl
    (fun t ht e he overlays hown h => ?_) h
  refine h.turn s.view_address he (hkeeps t ht) (by rw [hown]; rfl)
    (by dsimp only; rw [if_pos rfl]) fun a ha => ?_
  dsimp only
  rw [if_neg ha]
  exact ⟨Nat.le_refl _, rfl⟩

/-- The merge keeps what a validator's own group left it. -/
theorem backed_merged {txs : List SignedTransaction} {schedule : Schedule txs}
    {overlays : Address → AccountTable} {cm : Option CommitteeManager}
    (hrise : ∀ g, OthersRise v g (overlays g))
    (hworth : ∀ g, worth v (overlays g) ≤ worth v Table.empty)
    (hfits : worth v Table.empty < 2 ^ 128)
    (hflags : ∀ g a, a ≠ g → (look v (overlays g) a).isValidator = (v a).isValidator)
    (hidle : ∀ g, g ∉ schedule.groups → overlays g = Table.empty)
    (h : Backed cm fun a => look v (overlays a) a) :
    Backed cm (look v (merged v schedule overlays)) := by
  refine h.mono fun a hval => ⟨?_, ?_⟩
  · have hle := @le_summed v txs schedule overlays Account.stake a
      fun g hg => (hrise g a (Ne.symm hg)).2
    rw [← (merged_exact hrise hworth hfits a).2] at hle
    split at hle
    · omega
    rename_i hmem
    rw [hidle a hmem, look_empty]
    omega
  · have hflag := (@look_merged_isValidator_iff txs v schedule overlays a (fun g => hidle g)
      fun g hg => hflags g a (Ne.symm hg)).mpr fun _ hfalse => by
        rw [hval] at hfalse
        cases hfalse
    exact hflag.trans hval

variable (env) in
/-- A batch whose turns keep the backing keeps it. The parallel path needs
a ledger that fits, or the merge may wrap. -/
theorem batchRun_backed {s : StateManager V} (hs : s.Coherent) {txs : List SignedTransaction}
    {schedule : Schedule txs} (hfits : 8 < txs.length → s.total < 2 ^ 128)
    (hkeeps : ∀ t ∈ turns env true s txs schedule, KeepsBacking env s.view t)
    (h : Backed s.committeeManager s.view) :
    Backed (batchRun env true s txs schedule).2.2.committeeManager
      (look s.view (batchRun env true s txs schedule).2.1) := by
  unfold turns at hkeeps
  split at hkeeps
  · rename_i hlen
    rw [batchRun_sequential _ _ s _ hlen]
    exact executeSequence_backed env hkeeps h
  rename_i hlen
  obtain ⟨-, hoverlay, hcm⟩ := batchRun_parallel env true s schedule hlen
  have hworth : worth s.view Table.empty < 2 ^ 128 := by
    rw [worth_view hs]
    exact hfits (by omega)
  rw [hoverlay, hcm]
  refine backed_merged (executeGroups_othersRise env true s schedule.order) (fun g => ?_) hworth
    (fun g a ha => (executeGroups_others env true s schedule.order ha).1)
    (fun g => executeGroups_idle env schedule true s) (executeGroups_backed env hkeeps h)
  have hgroup : worth s.view ((runGroups env true s schedule.order).overlays g) + _
      = worth s.view Table.empty :=
    executeGroups_worth env true g rfl hworth
  omega

/-! ## Runs of batches -/

/-- A batch with the choices of the node that runs it. -/
structure Batch where
  txs : List SignedTransaction
  schedule : Schedule txs

variable (env) in
def batchStep (s : StateManager V) (b : Batch) : StateManager V :=
  (s.applyTransactionsAtomically env b.txs b.schedule).2

/-- Entries are covered by stored stake, and nobody who is not flagged as a
validator has one. -/
def VotingPowerBacked (s : StateManager V) : Prop :=
  ∀ c ∈ s.committeeManager,
    (∀ w ∈ c.validatorSet.validators, ∃ acc, s.storage.get w.address = some acc
      ∧ w.stake.toNat ≤ acc.stake.toNat) ∧
    (∀ a acc, s.storage.get a = some acc → acc.isValidator = false →
      c.validatorSet.getValidator a = none)

theorem Backed.votingPower {s : StateManager V} (hs : s.Coherent)
    (h : Backed s.committeeManager s.view) : VotingPowerBacked s := by
  intro c hc
  constructor
  · intro w hw
    obtain ⟨hle, hval⟩ := h c hc w hw
    rw [hs.view] at hle hval
    cases hget : s.storage.get w.address with
    | none => rw [hget] at hval; cases hval
    | some acc => rw [hget] at hle; exact ⟨acc, rfl, hle⟩
  · intro a acc hget hflag
    refine find?_eq_none.mpr fun w hw heq => ?_
    have haddr : w.address = a := of_decide_eq_true heq
    obtain ⟨-, hval⟩ := h c hc w hw
    rw [hs.view, haddr, hget, Option.getD_some, hflag] at hval
    cases hval

variable (env) in
/-- Every turn of the batch keeps the backing, and a batch on the parallel
path finds a ledger whose total fits in `u128`. -/
def KeepsVotingPower (s : StateManager V) (b : Batch) : Prop :=
  (8 < b.txs.length → s.total < 2 ^ 128)
    ∧ ∀ t ∈ turns env true s b.txs b.schedule, KeepsBacking env s.view t

variable (env) in
theorem batchStep_backed {s : StateManager V} {b : Batch}
    (h : s.Coherent ∧ Backed s.committeeManager s.view) (hkeeps : KeepsVotingPower env s b) :
    (batchStep env s b).Coherent
      ∧ Backed (batchStep env s b).committeeManager (batchStep env s b).view := by
  have hcoherent := h.1.applyTransactionsAtomically env b.txs b.schedule
  refine ⟨hcoherent, ?_⟩
  have hbacked := batchRun_backed env h.1 hkeeps.1 hkeeps.2 h.2
  have hview : (batchStep env s b).view
      = look s.view (batchRun env true s b.txs b.schedule).2.1 := by
    funext a
    rw [batchStep, hcoherent.view, applyTransactionsAtomically_storage, look]
    cases (batchRun env true s b.txs b.schedule).2.1.get a with
    | some => rfl
    | none => exact (h.1.view a).symm
  rw [hview, batchStep, applyTransactionsAtomically_committee]
  exact hbacked

variable (env) in
/-- Voting power is backed by stake in every state of a run of batches that
starts without validators and whose turns keep the backing. -/
theorem votingPower_backed {s : StateManager V} (hs : s.Coherent)
    (hempty : ∀ c ∈ s.committeeManager, c.validatorSet.validators = []) (batches : List Batch)
    (hkeeps : StepsMeet (batchStep env) (KeepsVotingPower env) s batches) :
    ∀ pre post, batches = pre ++ post → VotingPowerBacked (run (batchStep env) s pre) := by
  rintro pre post rfl
  have hstart : Backed s.committeeManager s.view := by
    intro c hc w hw
    rw [hempty c hc] at hw
    cases hw
  obtain ⟨hcoherent, hbacked⟩ := invariant_of_stepsMeet
    (I := fun s => s.Coherent ∧ Backed s.committeeManager s.view)
    (fun s b h hb => batchStep_backed env h hb) ⟨hs, hstart⟩ hkeeps.append.1
  exact hbacked.votingPower hcoherent

end

/-- A batch run in order. -/
def orderedBatch (txs : List SignedTransaction) : Batch := ⟨txs, Schedule.inOrder txs⟩

/-- A validator that unstakes after its registration keeps its entry. -/
theorem unstaked_validator_keeps_entry :
    let s := StateManager.sample [sampleAccount 1 10 0]
    s.Coherent ∧ (∀ c ∈ s.committeeManager, c.validatorSet.validators = [])
      ∧ ¬ VotingPowerBacked (run (batchStep Platform.sample) s
          [orderedBatch [sampleTx .validatorRegister 1 1 5 0],
            orderedBatch [sampleTx .unstake 1 1 5 1]]) := by
  intro s
  refine ⟨sample_coherent _, by decide, fun h => ?_⟩
  have hentry : ∃ c ∈ (run (batchStep Platform.sample) s
      [orderedBatch [sampleTx .validatorRegister 1 1 5 0],
        orderedBatch [sampleTx .unstake 1 1 5 1]]).committeeManager,
      (c.validatorSet.validators.map fun w => (w.address, w.stake.toNat)) = [(1, 5)] := by
    decide
  have hstake : ∀ acc ∈ (run (batchStep Platform.sample) s
      [orderedBatch [sampleTx .validatorRegister 1 1 5 0],
        orderedBatch [sampleTx .unstake 1 1 5 1]]).storage.get 1, acc.stake.toNat = 0 := by
    decide
  generalize run (batchStep Platform.sample) s _ = s' at h hentry hstake
  obtain ⟨c, hc, hone⟩ := hentry
  have hmem : ((1 : Address), 5) ∈ c.validatorSet.validators.map fun w =>
      (w.address, w.stake.toNat) := by
    rw [hone]
    exact mem_singleton_self _
  obtain ⟨w, hw, hwe⟩ := mem_map.mp hmem
  obtain ⟨haddr, _⟩ := Prod.mk.inj hwe
  obtain ⟨acc, hget, _⟩ := (h c hc).1 w hw
  have := hstake acc (haddr ▸ hget)
  omega

/-- A validator that pays out of its balance stays backed. -/
theorem paying_validator_backed :
    VotingPowerBacked (run (batchStep Platform.sample) (StateManager.sample [sampleAccount 1 10 0])
        [orderedBatch [sampleTx .validatorRegister 1 1 5 0, sampleTx .transfer 1 2 3 1]]) := by
  have hkeeps : StepsMeet (batchStep Platform.sample) (KeepsVotingPower Platform.sample)
      (StateManager.sample [sampleAccount 1 10 0])
      [orderedBatch [sampleTx .validatorRegister 1 1 5 0, sampleTx .transfer 1 2 3 1]] := by
    refine ⟨⟨fun h => absurd h (by decide), fun t ht => ?_⟩, trivial⟩
    have hall : ∀ t ∈ turns Platform.sample true (StateManager.sample [sampleAccount 1 10 0])
        [sampleTx .validatorRegister 1 1 5 0, sampleTx .transfer 1 2 3 1] (Schedule.inOrder _),
        (t.tx.transaction.txType ≠ .unstake ∧ t.tx.transaction.txType ≠ .stakeTransfer)
          ∧ (t.sender (StateManager.sample [sampleAccount 1 10 0]).view).nonce.toNat + 1
              < 2 ^ 64 := by
      decide
    obtain ⟨⟨hun, hst⟩, hnonce⟩ := hall t ht
    exact ⟨fun h => absurd h (by simp [hun, hst]), fun _ _ => hnonce⟩
  exact votingPower_backed Platform.sample (sample_coherent _) (by decide) _ hkeeps _ []
    (append_nil _).symm

end Quantos

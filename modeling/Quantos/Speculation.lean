import Quantos.Turns
import Quantos.Executor

/-!
# Speculation and rollback

`simulate_transactions` and a speculative execution that is rolled back
leave storage and the published root alone. The validator set is another
matter: it is shared, and a registration or exit that passes its checks
changes it at once. `speculation_unaffected_iff` says exactly when nothing
of this remains: when no change reaches the set, or when all changes
together restore it (`Restores`).
-/

namespace Quantos

open StateManager List

/-! ## Changes that restore the set -/

/-- The addresses that leave. -/
def departed (cs : List SetChange) : List Address :=
  cs.filterMap fun
    | .enter _ => none
    | .leave a => some a

/-- The entries that are made and not removed again. -/
def entered (cs : List SetChange) : List Validator :=
  cs.foldl (fun vs c =>
    match c with
    | .enter v => vs ++ [v]
    | .leave a => vs.filter fun v => v.address ≠ a) []

variable (set : ValidatorSet) (cs : List SetChange)

theorem foldl_change_validators :
    (cs.foldl ValidatorSet.change set).validators
      = (set.validators.filter fun v => v.address ∉ departed cs) ++ entered cs := by
  induction cs using List.reverseRecOn with
  | nil => simp [departed, entered]
  | append_singleton cs c ih =>
    rw [foldl_append, foldl_cons, foldl_nil]
    cases c with
    | enter v =>
      have hdep : departed (cs ++ [.enter v]) = departed cs := by simp [departed]
      have hent : entered (cs ++ [.enter v]) = entered cs ++ [v] := by simp [entered]
      rw [hdep, hent, ValidatorSet.change, ValidatorSet.enter, ih, append_assoc]
    | leave a =>
      have hdep : departed (cs ++ [.leave a]) = departed cs ++ [a] := by simp [departed]
      have hent : entered (cs ++ [.leave a])
          = (entered cs).filter fun v => v.address ≠ a := by simp [entered]
      rw [hdep, hent, ValidatorSet.change, ValidatorSet.leave]
      dsimp only
      rw [ih, filter_append, filter_filter]
      congr 1
      refine filter_congr fun v _ => ?_
      simp [and_comm]

/-- Once someone has left, the recorded total is the sum over the set. -/
theorem foldl_change_totalStake {cs : List SetChange} (h : departed cs ≠ []) :
    (cs.foldl ValidatorSet.change set).totalStake
      = ⟨((cs.foldl ValidatorSet.change set).validators.map fun v => v.stake.val).sum⟩ := by
  induction cs using List.reverseRecOn with
  | nil => exact absurd rfl h
  | append_singleton cs c ih =>
    rw [foldl_append, foldl_cons, foldl_nil]
    cases c with
    | enter v =>
      have hdep : departed (cs ++ [.enter v]) = departed cs := by simp [departed]
      have htotal := ih (hdep ▸ h)
      simp only [ValidatorSet.change, ValidatorSet.enter, htotal, map_append,
        sum_append, map_cons, map_nil, sum_cons, sum_nil, add_zero]
    | leave => rfl

theorem foldl_change_epoch : (cs.foldl ValidatorSet.change set).epoch = set.epoch := by
  induction cs generalizing set with
  | nil => rfl
  | cons c cs ih =>
    rw [foldl_cons, ih]
    cases c <;> rfl

/-- Nothing changes, or whoever leaves comes back with the same entry, in
the old order and behind those who stayed, and the recorded total was the
sum over the set to begin with. -/
def Restores (set : ValidatorSet) (cs : List SetChange) : Prop :=
  cs = [] ∨ (departed cs ≠ []
    ∧ (set.validators.filter fun v => v.address ∉ departed cs) ++ entered cs = set.validators
    ∧ set.totalStake = ⟨(set.validators.map fun v => v.stake.val).sum⟩)

theorem eq_nil_of_departed_entered {cs : List SetChange} (hdep : departed cs = [])
    (hent : entered cs = []) : cs = [] := by
  induction cs using List.reverseRecOn with
  | nil => rfl
  | append_singleton cs c =>
    cases c with
    | enter => simp [entered] at hent
    | leave => simp [departed] at hdep

theorem foldl_change_eq_iff : cs.foldl ValidatorSet.change set = set ↔ Restores set cs := by
  have hvals := foldl_change_validators set cs
  constructor
  · intro h
    rw [h] at hvals
    by_cases hdep : departed cs = []
    · left
      rw [hdep] at hvals
      have hent : entered cs = [] := by simpa using hvals
      exact eq_nil_of_departed_entered hdep hent
    · have htotal := foldl_change_totalStake set hdep
      rw [h] at htotal
      exact .inr ⟨hdep, hvals.symm, htotal⟩
  · rintro (rfl | ⟨hdep, hrest, htotal⟩)
    · rfl
    · have hvals' := hvals.trans hrest
      have htotal' := foldl_change_totalStake set hdep
      rw [hvals', ← htotal] at htotal'
      have hepoch := foldl_change_epoch set cs
      generalize cs.foldl ValidatorSet.change set = after at *
      cases after
      cases set
      simp only at hvals' htotal' hepoch
      rw [hvals', htotal', hepoch]

/-! ## Speculation -/

section

variable {V : Type} (env : Platform V)

/-- Every stored account, the published root and the validator set are as
before. -/
structure Unaffected (s s' : StateManager V) : Prop where
  accounts : ∀ a, s'.storage.get a = s.storage.get a
  stateRoot : s'.stateRoot = s.stateRoot
  committee : s'.committeeManager = s.committeeManager

/-- What executing a batch leaves behind, as long as it is not committed. -/
theorem executeTransactionsOverlay_unaffected_iff {s : StateManager V}
    {txs : List SignedTransaction} {p : Bool} {schedule : Schedule txs} :
    Unaffected s (s.executeTransactionsOverlay env txs p schedule).2 ↔ ∀ c ∈ s.committeeManager,
        Restores c.validatorSet (changes env s.view (turns env p s txs schedule)) := by
  obtain ⟨s', hs', hcm, hrun⟩ := executeTransactionsOverlay_snd env s txs p schedule
  rw [batchRun_committee _ p s] at hcm
  have hcommittee : s'.committeeManager = s.committeeManager ↔
      ∀ c ∈ s.committeeManager,
        Restores c.validatorSet (changes env s.view (turns env p s txs schedule)) := by
    rw [hcm]
    cases s.committeeManager with
    | none => simp
    | some c =>
      obtain ⟨_⟩ := c
      simp only [Option.map_some, Option.some.injEq, CommitteeManager.mk.injEq,
        foldl_change_eq_iff, Option.mem_def, forall_eq']
  rw [hrun]
  constructor
  · intro h
    exact hcommittee.mp h.committee
  · intro h
    exact ⟨fun a => congrArg (Table.get · a) hs'.storage, hs'.stateRoot, hcommittee.mpr h⟩

/-- Simulating a batch, or executing it speculatively and rolling it back,
leaves no trace exactly if the batch restores the validator set. -/
theorem speculation_unaffected_iff (e : OptimisticExecutor V) (vertex : DAGVertex)
    (schedule : Schedule vertex.transactions) :
    (Unaffected e.stateManager
        (e.stateManager.simulateTransactions env vertex.transactions schedule).2 ↔
      ∀ c ∈ e.stateManager.committeeManager, Restores c.validatorSet
        (changes env e.stateManager.view
          (turns env false e.stateManager vertex.transactions schedule))) ∧
    (Unaffected e.stateManager
        ((e.speculativeExecute env vertex schedule).2.rollbackExecution vertex.hash).stateManager ↔
      ∀ c ∈ e.stateManager.committeeManager, Restores c.validatorSet
        (changes env e.stateManager.view
          (turns env true e.stateManager vertex.transactions schedule))) :=
  ⟨executeTransactionsOverlay_unaffected_iff env,
    executeTransactionsOverlay_unaffected_iff env⟩

end

/-- A registration enters the set even if it is only simulated, or rolled
back. -/
theorem registration_survives_rollback :
    let e := OptimisticExecutor.new (StateManager.sample [sampleAccount 1 10 0])
    let vertex : DAGVertex := ⟨9, [sampleTx .validatorRegister 1 1 5 0]⟩
    (∀ tx ∈ vertex.transactions, tx.transaction.txType.isContract = false)
      ∧ ¬ Unaffected e.stateManager (e.stateManager.simulateTransactions Platform.sample
          vertex.transactions (Schedule.inOrder _)).2
      ∧ ¬ Unaffected e.stateManager ((e.speculativeExecute Platform.sample vertex
          (Schedule.inOrder _)).2.rollbackExecution vertex.hash).stateManager := by
  refine ⟨by decide, fun h => ?_, fun h => ?_⟩
  · exact absurd h.committee (by decide)
  · exact absurd h.committee (by decide)

/-- A payment leaves no trace. -/
theorem payment_unaffected :
    let e := OptimisticExecutor.new (StateManager.sample [sampleAccount 1 10 0])
    let vertex : DAGVertex := ⟨9, [sampleTx .transfer 1 2 5 0]⟩
    Unaffected e.stateManager (e.stateManager.simulateTransactions Platform.sample
          vertex.transactions (Schedule.inOrder _)).2
      ∧ Unaffected e.stateManager ((e.speculativeExecute Platform.sample vertex
          (Schedule.inOrder _)).2.rollbackExecution vertex.hash).stateManager := by
  intro e vertex
  have h := speculation_unaffected_iff Platform.sample e vertex (Schedule.inOrder _)
  exact ⟨h.1.mpr fun c _ => .inl (by decide), h.2.mpr fun c _ => .inl (by decide)⟩

end Quantos

import Quantos.Batches
import Quantos.Executor
import Quantos.Runs

/-!
# The published state root

A root is computed when a vertex is prepared and installed when it is
confirmed; `apply_transaction` and `restore_account` write accounts without
installing one. The root therefore describes the ledger only along runs in
which nothing moves in between: `Publishes` is the condition on a call, and
`published_root` the invariant it maintains.

To say "in between", a `Node` remembers for every pending vertex the ledger
it was prepared on. The executor does not have this record and the calls do
not read it (`run_executor`).
-/

namespace Quantos

open StateManager Runs Table List

section

variable {V : Type} (env : Platform V)

/-! ## Direct calls that write nothing -/

/-- The engine a contract transaction addresses is attached. -/
def StateManager.hasEngine (s : StateManager V) (tx : Transaction) : Bool :=
  match tx.vmKind with
  | .qvm => s.contractManager
  | .evm => s.evmEngine

/-- `apply_transaction` stops before it writes: a plain transaction fails a
check, a contract finds its signature, amount or nonce refused or its engine
missing. -/
def Rejected (s : StateManager V) (tx : SignedTransaction) : Prop :=
  if tx.transaction.txType.isContract then
    (checkTransaction env tx.transaction).isOk = false
      ∨ (checkNonce tx.transaction (s.view tx.transaction.from)).isOk = false
      ∨ s.hasEngine tx.transaction = false
  else accepts env s.committeeManager tx (s.view tx.transaction.from) = false

theorem applyTransactionType_noEngine (s : StateManager V) {tx : Transaction}
    (hc : tx.txType.isContract = true) (hengine : s.hasEngine tx = false)
    (sender recipient : Account) :
    ∃ err, s.applyTransactionType env tx sender recipient = (.error err, s) := by
  unfold hasEngine at hengine
  unfold applyTransactionType executeArms
  cases ht : tx.txType with
  | contractDeploy =>
    unfold deployDirect
    cases hvm : tx.vmKind <;> rw [hvm] at hengine <;> dsimp only <;>
      simp only [hengine, Bool.not_false, if_true] <;> exact ⟨_, rfl⟩
  | contractCall =>
    unfold callDirect
    cases hvm : tx.vmKind <;> rw [hvm] at hengine <;> dsimp only <;>
      simp only [hengine, Bool.not_false, if_true] <;> exact ⟨_, rfl⟩
  | _ => rw [ht] at hc; cases hc

variable {s : StateManager V}

theorem Rejected.sameLedger {tx : SignedTransaction} (h : Rejected env s tx) :
    SameLedger s (s.applyTransaction env tx).2 := by
  unfold Rejected at h
  by_cases hc : tx.transaction.txType.isContract = true
  · rw [if_pos hc] at h
    unfold applyTransaction validateTransaction
    cases hcheck : checkTransaction env tx.transaction with
    | error => exact .refl s
    | ok =>
      obtain ⟨s₀, hread₀, hs₀, -⟩ := s.getAccount_isRead tx.transaction.from
      obtain ⟨s₁, hread₁, hs₁, -⟩ := s₀.getAccount_isRead tx.transaction.from
      obtain ⟨s₂, hread₂, hs₂, -⟩ := s₁.getAccount_isRead tx.transaction.to
      simp only [hread₀]
      cases hnonce : checkNonce tx.transaction (s.view tx.transaction.from) with
      | error => exact hs₀
      | ok =>
        have hengine : s.hasEngine tx.transaction = false := by
          rcases h with h | h | h
          · rw [hcheck] at h; cases h
          · rw [hnonce] at h; cases h
          · exact h
        have hsame : SameLedger s s₂ := (hs₀.trans hs₁).trans hs₂
        obtain ⟨_, hrun⟩ := applyTransactionType_noEngine env s₂ hc
          (by
            unfold hasEngine at hengine ⊢
            rw [hsame.contractManager, hsame.evmEngine]
            exact hengine)
          (s₀.view tx.transaction.from) (s₁.view tx.transaction.to)
        simp only [hread₁, hread₂, hrun]
        exact hsame
  · rw [if_neg hc] at h
    obtain ⟨_, hs', -, hrun⟩ := applyTransaction_spec env s (Bool.eq_false_iff.mpr hc)
    cases hset : (settle env (.plain tx s.committeeManager) (s.view tx.transaction.from)).1 with
    | error =>
      rw [hset] at hrun
      obtain ⟨_, hrun⟩ := hrun
      rw [hrun]
      exact hs'
    | ok => rw [accepts, hset] at h; cases h

/-! ## Runs of a node -/

/-- The calls that reach storage or the root after genesis. -/
inductive NodeOp where
  | execute (op : ExecutorOp)
  | applyTransaction (tx : SignedTransaction)
  | restoreAccount (address : Address) (account : Account)

/-- One call on a node's executor. -/
def nodeStep (e : OptimisticExecutor V) : NodeOp → OptimisticExecutor V
  | .execute op => executorStep env e op
  | .applyTransaction tx =>
    { e with stateManager := (e.stateManager.applyTransaction env tx).2 }
  | .restoreAccount address account =>
    { e with stateManager := e.stateManager.restoreAccount env address account }

/-- An executor with the ledgers its pending vertices were prepared on. -/
structure Node (V : Type) where
  executor : OptimisticExecutor V
  preparedOn : Hash → AccountTable

/-- `nodeStep` with the record kept. -/
def Node.step (n : Node V) (op : NodeOp) : Node V where
  executor := nodeStep env n.executor op
  preparedOn := match op with
    | .execute (.speculate vertex _) => fun h =>
      if h = vertex.hash then n.executor.stateManager.storage else n.preparedOn h
    | _ => n.preparedOn

theorem run_executor (n : Node V) (ops : List NodeOp) :
    (run (Node.step env) n ops).executor = run (nodeStep env) n.executor ops := by
  induction ops generalizing n with
  | nil => rfl
  | cons op ops ih => exact ih _

/-- The call leaves a root that describes the ledger: a vertex is confirmed
on the ledger it was prepared on, up to the accounts it writes, and the
calls that install no root write nothing new. -/
def Publishes (n : Node V) : NodeOp → Prop
  | .execute (.confirm h) => ∀ r ∈ n.executor.speculativeResults.get h, ∀ a,
      (∀ acc ∈ r.execution.accounts, acc.address ≠ a) →
        n.executor.stateManager.storage.get a = (n.preparedOn h).get a
  | .execute _ => True
  | .applyTransaction tx => Rejected env n.executor.stateManager tx
  | .restoreAccount _ account =>
    n.executor.stateManager.storage.get account.address = some account

/-- The root describes storage, the index is in step with it, and every
pending root describes the ledger its vertex would have made. -/
structure Described (n : Node V) : Prop where
  indexed : n.executor.stateManager.Indexed env
  root : n.executor.stateManager.stateRoot
    = ledgerRoot env.hashData n.executor.stateManager.storage
  pending : ∀ h r, n.executor.speculativeResults.get h = some r →
    r.execution.stateRoot
      = ledgerRoot env.hashData ((n.preparedOn h).putAll r.execution.accounts)

variable {accounts : List Account}

theorem get_putAll_of_not_written (t : AccountTable) {a : Address}
    (h : ∀ acc ∈ accounts, acc.address ≠ a) : (t.putAll accounts).get a = t.get a := by
  rw [get_putAll, find?_eq_none.mpr]
  · rfl
  · intro acc hacc heq
    exact h acc (mem_reverse.mp hacc) (of_decide_eq_true heq)

theorem get_putAll_congr {t u : AccountTable}
    (h : ∀ a, (∀ acc ∈ accounts, acc.address ≠ a) → t.get a = u.get a) (a : Address) :
    (t.putAll accounts).get a = (u.putAll accounts).get a := by
  by_cases hw : ∀ acc ∈ accounts, acc.address ≠ a
  · rw [get_putAll_of_not_written t hw, get_putAll_of_not_written u hw, h a hw]
  rw [get_putAll, get_putAll]
  cases hfind : accounts.reverse.find? fun acc => acc.address = a with
  | some => rfl
  | none =>
    refine absurd (fun acc hacc heq => ?_) hw
    exact find?_eq_none.mp hfind acc (mem_reverse.mpr hacc) (by simpa using heq)

variable {n : Node V}

theorem Described.speculate (h : Described env n) (vertex : DAGVertex)
    (schedule : Schedule vertex.transactions) :
    Described env (n.step env (.execute (.speculate vertex schedule))) := by
  obtain ⟨s', hs', -, hsnd⟩ := executeTransactionsOverlay_snd env n.executor.stateManager
    vertex.transactions true schedule
  have hfst := executeTransactionsOverlay_fst env n.executor.stateManager
    vertex.transactions true schedule
  have hmanager : (n.step env (.execute (.speculate vertex schedule))).executor.stateManager
      = { s' with accountHashIndex := some (n.executor.stateManager.loadedIndex env) } := hsnd
  refine ⟨?_, ?_, ?_⟩
  · rw [hmanager]
    intro a
    have hidx := h.indexed a
    rw [loadedIndex]
    rw [hs'.storage]
    exact hidx
  · rw [hmanager]
    rw [hs'.stateRoot, hs'.storage]
    exact h.root
  · intro hash r hget
    have hresults : (n.step env (.execute (.speculate vertex schedule))).executor.speculativeResults
        = n.executor.speculativeResults.put ⟨vertex, vertex.hash,
          (n.executor.stateManager.executeTransactionsOverlay env vertex.transactions true
            schedule).1, []⟩ := rfl
    rw [hresults, get_put] at hget
    dsimp only [Node.step]
    by_cases hh : vertex.hash = hash
    · rw [if_pos hh] at hget
      have hr : r.execution = _ := (congrArg SpeculativeResult.execution
        (Option.some.inj hget)).symm.trans hfst
      rw [if_pos hh.symm, hr]
      exact overlayRoot_eq_ledgerRoot env h.indexed
        (batchRun env true n.executor.stateManager vertex.transactions schedule).2.1
        (toSorted_perm _)
    · rw [if_neg hh] at hget
      rw [if_neg (Ne.symm hh)]
      exact h.pending hash r hget

theorem Described.confirm (h : Described env n) {hash : Hash}
    (hfresh : Publishes env n (.execute (.confirm hash))) :
    Described env (n.step env (.execute (.confirm hash))) := by
  cases hget : n.executor.speculativeResults.get hash with
  | none =>
    have hsame : n.step env (.execute (.confirm hash)) = n :=
      congrArg (fun r => Node.mk (Prod.snd r) n.preparedOn)
        (OptimisticExecutor.confirmExecution_of_none env hget)
    rw [hsame]
    exact h
  | some r =>
    have hstep : n.step env (.execute (.confirm hash)) =
        ⟨⟨n.executor.stateManager.commitExecution env r.execution,
          n.executor.speculativeResults.erase hash⟩, n.preparedOn⟩ :=
      congrArg (fun r => Node.mk (Prod.snd r) n.preparedOn)
        (OptimisticExecutor.confirmExecution_of_some env hget)
    rw [hstep]
    refine ⟨?_, ?_, ?_⟩
    · exact (h.indexed.persist env r.execution.accounts).of_eq env rfl rfl
    · unfold commitExecution
      dsimp only
      rw [h.pending hash r hget, persistAccounts_eq]
      exact ledgerRoot_congr _ fun a =>
        (get_putAll_congr (hfresh r hget) a).symm
    · intro hash' r' hget'
      rw [get_erase] at hget'
      split at hget'
      · cases hget'
      · exact h.pending hash' r' hget'

theorem Described.of_sameLedger (h : Described env n) {s' : StateManager V}
    (hs' : SameLedger n.executor.stateManager s') :
    Described env { n with executor := { n.executor with stateManager := s' } } := by
  refine ⟨h.indexed.of_eq env hs'.storage hs'.accountHashIndex, ?_, h.pending⟩
  rw [hs'.stateRoot, hs'.storage]
  exact h.root

/-- Writing an account that is already stored changes nothing the root sees. -/
theorem Described.restoreAccount (h : Described env n) (address : Address) {account : Account}
    (hstored : n.executor.stateManager.storage.get account.address = some account) :
    Described env (n.step env (.restoreAccount address account)) := by
  refine ⟨(h.indexed.persist env [account]).of_eq env rfl rfl, ?_, h.pending⟩
  have hstorage : (n.step env (.restoreAccount address account)).executor.stateManager.storage
      = n.executor.stateManager.storage.put account :=
    congrArg StateManager.storage (persistAccounts_eq ..)
  have hroot : (n.step env (.restoreAccount address account)).executor.stateManager.stateRoot
      = n.executor.stateManager.stateRoot := by
    show (n.executor.stateManager.persistAccounts env [account]).stateRoot = _
    rw [persistAccounts_eq]
  rw [hroot, h.root, hstorage]
  refine ledgerRoot_congr _ fun a => ?_
  rw [get_put]
  split
  · rename_i ha
    rw [← ha, hstored]
  · rfl

theorem Described.step (h : Described env n) {op : NodeOp} (hop : Publishes env n op) :
    Described env (n.step env op) := by
  cases op with
  | execute op =>
    cases op with
    | speculate vertex schedule => exact h.speculate env vertex schedule
    | confirm => exact h.confirm env hop
    | rollback hash =>
      refine ⟨h.indexed, h.root, fun hash' r hget => ?_⟩
      have hget' : (n.executor.speculativeResults.erase hash).get hash' = some r := hget
      rw [get_erase] at hget'
      split at hget'
      · cases hget'
      · exact h.pending hash' r hget'
  | applyTransaction => exact h.of_sameLedger env (Rejected.sameLedger env hop)
  | restoreAccount address => exact h.restoreAccount env address hop

/-! ## From genesis on -/

variable {balances : List (Address × Amount)} {token : Hash}

section

variable (hroot : s.stateRoot = 0#256) (hok : (s.applyGenesis env balances token).1 = .ok ())

include hroot hok

/-- Genesis persists its accounts, loads the index and takes its root. -/
theorem applyGenesis_ok : ∃ accounts, (s.applyGenesis env balances token).2 =
      { s.persistAccounts env accounts with
        accountHashIndex := some (indexOf env.hashData (s.persistAccounts env accounts).storage)
        stateRoot := ledgerRoot env.hashData (s.persistAccounts env accounts).storage } := by
  unfold applyGenesis at hok ⊢
  cases hauth : s.verifyAuth token with
  | error => rw [hauth] at hok; cases hok
  | ok =>
    simp only [hauth, hroot, ne_eq, not_true, if_false] at hok ⊢
    cases haccounts : genesisAccounts balances .zero with
    | error => rw [haccounts] at hok; cases hok
    | ok accounts => exact ⟨accounts, rfl⟩

theorem genesis_described (preparedOn : Hash → AccountTable) :
    Described env ⟨OptimisticExecutor.new (s.applyGenesis env balances token).2, preparedOn⟩ := by
  obtain ⟨_, hgenesis⟩ := applyGenesis_ok env hroot hok
  rw [hgenesis]
  refine ⟨fun _ => rfl, ?_, fun h r hget => by cases hget⟩
  dsimp only [OptimisticExecutor.new]

end

/-- In every run after genesis whose calls all meet the condition, the
published root describes the accounts in storage at every point. -/
theorem published_root {s : StateManager V} (hroot : s.stateRoot = 0#256)
    {balances : List (Address × Amount)} {token : Hash}
    (hok : (s.applyGenesis env balances token).1 = .ok ()) (ops : List NodeOp)
    (hops : StepsMeet (Node.step env) (Publishes env)
      ⟨OptimisticExecutor.new (s.applyGenesis env balances token).2, fun _ => Table.empty⟩ ops) :
    ∀ pre post, ops = pre ++ post →
      (run (nodeStep env) (OptimisticExecutor.new (s.applyGenesis env balances token).2)
          pre).stateManager.stateRoot
        = ledgerRoot env.hashData (run (nodeStep env)
            (OptimisticExecutor.new (s.applyGenesis env balances token).2)
              pre).stateManager.storage := by
  rintro pre post rfl
  have h := invariant_of_stepsMeet (I := Described env) (fun n op hn hop => hn.step env hop)
    (genesis_described env hroot hok fun _ => Table.empty) hops.append.1
  have hrun := h.root
  rw [run_executor] at hrun
  exact hrun

end

/-- The ledger after a genesis with two accounts. -/
def genesisSample : StateManager Unit :=
  ((StateManager.sample []).applyGenesis Platform.sample [(1, ⟨10⟩), (2, ⟨10⟩)] 0).2

/-- Two vertices prepared side by side: the root of the second does not know
the accounts the first has written. -/
theorem stale_root_published :
    let e := run (nodeStep Platform.sample) (OptimisticExecutor.new genesisSample)
      [.execute (.speculate (paymentVertex 8 1 3) (Schedule.inOrder _)),
        .execute (.speculate (paymentVertex 9 2 4) (Schedule.inOrder _)),
        .execute (.confirm 8), .execute (.confirm 9)]
    e.stateManager.stateRoot ≠ ledgerRoot Platform.sample.hashData e.stateManager.storage := by
  decide +kernel

/-- A vertex that is confirmed before anything else is written. -/
theorem confirmed_root_published :
    (run (nodeStep Platform.sample) (OptimisticExecutor.new genesisSample)
        [.execute (.speculate (paymentVertex 8 1 3) (Schedule.inOrder _)),
          .execute (.confirm 8)]).stateManager.stateRoot = ledgerRoot Platform.sample.hashData
          (run (nodeStep Platform.sample) (OptimisticExecutor.new genesisSample)
            [.execute (.speculate (paymentVertex 8 1 3) (Schedule.inOrder _)),
              .execute (.confirm 8)]).stateManager.storage := by
  have hops : StepsMeet (Node.step Platform.sample) (Publishes Platform.sample)
      ⟨OptimisticExecutor.new genesisSample, fun _ => Table.empty⟩
      [.execute (.speculate (paymentVertex 8 1 3) (Schedule.inOrder _)),
        .execute (.confirm 8)] := by
    refine ⟨trivial, fun r _ a _ => ?_, trivial⟩
    obtain ⟨_, hs', -, hsnd⟩ := executeTransactionsOverlay_snd Platform.sample genesisSample
      (paymentVertex 8 1 3).transactions true (Schedule.inOrder _)
    exact congrArg (fun s : StateManager Unit => s.storage.get a) hsnd |>.trans
      (congrArg (Table.get · a) hs'.storage)
  exact published_root Platform.sample (s := StateManager.sample []) rfl rfl _ hops _ []
    (append_nil _).symm

end Quantos

import Quantos.Values

/-!
# Writing accounts

What `persist_accounts` and `commit_execution` leave in storage, in the
cache and in the hash index, and the two invariants of the manager they
maintain:

- `Coherent`: the cache holds nothing that storage does not, so that an
  address reads as its stored account;
- `Indexed`: the hash index, once loaded, is the index of storage.

Both hold of a freshly opened manager.
-/

namespace Quantos.StateManager

open Table List

variable {V : Type} (env : Platform V) {s s' : StateManager V}

section

variable (s : StateManager V) (accounts : List Account)

theorem persistAccounts_eq : s.persistAccounts env accounts =
      { s with
        storage := s.storage.putAll accounts
        accountCache := s.accountCache.putAll accounts
        accountHashIndex := s.accountHashIndex.map fun index =>
          indexAccounts env.hashData index accounts } := by
  have hnote : ∀ (accounts : List Account) (t : StateManager V),
      accounts.foldl (noteAccount env) t =
        { t with
          accountCache := t.accountCache.putAll accounts
          accountHashIndex := t.accountHashIndex.map fun index =>
            indexAccounts env.hashData index accounts } := by
    intro accounts
    induction accounts with
    | nil => intro t; cases t; simp [indexAccounts, Table.putAll]
    | cons a accounts ih =>
      intro t
      rw [foldl_cons, ih]
      simp [noteAccount, indexAccounts, Table.putAll, Function.comp_def]
  unfold persistAccounts
  rw [hnote]

theorem persistAccounts_view (a : Address) : (s.persistAccounts env accounts).view a
      = (accounts.reverse.find? fun acc => acc.address = a).getD (s.view a) := by
  rw [persistAccounts_eq]
  unfold view
  rw [get_putAll, get_putAll]
  cases accounts.reverse.find? fun acc => acc.address = a <;> rfl

/-! ## Cache coherence -/

/-- The cache only holds stored accounts. -/
def Coherent : Prop :=
  ∀ a acc, s.accountCache.get a = some acc → s.storage.get a = some acc

theorem new_coherent (storage : AccountTable) (token : Hash) (world : V) :
    (StateManager.new storage token world).Coherent := by
  intro a acc h
  cases h

theorem sample_coherent : (sample accounts).Coherent := by
  intro a acc h
  cases h

end

theorem Coherent.view (h : s.Coherent) (a : Address) :
    s.view a = (s.storage.get a).getD (Account.new a) := by
  unfold StateManager.view
  cases hc : s.accountCache.get a with
  | none => rfl
  | some acc => rw [h a acc hc]; rfl

/-- An address owns what its stored account owns, an absent one nothing. -/
theorem Coherent.value (h : s.Coherent) (a : Address) :
    (s.view a).value = (s.storage.get a).elim 0 Account.value := by
  rw [h.view]
  cases s.storage.get a <;> rfl

theorem SameLedger.coherent (hs : SameLedger s s') (h : s.Coherent) : s'.Coherent := by
  intro a acc hc
  rw [hs.storage]
  rcases hs.cache a with hold | ⟨-, hfill⟩
  · exact h a acc (hold ▸ hc)
  · exact hfill ▸ hc

theorem Coherent.persist (h : s.Coherent) (accounts : List Account) :
    (s.persistAccounts env accounts).Coherent := by
  rw [persistAccounts_eq]
  intro a acc
  rw [get_putAll, get_putAll]
  cases accounts.reverse.find? fun acc => acc.address = a with
  | none => exact h a acc
  | some => exact id

/-! ## The total of a ledger -/

/-- Balances plus stakes over all stored accounts. -/
def total (s : StateManager V) : Nat := s.storage.sum Account.value

theorem Coherent.value_add_le_total (h : s.Coherent) {a b : Address} (hne : a ≠ b) :
    (s.view a).value + (s.view b).value ≤ s.total := by
  rw [h.value, h.value]
  exact s.storage.add_le_sum Account.value hne

/-! ## The hash index -/

/-- The index the next root computation starts from. -/
def loadedIndex (s : StateManager V) : HashIndex :=
  s.accountHashIndex.getD (indexOf env.hashData s.storage)

/-- The loaded index agrees with storage. -/
def Indexed (s : StateManager V) : Prop :=
  ∀ a, (s.loadedIndex env).get a = (indexOf env.hashData s.storage).get a

theorem Indexed.of_eq (h : s.Indexed env) (hst : s'.storage = s.storage)
    (hidx : s'.accountHashIndex = s.accountHashIndex) : s'.Indexed env := by
  intro a
  have := h a
  unfold loadedIndex at this ⊢
  rwa [hst, hidx]

/-- Persisting accounts keeps a loaded index in step with storage. -/
theorem Indexed.persist (h : s.Indexed env) (accounts : List Account) :
    (s.persistAccounts env accounts).Indexed env := by
  intro a
  have ha := h a
  rw [persistAccounts_eq]
  unfold loadedIndex at ha ⊢
  cases hidx : s.accountHashIndex with
  | none => rfl
  | some =>
    rw [hidx] at ha
    simp only [Option.map_some, Option.getD_some] at ha ⊢
    rw [get_indexAccounts, ha, get_indexOf, get_indexOf, get_putAll]
    cases accounts.reverse.find? fun acc => acc.address = a <;> rfl

/-! ## Finishing and committing an execution -/

theorem loadAccountHashIndex_eq (s : StateManager V) : s.loadAccountHashIndex env
      = (s.loadedIndex env, { s with accountHashIndex := some (s.loadedIndex env) }) := by
  unfold loadAccountHashIndex loadedIndex
  cases h : s.accountHashIndex with
  | none => rfl
  | some =>
    cases s
    simp only at h
    subst h
    rfl

/-- The root an overlay would give on top of the loaded index. -/
def overlayRoot (s : StateManager V) (overlay : AccountTable) : Hash :=
  sparseMerkleRoot env.hashData
    (indexAccounts env.hashData (s.loadedIndex env) overlay.rows).toSorted

variable {overlay : AccountTable}

theorem overlayRoot_congr (s : StateManager V) {overlay' : AccountTable}
    (h : ∀ a, overlay.get a = overlay'.get a) :
    s.overlayRoot env overlay = s.overlayRoot env overlay' := by
  unfold overlayRoot
  rw [toSorted_congr fun a => ?_]
  rw [get_indexAccounts, get_indexAccounts, find?_of_perm (reverse_perm _),
    find?_of_perm (reverse_perm _), h]

theorem finishExecution_eq (s : StateManager V) (receipts : List TransactionReceipt)
    (overlay : AccountTable) :
    s.finishExecution env receipts overlay
      = (⟨s.overlayRoot env overlay, receipts, overlay.toSorted⟩,
          { s with accountHashIndex := some (s.loadedIndex env) }) := by
  unfold finishExecution computeStateRootWithOverlay
  rw [loadAccountHashIndex_eq]
  rfl

/-- Over an index in step with storage, the overlay's root is the root of
the ledger with the overlay written to it. -/
theorem overlayRoot_eq_ledgerRoot (h : s.Indexed env) (overlay : AccountTable)
    {accounts : List Account} (hperm : accounts.Perm overlay.rows) :
    s.overlayRoot env overlay = ledgerRoot env.hashData (s.storage.putAll accounts) := by
  unfold overlayRoot ledgerRoot
  rw [toSorted_congr fun a => ?_]
  rw [get_indexAccounts, h a, get_indexOf, get_indexOf, get_putAll_rows _ _ hperm,
    find?_of_perm (reverse_perm _)]
  cases overlay.get a <;> rfl

section

variable (s : StateManager V) (execution : StateExecution)
  (h : execution.accounts = overlay.toSorted)

include h

theorem commitExecution_storage (a : Address) :
    (s.commitExecution env execution).storage.get a = (overlay.get a).or (s.storage.get a) := by
  unfold commitExecution
  rw [persistAccounts_eq, h]
  exact get_putAll_rows _ _ overlay.toSorted_perm a

theorem commitExecution_view : (s.commitExecution env execution).view = look s.view overlay := by
  funext a
  have hfind : (execution.accounts.reverse.find? fun acc => acc.address = a) = overlay.get a := by
    rw [h]
    exact find?_of_perm ((reverse_perm _).trans overlay.toSorted_perm) a
  have hview := persistAccounts_view env s execution.accounts a
  rw [hfind] at hview
  exact hview

end

end Quantos.StateManager

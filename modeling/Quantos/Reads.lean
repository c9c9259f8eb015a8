import Quantos.Overlay

/-!
# Reading accounts

Every executor reads accounts through the cache, and a read may fill it.
This file makes the fills disappear from the rest of the development:
`SameLedger s s'` says that `s'` is `s` up to cache fills (and up to the
committee manager and the engines' memory, which reads leave alone but
transactions do not), it preserves what every address reads as (`view`),
and each reading operation is its `view` followed by a `SameLedger` step.

An overlay laid over a view is read with `look`.
-/

namespace Quantos

namespace StateManager

open Table

variable {V : Type} {s s' s'' : StateManager V}

theorem view_address (s : StateManager V) (a : Address) : (s.view a).address = a := by
  unfold view
  cases hc : s.accountCache.get a with
  | some => exact key_of_get hc
  | none =>
    cases hs : s.storage.get a with
    | some => exact key_of_get hs
    | none => rfl

/-- What holds of all stored accounts and of fresh ones holds of every
address of a newly opened manager. -/
theorem new_view {P : Account → Prop} {storage : AccountTable} {token : Hash} {world : V}
    (hrows : ∀ r ∈ storage.rows, P r) (hnew : ∀ a, P (Account.new a)) (a : Address) :
    P ((StateManager.new storage token world).view a) := by
  show P ((storage.get a).getD (Account.new a))
  cases hget : storage.get a with
  | none => exact hnew a
  | some acc => exact hrows acc (mem_rows_of_get hget)

/-- `s'` differs from `s` in cache entries copied from storage, in the
committee manager and in the engines' memory, and in nothing else. -/
structure SameLedger (s s' : StateManager V) : Prop where
  storage : s'.storage = s.storage
  pendingState : s'.pendingState = s.pendingState
  stateRoot : s'.stateRoot = s.stateRoot
  accountHashIndex : s'.accountHashIndex = s.accountHashIndex
  authToken : s'.authToken = s.authToken
  contractManager : s'.contractManager = s.contractManager
  evmEngine : s'.evmEngine = s.evmEngine
  cache : ∀ a, s'.accountCache.get a = s.accountCache.get a
    ∨ s.accountCache.get a = none ∧ s'.accountCache.get a = s.storage.get a

namespace SameLedger

theorem refl (s : StateManager V) : SameLedger s s :=
  ⟨rfl, rfl, rfl, rfl, rfl, rfl, rfl, fun _ => .inl rfl⟩

theorem trans (h : SameLedger s s') (h' : SameLedger s' s'') : SameLedger s s'' where
  storage := h'.storage.trans h.storage
  pendingState := h'.pendingState.trans h.pendingState
  stateRoot := h'.stateRoot.trans h.stateRoot
  accountHashIndex := h'.accountHashIndex.trans h.accountHashIndex
  authToken := h'.authToken.trans h.authToken
  contractManager := h'.contractManager.trans h.contractManager
  evmEngine := h'.evmEngine.trans h.evmEngine
  cache := fun a => by
    rcases h.cache a with h₁ | ⟨h₁, h₁'⟩
    · rcases h'.cache a with h₂ | ⟨h₂, h₂'⟩
      · exact .inl (h₂.trans h₁)
      · exact .inr ⟨h₁ ▸ h₂, by rw [h₂', h.storage]⟩
    rcases h'.cache a with h₂ | ⟨h₂, h₂'⟩
    · exact .inr ⟨h₁, h₂.trans h₁'⟩
    · exact .inr ⟨h₁, by rw [h₂', h.storage]⟩

theorem view (h : SameLedger s s') : s'.view = s.view := by
  funext a
  unfold StateManager.view
  rw [h.storage]
  rcases h.cache a with hc | ⟨hc, hc'⟩
  · rw [hc]
  · rw [hc, hc']
    cases s.storage.get a <;> rfl

/-- Committee and engine memory are outside the ledger. -/
theorem set_committee (h : SameLedger s s') (cm : Option CommitteeManager) :
    SameLedger s { s' with committeeManager := cm } :=
  ⟨h.storage, h.pendingState, h.stateRoot, h.accountHashIndex, h.authToken, h.contractManager,
    h.evmEngine, h.cache⟩

theorem set_world (h : SameLedger s s') (world : V) : SameLedger s { s' with world } :=
  ⟨h.storage, h.pendingState, h.stateRoot, h.accountHashIndex, h.authToken, h.contractManager,
    h.evmEngine, h.cache⟩

end SameLedger

/-- A read: the answer is the view, the manager is the same up to a cache
fill, committee and engine memory included. -/
def IsRead (s : StateManager V) (answer : Account) (r : Account × StateManager V) : Prop :=
  ∃ s', r = (answer, s') ∧ SameLedger s s' ∧ s'.committeeManager = s.committeeManager
    ∧ s'.world = s.world

theorem getAccount_isRead (s : StateManager V) (a : Address) :
    IsRead s (s.view a) (s.getAccount a) := by
  unfold getAccount view
  cases hc : s.accountCache.get a with
  | some => exact ⟨s, rfl, .refl s, rfl, rfl⟩
  | none =>
    cases hs : s.storage.get a with
    | none => exact ⟨s, rfl, .refl s, rfl, rfl⟩
    | some acc =>
      refine ⟨_, rfl, ⟨rfl, rfl, rfl, rfl, rfl, rfl, rfl, fun b => ?_⟩, rfl, rfl⟩
      by_cases hb : a = b
      · subst hb
        have hk : acc.address = a := key_of_get hs
        refine .inr ⟨hc, ?_⟩
        simp only [get_put, hk, if_pos, hs]
      · exact .inl (get_put_of_ne _ (by rw [key_of_get hs]; exact hb))

end StateManager

/-! ## Overlays over a view -/

/-- What an address reads as under an overlay laid over `v`. -/
def look (v : Address → Account) (overlay : AccountTable) (a : Address) : Account :=
  (overlay.get a).getD (v a)

section Look

variable {v : Address → Account}

@[simp] theorem look_empty (a : Address) : look v Table.empty a = v a := rfl

variable {overlay : AccountTable} {a : Address}

theorem look_of_some {acc : Account} (h : overlay.get a = some acc) : look v overlay a = acc := by
  rw [look, h]
  rfl

theorem look_of_none (h : overlay.get a = none) : look v overlay a = v a := by
  rw [look, h]
  rfl

theorem look_address (hv : ∀ a, (v a).address = a) (overlay : AccountTable) (a : Address) :
    (look v overlay a).address = a := by
  unfold look
  cases h : overlay.get a with
  | some => exact Table.key_of_get h
  | none => exact hv a

end Look

theorem StateManager.overlayAccount_isRead {V : Type} (s : StateManager V)
    (overlay : AccountTable) (a : Address) :
    s.IsRead (look s.view overlay a) (s.overlayAccount overlay a) := by
  unfold overlayAccount look
  cases overlay.get a with
  | some => exact ⟨s, rfl, .refl s, rfl, rfl⟩
  | none => exact s.getAccount_isRead a

end Quantos

import Quantos.Mvcc
import Quantos.Runs

/-!
# Commits to the multi-version store are serial

The store with an observer: `Observed.step` makes a call and writes down the
log of each transaction and the commits with their timestamps. What a call can
do to the store and to the history together keeps the invariant `Inv`: a
transaction is opened, reads, writes, is dropped or committed, or the old
versions are collected.

The argument is that of optimistic validation. An open transaction reads at
the timestamp of its start, where later commits may still land. Whatever it
has read from outside is the present value of that key, or the key has a
version not older than the start (`Open.fresh`): the validation looks for
these, and the collector never removes one, as it stops at the oldest start.
So a transaction that passes the validation has read the present values, and
replays on what the commits before it leave.
-/

namespace Quantos.Mvcc

open SerialLogs Runs Table List Nat UInt64 History MVCCStore VersionedValue

/-! ## The observed store -/

structure Observed where
  store : MVCCStore
  history : History UInt64 UInt64 Cell.Val

inductive MvccOp where
  | begin
  | readAccount (txnId : UInt64) (address : Address)
  | writeAccount (txnId : UInt64) (state : MVCCAccountState)
  | readStorage (txnId : UInt64) (address : Address) (key : Hash)
  | writeStorage (txnId : UInt64) (address : Address) (key value : Hash)
  | commit (txnId : UInt64)
  | abort (txnId : UInt64)
  | gc

def MvccOp.isCommit : MvccOp → Bool
  | .commit _ => true
  | _ => false

namespace Observed

def start (maxActiveTxns : Nat) : Observed := ⟨.new maxActiveTxns, .start⟩

/-- A call that fails leaves no trace in the history. -/
def observe {α : Type} (o : Observed) (call : Except StateError α × MVCCStore)
    (note : α → History UInt64 UInt64 Cell.Val) : Observed :=
  match call with
  | (.ok a, s) => ⟨s, note a⟩
  | (.error _, s) => ⟨s, o.history⟩

def step (o : Observed) : MvccOp → Observed
  | .begin => o.observe o.store.beginTransaction fun id => o.history.begin id
  | .readAccount id address =>
    o.observe (o.store.readAccount id address) fun v =>
      o.history.access id (.read (.account address) v)
  | .writeAccount id state =>
    o.observe (o.store.writeAccount id state) fun _ =>
      o.history.access id (.write (.account state.address) state)
  | .readStorage id address key =>
    o.observe (o.store.readStorage id address key) fun v =>
      o.history.access id (.read (.slot address key) v)
  | .writeStorage id address key value =>
    o.observe (o.store.writeStorage id address key value) fun _ =>
      o.history.access id (.write (.slot address key) value)
  | .commit id => o.observe (o.store.commit id) fun commitTs => o.history.commit id commitTs
  | .abort id => ⟨o.store.abort id, o.history⟩
  | .gc => ⟨o.store.gc, o.history⟩

end Observed

/-! ## The invariant -/

/-- A version that the start of the transaction does not see for sure. -/
def Late {T : Type} (txn : MVCCTransaction) (vv : VersionedValue T) : Prop :=
  ∃ v ∈ vv.versions.rows, txn.startTs ≤ v.timestamp

/-- What holds of an open transaction. The clock may have wrapped, which only
a transaction that never commits can notice. -/
structure Open (clock : Nat) (o : Observed) (txn : MVCCTransaction) : Prop where
  startTs_le : txn.startTs.toNat ≤ clock
  tracked : Tracked (o.history.current txn.id) txn.Reads txn.writes
  foreign : clock < 2 ^ 64 → ∀ c, ∀ v ∈ (o.store.chain c).versions.rows,
    txn.startTs ≤ v.timestamp → v.createdBy ≠ txn.id
  fresh : ∀ r ∈ outside (o.history.current txn.id),
    (o.store.chain r.1).current = r.2 ∨ Late txn (o.store.chain r.1)

structure Inv (clock : Nat) (o : Observed) : Prop where
  clock_le : clock ≤ 2 ^ 64
  timestamp : o.store.timestamp = UInt64.ofNat clock
  sound : ∀ c, (o.store.chain c).Sound clock
  current : ∀ c, (o.store.chain c).current = result o.history.logs c
  serial : Serial o.history.logs
  marks : (o.history.committed.map Prod.fst).Pairwise (· > ·)
  marks_lt : ∀ mark ∈ o.history.committed.map Prod.fst, mark.toNat < clock
  active : ∀ {i txn}, o.store.activeTxns.get i = some txn → Open clock o txn

section

variable {clock : Nat} {o o' : Observed} {txn : MVCCTransaction}

theorem inv_start (maxActiveTxns : Nat) : Inv 1 (.start maxActiveTxns) where
  clock_le := by decide
  timestamp := rfl
  sound := by
    intro c
    cases c <;> exact sound_new 1
  current := by
    intro c
    cases c <;> rfl
  serial := trivial
  marks := List.Pairwise.nil
  marks_lt := fun _ h => absurd h not_mem_nil
  active := fun h => by cases h

/-- A transaction does not notice what keeps the chains and its own log. -/
theorem Open.congr (h : Open clock o txn) (hchain : o'.store.chain = o.store.chain)
    (hlog : o'.history.current txn.id = o.history.current txn.id) : Open clock o' txn := by
  refine ⟨h.startTs_le, hlog ▸ h.tracked, ?_, ?_⟩
  · rw [hchain]
    exact h.foreign
  · rw [hchain, hlog]
    exact h.fresh

/-- The parts of the invariant that are not about open transactions. -/
theorem Inv.of_sameChains (h : Inv clock o) (hchain : o'.store.chain = o.store.chain)
    (htimestamp : o'.store.timestamp = o.store.timestamp)
    (hcommitted : o'.history.committed = o.history.committed)
    (hactive : ∀ {i txn}, o'.store.activeTxns.get i = some txn → Open clock o' txn) :
    Inv clock o' := by
  have hlogs : o'.history.logs = o.history.logs := congrArg (List.map Prod.snd) hcommitted
  refine ⟨h.clock_le, htimestamp.trans h.timestamp, ?_, ?_, ?_, ?_, ?_, hactive⟩
  · rw [hchain]
    exact h.sound
  · rw [hchain, hlogs]
    exact h.current
  · rw [hlogs]
    exact h.serial
  · rw [hcommitted]
    exact h.marks
  · rw [hcommitted]
    exact h.marks_lt

variable {txn' : MVCCTransaction} {i : UInt64}

theorem Inv.of_others (h : Inv clock o) (hchain : o'.store.chain = o.store.chain)
    (htimestamp : o'.store.timestamp = o.store.timestamp)
    (hcommitted : o'.history.committed = o.history.committed)
    (hlogs : ∀ j, j ≠ i → o'.history.current j = o.history.current j)
    (hactive : ∀ j, j ≠ i → o'.store.activeTxns.get j = o.store.activeTxns.get j)
    (hentry : o'.store.activeTxns.get i = some txn') (hopen : Open clock o' txn') :
    Inv clock o' := by
  refine h.of_sameChains hchain htimestamp hcommitted ?_
  intro j txn hget
  by_cases hj : j = i
  · subst hj
    obtain rfl : txn' = txn := Option.some.inj (hentry.symm.trans hget)
    exact hopen
  have hget' : o.store.activeTxns.get j = some txn := (hactive j hj).symm.trans hget
  have hne : txn.id ≠ i := fun heq => hj ((key_of_get hget').symm.trans heq)
  exact (h.active hget').congr hchain (hlogs _ hne)

theorem get_putTxn_of_ne {s : MVCCStore} (hne : i ≠ txn.id) :
    (s.putTxn txn).activeTxns.get i = s.activeTxns.get i :=
  get_put_of_ne _ (Ne.symm hne)

theorem get_putTxn_self {s : MVCCStore} {txn : MVCCTransaction} :
    (s.putTxn txn).activeTxns.get txn.id = some txn :=
  get_put_self _ _

variable {s' : MVCCStore}

theorem Inv.opened (h : Inv clock o) (hchain : s'.chain = o.store.chain)
    (htimestamp : s'.timestamp = o.store.timestamp)
    (hactive : s'.activeTxns = o.store.activeTxns.put (.new o.store.txnCounter o.store.timestamp)) :
    Inv clock ⟨s', o.history.begin o.store.txnCounter⟩ := by
  have hwrites : (MVCCTransaction.new o.store.txnCounter o.store.timestamp).writes = nothing := by
    funext c
    cases c <;> rfl
  have hentry : s'.activeTxns.get o.store.txnCounter
      = some (.new o.store.txnCounter o.store.timestamp) := by
    rw [hactive]
    exact get_put_self _ _
  refine h.of_others hchain htimestamp rfl (fun j hj => o.history.current_begin_of_ne hj) ?_
    hentry ⟨?_, ?_, ?_, ?_⟩
  · intro j hj
    rw [hactive]
    refine get_put_of_ne _ ?_
    exact Ne.symm hj
  · show o.store.timestamp.toNat ≤ clock
    rw [h.timestamp, toNat_ofNat']
    exact mod_le _ _
  · rw [hwrites]
    show Tracked ((o.history.begin o.store.txnCounter).current o.store.txnCounter) _ _
    rw [current_begin_self]
    exact .nil
  · -- all versions there are precede the start
    intro hclock c v hv hle
    have hlt := (h.sound c).before v (hchain ▸ hv)
    have hle' : o.store.timestamp.toNat ≤ v.timestamp.toNat := le_iff_toNat_le.mp hle
    rw [h.timestamp, toNat_ofNat', mod_eq_of_lt hclock] at hle'
    omega
  · intro r hr
    change r ∈ outside ((o.history.begin o.store.txnCounter).current o.store.txnCounter) at hr
    rw [current_begin_self] at hr
    exact absurd hr not_mem_nil

variable {c : Cell}

theorem Inv.readOwn (h : Inv clock o) {w : c.Val}
    (hget : o.store.activeTxns.get txn.id = some txn) (hw : txn.writes c = some w) :
    Inv clock ⟨o.store, o.history.access txn.id (.read c (some w))⟩ := by
  have hopen := h.active hget
  refine h.of_others rfl rfl rfl (fun j hj => o.history.current_access_of_ne hj _)
    (fun _ _ => rfl) hget ⟨hopen.startTs_le, ?_, hopen.foreign, ?_⟩
  · rw [current_access_self]
    exact hopen.tracked.read_own hw
  · rw [current_access_self, hopen.tracked.outside_read_own hw]
    exact hopen.fresh

/-- What is visible from the start is the present value, or the key has a
version that is late. -/
theorem Inv.getVisible (h : Inv clock o) (txn : MVCCTransaction) (c : Cell) :
    (o.store.chain c).current = (o.store.chain c).getVisible txn.startTs ∨
      Late txn (o.store.chain c) := by
  by_cases hlate : Late txn (o.store.chain c)
  · exact .inr hlate
  · refine .inl (((h.sound c).getVisible_eq_current fun v hv => ?_).symm)
    exact UInt64.le_of_lt (UInt64.not_le.mp fun hle => hlate ⟨v, hv, hle⟩)

section

variable (h : Inv clock o) (hget : o.store.activeTxns.get txn.id = some txn)
  (hid : txn'.id = txn.id) (hstart : txn'.startTs = txn.startTs)

include h hget hid hstart

theorem Inv.readOutside (hnone : txn.writes c = none) (hwrites : txn'.writes = txn.writes)
    (hreads : ∀ c', txn'.Reads c' ↔ c' = c ∨ txn.Reads c') :
    Inv clock ⟨o.store.putTxn txn',
      o.history.access txn.id (.read c ((o.store.chain c).getVisible txn.startTs))⟩ := by
  have hopen := h.active hget
  rw [← hid]
  refine h.of_others (o.store.chain_putTxn txn') rfl rfl
    (fun j hj => o.history.current_access_of_ne hj _)
    (fun j hj => get_putTxn_of_ne hj) get_putTxn_self
    ⟨hstart ▸ hopen.startTs_le, ?_, ?_, ?_⟩
  · rw [current_access_self, hid, hwrites]
    exact hopen.tracked.read_outside hnone _ (fun c' hc' => (hreads c').mpr (.inr hc'))
      ((hreads c).mpr (.inl rfl))
  · rw [chain_putTxn, hid, hstart]
    exact hopen.foreign
  · rw [chain_putTxn, current_access_self, hid, hopen.tracked.outside_read hnone]
    unfold Late
    rw [hstart]
    intro r hr
    rcases mem_cons.mp hr with rfl | hr
    · exact h.getVisible txn c
    · exact hopen.fresh r hr

theorem Inv.wrote {v : c.Val} (hwrites : txn'.writes = Function.update txn.writes c (some v))
    (hreads : txn'.Reads = txn.Reads) :
    Inv clock ⟨o.store.putTxn txn', o.history.access txn.id (.write c v)⟩ := by
  have hopen := h.active hget
  rw [← hid]
  refine h.of_others (o.store.chain_putTxn txn') rfl rfl
    (fun j hj => o.history.current_access_of_ne hj _)
    (fun j hj => get_putTxn_of_ne hj) get_putTxn_self
    ⟨hstart ▸ hopen.startTs_le, ?_, ?_, ?_⟩
  · rw [current_access_self, hid, hwrites, hreads]
    exact hopen.tracked.write c v
  · rw [chain_putTxn, hid, hstart]
    exact hopen.foreign
  · rw [chain_putTxn, current_access_self, hid]
    unfold Late
    rw [hstart]
    exact hopen.fresh

end

theorem Inv.timestamp_add (h : Inv clock o) {tick : Nat} :
    o.store.timestamp + UInt64.ofNat tick = UInt64.ofNat (clock + tick) := by
  rw [h.timestamp, ofNat_add]

variable {tick : Nat}

theorem Inv.dropped (h : Inv clock o) (htick : clock + tick ≤ 2 ^ 64)
    (hchain : s'.chain = o.store.chain)
    (htimestamp : s'.timestamp = o.store.timestamp + UInt64.ofNat tick)
    (hactive : ∀ {i txn}, s'.activeTxns.get i = some txn → o.store.activeTxns.get i = some txn) :
    Inv (clock + tick) ⟨s', o.history⟩ where
  clock_le := htick
  timestamp := htimestamp.trans h.timestamp_add
  sound := by
    rw [hchain]
    exact fun c => (h.sound c).mono (le_add_right _ _)
  current := by
    rw [hchain]
    exact h.current
  serial := h.serial
  marks := h.marks
  marks_lt := fun mark hmark => Nat.lt_add_right _ (h.marks_lt mark hmark)
  active := by
    intro i txn hget
    have hopen := h.active (hactive hget)
    refine ⟨le_trans hopen.startTs_le (le_add_right _ _), hopen.tracked, ?_, ?_⟩
    · rw [hchain]
      exact fun hclock => hopen.foreign (by omega)
    · rw [hchain]
      exact hopen.fresh

/-- The validation finds a version that is late. -/
theorem Inv.not_late (h : Inv clock o) (hclock : clock < 2 ^ 64)
    (hget : o.store.activeTxns.get i = some txn)
    (hvalid : (o.store.chain c).changedIn txn.startTs o.store.timestamp txn.id = false) :
    ¬ Late txn (o.store.chain c) := by
  rintro ⟨v, hv, hle⟩
  have hlt : v.timestamp < o.store.timestamp := by
    rw [lt_iff_toNat_lt, h.timestamp, toNat_ofNat', mod_eq_of_lt hclock]
    exact (h.sound c).before v hv
  have hforeign := (h.active hget).foreign hclock c v hv hle
  have hchanged : (o.store.chain c).changedIn txn.startTs o.store.timestamp txn.id = true := by
    refine any_eq_true.mpr ⟨v, mem_filter.mpr
      ⟨(o.store.chain c).versions.toSorted_perm.mem_iff.mpr hv, by simp [hle, hlt]⟩, ?_⟩
    simp [(h.sound c).committed v hv, hforeign]
  rw [hvalid] at hchanged
  cases hchanged

/-- A transaction that passes the validation replays on the present values. -/
theorem Inv.replays (h : Inv clock o) (hclock : clock < 2 ^ 64)
    (hget : o.store.activeTxns.get i = some txn) (hvalid : ∀ c, txn.Reads c →
      (o.store.chain c).changedIn txn.startTs o.store.timestamp txn.id = false) :
    Replays (result o.history.logs) (o.history.current txn.id) := by
  have hopen := h.active hget
  refine hopen.tracked.replays fun r hr => ?_
  rw [← h.current]
  rcases hopen.fresh r hr with hcurrent | hlate
  · exact hcurrent
  · exact absurd hlate (h.not_late hclock hget (hvalid _ (hopen.tracked.reads r hr)))

theorem Open.committed (h : Open clock o txn) (hclock : o.store.timestamp.toNat = clock)
    {other : MVCCTransaction} (hne : txn.id ≠ other.id) (hchain : ∀ c, s'.chain c
      = (o.store.chain c).afterCommit o.store.timestamp other.id (other.writes c)) :
    Open (clock + 1) ⟨s', o.history.commit other.id o.store.timestamp⟩ txn := by
  have hlate : txn.startTs ≤ o.store.timestamp :=
    le_iff_toNat_le.mpr (hclock ▸ h.startTs_le)
  refine ⟨le_succ_of_le h.startTs_le, h.tracked, ?_, ?_⟩
  · intro hclock' c v hv hle
    rw [hchain] at hv
    cases hwrite : other.writes c with
    | none =>
      rw [hwrite] at hv
      exact h.foreign (by omega) c v hv hle
    | some =>
      rw [hwrite] at hv
      rcases mem_commitVersion hv with rfl | hv
      · exact Ne.symm hne
      · exact h.foreign (by omega) c v hv hle
  · intro r hr
    rw [hchain]
    cases hwrite : other.writes r.1 with
    | none => exact h.fresh r hr
    | some => exact .inr ⟨_, mem_commitVersion_new .., hlate⟩

theorem Inv.committed (h : Inv clock o) (hclock : clock + 1 ≤ 2 ^ 64)
    (hget : o.store.activeTxns.get txn.id = some txn) (hvalid : ∀ c, txn.Reads c →
      (o.store.chain c).changedIn txn.startTs o.store.timestamp txn.id = false)
    (hchain : ∀ c, s'.chain c
      = (o.store.chain c).afterCommit o.store.timestamp txn.id (txn.writes c))
    (htimestamp : s'.timestamp = o.store.timestamp + UInt64.ofNat 1)
    (hactive : ∀ {i txn'}, s'.activeTxns.get i = some txn' →
      i ≠ txn.id ∧ o.store.activeTxns.get i = some txn') :
    Inv (clock + 1) ⟨s', o.history.commit txn.id o.store.timestamp⟩ := by
  have hnow : o.store.timestamp.toNat = clock := by
    rw [h.timestamp, toNat_ofNat', mod_eq_of_lt hclock]
  refine ⟨hclock, htimestamp.trans h.timestamp_add, ?_, ?_, ?_, ?_, ?_, ?_⟩
  · intro c
    rw [hchain]
    cases txn.writes c with
    | none => exact (h.sound c).mono (le_succ _)
    | some w => exact (h.sound c).commitVersion hnow txn.id w
  · intro c
    show (s'.chain c).current = after (result o.history.logs) (o.history.current txn.id) c
    rw [hchain, (h.active hget).tracked.after]
    cases txn.writes c with
    | none => exact h.current c
    | some => exact current_commitVersion ..
  · exact ⟨h.replays hclock hget hvalid, h.serial⟩
  · refine pairwise_cons.mpr ⟨fun mark hmark => ?_, h.marks⟩
    exact lt_iff_toNat_lt.mpr (hnow ▸ h.marks_lt mark hmark)
  · intro mark hmark
    rcases mem_cons.mp hmark with rfl | hmark
    · exact lt_succ_of_le (le_of_eq hnow)
    · exact lt_succ_of_lt (h.marks_lt mark hmark)
  · intro i txn' hget'
    obtain ⟨hne, hold⟩ := hactive hget'
    have hid : txn'.id = i := key_of_get hold
    exact (h.active hold).committed hnow (hid ▸ hne) hchain

theorem Inv.collected (h : Inv clock o) {minActiveTs : UInt64}
    (hmin : ∀ {i txn}, o.store.activeTxns.get i = some txn → minActiveTs ≤ txn.startTs)
    (hchain : ∀ c, s'.chain c = (o.store.chain c).gc minActiveTs)
    (htimestamp : s'.timestamp = o.store.timestamp) (hactive : s'.activeTxns = o.store.activeTxns) :
    Inv clock ⟨s', o.history⟩ where
  clock_le := h.clock_le
  timestamp := htimestamp.trans h.timestamp
  sound := by
    intro c
    rw [hchain]
    exact (h.sound c).gc minActiveTs
  current := by
    intro c
    rw [hchain, (h.sound c).current_gc]
    exact h.current c
  serial := h.serial
  marks := h.marks
  marks_lt := h.marks_lt
  active := by
    intro i txn hget
    have hget' : o.store.activeTxns.get i = some txn := hactive ▸ hget
    have hopen := h.active hget'
    refine ⟨hopen.startTs_le, hopen.tracked, ?_, ?_⟩
    · intro hclock c v hv
      rw [hchain] at hv
      exact hopen.foreign hclock c v (mem_of_mem_gc hv)
    · intro r hr
      rw [hchain, (h.sound r.1).current_gc]
      refine (hopen.fresh r hr).imp_right ?_
      rintro ⟨v, hv, hle⟩
      exact ⟨v, mem_gc hv (.inl (UInt64.le_trans (hmin hget') hle)), hle⟩

/-! ## The calls -/

variable (id : UInt64) (address : Address)

theorem Inv.beginTransaction (h : Inv clock o) :
    Inv clock (o.observe o.store.beginTransaction fun id => o.history.begin id) := by
  unfold MVCCStore.beginTransaction
  split
  · exact h
  · exact h.opened rfl rfl rfl

variable (id : UInt64) (address : Address)

theorem Inv.readAccount (h : Inv clock o) :
    Inv clock (o.observe (o.store.readAccount id address) fun v =>
      o.history.access id (.read (.account address) v)) := by
  unfold MVCCStore.readAccount
  cases hget : o.store.activeTxns.get id with
  | none => exact h
  | some txn =>
    obtain rfl : txn.id = id := key_of_get hget
    dsimp only
    split
    · exact h
    cases hwrite : txn.writeSet.get address with
    | some =>
      exact h.readOwn (c := .account address) hget (by simp [MVCCTransaction.writes, hwrite])
    | none =>
      have hread : VersionedMap.read o.store.accounts address txn.startTs
          = (o.store.chain (.account address)).getVisible txn.startTs :=
        VersionedMap.read_eq ..
      simp only [Observed.observe, hread]
      refine h.readOutside (c := .account address) hget rfl rfl
        (by simp [MVCCTransaction.writes, hwrite]) rfl fun c => ?_
      cases c with
      | account => simp [MVCCTransaction.Reads, MVCCTransaction.recordRead]
      | slot => simp [MVCCTransaction.Reads, MVCCTransaction.recordRead]

theorem Inv.readStorage (h : Inv clock o) (key : Hash) :
    Inv clock (o.observe (o.store.readStorage id address key) fun v =>
      o.history.access id (.read (.slot address key) v)) := by
  unfold MVCCStore.readStorage
  cases hget : o.store.activeTxns.get id with
  | none => exact h
  | some txn =>
    obtain rfl : txn.id = id := key_of_get hget
    dsimp only
    cases hwrite : txn.storageWrites.get (address, key) with
    | some =>
      exact h.readOwn (c := .slot address key) hget (by simp [MVCCTransaction.writes, hwrite])
    | none =>
      have hread : VersionedMap.read o.store.storage (address, key) txn.startTs
          = (o.store.chain (.slot address key)).getVisible txn.startTs :=
        VersionedMap.read_eq ..
      simp only [Observed.observe, hread]
      refine h.readOutside (c := .slot address key) hget rfl rfl
        (by simp [MVCCTransaction.writes, hwrite]) rfl fun c => ?_
      cases c with
      | account => simp [MVCCTransaction.Reads, MVCCTransaction.recordStorageRead]
      | slot => simp [MVCCTransaction.Reads, MVCCTransaction.recordStorageRead]

theorem Inv.writeAccount (h : Inv clock o) (state : MVCCAccountState) :
    Inv clock (o.observe (o.store.writeAccount id state) fun _ =>
      o.history.access id (.write (.account state.address) state)) := by
  unfold MVCCStore.writeAccount
  cases hget : o.store.activeTxns.get id with
  | none => exact h
  | some txn =>
    obtain rfl : txn.id = id := key_of_get hget
    dsimp only
    split
    · exact h
    have hid : (txn.recordWrite state.address state).id = txn.id := rfl
    refine h.wrote (c := .account state.address) hget hid rfl (txn.writes_recordWrite ..) ?_
    funext c
    cases c <;> rfl

theorem Inv.writeStorage (h : Inv clock o) (key value : Hash) :
    Inv clock (o.observe (o.store.writeStorage id address key value) fun _ =>
      o.history.access id (.write (.slot address key) value)) := by
  unfold MVCCStore.writeStorage
  cases hget : o.store.activeTxns.get id with
  | none => exact h
  | some txn =>
    obtain rfl : txn.id = id := key_of_get hget
    dsimp only
    split
    · exact h
    have hid : (txn.recordStorageWrite address key value).id = txn.id := rfl
    refine h.wrote (c := .slot address key) hget hid rfl (txn.writes_recordStorageWrite ..) ?_
    funext c
    cases c <;> rfl

theorem Inv.abort (h : Inv clock o) : Inv clock ⟨o.store.abort id, o.history⟩ := by
  refine @Inv.dropped _ o _ 0 h h.clock_le (o.store.chain_abort id) (by simp [timestamp_abort]) ?_
  intro i txn hget
  rw [get_abort] at hget
  split at hget
  · cases hget
  · exact hget

theorem Inv.gc (h : Inv clock o) : Inv clock ⟨o.store.gc, o.history⟩ :=
  h.collected minActiveTs_le o.store.chain_gc rfl rfl

theorem Inv.commit (h : Inv clock o) (hclock : clock + 1 ≤ 2 ^ 64) :
    ∃ tick ≤ 1, Inv (clock + tick)
      (o.observe (o.store.commit id) fun commitTs => o.history.commit id commitTs) := by
  unfold MVCCStore.commit
  cases hget : o.store.activeTxns.get id with
  | none => exact ⟨0, zero_le 1, h⟩
  | some txn =>
    obtain rfl : txn.id = id := key_of_get hget
    dsimp only
    split
    · exact ⟨0, zero_le 1, h⟩
    refine ⟨1, le_refl 1, ?_⟩
    generalize hs : ({ o.store.putTxn { txn with state := .validating } with
      timestamp := o.store.timestamp + 1 } : MVCCStore) = s
    have hchain : s.chain = o.store.chain := by
      subst hs
      funext c
      cases c <;> rfl
    have htimestamp : s.timestamp = o.store.timestamp + UInt64.ofNat 1 := by
      subst hs
      rfl
    have hactive : ∀ i, s.activeTxns.get i
        = if txn.id = i then some { txn with state := .validating }
          else o.store.activeTxns.get i := by
      subst hs
      exact fun i => get_put ..
    split
    · refine h.dropped hclock ((s.chain_abort _).trans hchain)
        ((s.timestamp_abort _).trans htimestamp) ?_
      intro i txn' hget'
      rw [get_abort] at hget'
      split at hget'
      · cases hget'
      rename_i hne
      rw [hactive, if_neg hne] at hget'
      exact hget'
    · rename_i hvalid
      refine h.committed hclock hget ?_ ?_ htimestamp ?_
      · intro c hc
        rw [← hchain]
        exact s.changedIn_of_validate txn (by simpa using hvalid) hc
      · intro c
        rw [chain_removeTxn, chain_putTxn, chain_applyWrites, hchain]
      · intro i txn' hget'
        rw [get_removeTxn_putTxn] at hget'
        split at hget'
        · cases hget'
        rename_i hne
        refine ⟨Ne.symm hne, ?_⟩
        have hsame : s.activeTxns.get i = some txn' := hget'
        rw [hactive, if_neg hne] at hsame
        exact hsame

/-- A call keeps the invariant, and only a commit takes a timestamp. -/
theorem Inv.step (h : Inv clock o) (op : MvccOp)
    (hroom : clock + (if op.isCommit then 1 else 0) ≤ 2 ^ 64) :
    ∃ tick ≤ if op.isCommit then 1 else 0, Inv (clock + tick) (o.step op) := by
  cases op with
  | begin => exact ⟨0, le_refl 0, h.beginTransaction⟩
  | readAccount id address => exact ⟨0, le_refl 0, h.readAccount id address⟩
  | writeAccount id state => exact ⟨0, le_refl 0, h.writeAccount id state⟩
  | readStorage id address key => exact ⟨0, le_refl 0, h.readStorage id address key⟩
  | writeStorage id address key value => exact ⟨0, le_refl 0, h.writeStorage id address key value⟩
  | commit id => exact h.commit id hroom
  | abort id => exact ⟨0, le_refl 0, h.abort id⟩
  | gc => exact ⟨0, le_refl 0, h.gc⟩

/-- The clock after a run has moved by at most the number of commits. -/
theorem Inv.run {ops : List MvccOp} (h : Inv clock o)
    (hcommits : clock + ops.countP MvccOp.isCommit ≤ 2 ^ 64) :
    ∃ clock', Inv clock' (run Observed.step o ops) := by
  induction ops generalizing clock o with
  | nil => exact ⟨clock, h⟩
  | cons op ops ih =>
    rw [countP_cons] at hcommits
    obtain ⟨tick, htick, hstep⟩ := h.step op (by omega)
    exact ih hstep (by omega)

end

/-! ## Serializability -/

/-- The newest value that any timestamp sees. -/
def MVCCStore.latest (s : MVCCStore) (c : Cell) : Option c.Val :=
  (s.chain c).getVisible (UInt64.ofNat (2 ^ 64 - 1))

theorem Inv.latest {clock : Nat} {o : Observed} (h : Inv clock o) (c : Cell) :
    o.store.latest c = result o.history.logs c := by
  rw [← h.current]
  refine (h.sound c).getVisible_eq_current fun v _ => ?_
  have hlt := v.timestamp.toNat_lt
  rw [le_iff_toNat_le, toNat_ofNat']
  omega

/-- In every run the committed transactions read and leave what they would if
run one after another, in the order of their timestamps, up to the end of the
clock. -/
theorem mvcc_serializable (maxActiveTxns : Nat) (ops : List MvccOp)
    (hcommits : ops.countP MvccOp.isCommit < 2 ^ 64) :
    let o := run Observed.step (.start maxActiveTxns) ops
    Serial o.history.logs ∧ (o.history.committed.map Prod.fst).Pairwise (· > ·) ∧
      ∀ c, o.store.latest c = result o.history.logs c := by
  have hroom : 1 + ops.countP MvccOp.isCommit ≤ 2 ^ 64 := by omega
  obtain ⟨_, hinv⟩ := (inv_start ..).run hroom
  exact ⟨hinv.serial, hinv.marks, hinv.latest⟩

/-- Two transactions that overlap: the second commits a write to an account
the first has read, so the first is refused. A third one starts before a
collection and commits after it. -/
def overlappingOps : List MvccOp :=
  [.begin, .begin, .readAccount 1 7, .writeAccount 2 ⟨7, ⟨50#128⟩, 1, none, none⟩, .commit 2,
    .writeStorage 1 7 0 9, .commit 1, .begin, .readAccount 3 7, .writeStorage 3 7 0 8, .gc,
    .readStorage 3 7 0, .commit 3]

theorem overlappingOps_serial :
    let o := run Observed.step (.start 10) overlappingOps
    overlappingOps.countP MvccOp.isCommit < 2 ^ 64 ∧ o.history.committed.map Prod.fst = [3, 1] ∧
      Serial o.history.logs ∧ o.store.latest (.slot 7 0) = result o.history.logs (.slot 7 0) := by
  have h := mvcc_serializable 10 overlappingOps (by decide)
  exact ⟨by decide, by decide, h.1, h.2.2 _⟩

end Quantos.Mvcc

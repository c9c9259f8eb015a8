import Quantos.SerialLogs
import Quantos.Types

/-!
# The multi-version store

`vm/mvcc.rs`: each key has a chain of versions with the timestamps of the
commits that wrote them. A transaction reads at the timestamp of its start,
collects its writes, and at its commit is checked against the versions that
were committed since then on the keys it has read or written. Old versions
are collected while transactions are open.

Accounts and storage slots are kept in two maps that are treated alike; what
happens to one of them is defined once, for a map of chains (`VersionedMap`).
A `Cell` is a key of either map, and `MVCCStore.chain` the chain under it.

Each call is one step. The status of a transaction is set by `commit` and
`abort` on an entry that the same call removes. `BTreeMap::range` would panic
on a range that ends before it starts; the start of a transaction is never
after its commit as long as the clock does not wrap. Statistics, the table of
committed transactions that nothing reads, and timeouts are left out.
-/

namespace Quantos.Mvcc

open List hiding get_of_mem
open Table

/-! ## Chains of versions -/

structure Version (T : Type) where
  timestamp : UInt64
  createdBy : UInt64
  value : T
  prevVersion : Option UInt64
  committed : Bool

def Version.new {T : Type} (timestamp createdBy : UInt64) (value : T) : Version T :=
  ⟨timestamp, createdBy, value, none, false⟩

structure VersionedValue (T : Type) where
  versions : Table fun v : Version T => v.timestamp
  latestCommitted : Option UInt64

namespace VersionedValue

variable {T : Type}

def new : VersionedValue T := ⟨.empty, none⟩

variable (vv : VersionedValue T)

def addVersion (version : Version T) : VersionedValue T :=
  { vv with versions := vv.versions.put { version with prevVersion := vv.latestCommitted } }

/-- The latest committed version up to `readTs`, searched from there down. -/
def getVisible (readTs : UInt64) : Option T :=
  ((vv.versions.toSorted.filter fun v => v.timestamp ≤ readTs).reverse.find? fun v =>
    v.committed).map fun v => v.value

variable (commitTs txnId : UInt64)

/-- What a committing transaction adds. -/
def commitVersion (value : T) : VersionedValue T :=
  { vv.addVersion { Version.new commitTs txnId value with committed := true } with
    latestCommitted := some commitTs }

/-- The chain after a commit that may have written it. -/
def afterCommit : Option T → VersionedValue T
  | some value => vv.commitVersion commitTs txnId value
  | none => vv

/-- The timestamps `gc` would remove, in ascending order. -/
def removable (minActiveTs : UInt64) : List UInt64 :=
  ((vv.versions.toSorted.filter fun v => v.timestamp < minActiveTs).filter fun v =>
    v.committed && match vv.latestCommitted with
      | none => true
      | some latest => decide (v.timestamp < latest)).map fun v => v.timestamp

def committedCount : Nat := vv.versions.rows.countP fun v => v.committed

/-- Removes old versions, but keeps one that is committed. -/
def gc (minActiveTs : UInt64) : VersionedValue T :=
  if vv.committedCount > 1 then
    { vv with
      versions := ((vv.removable minActiveTs).take (vv.committedCount - 1)).foldl Table.erase
        vv.versions }
  else vv

/-- A committed version of another transaction in the range. -/
def changedIn (startTs commitTs txnId : UInt64) : Bool :=
  (vv.versions.toSorted.filter fun v => startTs ≤ v.timestamp && v.timestamp < commitTs).any
    fun v => v.committed && v.createdBy != txnId

/-! ### What the operations keep -/

/-- All versions are committed before `clock`, and the newest is known. -/
structure Sound (clock : Nat) (vv : VersionedValue T) : Prop where
  committed : ∀ v ∈ vv.versions.rows, v.committed = true
  before : ∀ v ∈ vv.versions.rows, v.timestamp.toNat < clock
  latest_none : vv.latestCommitted = none → vv.versions.rows = []
  latest_some : ∀ {l}, vv.latestCommitted = some l →
    ∃ v ∈ vv.versions.rows, v.timestamp = l ∧ ∀ w ∈ vv.versions.rows, w.timestamp ≤ l

/-- The value of the newest version. -/
def current : Option T :=
  (vv.latestCommitted.bind vv.versions.get).map fun v => v.value

theorem sound_new (clock : Nat) : Sound clock (new : VersionedValue T) where
  committed := fun _ h => absurd h not_mem_nil
  before := fun _ h => absurd h not_mem_nil
  latest_none := fun _ => rfl
  latest_some := fun h => by cases h

variable {clock : Nat} {vv}

theorem Sound.mono (h : Sound clock vv) {clock' : Nat} (hle : clock ≤ clock') : Sound clock' vv :=
  ⟨h.committed, fun v hv => Nat.lt_of_lt_of_le (h.before v hv) hle, h.latest_none, h.latest_some⟩

theorem Sound.getVisible_eq_current (h : Sound clock vv) {readTs : UInt64}
    (hts : ∀ v ∈ vv.versions.rows, v.timestamp ≤ readTs) : vv.getVisible readTs = vv.current := by
  have hfilter : (vv.versions.toSorted.filter fun v => v.timestamp ≤ readTs)
      = vv.versions.toSorted :=
    filter_eq_self.mpr fun v hv =>
      decide_eq_true (hts v (vv.versions.toSorted_perm.mem_iff.mp hv))
  rw [getVisible, hfilter, current]
  cases hlatest : vv.latestCommitted with
  | none =>
    have hsorted : vv.versions.toSorted = [] :=
      perm_nil.mp (h.latest_none hlatest ▸ vv.versions.toSorted_perm)
    rw [hsorted]
    rfl
  | some =>
    obtain ⟨v, hv, rfl, hmax⟩ := h.latest_some hlatest
    rw [find?_reverse_toSorted hv (h.committed v hv) fun w hw _ => hmax w hw]
    show _ = (vv.versions.get v.timestamp).map _
    rw [get_of_mem hv]

theorem current_commitVersion (commitTs txnId : UInt64) (value : T) :
    (vv.commitVersion commitTs txnId value).current = some value := by
  show ((vv.versions.put (⟨commitTs, txnId, value, vv.latestCommitted, true⟩ : Version T)).get
    commitTs).map _ = _
  rw [get_put, if_pos rfl]
  rfl

variable {v : Version T} {commitTs}

theorem mem_commitVersion {txnId : UInt64} {value : T}
    (hv : v ∈ (vv.commitVersion commitTs txnId value).versions.rows) :
    v = ⟨commitTs, txnId, value, vv.latestCommitted, true⟩ ∨ v ∈ vv.versions.rows :=
  mem_rows_put hv

theorem mem_commitVersion_new (commitTs txnId : UInt64) (value : T) :
    ⟨commitTs, txnId, value, vv.latestCommitted, true⟩ ∈
      (vv.commitVersion commitTs txnId value).versions.rows :=
  mem_cons_self

theorem Sound.commitVersion (h : Sound clock vv) (hclock : commitTs.toNat = clock)
    (txnId : UInt64) (value : T) :
    Sound (clock + 1) (vv.commitVersion commitTs txnId value) where
  committed := by
    intro v hv
    rcases mem_commitVersion hv with rfl | hv
    · rfl
    · exact h.committed v hv
  before := by
    intro v hv
    rcases mem_commitVersion hv with rfl | hv
    · exact Nat.lt_succ_of_le (Nat.le_of_eq hclock)
    · exact Nat.lt_succ_of_lt (h.before v hv)
  latest_none := fun hnone => by cases hnone
  latest_some := by
    intro l hl
    cases hl
    refine ⟨_, mem_commitVersion_new .., rfl, fun w hw => ?_⟩
    rcases mem_commitVersion hw with rfl | hw
    · exact UInt64.le_refl _
    · exact UInt64.le_iff_toNat_le.mpr (hclock ▸ Nat.le_of_lt (h.before w hw))

variable {minActiveTs : UInt64}

theorem mem_of_mem_gc (hv : v ∈ (vv.gc minActiveTs).versions.rows) : v ∈ vv.versions.rows := by
  unfold gc at hv
  split at hv
  · exact (mem_rows_foldl_erase.mp hv).1
  · exact hv

/-- What it removes is older than every open transaction and not the newest. -/
theorem mem_gc (hv : v ∈ vv.versions.rows)
    (hkeep : minActiveTs ≤ v.timestamp ∨ vv.latestCommitted = some v.timestamp) :
    v ∈ (vv.gc minActiveTs).versions.rows := by
  unfold gc
  split
  · refine mem_rows_foldl_erase.mpr ⟨hv, fun hremoved => ?_⟩
    obtain ⟨w, hw, htimestamp⟩ := mem_map.mp (mem_of_mem_take hremoved)
    obtain ⟨hw, hold⟩ := mem_filter.mp hw
    have hbelow : w.timestamp < minActiveTs := of_decide_eq_true (mem_filter.mp hw).2
    rw [htimestamp] at hbelow
    rcases hkeep with hkeep | hlatest
    · exact absurd hbelow (UInt64.not_lt.mpr hkeep)
    · rw [hlatest, htimestamp, Bool.and_eq_true, decide_eq_true_eq] at hold
      exact absurd hold.2 (UInt64.lt_irrefl _)
  · exact hv

theorem latestCommitted_gc (minActiveTs : UInt64) :
    (vv.gc minActiveTs).latestCommitted = vv.latestCommitted := by
  unfold gc
  split <;> rfl

theorem Sound.gc (h : Sound clock vv) (minActiveTs : UInt64) : Sound clock (vv.gc minActiveTs) where
  committed := fun v hv => h.committed v (mem_of_mem_gc hv)
  before := fun v hv => h.before v (mem_of_mem_gc hv)
  latest_none := by
    intro hnone
    rw [latestCommitted_gc] at hnone
    refine eq_nil_iff_forall_not_mem.mpr fun v hv => ?_
    have hold := mem_of_mem_gc hv
    rw [h.latest_none hnone] at hold
    exact absurd hold not_mem_nil
  latest_some := by
    intro l hl
    rw [latestCommitted_gc] at hl
    obtain ⟨v, hv, rfl, hmax⟩ := h.latest_some hl
    exact ⟨v, mem_gc hv (.inr hl), rfl, fun w hw => hmax w (mem_of_mem_gc hw)⟩

theorem Sound.current_gc (h : Sound clock vv) (minActiveTs : UInt64) :
    (vv.gc minActiveTs).current = vv.current := by
  rw [current, current, latestCommitted_gc]
  cases hlatest : vv.latestCommitted with
  | none => rfl
  | some =>
    obtain ⟨v, hv, rfl, -⟩ := h.latest_some hlatest
    have hget : vv.versions.get v.timestamp = some v := get_of_mem hv
    have hget' : (vv.gc minActiveTs).versions.get v.timestamp = some v :=
      get_of_mem (mem_gc hv (.inr hlatest))
    simp only [Option.bind_some, hget, hget']

end VersionedValue

/-! ## Maps of chains -/

abbrev VersionedMap (K T : Type) := Table (Prod.fst : K × VersionedValue T → K)

namespace VersionedMap

variable {K T : Type} [DecidableEq K] (m : VersionedMap K T)

/-- The chain under a key, empty where there is none. -/
def chain (k : K) : VersionedValue T :=
  ((m.get k).map Prod.snd).getD .new

def read (k : K) (readTs : UInt64) : Option T :=
  match m.get k with
  | some (_, versioned) => versioned.getVisible readTs
  | none => none

def conflicts (startTs commitTs txnId : UInt64) (k : K) : Bool :=
  match m.get k with
  | some (_, versioned) => versioned.changedIn startTs commitTs txnId
  | none => false

def applyWrite (commitTs txnId : UInt64) (m : VersionedMap K T) (write : K × T) :
    VersionedMap K T :=
  m.put (write.1, (chain m write.1).commitVersion commitTs txnId write.2)

def applyWrites (writes : List (K × T)) (commitTs txnId : UInt64) : VersionedMap K T :=
  writes.foldl (applyWrite commitTs txnId) m

omit [DecidableEq K] in
theorem fst_gc (minActiveTs : UInt64) (row : K × VersionedValue T) :
    (row.1, row.2.gc minActiveTs).1 = row.1 := rfl

def gc (m : VersionedMap K T) (minActiveTs : UInt64) : VersionedMap K T :=
  m.update (fun row => (row.1, row.2.gc minActiveTs)) (fst_gc minActiveTs)

variable (k : K)

theorem read_eq (readTs : UInt64) : read m k readTs = (chain m k).getVisible readTs := by
  unfold read chain
  cases m.get k <;> rfl

theorem conflicts_eq (startTs commitTs txnId : UInt64) (k : K) :
    conflicts m startTs commitTs txnId k = (chain m k).changedIn startTs commitTs txnId := by
  unfold conflicts chain
  cases m.get k <;> rfl

variable (commitTs txnId : UInt64)

theorem chain_applyWrite (write : K × T) (k : K) : chain (applyWrite commitTs txnId m write) k
      = if k = write.1 then (chain m k).commitVersion commitTs txnId write.2 else chain m k := by
  refine (getD_put ..).trans ?_
  split
  · rename_i h
    rw [h]
  · rfl

theorem chain_applyWrites (writes : Table (Prod.fst : K × T → K)) (commitTs txnId : UInt64)
    (k : K) :
    chain (applyWrites m writes.rows commitTs txnId) k
      = (chain m k).afterCommit commitTs txnId ((writes.get k).map Prod.snd) := by
  obtain ⟨rows, hnodup⟩ := writes
  induction rows generalizing m with
  | nil => rfl
  | cons write rows ih =>
    rw [map_cons, nodup_cons] at hnodup
    show chain (applyWrites (applyWrite commitTs txnId m write) rows commitTs txnId) k = _
    rw [ih _ hnodup.2, chain_applyWrite]
    by_cases h : k = write.1
    · subst h
      have hnone : (⟨rows, hnodup.2⟩ : Table (Prod.fst : K × T → K)).get write.1 = none := by
        refine find?_eq_none.mpr fun w hw hk => hnodup.1 ?_
        exact mem_map.mpr ⟨w, hw, of_decide_eq_true hk⟩
      rw [hnone, if_pos rfl]
      simp [Table.get, VersionedValue.afterCommit]
    · simp [Table.get, h, Ne.symm h]

theorem chain_gc (minActiveTs : UInt64) (k : K) :
    chain (gc m minActiveTs) k = (chain m k).gc minActiveTs := by
  unfold chain gc
  rw [get_update]
  cases m.get k <;> rfl

end VersionedMap

/-! ## The store -/

structure MVCCAccountState where
  address : Address
  balance : Amount
  nonce : UInt64
  codeHash : Option Hash
  storageRoot : Option Hash

inductive TransactionState where
  | active
  | validating
  | committed
  | aborted
deriving DecidableEq, Repr

structure MVCCTransaction where
  id : UInt64
  startTs : UInt64
  commitTs : Option UInt64
  readSet : List Address
  writeSet : Table (Prod.fst : Address × MVCCAccountState → Address)
  storageReads : List (Address × Hash)
  storageWrites : Table (Prod.fst : (Address × Hash) × Hash → Address × Hash)
  state : TransactionState

namespace MVCCTransaction

def new (id startTs : UInt64) : MVCCTransaction :=
  ⟨id, startTs, none, [], .empty, [], .empty, .active⟩

variable (txn : MVCCTransaction) (address : Address)

def recordRead : MVCCTransaction :=
  { txn with readSet := txn.readSet.insert address }

def recordWrite (state : MVCCAccountState) : MVCCTransaction :=
  { txn with writeSet := txn.writeSet.put (address, state) }

def recordStorageRead (key : Hash) : MVCCTransaction :=
  { txn with storageReads := txn.storageReads.insert (address, key) }

def recordStorageWrite (key value : Hash) : MVCCTransaction :=
  { txn with storageWrites := txn.storageWrites.put ((address, key), value) }

end MVCCTransaction

structure MVCCStore where
  maxActiveTxns : Nat
  timestamp : UInt64
  txnCounter : UInt64
  accounts : VersionedMap Address MVCCAccountState
  storage : VersionedMap (Address × Hash) Hash
  activeTxns : Table fun txn : MVCCTransaction => txn.id

namespace MVCCStore

def new (maxActiveTxns : Nat) : MVCCStore := ⟨maxActiveTxns, 1, 1, .empty, .empty, .empty⟩

def failed {α : Type} (s : MVCCStore) (text : String) : Except StateError α × MVCCStore :=
  (.error (.executionError text), s)

variable (s : MVCCStore) (txnId : UInt64)

def beginTransaction : Except StateError UInt64 × MVCCStore :=
  if s.activeTxns.rows.length ≥ s.maxActiveTxns then s.failed "Too many active transactions"
  else
    (.ok s.txnCounter,
      { s with
        txnCounter := s.txnCounter + 1
        activeTxns := s.activeTxns.put (.new s.txnCounter s.timestamp) })

variable (address : Address)

def readAccount : Except StateError (Option MVCCAccountState) × MVCCStore :=
  match s.activeTxns.get txnId with
  | none => s.failed "Transaction not found"
  | some txn =>
    if txn.state ≠ .active then s.failed "Transaction not active"
    else
      match txn.writeSet.get address with
      | some (_, state) => (.ok (some state), s)
      | none =>
        (.ok (VersionedMap.read s.accounts address txn.startTs),
          { s with activeTxns := s.activeTxns.put (txn.recordRead address) })

def writeAccount (state : MVCCAccountState) : Except StateError Unit × MVCCStore :=
  match s.activeTxns.get txnId with
  | none => s.failed "Transaction not found"
  | some txn =>
    if txn.state ≠ .active then s.failed "Transaction not active"
    else (.ok (), { s with activeTxns := s.activeTxns.put (txn.recordWrite state.address state) })

/-- The status of the transaction is not asked. -/
def readStorage (key : Hash) : Except StateError (Option Hash) × MVCCStore :=
  match s.activeTxns.get txnId with
  | none => s.failed "Transaction not found"
  | some txn =>
    match txn.storageWrites.get (address, key) with
    | some (_, value) => (.ok (some value), s)
    | none =>
      (.ok (VersionedMap.read s.storage (address, key) txn.startTs),
        { s with activeTxns := s.activeTxns.put (txn.recordStorageRead address key) })

def writeStorage (key value : Hash) : Except StateError Unit × MVCCStore :=
  match s.activeTxns.get txnId with
  | none => s.failed "Transaction not found"
  | some txn =>
    if txn.state ≠ .active then s.failed "Transaction not active"
    else
      (.ok (),
        { s with activeTxns := s.activeTxns.put (txn.recordStorageWrite address key value) })

/-- No key that was read or written has a version of another transaction
since the start. -/
def validate (txn : MVCCTransaction) (commitTs : UInt64) : Bool :=
  !(txn.readSet.any (VersionedMap.conflicts s.accounts txn.startTs commitTs txn.id)
    || (txn.writeSet.rows.map Prod.fst).any
      (VersionedMap.conflicts s.accounts txn.startTs commitTs txn.id)
    || txn.storageReads.any (VersionedMap.conflicts s.storage txn.startTs commitTs txn.id)
    || (txn.storageWrites.rows.map Prod.fst).any
      (VersionedMap.conflicts s.storage txn.startTs commitTs txn.id))

def applyWrites (s : MVCCStore) (txn : MVCCTransaction) (commitTs : UInt64) : MVCCStore :=
  { s with
    accounts := VersionedMap.applyWrites s.accounts txn.writeSet.rows commitTs txn.id
    storage := VersionedMap.applyWrites s.storage txn.storageWrites.rows commitTs txn.id }

def putTxn (txn : MVCCTransaction) : MVCCStore :=
  { s with activeTxns := s.activeTxns.put txn }

def removeTxn : MVCCStore :=
  { s with activeTxns := s.activeTxns.erase txnId }

def abort : MVCCStore :=
  match s.activeTxns.get txnId with
  | none => s.removeTxn txnId
  | some txn => (s.putTxn { txn with state := .aborted }).removeTxn txnId

/-- The timestamp is taken before the validation, and spent if that fails. -/
def commit : Except StateError UInt64 × MVCCStore :=
  match s.activeTxns.get txnId with
  | none => s.failed "Transaction not found"
  | some txn =>
    if txn.state ≠ .active then s.failed "Transaction not active"
    else
      let commitTs := s.timestamp
      let s := { s.putTxn { txn with state := .validating } with timestamp := s.timestamp + 1 }
      if !s.validate txn commitTs then (s.abort txnId).failed "Conflict detected"
      else
        (.ok commitTs, ((s.applyWrites txn commitTs).putTxn
          { txn with state := .committed, commitTs := some commitTs }).removeTxn txnId)

def minActiveTs : UInt64 :=
  (s.activeTxns.rows.map fun txn => txn.startTs).min?.getD s.timestamp

def gc (s : MVCCStore) : MVCCStore :=
  { s with
    accounts := VersionedMap.gc s.accounts s.minActiveTs
    storage := VersionedMap.gc s.storage s.minActiveTs }

end MVCCStore

/-! ## Cells -/

/-- A key of one of the two maps. -/
inductive Cell where
  | account (address : Address)
  | slot (address : Address) (key : Hash)
deriving DecidableEq, Repr

abbrev Cell.Val : Cell → Type
  | .account _ => MVCCAccountState
  | .slot _ _ => Hash

def MVCCStore.chain (s : MVCCStore) : (c : Cell) → VersionedValue c.Val
  | .account address => VersionedMap.chain s.accounts address
  | .slot address key => VersionedMap.chain s.storage (address, key)

namespace MVCCTransaction

variable (txn : MVCCTransaction)

def Reads : Cell → Prop
  | .account address => address ∈ txn.readSet
  | .slot address key => (address, key) ∈ txn.storageReads

def writes : SerialLogs.Store Cell.Val
  | .account address => (txn.writeSet.get address).map Prod.snd
  | .slot address key => (txn.storageWrites.get (address, key)).map Prod.snd

theorem writes_recordWrite (address : Address) (state : MVCCAccountState) :
    (txn.recordWrite address state).writes
      = Function.update txn.writes (.account address) (some state) := by
  funext c
  cases c with
  | account a =>
    by_cases h : a = address
    · subst h
      simp [writes, recordWrite]
    · simp [writes, recordWrite, get_put, h, Ne.symm h]
  | slot => simp [writes, recordWrite]

theorem writes_recordStorageWrite (address : Address) (key value : Hash) :
    (txn.recordStorageWrite address key value).writes
      = Function.update txn.writes (.slot address key) (some value) := by
  funext c
  cases c with
  | account => simp [writes, recordStorageWrite]
  | slot a k =>
    by_cases h : a = address ∧ k = key
    · obtain ⟨rfl, rfl⟩ := h
      simp [writes, recordStorageWrite]
    · have h' : ¬ (address = a ∧ key = k) := fun h' => h ⟨h'.1.symm, h'.2.symm⟩
      simp [writes, recordStorageWrite, get_put, h, h']

end MVCCTransaction

namespace MVCCStore

variable (s : MVCCStore) (txn : MVCCTransaction)

@[simp] theorem chain_putTxn : (s.putTxn txn).chain = s.chain := by
  funext c
  cases c <;> rfl

variable (txnId : UInt64)

@[simp] theorem chain_removeTxn : (s.removeTxn txnId).chain = s.chain := by
  funext c
  cases c <;> rfl

theorem get_removeTxn_putTxn (i : UInt64) : ((s.putTxn txn).removeTxn txn.id).activeTxns.get i
      = if txn.id = i then none else s.activeTxns.get i := by
  show ((s.activeTxns.put txn).erase txn.id).get i = _
  rw [get_erase, get_put]
  split <;> rfl

theorem chain_abort : (s.abort txnId).chain = s.chain := by
  unfold abort
  split <;> simp

theorem timestamp_abort : (s.abort txnId).timestamp = s.timestamp := by
  unfold abort
  split <;> rfl

theorem get_abort (i : UInt64) :
    (s.abort txnId).activeTxns.get i = if txnId = i then none else s.activeTxns.get i := by
  unfold abort
  split
  · exact get_erase ..
  rename_i txn hget
  obtain rfl : txn.id = txnId := key_of_get hget
  exact get_removeTxn_putTxn ..

theorem chain_applyWrites (commitTs : UInt64) (c : Cell) : (s.applyWrites txn commitTs).chain c
      = (s.chain c).afterCommit commitTs txn.id (txn.writes c) := by
  cases c <;> exact VersionedMap.chain_applyWrites ..

theorem changedIn_of_validate {commitTs : UInt64} (h : s.validate txn commitTs = true) {c : Cell}
    (hc : txn.Reads c) : (s.chain c).changedIn txn.startTs commitTs txn.id = false := by
  simp only [validate, Bool.not_eq_true', Bool.or_eq_false_iff, any_eq_false] at h
  obtain ⟨⟨⟨haccounts, -⟩, hstorage⟩, -⟩ := h
  cases c with
  | account address =>
    have hno := haccounts address hc
    rw [VersionedMap.conflicts_eq] at hno
    exact Bool.eq_false_iff.mpr hno
  | slot address key =>
    have hno := hstorage (address, key) hc
    rw [VersionedMap.conflicts_eq] at hno
    exact Bool.eq_false_iff.mpr hno

theorem chain_gc (c : Cell) : s.gc.chain c = (s.chain c).gc s.minActiveTs := by
  cases c <;> exact VersionedMap.chain_gc ..

variable {s txn} in
theorem minActiveTs_le {i : UInt64} (h : s.activeTxns.get i = some txn) :
    s.minActiveTs ≤ txn.startTs := by
  have hmem : txn.startTs ∈ s.activeTxns.rows.map fun txn => txn.startTs :=
    mem_map_of_mem (mem_rows_of_get h)
  unfold minActiveTs
  cases hmin : (s.activeTxns.rows.map fun txn => txn.startTs).min? with
  | none =>
    rw [min?_eq_none_iff.mp hmin] at hmem
    exact absurd hmem not_mem_nil
  | some => exact (min?_eq_some_iff.mp hmin).2 _ hmem

end MVCCStore

end Quantos.Mvcc

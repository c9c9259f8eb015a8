import Quantos.Runs
import Quantos.SerialLogs
import Quantos.Types

/-!
# Software transactional memory

`state/stm.rs`: a transaction records the version of each key it reads and
collects its writes. Its commit walks the log of commits from the newest
record back to its own start time and refuses where a key that it read has
another version now, or a key that it writes was written. The log is cut to
its newest records by every commit and on request.

The table of active transactions is a `DashMap`: `get` shares the shard of the
key for as long as its guard lives, `insert` and `remove` want it alone. A
commit keeps the guard of its transaction up to its end and removes the
transaction before that, so a commit that passes the validation waits for
itself (`commit_of_validate`). It never answers, with its writes in the store
and its record in the log, and with its shard shared for ever: a transaction
that begins or is aborted in that shard waits as well. Commits that answer
are those that are refused.

Each call is one step; the clock is an argument of the two calls that read
it. The status of a transaction is set and never asked: one whose commit was
refused stays in the table and can go on. Of several conflicts with one
record the source reports the first that its hash map yields, here the first
in the order of insertion. Metrics and the retry loop are left out.
-/

namespace Quantos.Stm

open SerialLogs Runs

def MAX_COMMIT_LOG_SIZE : Nat := 10000

inductive TxStatus where
  | active
  | validating
  | committed
  | aborted

/-- An open transaction: the versions it read, the values it will write. -/
structure StmTransaction where
  id : UInt64
  status : TxStatus
  readSet : Table (Prod.fst : Bytes × UInt64 → Bytes)
  writeSet : Table (Prod.fst : Bytes × Bytes → Bytes)
  startTime : UInt64

namespace StmTransaction

def new (id now : UInt64) : StmTransaction := ⟨id, .active, .empty, .empty, now⟩

def recordRead (tx : StmTransaction) (key : Bytes) (version : UInt64) : StmTransaction :=
  { tx with readSet := tx.readSet.put (key, version) }

def recordWrite (tx : StmTransaction) (key value : Bytes) : StmTransaction :=
  { tx with writeSet := tx.writeSet.put (key, value) }

end StmTransaction

structure VersionedValue where
  value : Bytes
  version : UInt64
  lastTx : UInt64

/-- What a commit wrote, and when. -/
structure CommitRecord where
  txId : UInt64
  version : UInt64
  writeKeys : List Bytes
  committedAt : UInt64

inductive StmError where
  | transactionNotFound
  | readWriteConflict (key : Bytes) (expectedVersion actualVersion : UInt64)
  | writeWriteConflict (key : Bytes) (conflictingTx : UInt64)

/-- The manager, with the transactions whose guards on the table of active
ones are never dropped. -/
structure StmManager where
  nextTxId : UInt64
  globalVersion : UInt64
  activeTxs : Table fun tx : StmTransaction => tx.id
  dataStore : Table (Prod.fst : Bytes × VersionedValue → Bytes)
  commitLog : List CommitRecord
  held : List UInt64

/-- The newest `n` records; the newest is the last. -/
def keepLast (n : Nat) (log : List CommitRecord) : List CommitRecord :=
  if log.length > n then log.drop (log.length - n) else log

namespace StmManager

def new : StmManager := ⟨1, 1, .empty, .empty, [], []⟩

variable (shard : UInt64 → Nat) (m : StmManager) (tx : StmTransaction) (txId : UInt64)

/-- An `insert` or `remove` under this id never gets its shard. -/
def waits : Bool := m.held.any fun heldId => shard heldId == shard txId

def putTx : StmManager :=
  { m with activeTxs := m.activeTxs.put tx }

variable (now : UInt64)

/-- The id of the transaction, if the call returns. The id is used up in
either case. -/
def beginTransaction : Option UInt64 × StmManager :=
  if m.waits shard m.nextTxId then (none, { m with nextTxId := m.nextTxId + 1 })
  else (some m.nextTxId, { m.putTx (.new m.nextTxId now) with nextTxId := m.nextTxId + 1 })

/-- A key that is read again gets the version of the second read. -/
def read (key : Bytes) : Option Bytes × StmManager :=
  match m.activeTxs.get txId with
  | none => (none, m)
  | some tx =>
    match tx.writeSet.get key with
    | some (_, value) => (some value, m)
    | none =>
      match m.dataStore.get key with
      | some (_, versioned) =>
        (some versioned.value, m.putTx (tx.recordRead key versioned.version))
      | none => (none, m.putTx (tx.recordRead key 0))

def write (key value : Bytes) : Bool × StmManager :=
  match m.activeTxs.get txId with
  | some tx => (true, m.putTx (tx.recordWrite key value))
  | none => (false, m)

def readConflict (record : CommitRecord) (read : Bytes × UInt64) : Option StmError :=
  if record.writeKeys.contains read.1 then
    match m.dataStore.get read.1 with
    | some (_, current) =>
      if current.version ≠ read.2 then
        some (.readWriteConflict read.1 read.2 current.version)
      else none
    | none => none
  else none

/-- The records from the newest on, up to the first that is too old. -/
def validateRecords (m : StmManager) (tx : StmTransaction) :
    List CommitRecord → Except StmError Unit
  | [] => .ok ()
  | record :: records =>
    if record.committedAt < tx.startTime then .ok ()
    else
      match tx.readSet.rows.findSome? (m.readConflict record) with
      | some e => .error e
      | none =>
        match tx.writeSet.rows.find? fun write => record.writeKeys.contains write.1 with
        | some write => .error (.writeWriteConflict write.1 record.txId)
        | none => m.validateRecords tx records

def validateTransaction : Except StmError Unit :=
  m.validateRecords tx m.commitLog.reverse

/-- All writes get one new version. -/
def applyWrites : StmManager :=
  { m with
    globalVersion := m.globalVersion + 1
    dataStore := m.dataStore.putAll
      (tx.writeSet.rows.map fun write => (write.1, ⟨write.2, m.globalVersion, tx.id⟩)) }

def commitRecord : CommitRecord :=
  ⟨tx.id, m.globalVersion, tx.writeSet.rows.map Prod.fst, now⟩

/-- The answer is missing where the call never returns: `remove` waits for the
guard of `get`. -/
def commit : Option (Except StmError Unit) × StmManager :=
  match m.activeTxs.get txId with
  | none => (some (.error .transactionNotFound), m)
  | some tx =>
    match m.validateTransaction tx with
    | .error e => (some (.error e), m.putTx { tx with status := .aborted })
    | .ok () =>
      let held := txId :: m.held
      let m := { m.applyWrites tx with
        commitLog := keepLast MAX_COMMIT_LOG_SIZE (m.commitLog ++ [m.commitRecord tx now])
        activeTxs := m.activeTxs.put { tx with status := .committed }
        held := held }
      if m.waits shard txId then (none, m)
      else (some (.ok ()), { m with activeTxs := m.activeTxs.erase txId, held := held.tail })

def abort : StmManager :=
  if m.waits shard txId then m else { m with activeTxs := m.activeTxs.erase txId }

def pruneCommitLog (keepLastN : Nat) : StmManager :=
  { m with commitLog := keepLast keepLastN m.commitLog }

end StmManager

/-! ## Commits -/

namespace StmManager

variable {shard : UInt64 → Nat} {m : StmManager} {tx : StmTransaction} {txId now : UInt64}

end StmManager

/-! ## Runs -/

/-- The values of keys, all of one type. -/
abbrev Value (_ : Bytes) : Type := Bytes

/-- The manager with an observer, who takes down what each transaction has
read and written, and which commits have answered. -/
structure Observed where
  manager : StmManager
  history : History UInt64 Unit Value

inductive StmOp where
  | begin (now : UInt64)
  | read (txId : UInt64) (key : Bytes)
  | write (txId : UInt64) (key value : Bytes)
  | commit (txId now : UInt64)
  | abort (txId : UInt64)
  | pruneCommitLog (keepLastN : Nat)

namespace Observed

def start : Observed := ⟨.new, .start⟩

variable (shard : UInt64 → Nat) (o : Observed)

def step : StmOp → Observed
  | .begin now =>
    match o.manager.beginTransaction shard now with
    | (some id, m) => ⟨m, o.history.begin id⟩
    | (none, m) => { o with manager := m }
  | .read id key =>
    match o.manager.activeTxs.get id with
    | none => o
    | some _ =>
      let (v, m) := o.manager.read id key
      ⟨m, o.history.access id (.read key v)⟩
  | .write id key value =>
    match o.manager.write id key value with
    | (true, m) => ⟨m, o.history.access id (.write key value)⟩
    | (false, m) => { o with manager := m }
  | .commit id now =>
    match o.manager.commit shard id now with
    | (some (.ok _), m) => ⟨m, o.history.commit id ()⟩
    | (_, m) => { o with manager := m }
  | .abort id => { o with manager := o.manager.abort shard id }
  | .pruneCommitLog n => { o with manager := o.manager.pruneCommitLog n }

end Observed

end Quantos.Stm

import Quantos.Committees
import Quantos.Reads
import Quantos.Runs

/-!
# The ingress buffer

`dag/ingress.rs`: a transaction from gossip or RPC passes the prefilter, has
its signature checked against its public key, its nonce against a cache with
the state behind it, and is queued in the channel of its shard.

`ingest` remembers the public key of a transaction before it looks at the
signature, and no step compares the key with the sender. `Authentic` is what
an accepted transaction should be. It is so in every run in which the keys
sent are those of the senders and no cached nonce is met that has fallen
behind the state.

The prefilter is one bit set for the process, shared with the network layer;
the state manager is shared with everything. Runs have a step for either.
-/

namespace Quantos

open Table

/-! ## Serialization -/

/-- `Vec<u8>` in `bincode`: the length as `u64`, then the bytes. -/
def bincodeVec (bytes : Bytes) : Bytes := leBytes 8 bytes.length ++ bytes

def Transaction.bincode (tx : Transaction) : Bytes :=
  leBytes 4 tx.txType.toU8.toNat ++ arrayBytes tx.from ++ arrayBytes tx.to
    ++ leBytes 16 tx.amount.toNat ++ leBytes 8 tx.nonce.toNat
    ++ leBytes 8 tx.maxComputeUnits.toNat
    ++ (match tx.boost with
        | some boost =>
          [1] ++ leBytes 8 boost.lockedTokens.toNat ++ leBytes 8 boost.lockDurationBlocks.toNat
        | none => [0])
    ++ leBytes 4 tx.vmKind.toU8.toNat ++ bincodeVec tx.data ++ leBytes 2 tx.shardId.toNat
    ++ leBytes 8 tx.timestamp.toNat ++ bincodeVec tx.signature ++ bincodeVec tx.publicKey
    ++ leBytes 8 tx.chainId.toNat

def SignedTransaction.bincode (tx : SignedTransaction) : Bytes :=
  tx.transaction.bincode ++ arrayBytes tx.hash ++ leBytes 8 tx.size

/-! ## The prefilter -/

structure Prefilter where
  /-- The positions that are set. -/
  bits : List Nat
  sizeBits : Nat

namespace Prefilter

def new (sizeBits : Nat) : Prefilter := ⟨[], sizeBits⟩

def insertHash (f : Prefilter) (h : Nat) : Prefilter :=
  { f with bits := h % f.sizeBits :: f.bits }

def containsHash (f : Prefilter) (h : Nat) : Bool := f.bits.contains (h % f.sizeBits)

/-- The loop of `entropy_ok`, with the bytes seen so far. -/
def distinctBytes (seen : List UInt8) : Bytes → Bool
  | [] => false
  | b :: rest =>
    if seen.contains b then distinctBytes seen rest
    else if seen.length + 1 ≥ 8 then true
    else distinctBytes (b :: seen) rest

def entropyOk (data : Bytes) : Bool :=
  if data.length < 8 then false else distinctBytes [] (data.take 64)

def checkTransactionBytes (hashData : Bytes → Hash) (f : Prefilter) (payload : Bytes) :
    Except String Unit × Prefilter :=
  if payload.length < 64 then (.error "payload too small", f)
  else if payload.length > 256 * 1024 then (.error "payload too large", f)
  else
    let short := leValue ((arrayBytes (hashData payload)).take 8)
    if f.containsHash short then (.error "duplicate or repeated payload", f)
    else if ! entropyOk payload then (.error "low entropy payload", f)
    else (.ok (), f.insertHash short)

end Prefilter

/-! ## The buffer -/

def INGRESS_BUFFER_SIZE : Nat := 10000

structure TxIngressBuffer (V : Type) where
  /-- One bounded channel for each shard. -/
  shards : Table (Prod.fst : ShardId × List SignedTransaction → ShardId)
  stateManager : StateManager V
  nonceCache : Table (Prod.fst : Address × UInt64 → Address)
  pubkeyCache : Table (Prod.fst : Address × Bytes → Address)
  totalPending : UInt64
  pendingByShard : Table (Prod.fst : ShardId × UInt64 → ShardId)
  /-- The `PREFILTER` of the process. -/
  prefilter : Prefilter

namespace TxIngressBuffer

variable {V : Type} (env : Platform V)

def new (stateManager : StateManager V) (numShards : UInt16) (prefilter : Prefilter) :
    TxIngressBuffer V where
  shards := empty.putAll ((List.range numShards.toNat).map fun i => (UInt16.ofNat i, []))
  stateManager
  nonceCache := Table.empty
  pubkeyCache := Table.empty
  totalPending := 0
  pendingByShard :=
    empty.putAll ((List.range numShards.toNat).map fun i => (UInt16.ofNat i, 0))
  prefilter

variable (buffer : TxIngressBuffer V)

/-- The key the signature is checked with. A key that comes with the
transaction goes to the cache at once. -/
def signingKey (tx : Transaction) : Option Bytes × TxIngressBuffer V :=
  if tx.publicKey = [] then ((buffer.pubkeyCache.get tx.from).map Prod.snd, buffer)
  else
    (some tx.publicKey,
      { buffer with pubkeyCache := buffer.pubkeyCache.put (tx.from, tx.publicKey) })

/-- The nonce a sender is expected to use: the cached one, or 0. -/
def cachedNonce (sender : Address) : UInt64 :=
  ((buffer.nonceCache.get sender).map Prod.snd).getD 0

/-- The state is asked only where the cache says something else. -/
def checkNonce (tx : Transaction) : Bool × TxIngressBuffer V :=
  if tx.nonce ≠ buffer.cachedNonce tx.from then
    let (account, stateManager) := buffer.stateManager.getAccount tx.from
    let buffer := { buffer with stateManager }
    if tx.nonce ≠ account.nonce then (false, buffer)
    else (true, { buffer with nonceCache := buffer.nonceCache.put (tx.from, account.nonce) })
  else (true, buffer)

variable (shardId : ShardId) (limit : Nat) (tx : SignedTransaction)

def addPending (delta : UInt64) : TxIngressBuffer V :=
  { buffer with
    totalPending := buffer.totalPending + delta
    pendingByShard :=
      match buffer.pendingByShard.get shardId with
      | some (_, count) => buffer.pendingByShard.put (shardId, count + delta)
      | none => buffer.pendingByShard }

/-- `try_send` to the channel of the shard. -/
def route : Bool × TxIngressBuffer V :=
  let shardId := tx.transaction.shardId
  match buffer.shards.get shardId with
  | none => (false, buffer)
  | some (_, queue) =>
    if queue.length < INGRESS_BUFFER_SIZE then
      (true, addPending
        { buffer with shards := buffer.shards.put (shardId, queue ++ [tx]) } shardId 1)
    else (false, buffer)

def ingest : Bool × TxIngressBuffer V :=
  match buffer.prefilter.checkTransactionBytes env.hashData tx.bincode with
  | (.error _, prefilter) => (false, { buffer with prefilter })
  | (.ok (), prefilter) =>
    match signingKey { buffer with prefilter } tx.transaction with
    | (none, buffer) => (false, buffer)
    | (some pk, buffer) =>
      if ! env.verifyMlDsa65 pk tx.transaction.signingData tx.transaction.signature then
        (false, buffer)
      else
        match buffer.checkNonce tx.transaction with
        | (false, buffer) => (false, buffer)
        | (true, buffer) => buffer.route tx

/-- The counters go down by one for each transaction taken. -/
def drainShard : List SignedTransaction × TxIngressBuffer V :=
  match buffer.shards.get shardId with
  | none => ([], buffer)
  | some (_, queue) =>
    let txs := queue.take limit
    (txs, addPending { buffer with shards := buffer.shards.put (shardId, queue.drop limit) }
      shardId (0 - UInt64.ofNat txs.length))

/-- The content of a channel. -/
def queue : List SignedTransaction :=
  ((buffer.shards.get shardId).map Prod.snd).getD []

theorem queue_drainShard (shardId : ShardId) (limit : Nat) :
    (buffer.drainShard shardId limit).2.queue shardId = (buffer.queue shardId).drop limit := by
  unfold drainShard
  split
  · rename_i h
    simp [queue, h]
  · rename_i h
    simp [queue, addPending, h]

/-! ## What a call can do -/

@[simp] theorem pubkeyCache_checkNonce (tx : Transaction) :
    (buffer.checkNonce tx).2.pubkeyCache = buffer.pubkeyCache := by
  unfold checkNonce
  dsimp only
  split
  · split <;> rfl
  · rfl

@[simp] theorem pubkeyCache_route : (buffer.route tx).2.pubkeyCache = buffer.pubkeyCache := by
  unfold route
  dsimp only
  split
  · rfl
  · split <;> rfl

@[simp] theorem pubkeyCache_drainShard (shardId : ShardId) (limit : Nat) :
    (buffer.drainShard shardId limit).2.pubkeyCache = buffer.pubkeyCache := by
  unfold drainShard
  split <;> rfl

theorem pubkeyCache_signingKey (tx : Transaction) :
    (buffer.signingKey tx).2.pubkeyCache = buffer.pubkeyCache ∨ tx.publicKey ≠ [] ∧
        (buffer.signingKey tx).2.pubkeyCache = buffer.pubkeyCache.put (tx.from, tx.publicKey) := by
  unfold signingKey
  split
  · exact .inl rfl
  · rename_i hne
    exact .inr ⟨hne, rfl⟩

theorem pubkeyCache_ingest : (buffer.ingest env tx).2.pubkeyCache = buffer.pubkeyCache ∨
      tx.transaction.publicKey ≠ [] ∧ (buffer.ingest env tx).2.pubkeyCache
          = buffer.pubkeyCache.put (tx.transaction.from, tx.transaction.publicKey) := by
  unfold ingest
  split
  · exact .inl rfl
  rename_i prefilter _
  have hkey := pubkeyCache_signingKey { buffer with prefilter } tx.transaction
  split
  · rename_i h
    rwa [h] at hkey
  rename_i buffer' h
  rw [h] at hkey
  split
  · exact hkey
  have hnonce := pubkeyCache_checkNonce buffer' tx.transaction
  split
  · rename_i h'
    rw [h'] at hnonce
    rwa [hnonce]
  rename_i h'
  rw [h'] at hnonce
  rwa [pubkeyCache_route, hnonce]

/-- The key a signature is checked with comes with the transaction or from
the cache. -/
def KeyFor (buffer : TxIngressBuffer V) (tx : Transaction) (pk : Bytes) : Prop :=
  (tx.publicKey ≠ [] ∧ pk = tx.publicKey) ∨
    (tx.publicKey = [] ∧ buffer.pubkeyCache.get tx.from = some (tx.from, pk))

variable {buffer' : TxIngressBuffer V} {tx : Transaction} {buffer}

theorem keyFor_of_signingKey {pk : Bytes} (h : buffer.signingKey tx = (some pk, buffer')) :
    buffer.KeyFor tx pk ∧ buffer'.nonceCache = buffer.nonceCache ∧
      buffer'.stateManager = buffer.stateManager := by
  unfold signingKey at h
  split at h
  · rename_i hempty
    obtain ⟨hpk, rfl⟩ := Prod.mk.inj h
    obtain ⟨row, hrow, rfl⟩ := Option.map_eq_some_iff.mp hpk
    have hfst : row.1 = tx.from := key_of_get hrow
    exact ⟨.inr ⟨hempty, by rw [hrow, ← hfst]⟩, rfl, rfl⟩
  · rename_i hne
    obtain ⟨hpk, rfl⟩ := Prod.mk.inj h
    exact ⟨.inl ⟨hne, (Option.some.inj hpk).symm⟩, rfl, rfl⟩

theorem nonce_of_checkNonce (h : buffer.checkNonce tx = (true, buffer')) :
    tx.nonce = buffer.cachedNonce tx.from ∨
      tx.nonce = (buffer.stateManager.view tx.from).nonce := by
  obtain ⟨_, hread, -⟩ := buffer.stateManager.getAccount_isRead tx.from
  unfold checkNonce at h
  rw [hread] at h
  dsimp only at h
  split at h
  · split at h
    · cases h
    · rename_i heq
      exact .inr (not_not.mp heq)
  · rename_i heq
    exact .inl (not_not.mp heq)

theorem accepted_of_ingest {tx : SignedTransaction} (h : (buffer.ingest env tx).1 = true) :
    (∃ pk, buffer.KeyFor tx.transaction pk ∧
      env.verifyMlDsa65 pk tx.transaction.signingData tx.transaction.signature = true) ∧
    (tx.transaction.nonce = buffer.cachedNonce tx.transaction.from ∨
      tx.transaction.nonce = (buffer.stateManager.view tx.transaction.from).nonce) := by
  unfold ingest at h
  split at h
  · cases h
  split at h
  · cases h
  rename_i pk buffer' hkey
  obtain ⟨hfor, hcache, hstate⟩ := keyFor_of_signingKey hkey
  split at h
  · cases h
  rename_i hverify
  split at h
  · cases h
  rename_i hnonce
  have hpassed := nonce_of_checkNonce hnonce
  rw [cachedNonce, hcache, hstate] at hpassed
  exact ⟨⟨pk, hfor, by simpa using hverify⟩, hpassed⟩

end TxIngressBuffer

/-! ## Runs -/

inductive IngressOp (V : Type) where
  | ingest (tx : SignedTransaction)
  | drain (shardId : ShardId) (limit : Nat)
  /-- The network layer checks a payload of its own. -/
  | prefilter (payload : Bytes)
  /-- Execution, genesis, synchronization: the state is another one. -/
  | stateChange (stateManager : StateManager V)

namespace TxIngressBuffer

variable {V : Type} (env : Platform V) (buffer : TxIngressBuffer V)

def step : IngressOp V → TxIngressBuffer V
  | .ingest tx => (buffer.ingest env tx).2
  | .drain shardId limit => (buffer.drainShard shardId limit).2
  | .prefilter payload =>
    { buffer with
      prefilter := (buffer.prefilter.checkTransactionBytes env.hashData payload).2 }
  | .stateChange stateManager => { buffer with stateManager }

/-- Signed by the key its sender's address is derived from, and not below the
nonce of the sender. -/
def Authentic (tx : Transaction) : Prop :=
  (∃ pk, env.hashData pk = tx.from ∧ env.verifyMlDsa65 pk tx.signingData tx.signature = true) ∧
    (buffer.stateManager.view tx.from).nonce ≤ tx.nonce

/-- Every transaction the run accepts is authentic when it is accepted. -/
def AdmitsAuthentic (ops : List (IngressOp V)) : Prop :=
  ∀ before tx after, ops = before ++ .ingest tx :: after →
    ((Runs.run (step env) buffer before).ingest env tx).1 = true →
      (Runs.run (step env) buffer before).Authentic env tx.transaction

/-- A key that is sent is the sender's, and a transaction that carries the
cached nonce of its sender does not find it behind the state. -/
def SentHonestly : IngressOp V → Prop
  | .ingest tx =>
    (tx.transaction.publicKey ≠ [] →
      env.hashData tx.transaction.publicKey = tx.transaction.from) ∧
    (tx.transaction.nonce = buffer.cachedNonce tx.transaction.from →
      (buffer.stateManager.view tx.transaction.from).nonce ≤
        buffer.cachedNonce tx.transaction.from)
  | _ => True

/-- Every cached key is that of its address. -/
def KeysDerived : Prop :=
  ∀ row ∈ buffer.pubkeyCache.rows, env.hashData row.2 = row.1

variable {buffer}

theorem keysDerived_step {op : IngressOp V} (hkeys : buffer.KeysDerived env)
    (hop : buffer.SentHonestly env op) : (step env buffer op).KeysDerived env := by
  cases op with
  | ingest tx =>
    intro row hrow
    simp only [step] at hrow
    rcases pubkeyCache_ingest env buffer tx with hsame | ⟨hne, hput⟩
    · rw [hsame] at hrow
      exact hkeys row hrow
    rw [hput] at hrow
    rcases mem_rows_put hrow with rfl | hrow
    · exact hop.1 hne
    · exact hkeys row hrow
  | drain =>
    intro row hrow
    simp only [step, pubkeyCache_drainShard] at hrow
    exact hkeys row hrow
  | prefilter => exact hkeys
  | stateChange => exact hkeys

theorem authentic_of_accepted {tx : SignedTransaction} (hkeys : buffer.KeysDerived env)
    (hop : buffer.SentHonestly env (.ingest tx)) (h : (buffer.ingest env tx).1 = true) :
    buffer.Authentic env tx.transaction := by
  obtain ⟨⟨pk, hfor, hverify⟩, hnonce⟩ := accepted_of_ingest env h
  constructor
  · refine ⟨pk, ?_, hverify⟩
    rcases hfor with ⟨hne, rfl⟩ | ⟨-, hcached⟩
    · exact hop.1 hne
    · exact hkeys _ (mem_rows_of_get hcached)
  · rcases hnonce with hcached | hstate
    · rw [hcached]
      exact hop.2 hcached
    · rw [hstate]
      exact UInt64.le_refl _

/-- From a new buffer, whatever the prefilter has seen. -/
theorem admitsAuthentic_of_sentHonestly (stateManager : StateManager V) (numShards : UInt16)
    (prefilter : Prefilter) (ops : List (IngressOp V))
    (hops : Runs.StepsMeet (step env) (SentHonestly env) (new stateManager numShards prefilter)
      ops) :
    AdmitsAuthentic env (new stateManager numShards prefilter) ops := by
  intro before tx after hsplit haccepted
  subst hsplit
  obtain ⟨hbefore, hop, -⟩ := hops.append
  have hkeys := Runs.invariant_of_stepsMeet
    (fun _ _ hk hs => keysDerived_step env hk hs) (I := KeysDerived env)
    (fun row hrow => by cases hrow) hbefore
  exact authentic_of_accepted env hkeys hop haccepted

/-! ## Keys of others and nonces of the past -/

/-- A signature is valid under the key it repeats. -/
def echoPlatform : Platform Unit :=
  { Platform.sample with verifyMlDsa65 := fun publicKey _ signature => publicKey == signature }

/-- Of the account with the one-byte key `sender`, signed with the key `signer`. -/
def echoTx (sender signer : UInt8) (publicKey : Bytes) (nonce : UInt64) : SignedTransaction :=
  let tx := sampleTx .transfer sender (BitVec.ofNat 256 (0x0102030405060708 * 2 ^ 192)) 5 nonce
  { tx with transaction := { tx.transaction with signature := [signer], publicKey } }

/-- A state in which the account of key 1 has used three nonces. -/
def usedState : StateManager Unit :=
  .new (empty.put { Account.new 1#256 with nonce := 3 }) 0#256 ()

/-- The sender 1 is named by a transaction of key 2, by one without a key
after it, and a nonce used long ago is accepted from an empty cache. -/
theorem ingest_accepts_forged_and_stale :
    ¬ AdmitsAuthentic echoPlatform (new usedState 1 (.new 65536)) [.ingest (echoTx 1 2 [2] 3)] ∧
    ¬ AdmitsAuthentic echoPlatform (new usedState 1 (.new 65536))
      [.ingest (echoTx 1 1 [2] 3), .ingest (echoTx 1 2 [] 3)] ∧
    ¬ AdmitsAuthentic echoPlatform (new usedState 1 (.new 65536)) [.ingest (echoTx 1 1 [1] 0)] := by
  have hkey : ∀ pk : Bytes, echoPlatform.hashData pk = 1#256 → (pk == [2]) = true → False := by
    intro pk hhash hpk
    rw [beq_iff_eq.mp hpk] at hhash
    revert hhash
    decide
  refine ⟨fun h => ?_, fun h => ?_, fun h => ?_⟩
  · obtain ⟨⟨pk, hhash, hverify⟩, -⟩ := h [] (echoTx 1 2 [2] 3) [] rfl (by decide +kernel)
    exact hkey pk hhash hverify
  · obtain ⟨⟨pk, hhash, hverify⟩, -⟩ :=
      h [.ingest (echoTx 1 1 [2] 3)] (echoTx 1 2 [] 3) [] rfl (by decide +kernel)
    exact hkey pk hhash hverify
  · obtain ⟨-, hnonce⟩ := h [] (echoTx 1 1 [1] 0) [] rfl (by decide +kernel)
    revert hnonce
    decide

/-- Two transactions of one sender, the second with the key from the cache. -/
def honestOps : List (IngressOp Unit) :=
  [.ingest (echoTx 1 1 [1] 3), .prefilter [], .drain 0 10, .ingest (echoTx 1 1 [] 3)]

instance (buffer : TxIngressBuffer Unit) (op : IngressOp Unit) :
    Decidable (buffer.SentHonestly echoPlatform op) :=
  match op with
  | .ingest _ => inferInstanceAs (Decidable (_ ∧ _))
  | .drain _ _ | .prefilter _ | .stateChange _ => isTrue trivial

theorem admitsAuthentic_honestOps :
    (Runs.run (step echoPlatform) (new usedState 1 (.new 65536)) honestOps).totalPending = 1 ∧
      AdmitsAuthentic echoPlatform (new usedState 1 (.new 65536)) honestOps :=
  ⟨by decide +kernel,
    admitsAuthentic_of_sentHonestly echoPlatform usedState 1 (.new 65536) honestOps
      (by decide +kernel)⟩

end TxIngressBuffer

end Quantos

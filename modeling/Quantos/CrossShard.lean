import Quantos.Committees

/-!
# Cross-shard transfers

`sharding/cross_shard.rs`: the coordinator opens a transfer on the source
shard, sends it to the destination, marks it credited once its proof is
verified there, and finalises it on a confirmation, a rejection or a
timeout. One coordinator holds the records of both shards, so the phase
set on behalf of the destination and the receipt written on behalf of the
source are entries of the same tables.

Every call runs as one step. What it does to the transfers themselves
goes through three operations on the `TransferRecords`, `lock`, `credit`
and `finalizeTransaction`; everything else (limits, indexes, channels,
signatures) frames them. The `events` are kept next to the code's own
tables: they record each move to `Credited` and each receipt, and no
function reads them.
-/

namespace Quantos

def MIN_TRANSFER_AMOUNT : Nat := 1

def MAX_TRANSFER_AMOUNT : Nat := (2 ^ 128 - 1) / 2

def MAX_PENDING_PER_SENDER : Nat := 100

/-- The fields of the configuration that the coordinator reads. -/
structure CrossShardConfig where
  maxPendingPerShard : Nat
  timeoutMs : UInt64
  enableZkProofs : Bool

def CrossShardConfig.default : CrossShardConfig where
  maxPendingPerShard := 10000
  timeoutMs := 10000
  enableZkProofs := true

inductive CrossShardPhase where
  | locked
  | pending
  | credited
  | confirmed
  | finalized
  | rolledBack
  | timedOut
deriving DecidableEq, Repr

structure CrossShardTransaction where
  id : Hash
  sourceShard : ShardId
  destShard : ShardId
  sender : Address
  recipient : Address
  amount : Amount
  data : Bytes
  nonce : UInt64
  timestamp : UInt64
  phase : CrossShardPhase
  sourceStateRoot : Hash
  proof : Option Bytes
  retries : UInt32

inductive CrossShardMessageType where
  | transfer (tx : CrossShardTransaction)
  | confirm (txId : Hash)
  | reject (txId : Hash) (reason : String)
  | stateSync (fromHeight toHeight : UInt64)
  | stateSyncResponse (data : Bytes)
  | heartbeat

structure CrossShardMessage where
  msgType : CrossShardMessageType
  sourceShard : ShardId
  destShard : ShardId
  payload : Bytes
  merkleProof : List Hash
  stateRoot : Hash
  committeeSignature : Bytes

structure CrossShardReceipt where
  txId : Hash
  success : Bool
  sourceShard : ShardId
  destShard : ShardId
  finalPhase : CrossShardPhase
  durationMs : UInt64
  cuUsed : UInt64
  error : Option String
deriving DecidableEq, Repr

inductive CrossShardError where
  | sameShardTransfer
  | tooManyPending (shardId : ShardId)
  | shardNotRegistered (shardId : ShardId)
  | shardNotReachable (shardId : ShardId)
  | transactionNotFound (txId : Hash)
  | proofVerificationFailed (reason : String)
  | invalidMessageFormat
  | unauthorized
  | invalidAmount (reason : String)
  | tooManyPendingFromSender (sender : Address)
  | internalError (reason : String)
deriving DecidableEq, Repr

inductive TransferEvent where
  | credited (txId : Hash)
  | finalized (receipt : CrossShardReceipt)
deriving DecidableEq, Repr

structure TransferRecords where
  pending : Table CrossShardTransaction.id
  receipts : Table CrossShardReceipt.txId
  events : List TransferEvent

structure MlDsa65Keypair where
  secretKey : Bytes
  publicKey : Bytes
deriving DecidableEq, Repr

abbrev ShardIndex := Table (Prod.fst : ShardId × List Hash → ShardId)

/-- `shardChannels` are the shards with a registered channel, `sent` what
was put into the channels. -/
structure CrossShardCoordinator extends TransferRecords where
  config : CrossShardConfig
  bySourceShard : ShardIndex
  byDestShard : ShardIndex
  shardChannels : Finset ShardId
  sent : List (ShardId × CrossShardMessage)
  authToken : Hash
  nonceCounter : UInt64
  pendingPerSender : Table (Prod.fst : Address × Nat → Address)
  committeeKeypair : Option MlDsa65Keypair

/-- SHA3-256, ML-DSA-65 and `bincode` as the coordinator calls them. -/
structure CrossShardPlatform where
  hashData : Bytes → Hash
  verifyMlDsa65 : (publicKey message signature : Bytes) → Bool
  signMlDsa65 : (secretKey message : Bytes) → Except String Bytes
  serialize : CrossShardTransaction → Except String Bytes

/-- The clock readings of a call (when it starts and when a receipt is
written), which receivers are alive, and the order in which the pending
transfers are walked. -/
structure CrossShardContext where
  now : UInt64
  nanos : UInt64
  finalNow : UInt64
  reachable : ShardId → Bool
  iteration : (t : Table CrossShardTransaction.id) → List CrossShardTransaction
  iteration_perm : ∀ t, (iteration t).Perm t.rows

namespace CrossShardCoordinator

/-- `token` is the random authorisation token. -/
def new (config : CrossShardConfig) (token : Hash) : CrossShardCoordinator where
  pending := .empty
  receipts := .empty
  events := []
  config := config
  bySourceShard := .empty
  byDestShard := .empty
  shardChannels := ∅
  sent := []
  authToken := token
  nonceCounter := 1
  pendingPerSender := .empty
  committeeKeypair := none

variable (env : CrossShardPlatform) (io : CrossShardContext) (cc : CrossShardCoordinator)
  (txId : Hash) (tx : CrossShardTransaction)

def zkEnabled : Bool := cc.config.enableZkProofs

def setCommitteeKeypair (keypair : MlDsa65Keypair) : CrossShardCoordinator :=
  { cc with committeeKeypair := some keypair }

variable (stateRoot : Hash) (shardId : ShardId) (sender : Address) (message : CrossShardMessage)

def registerShard (authToken : Hash) : Except CrossShardError Unit × CrossShardCoordinator :=
  if cc.authToken ≠ authToken then (.error .unauthorized, cc)
  else (.ok (), { cc with shardChannels := insert shardId cc.shardChannels })

/-! ## Messages -/

/-- Neither the kind of message nor the id is signed. -/
def messageSigningData : Bytes :=
  arrayBytes (env.hashData (leBytes 2 message.sourceShard.toNat
    ++ leBytes 2 message.destShard.toNat ++ arrayBytes message.stateRoot ++ message.payload))

/-- No keypair, or a signer that fails, leaves the signature empty. -/
def signCommittee : Bytes :=
  match cc.committeeKeypair with
  | none => []
  | some kp =>
    match env.signMlDsa65 kp.secretKey (messageSigningData env message) with
    | .ok signature => signature
    | .error _ => []

def verifyCommitteeSignature : Except CrossShardError Unit :=
  if message.committeeSignature = [] then .ok ()
  else
    match cc.committeeKeypair with
    | none => .ok ()
    | some kp =>
      if env.verifyMlDsa65 kp.publicKey (messageSigningData env message)
          message.committeeSignature then .ok ()
      else .error .invalidMessageFormat

def signMessage : CrossShardMessage :=
  { message with committeeSignature := cc.signCommittee env message }

def buildSignedControlMessage (msgType : CrossShardMessageType) (sourceShard destShard : ShardId)
    (stateRoot : Hash) :
    CrossShardMessage :=
  cc.signMessage env
    { msgType, sourceShard, destShard, payload := [], merkleProof := [], stateRoot,
      committeeSignature := [] }

def sendToShard : Except CrossShardError Unit × CrossShardCoordinator :=
  if shardId ∈ cc.shardChannels then
    if io.reachable shardId then (.ok (), { cc with sent := cc.sent ++ [(shardId, message)] })
    else (.error (.shardNotReachable shardId), cc)
  else (.error (.shardNotRegistered shardId), cc)

/-! ## Opening a transfer -/

structure TransferRequest where
  sourceShard : ShardId
  destShard : ShardId
  sender : Address
  recipient : Address
  amount : Amount
  sourceStateRoot : Hash

/-- Equal requests in one nanosecond share an id. -/
def generateTxId (recipient : Address) (amount : Amount) : Hash :=
  env.hashData (arrayBytes sender ++ arrayBytes recipient ++ leBytes 16 amount.toNat
    ++ leBytes 8 io.nanos.toNat)

/-- The commitment both sides compute, over the transfer without its proof. -/
def proofHash (tx : CrossShardTransaction) : Except CrossShardError Hash :=
  match env.serialize { tx with proof := none } with
  | .error e => .error (.internalError ("Serialization failed: " ++ e))
  | .ok serialized =>
    .ok (env.hashData (arrayBytes stateRoot ++ serialized ++ arrayBytes tx.sender
      ++ arrayBytes tx.recipient ++ leBytes 16 tx.amount.toNat))

def proofSignature (proofHash : Bytes) (stateRoot : Hash) : Hash :=
  env.hashData (proofHash ++ arrayBytes stateRoot)

def attachProof : Except CrossShardError CrossShardTransaction :=
  if cc.zkEnabled then
    match proofHash env tx.sourceStateRoot tx with
    | .error e => .error e
    | .ok h =>
      .ok { tx with
            proof := some (arrayBytes h
              ++ arrayBytes (proofSignature env (arrayBytes h) tx.sourceStateRoot)
              ++ arrayBytes tx.sourceStateRoot) }
  else .ok tx

def senderPending : Nat :=
  (cc.pendingPerSender.get sender).elim 0 Prod.snd

variable (index : ShardIndex) (req : TransferRequest) (shardId : ShardId) (txId : Hash)

def idsOf : List Hash :=
  (index.get shardId).elim [] Prod.snd

def pushId : ShardIndex :=
  index.put (shardId, idsOf index shardId ++ [txId])

def countSender : CrossShardCoordinator :=
  { cc with pendingPerSender := cc.pendingPerSender.put (sender, cc.senderPending sender + 1) }

def takeNonce : CrossShardCoordinator :=
  { cc with nonceCounter := cc.nonceCounter + 1 }

/-- The transfer as it is opened, before a proof is attached. -/
def newTransaction : CrossShardTransaction where
  id := generateTxId env io req.sender req.recipient req.amount
  sourceShard := req.sourceShard
  destShard := req.destShard
  sender := req.sender
  recipient := req.recipient
  amount := req.amount
  data := []
  nonce := cc.nonceCounter
  timestamp := io.now
  phase := .locked
  sourceStateRoot := req.sourceStateRoot
  proof := none
  retries := 0

def lock : CrossShardCoordinator :=
  { cc with
    pending := cc.pending.put tx
    bySourceShard := pushId cc.bySourceShard tx.sourceShard tx.id
    byDestShard := pushId cc.byDestShard tx.destShard tx.id }

/-- The transfer message. When it cannot be sent the transfer stays open. -/
def announce : Except CrossShardError Hash × CrossShardCoordinator :=
  match env.serialize tx with
  | .error e => (.error (.internalError ("Failed to serialize tx: " ++ e)), cc)
  | .ok payload =>
    let message := cc.signMessage env
      { msgType := .transfer tx, sourceShard := tx.sourceShard, destShard := tx.destShard,
        payload, merkleProof := [], stateRoot := tx.sourceStateRoot, committeeSignature := [] }
    match cc.sendToShard io tx.destShard message with
    | (.error e, cc) => (.error e, cc)
    | (.ok (), cc) => (.ok tx.id, cc)

/-- Once the sender is counted, the shard's own limit is looked at; the
count stays when that limit refuses the transfer. -/
def openTransfer : Except CrossShardError Hash × CrossShardCoordinator :=
  if cc.config.maxPendingPerShard ≤ (idsOf cc.bySourceShard req.sourceShard).length then
    (.error (.tooManyPending req.sourceShard), cc)
  else
    match cc.attachProof env (cc.newTransaction env io req) with
    | .error e => (.error e, cc.takeNonce)
    | .ok tx => announce env io (cc.takeNonce.lock tx) tx

/-- The sender is counted before the last checks. -/
def initiateTransfer : Except CrossShardError Hash × CrossShardCoordinator :=
  if req.sourceShard = req.destShard then (.error .sameShardTransfer, cc)
  else if req.amount.toNat < MIN_TRANSFER_AMOUNT then
    (.error (.invalidAmount "Amount too small"), cc)
  else if MAX_TRANSFER_AMOUNT < req.amount.toNat then
    (.error (.invalidAmount "Amount too large"), cc)
  else if MAX_PENDING_PER_SENDER ≤ cc.senderPending req.sender then
    (.error (.tooManyPendingFromSender req.sender), cc)
  else (cc.countSender req.sender).openTransfer env io req

/-! ## The destination -/

/-- Why an incoming transfer is refused: the reason sent back to the
source, where one is sent, and the error returned. -/
structure Refusal where
  reply : Option String
  error : CrossShardError

variable (phase : CrossShardPhase) (success : Bool) (error : Option String)

def checkProofBytes (expected : Hash) (proof : Bytes) : Except Refusal Unit :=
  if proof.take 32 ≠ arrayBytes expected then
    .error ⟨some "Proof verification failed", .proofVerificationFailed "Proof hash mismatch"⟩
  else if (proof.drop 32).take 32 ≠ arrayBytes (proofSignature env (proof.take 32) stateRoot) then
    .error ⟨some "Proof signature mismatch", .proofVerificationFailed "Proof signature mismatch"⟩
  else if (proof.drop 64).take 32 ≠ arrayBytes stateRoot then
    .error ⟨none, .proofVerificationFailed "State root mismatch in proof"⟩
  else .ok ()

def checkProof : Except Refusal Unit :=
  match tx.proof with
  | none =>
    if cc.zkEnabled then .error ⟨none, .proofVerificationFailed "Missing required proof"⟩
    else .ok ()
  | some proof =>
    if proof.length < 96 then
      .error ⟨some "Invalid proof: too short",
        .proofVerificationFailed "Proof too short (expected 96 bytes)"⟩
    else
      match proofHash env stateRoot tx with
      | .error e => .error ⟨none, e⟩
      | .ok expected => checkProofBytes env stateRoot expected proof

def setPhase : CrossShardCoordinator :=
  match cc.pending.get txId with
  | none => cc
  | some tx => { cc with pending := cc.pending.put { tx with phase := phase } }

def credit : CrossShardCoordinator :=
  match cc.pending.get txId with
  | none => cc
  | some _ => { cc.setPhase txId .credited with events := cc.events ++ [.credited txId] }

/-- A rejection that cannot be sent is the error returned. -/
def refuse (refusal : Refusal) : Except CrossShardError Unit × CrossShardCoordinator :=
  match refusal.reply with
  | none => (.error refusal.error, cc)
  | some reason =>
    match cc.sendToShard io tx.sourceShard (cc.buildSignedControlMessage env
        (.reject tx.id reason) tx.destShard tx.sourceShard 0) with
    | (.error e, cc) => (.error e, cc)
    | (.ok (), cc) => (.error refusal.error, cc)

/-- A transfer that passes its proof is credited, whatever its phase, and
confirmed to the source even when it is not pending. -/
def handleIncomingTransfer : Except CrossShardError Unit × CrossShardCoordinator :=
  match cc.checkProof env tx stateRoot with
  | .error refusal => cc.refuse env io tx refusal
  | .ok () =>
    let cc := cc.credit tx.id
    cc.sendToShard io tx.sourceShard (cc.buildSignedControlMessage env
      (.confirm tx.id) tx.destShard tx.sourceShard stateRoot)

/-! ## The source -/

def uncountSender : CrossShardCoordinator :=
  match cc.pendingPerSender.get sender with
  | none => cc
  | some (_, count) =>
    { cc with
      pendingPerSender :=
        if count - 1 = 0 then cc.pendingPerSender.erase sender
        else cc.pendingPerSender.put (sender, count - 1) }

def dropId : ShardIndex :=
  match index.get shardId with
  | none => index
  | some (_, ids) =>
    if ids.filter (· ≠ txId) = [] then index.erase shardId
    else index.put (shardId, ids.filter (· ≠ txId))

/-- Seconds are taken apart and multiplied in `u64`, wrapping. -/
def receiptOf : CrossShardReceipt where
  txId := txId
  success := success
  sourceShard := tx.sourceShard
  destShard := tx.destShard
  finalPhase := if success then .finalized else .rolledBack
  durationMs := (io.finalNow - tx.timestamp) * 1000
  cuUsed := 21000
  error := error

def finalizeTransaction : Except CrossShardError Unit × CrossShardCoordinator :=
  match cc.pending.get txId with
  | none => (.error (.transactionNotFound txId), cc)
  | some tx =>
    let receipt := receiptOf io tx txId success error
    let cc := cc.uncountSender tx.sender
    (.ok (), { cc with
      pending := cc.pending.erase txId
      receipts := cc.receipts.put receipt
      events := cc.events ++ [.finalized receipt]
      bySourceShard := dropId cc.bySourceShard tx.sourceShard txId
      byDestShard := dropId cc.byDestShard tx.destShard txId })

/-- The move all three ways of finalising share: no phase is looked at. -/
def closeAs : Except CrossShardError Unit × CrossShardCoordinator :=
  (cc.setPhase txId phase).finalizeTransaction io txId success error

/-- For an unknown transfer the source returns before the phase is set;
the error is the one `finalizeTransaction` returns. -/
def handleConfirmation : Except CrossShardError Unit × CrossShardCoordinator :=
  cc.closeAs io txId .confirmed true none

def handleRejection (reason : String) : Except CrossShardError Unit × CrossShardCoordinator :=
  cc.closeAs io txId .rolledBack false (some reason)

def timeoutThreshold : UInt64 :=
  io.now - cc.config.timeoutMs / 1000

def timedOut : List Hash :=
  ((io.iteration cc.pending).filter fun tx =>
    tx.timestamp < cc.timeoutThreshold io ∧ tx.phase ≠ .finalized).map CrossShardTransaction.id

def expireAll (io : CrossShardContext) (cc : CrossShardCoordinator) :
    List Hash → Except CrossShardError Unit × CrossShardCoordinator
  | [] => (.ok (), cc)
  | txId :: rest =>
    match cc.closeAs io txId .timedOut false (some "Timeout") with
    | (.error e, cc) => (.error e, cc)
    | (.ok (), cc) => expireAll io cc rest

def processTimeouts : Except CrossShardError (List Hash) × CrossShardCoordinator :=
  match cc.expireAll io (cc.timedOut io) with
  | (.error e, cc') => (.error e, cc')
  | (.ok (), cc') => (.ok (cc.timedOut io), cc')

/-! ## Dispatch -/

def processMessage : Except CrossShardError Unit × CrossShardCoordinator :=
  match cc.verifyCommitteeSignature env message with
  | .error e => (.error e, cc)
  | .ok () =>
    match message.msgType with
    | .transfer tx => cc.handleIncomingTransfer env io tx message.stateRoot
    | .confirm txId => cc.handleConfirmation io txId
    | .reject txId reason => cc.handleRejection io txId reason
    | .stateSync _ _ => (.ok (), cc)
    | .stateSyncResponse _ => (.ok (), cc)
    | .heartbeat => (.ok (), cc)

end CrossShardCoordinator

end Quantos

import Quantos.Bincode
import Quantos.CrossShardSafety

/-!
# What a committee signature vouches for

The signed bytes of a cross-shard message are a hash over the two shards, the
state root and the payload. The handlers work on the message type, which is
not among them. For a transfer the payload is the encoding of the same
transfer, so there the signature binds it after all; a control message has no
payload, and a confirmation of one transfer is signed like the rejection of
another (`messages_not_authenticated`). And a message without a signature
passes the check, also on a node that has its keypair (`unsignedConfirm`).

So a node with a keypair acts on a message exactly when its signature is
empty or verifies (`actsOn_iff`), and two messages under one signature are
bound to one content exactly when the signature, if empty, verifies, and the
four signed fields, where they agree, leave only one content
(`messages_authenticated_iff`). Transfers that carry their own encoding meet
the second part (`sameContent_of_signedAlike`).
-/

namespace Quantos

open Codecs Bincode

/-! ## The encoding of a transfer -/

def CrossShardPhase.index : CrossShardPhase → Nat
  | .locked => 0
  | .pending => 1
  | .credited => 2
  | .confirmed => 3
  | .finalized => 4
  | .rolledBack => 5
  | .timedOut => 6

def CrossShardPhase.ofIndex : Nat → CrossShardPhase
  | 0 => .locked
  | 1 => .pending
  | 2 => .credited
  | 3 => .confirmed
  | 4 => .finalized
  | 5 => .rolledBack
  | _ => .timedOut

theorem CrossShardPhase.index_ofIndex {n : Nat} (h : n < 7) : (ofIndex n).index = n := by
  match n, h with
  | 0, _ | 1, _ | 2, _ | 3, _ | 4, _ | 5, _ | 6, _ => rfl

/-- A variant is the number of its position, in four bytes. -/
def phaseCodec : Codec CrossShardPhase :=
  ((unsigned 4).restrict fun n => n < 7).via CrossShardPhase.index CrossShardPhase.ofIndex
    (fun phase => by cases phase <;> rfl)
    fun _ h => CrossShardPhase.index_ofIndex (of_decide_eq_true h.2)

/-- `bincode::serialize` of a transfer: its fields in their order. -/
def transactionCodec : Codec CrossShardTransaction :=
  (array.pair <| u16.pair <| u16.pair <| array.pair <|
    array.pair <| amount.pair <| (vec u8).pair <|
    u64.pair <| u64.pair <| phaseCodec.pair <| array.pair <|
    (option (vec u8)).pair u32).via
    (fun tx => (tx.id, tx.sourceShard, tx.destShard, tx.sender, tx.recipient, tx.amount, tx.data,
      tx.nonce, tx.timestamp, tx.phase, tx.sourceStateRoot, tx.proof, tx.retries))
    (fun (id, sourceShard, destShard, sender, recipient, amount, data, nonce, timestamp, phase,
        sourceStateRoot, proof, retries) =>
      ⟨id, sourceShard, destShard, sender, recipient, amount, data, nonce, timestamp, phase,
        sourceStateRoot, proof, retries⟩)
    (fun _ => rfl) fun _ _ => rfl

/-- The vectors of a transfer are shorter than their 64-bit counts can say, as
those in memory are. -/
def CrossShardTransaction.InMemory (tx : CrossShardTransaction) : Prop :=
  tx.data.length < 256 ^ 8 ∧ ∀ proof ∈ tx.proof, proof.length < 256 ^ 8

theorem vec_u8_fits {bytes : Bytes} (h : bytes.length < 256 ^ 8) :
    (vec u8).fits bytes :=
  ⟨h, fun b _ => b.toNat_lt⟩

theorem transaction_fits {tx : CrossShardTransaction} (h : tx.InMemory) :
    transactionCodec.fits tx := by
  have hproof : (option (vec u8)).fits tx.proof := by
    cases hp : tx.proof with
    | none => exact ⟨(by decide : 0 < 256 ^ 1), rfl⟩
    | some proof =>
      exact ⟨⟨(by decide : 1 < 256 ^ 1), rfl⟩, vec_u8_fits (h.2 proof hp)⟩
  have hphase : phaseCodec.fits tx.phase := by
    cases tx.phase <;> exact ⟨(by decide : _ < 256 ^ 4), rfl⟩
  exact ⟨array_fits _, tx.sourceShard.toNat_lt, tx.destShard.toNat_lt,
    array_fits _, array_fits _, tx.amount.toNat_lt, vec_u8_fits h.1,
    tx.nonce.toNat_lt, tx.timestamp.toNat_lt, hphase, array_fits _, hproof,
    tx.retries.toNat_lt⟩

namespace CrossShardMessage

/-- What the signed hash is taken of. -/
def preimage (message : CrossShardMessage) : Bytes :=
  leBytes 2 message.sourceShard.toNat ++ leBytes 2 message.destShard.toNat
    ++ arrayBytes message.stateRoot ++ message.payload

/-- Two messages that agree in everything that is signed. -/
def SignedAlike (m m' : CrossShardMessage) : Prop :=
  m.sourceShard = m'.sourceShard ∧ m.destShard = m'.destShard ∧ m.stateRoot = m'.stateRoot ∧
    m.payload = m'.payload

/-- The part of fixed width in front of the payload. -/
def headerCodec : Codec ((ShardId × ShardId) × Hash) :=
  (u16.pair u16).pair array

theorem header_fits (m : CrossShardMessage) :
    headerCodec.fits ((m.sourceShard, m.destShard), m.stateRoot) :=
  ⟨⟨m.sourceShard.toNat_lt, m.destShard.toNat_lt⟩, array_fits _⟩

variable {m' m : CrossShardMessage}

theorem signedAlike_of_preimage (h : m.preimage = m'.preimage) : SignedAlike m m' := by
  obtain ⟨hheader, hpayload⟩ := headerCodec.append_inj (header_fits m) (header_fits m') h
  obtain ⟨hshards, hroot⟩ := Prod.mk.inj hheader
  obtain ⟨hsource, hdest⟩ := Prod.mk.inj hshards
  exact ⟨hsource, hdest, hroot, hpayload⟩

/-- A transfer whose payload is the encoding of the transfer, as
`initiate_transfer` sends it. -/
def CarriesEncoding (m : CrossShardMessage) : Prop :=
  ∃ tx : CrossShardTransaction, m.msgType = .transfer tx ∧ tx.InMemory ∧
    m.payload = transactionCodec.write tx

theorem preimage_of_signedAlike (h : SignedAlike m m') : m.preimage = m'.preimage := by
  obtain ⟨hsource, hdest, hroot, hpayload⟩ := h
  unfold preimage
  rw [hsource, hdest, hroot, hpayload]

/-- The same message type, transaction id and transfer. A rejection's reason
is not part of it. -/
def SameContent : CrossShardMessageType → CrossShardMessageType → Prop
  | .reject txId _, .reject txId' _ => txId = txId'
  | kind, kind' => kind = kind'

theorem sameContent_of_signedAlike (h : SignedAlike m m') (hm : m.CarriesEncoding)
    (hm' : m'.CarriesEncoding) : SameContent m.msgType m'.msgType := by
  obtain ⟨tx, htype, hfits, hpayload⟩ := hm
  obtain ⟨tx', htype', hfits', hpayload'⟩ := hm'
  have hbytes : transactionCodec.write tx ++ [] = transactionCodec.write tx' ++ [] := by
    rw [← hpayload, ← hpayload', h.2.2.2]
  obtain ⟨rfl, -⟩ := transactionCodec.append_inj (transaction_fits hfits)
    (transaction_fits hfits') hbytes
  rw [htype, htype']
  rfl

/-- Two inputs of the hash with the same digest. -/
def Collides (env : CrossShardPlatform) (m m' : CrossShardMessage) : Prop :=
  m.preimage ≠ m'.preimage ∧ env.hashData m.preimage = env.hashData m'.preimage

def Verified (env : CrossShardPlatform) (kp : MlDsa65Keypair) (m : CrossShardMessage) : Prop :=
  env.verifyMlDsa65 kp.publicKey (CrossShardCoordinator.messageSigningData env m)
    m.committeeSignature = true

end CrossShardMessage

namespace CrossShardCoordinator

open CrossShardMessage

/-- The message is not turned away with nothing done. -/
def ActsOn (env : CrossShardPlatform) (io : CrossShardContext) (cc : CrossShardCoordinator)
    (message : CrossShardMessage) : Prop :=
  cc.processMessage env io message ≠ (.error .invalidMessageFormat, cc)

variable {cc : CrossShardCoordinator} {env : CrossShardPlatform} {io : CrossShardContext}
  {m : CrossShardMessage}

/-! ## The handlers report other errors -/

theorem sendToShard_error {shardId : ShardId} :
    (cc.sendToShard io shardId m).1 ≠ .error .invalidMessageFormat := by
  unfold sendToShard
  split
  · split <;> simp
  · simp

theorem checkProofBytes_error {stateRoot expected : Hash} {proof : Bytes} {refusal : Refusal}
    (h : checkProofBytes env stateRoot expected proof = .error refusal) :
    refusal.error ≠ .invalidMessageFormat := by
  unfold checkProofBytes at h
  split at h
  · cases h
    simp
  split at h
  · cases h
    simp
  split at h
  · cases h
    simp
  · cases h

theorem checkProof_error {tx : CrossShardTransaction} {stateRoot : Hash} {refusal : Refusal}
    (h : cc.checkProof env tx stateRoot = .error refusal) :
    refusal.error ≠ .invalidMessageFormat := by
  unfold checkProof at h
  split at h
  · split at h
    · cases h
      simp
    · cases h
  split at h
  · cases h
    simp
  unfold proofHash at h
  cases hbytes : env.serialize { tx with proof := none } with
  | error e =>
    rw [hbytes] at h
    cases h
    simp
  | ok bytes =>
    rw [hbytes] at h
    exact checkProofBytes_error h

theorem handleIncomingTransfer_error {tx : CrossShardTransaction} {stateRoot : Hash} :
    (cc.handleIncomingTransfer env io tx stateRoot).1 ≠ .error .invalidMessageFormat := by
  unfold handleIncomingTransfer
  split
  · rename_i refusal hrefused
    unfold refuse
    split
    · exact fun h => checkProof_error hrefused (Except.error.inj h)
    split <;> rename_i heq
    · have hsent := congrArg Prod.fst heq
      exact fun h => sendToShard_error (hsent.trans h)
    · exact fun h => checkProof_error hrefused (Except.error.inj h)
  · exact sendToShard_error

theorem finalizeTransaction_error {txId : Hash} {success : Bool} {error : Option String} :
    (cc.finalizeTransaction io txId success error).1 ≠ .error .invalidMessageFormat := by
  unfold finalizeTransaction
  split <;> simp

/-! ## What the node acts on -/

/-- A node with a keypair acts on a message exactly when its signature is
empty or verifies. -/
theorem actsOn_iff {kp : MlDsa65Keypair} (hkp : cc.committeeKeypair = some kp) :
    cc.ActsOn env io m ↔ m.committeeSignature = [] ∨ m.Verified env kp := by
  unfold ActsOn processMessage
  by_cases hpasses : m.committeeSignature = [] ∨ m.Verified env kp
  · have hcheck : cc.verifyCommitteeSignature env m = .ok () := by
      unfold verifyCommitteeSignature
      rw [hkp]
      split
      · rfl
      · exact if_pos (hpasses.resolve_left ‹_›)
    rw [hcheck]
    refine iff_of_true (fun hrefused => ?_) hpasses
    have herror := congrArg Prod.fst hrefused
    dsimp only at herror
    split at herror
    · exact handleIncomingTransfer_error herror
    · exact finalizeTransaction_error herror
    · exact finalizeTransaction_error herror
    · cases herror
    · cases herror
    · cases herror
  · obtain ⟨hsigned, hnot⟩ := not_or.mp hpasses
    have hcheck : cc.verifyCommitteeSignature env m = .error .invalidMessageFormat := by
      unfold verifyCommitteeSignature
      rw [if_neg hsigned, hkp]
      exact if_neg hnot
    rw [hcheck]
    exact iff_of_false (fun h => h rfl) hpasses

/-- What is claimed of two messages that reach nodes of one committee: a node
acts on its message only if the signature verifies, and if both act, the
messages have one content or their signed bytes collide. -/
structure Authenticated (env : CrossShardPlatform) (kp : MlDsa65Keypair)
    (cc cc' : CrossShardCoordinator) (io io' : CrossShardContext) (m m' : CrossShardMessage) :
    Prop where
  first : cc.ActsOn env io m → m.Verified env kp
  second : cc'.ActsOn env io' m' → m'.Verified env kp
  bound : cc.ActsOn env io m → cc'.ActsOn env io' m' →
    Collides env m m' ∨ SameContent m.msgType m'.msgType

/-- Two messages under one signature are authenticated by it exactly if the
signature, should it be empty, verifies, and messages that verify and agree
in the shards, the state root and the payload have one content. -/
theorem messages_authenticated_iff (env : CrossShardPlatform) (kp : MlDsa65Keypair)
    (hunique : ∀ signature bytes bytes', env.verifyMlDsa65 kp.publicKey bytes signature = true →
      env.verifyMlDsa65 kp.publicKey bytes' signature = true → bytes = bytes')
    (cc cc' : CrossShardCoordinator) (io io' : CrossShardContext)
    (hkp : cc.committeeKeypair = some kp) (hkp' : cc'.committeeKeypair = some kp)
    (m m' : CrossShardMessage) (hsame : m'.committeeSignature = m.committeeSignature) :
    Authenticated env kp cc cc' io io' m m' ↔
      (m.committeeSignature = [] → m.Verified env kp ∧ m'.Verified env kp) ∧
        (m.Verified env kp → m'.Verified env kp → SignedAlike m m' →
          SameContent m.msgType m'.msgType) := by
  have hacts : cc.ActsOn env io m ↔ _ := actsOn_iff hkp
  have hacts' : cc'.ActsOn env io' m' ↔ _ := actsOn_iff hkp'
  rw [hsame] at hacts'
  constructor
  · intro h
    refine ⟨fun hempty => ?_, fun hverified hverified' halike => ?_⟩
    · exact ⟨h.first (hacts.mpr (.inl hempty)), h.second (hacts'.mpr (.inl hempty))⟩
    · rcases h.bound (hacts.mpr (.inr hverified)) (hacts'.mpr (.inr hverified')) with hcollides | h
      · exact absurd (preimage_of_signedAlike halike) hcollides.1
      · exact h
  · rintro ⟨hempty, hcontent⟩
    have hfirst : cc.ActsOn env io m → m.Verified env kp := fun h =>
      (hacts.mp h).elim (fun h => (hempty h).1) id
    have hsecond : cc'.ActsOn env io' m' → m'.Verified env kp := fun h =>
      (hacts'.mp h).elim (fun h => (hempty h).2) id
    refine ⟨hfirst, hsecond, fun h h' => ?_⟩
    have hverified := hfirst h
    have hverified' := hsecond h'
    have hbytes : messageSigningData env m = messageSigningData env m' := by
      refine hunique m.committeeSignature _ _ hverified ?_
      rw [← hsame]
      exact hverified'
    by_cases hpre : m.preimage = m'.preimage
    · exact .inr (hcontent hverified hverified' (signedAlike_of_preimage hpre))
    · exact .inl ⟨hpre, arrayBytes_injective hbytes⟩

/-- A signature is the signed bytes themselves: it verifies for no others. -/
def echoPlatform : CrossShardPlatform :=
  { samplePlatform with
    verifyMlDsa65 := fun _ message signature => signature = message
    serialize := fun tx => .ok (transactionCodec.write tx) }

def sampleKeypair : MlDsa65Keypair := ⟨[1], [2]⟩

/-- One transfer is pending, and the keypair is set. -/
def keyedCoordinator : CrossShardCoordinator :=
  (Runs.run (step echoPlatform) (new .default 0) openingOps).setCommitteeKeypair sampleKeypair

def pendingTx : CrossShardTransaction :=
  keyedCoordinator.pending.rows.headD (keyedCoordinator.newTransaction echoPlatform
    (sampleContext 0 0) sampleRequest)

def signedMessage (msgType : CrossShardMessageType) (payload : Bytes) : CrossShardMessage :=
  let unsigned : CrossShardMessage := ⟨msgType, 1, 0, payload, [], 0, []⟩
  { unsigned with committeeSignature := messageSigningData echoPlatform unsigned }

def unsignedConfirm : CrossShardMessage := ⟨.confirm pendingTx.id, 1, 0, [], [], 0, []⟩

def signedTransfer : CrossShardMessage :=
  signedMessage (.transfer pendingTx) (transactionCodec.write pendingTx)

/-- The same transfer on another way. -/
def relayedTransfer : CrossShardMessage := { signedTransfer with merkleProof := [1] }

/-- A transfer and its relayed copy, each with its own encoding. -/
theorem messages_authenticated_signedTransfer :
    Authenticated echoPlatform sampleKeypair keyedCoordinator keyedCoordinator
      (sampleContext 101 2) (sampleContext 102 3) signedTransfer relayedTransfer := by
  have hmemory : pendingTx.InMemory := ⟨by decide, by decide⟩
  have hunique : ∀ signature bytes bytes',
      echoPlatform.verifyMlDsa65 sampleKeypair.publicKey bytes signature = true →
      echoPlatform.verifyMlDsa65 sampleKeypair.publicKey bytes' signature = true →
        bytes = bytes' := fun _ _ _ hbytes hbytes' =>
    (of_decide_eq_true hbytes).symm.trans (of_decide_eq_true hbytes')
  refine (messages_authenticated_iff echoPlatform sampleKeypair hunique keyedCoordinator
    keyedCoordinator (sampleContext 101 2) (sampleContext 102 3) rfl rfl signedTransfer
    relayedTransfer rfl).mpr ⟨fun hempty => ?_, fun _ _ halike => ?_⟩
  · exact absurd hempty (by decide)
  · exact sameContent_of_signedAlike halike ⟨pendingTx, rfl, hmemory, rfl⟩
      ⟨pendingTx, rfl, hmemory, rfl⟩

/-- A node with a keypair settles a transfer on a confirmation without a
signature. And the confirmation and the rejection of different transfers share
one signature that verifies for both. -/
theorem messages_not_authenticated :
    (keyedCoordinator.committeeKeypair = some sampleKeypair ∧
      echoPlatform.verifyMlDsa65 sampleKeypair.publicKey
        (messageSigningData echoPlatform unsignedConfirm) unsignedConfirm.committeeSignature
          = false ∧ (keyedCoordinator.processMessage echoPlatform (sampleContext 101 2)
        unsignedConfirm).1.isOk = true ∧
      ((keyedCoordinator.processMessage echoPlatform (sampleContext 101 2)
        unsignedConfirm).2.receipts.get pendingTx.id).isSome = true) ∧
    ((signedMessage (.confirm pendingTx.id) []).committeeSignature
        = (signedMessage (.reject 5 "no") []).committeeSignature ∧
      (signedMessage (.confirm pendingTx.id) []).committeeSignature ≠ [] ∧
      keyedCoordinator.verifyCommitteeSignature echoPlatform
        (signedMessage (.confirm pendingTx.id) []) = .ok () ∧
      keyedCoordinator.verifyCommitteeSignature echoPlatform
        (signedMessage (.reject 5 "no") []) = .ok () ∧
      (signedMessage (.confirm pendingTx.id) []).preimage
        = (signedMessage (.reject 5 "no") []).preimage) := by
  decide +kernel

end CrossShardCoordinator

end Quantos

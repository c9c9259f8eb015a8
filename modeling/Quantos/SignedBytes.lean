import Quantos.AtomicLocks
import Quantos.Codecs
import Quantos.Dag
import Quantos.L0Proof

/-!
# What signed and hashed bytes determine

Seven kinds of messages are signed under a domain of their own
(`crypto/domains.rs`). The tag of a domain is written with its length, so
the bytes tell the kind, and every kind has at most one part of unknown
length (`signing_unambiguous`).

The hash of a vertex covers two lists, parents and transactions, one after
the other and without their lengths. All items have the same width, so the
bytes tell the items, and not where the first list ends
(`vertex_hash_binding_iff`).
-/

namespace Quantos

open List

/-! ## Domains -/

def DOMAIN_PIPELINE_VOTE : Bytes := asciiBytes "QUANTOS_PIPELINE_VOTE_V1"

theorem withDomain_inj {d d' m m' : Bytes} (hd : d.length < 2 ^ 16) (hd' : d'.length < 2 ^ 16)
    (h : withDomain d m = withDomain d' m') : d = d' ∧ m = m' := by
  simp only [withDomain, append_assoc] at h
  obtain ⟨hlength, h⟩ := leBytes_append_inj hd hd' h
  exact append_inj h hlength

theorem withDomain_cancel {d m m' : Bytes} (h : withDomain d m = withDomain d m') : m = m' :=
  append_cancel_left h

/-- The fields of a pipelined block that a vote for it signs. -/
structure VotedBlock where
  hash : Hash
  parentHash : Hash
  view : UInt64
  height : UInt64
  stateRoot : Hash

def VotedBlock.signingData (block : VotedBlock) : Bytes :=
  withDomain DOMAIN_PIPELINE_VOTE
    (arrayBytes block.hash ++ arrayBytes block.parentHash ++ leBytes 8 block.view.toNat
      ++ leBytes 8 block.height.toNat ++ arrayBytes block.stateRoot)

inductive DomainMessage where
  | transaction (tx : Transaction)
  | vertex (v : Vertex)
  | committeeVote (vote : CommitteeVote)
  | checkpoint (c : Checkpoint)
  | pipelineVote (block : VotedBlock)
  | lockVote (atomicId : Hash) (shardId : ShardId) (approved : Bool)
  | lockAck (atomicId : Hash) (shardId : ShardId)

/-- What a transaction signature covers, an absent boost read as zeros. -/
def Transaction.signedFields (tx : Transaction) : Transaction :=
  { tx with boost := some (tx.boost.getD ⟨0, 0⟩), signature := [], publicKey := [] }

namespace DomainMessage

variable (hashData : Bytes → Hash)

def signingData : DomainMessage → Bytes
  | transaction tx => tx.signingData
  | vertex v => v.signingData
  | committeeVote vote => vote.signingData
  | checkpoint c => c.signingData hashData
  | pipelineVote block => block.signingData
  | lockVote atomicId shardId approved => LockNode.voteSigningPayload atomicId shardId approved
  | lockAck atomicId shardId => LockNode.ackSigningPayload atomicId shardId

/-- Same kind, same signed fields. -/
def SameSigned : DomainMessage → DomainMessage → Prop
  | transaction tx, transaction tx' => tx.signedFields = tx'.signedFields
  | vertex v, vertex v' => v.hash = v'.hash ∧ v.stateRoot = v'.stateRoot
  | committeeVote vote, committeeVote vote' =>
    { vote with signature := [] } = { vote' with signature := [] }
  | checkpoint c, checkpoint c' => c.hash hashData = c'.hash hashData
  | pipelineVote block, pipelineVote block' => block = block'
  | lockVote atomicId shardId approved, lockVote atomicId' shardId' approved' =>
    atomicId = atomicId' ∧ shardId = shardId' ∧ approved = approved'
  | lockAck atomicId shardId, lockAck atomicId' shardId' =>
    atomicId = atomicId' ∧ shardId = shardId'
  | _, _ => False

/-- The tag it is signed under. -/
def domain : DomainMessage → Bytes
  | transaction _ => DOMAIN_TX
  | vertex _ => DOMAIN_VERTEX
  | committeeVote _ => DOMAIN_COMMITTEE_VOTE
  | checkpoint _ => DOMAIN_CHECKPOINT
  | pipelineVote _ => DOMAIN_PIPELINE_VOTE
  | lockVote .. => DOMAIN_CSAP_VOTE
  | lockAck .. => DOMAIN_CSAP_ACK

/-- No two tags have the same length. -/
def tagLength : DomainMessage → Nat
  | transaction _ => 13
  | vertex _ => 17
  | committeeVote _ => 25
  | checkpoint _ => 21
  | pipelineVote _ => 24
  | lockVote .. => 20
  | lockAck .. => 19

theorem length_domain (m : DomainMessage) : m.domain.length = m.tagLength := by
  cases m <;> rfl

theorem length_domain_lt (m : DomainMessage) : m.domain.length < 2 ^ 16 := by
  rw [length_domain]
  cases m <;> simp [tagLength]

theorem exists_signingData_eq (m : DomainMessage) :
    ∃ body, m.signingData hashData = withDomain m.domain body := by
  cases m <;> exact ⟨_, rfl⟩

end DomainMessage

theorem TransactionType.toU8_injective : Function.Injective TransactionType.toU8 := by
  intro a b h
  cases a <;> cases b <;> first | rfl | exact absurd h (by decide)

theorem VmKind.toU8_injective : Function.Injective VmKind.toU8 := by
  intro a b h
  cases a <;> cases b <;> first | rfl | exact absurd h (by decide)

theorem toUInt8_injective : Function.Injective Bool.toUInt8 := by
  decide

theorem Transaction.signingData_signedFields (tx : Transaction) :
    tx.signedFields.signingData = tx.signingData := by
  unfold signedFields signingData
  cases tx.boost <;> rfl

/-- The data is the only part of a transaction without a known length. -/
theorem Transaction.signedFields_eq {tx tx' : Transaction} (h : tx.signingData = tx'.signingData) :
    tx.signedFields = tx'.signedFields := by
  rw [← signingData_signedFields tx, ← signingData_signedFields tx'] at h
  replace h := withDomain_cancel h
  simp only [signedFields, append_assoc, cons_append, nil_append, List.cons.injEq] at h
  obtain ⟨htype, h⟩ := h
  obtain ⟨hfrom, h⟩ := arrayBytes_append_inj h
  obtain ⟨hto, h⟩ := arrayBytes_append_inj h
  obtain ⟨hamount, h⟩ := amount_append_inj h
  obtain ⟨hnonce, h⟩ := u64_append_inj h
  obtain ⟨hunits, h⟩ := u64_append_inj h
  obtain ⟨htokens, h⟩ := u64_append_inj h
  obtain ⟨hblocks, h⟩ := u64_append_inj h
  obtain ⟨hvm, h⟩ := List.cons.inj h
  obtain ⟨hdata, h⟩ := append_inj' h (by simp [length_leBytes])
  obtain ⟨hshard, h⟩ := u16_append_inj h
  obtain ⟨htimestamp, hchain⟩ := u64_append_inj h
  have hboost : tx.boost.getD ⟨0, 0⟩ = tx'.boost.getD ⟨0, 0⟩ := by
    rw [PriorityBoost.mk.injEq]
    exact ⟨htokens, hblocks⟩
  simp only [signedFields, Transaction.mk.injEq, Option.some.injEq]
  exact ⟨TransactionType.toU8_injective htype, hfrom, hto, hamount, hnonce, hunits, hboost,
    VmKind.toU8_injective hvm, hdata, hshard, htimestamp, trivial, trivial,
    u64_inj hchain⟩

namespace DomainMessage

variable (hashData : Bytes → Hash)

/-- Equal bytes are signed only for the same message. -/
theorem signing_unambiguous (m m' : DomainMessage)
    (h : m.signingData hashData = m'.signingData hashData) : SameSigned hashData m m' := by
  obtain ⟨_, hbytes⟩ := exists_signingData_eq hashData m
  obtain ⟨_, hbytes'⟩ := exists_signingData_eq hashData m'
  obtain ⟨hdomain, -⟩ := withDomain_inj m.length_domain_lt m'.length_domain_lt
    (hbytes.symm.trans (h.trans hbytes'))
  have hlength : m.tagLength = m'.tagLength := by
    rw [← length_domain, hdomain, length_domain]
  cases m <;> cases m' <;> cases hlength
  case transaction.transaction.refl tx tx' => exact Transaction.signedFields_eq h
  case vertex.vertex.refl v v' =>
    obtain ⟨hhash, hroot⟩ := arrayBytes_append_inj (withDomain_cancel h)
    exact ⟨hhash, arrayBytes_injective hroot⟩
  case committeeVote.committeeVote.refl vote vote' =>
    have hbody := withDomain_cancel h
    obtain ⟨hvalidator, hbody⟩ := arrayBytes_append_inj hbody
    obtain ⟨hvertex, hbody⟩ := arrayBytes_append_inj hbody
    obtain ⟨happrove, hbody⟩ := List.cons.inj hbody
    obtain ⟨hweight, htimestamp⟩ := u64_append_inj hbody
    rw [SameSigned, CommitteeVote.mk.injEq]
    exact ⟨hvalidator, hvertex, toUInt8_injective happrove, hweight, rfl,
      u64_inj htimestamp⟩
  case checkpoint.checkpoint.refl c c' => exact arrayBytes_injective (withDomain_cancel h)
  case pipelineVote.pipelineVote.refl block block' =>
    have hbody := withDomain_cancel h
    obtain ⟨hhash, hbody⟩ := arrayBytes_append_inj hbody
    obtain ⟨hparent, hbody⟩ := arrayBytes_append_inj hbody
    obtain ⟨hview, hbody⟩ := u64_append_inj hbody
    obtain ⟨hheight, hroot⟩ := u64_append_inj hbody
    rw [SameSigned, VotedBlock.mk.injEq]
    exact ⟨hhash, hparent, hview, hheight, arrayBytes_injective hroot⟩
  case lockVote.lockVote.refl =>
    have hbody := withDomain_cancel h
    obtain ⟨hid, hbody⟩ := arrayBytes_append_inj hbody
    obtain ⟨hshard, happroved⟩ := u16_append_inj hbody
    exact ⟨hid, hshard, toUInt8_injective (List.cons.inj happroved).1⟩
  case lockAck.lockAck.refl =>
    obtain ⟨hid, hshard⟩ := arrayBytes_append_inj (withDomain_cancel h)
    exact ⟨hid, UInt16.toNat_inj.mp
      (eq_of_leBytes_eq hshard (UInt16.toNat_lt _) (UInt16.toNat_lt _))⟩

/-- A transaction without a boost and with a boost of zero. -/
theorem signing_unambiguous_boost :
    SameSigned digitHash (transaction (sampleTx .transfer 1 2 3 0).transaction)
      (transaction { (sampleTx .transfer 1 2 3 0).transaction with boost := some ⟨0, 0⟩ }) :=
  signing_unambiguous digitHash _ _ rfl

end DomainMessage

/-! ## The hash of a vertex -/

namespace Vertex

/-- The bytes under the hash. -/
def hashedBytes (v : Vertex) : Bytes :=
  v.parents.flatMap arrayBytes ++ v.transactions.flatMap (fun tx => arrayBytes tx.hash)
    ++ leBytes 8 v.timestamp.toNat ++ leBytes 2 v.shardId.toNat ++ arrayBytes v.creator
    ++ leBytes 8 v.height.toNat

structure SameContents (v w : Vertex) : Prop where
  parents : v.parents = w.parents
  transactions : v.transactions.map SignedTransaction.hash
    = w.transactions.map SignedTransaction.hash
  timestamp : v.timestamp = w.timestamp
  shardId : v.shardId = w.shardId
  creator : v.creator = w.creator
  height : v.height = w.height

theorem sameContents_of_hashedBytes_eq {v w : Vertex} (h : v.hashedBytes = w.hashedBytes)
    (hlength : v.parents.length = w.parents.length) : SameContents v w := by
  have hmap : ∀ txs : List SignedTransaction,
      txs.flatMap (fun tx => arrayBytes tx.hash)
        = (txs.map SignedTransaction.hash).flatMap arrayBytes := fun txs => by
    rw [flatMap_map]
  simp only [hashedBytes, append_assoc, hmap] at h
  have hlists := Codecs.flatMap_injective_of_width (w := 32) (by decide) length_arrayBytes
    arrayBytes_injective
  obtain ⟨hparents, h⟩ := append_inj h
    (by rw [Codecs.length_flatMap_of_width length_arrayBytes,
      Codecs.length_flatMap_of_width length_arrayBytes, hlength])
  obtain ⟨htransactions, h⟩ := append_inj' h (by simp [length_leBytes])
  obtain ⟨htimestamp, h⟩ := u64_append_inj h
  obtain ⟨hshard, h⟩ := u16_append_inj h
  obtain ⟨hcreator, hheight⟩ := arrayBytes_append_inj h
  exact ⟨hlists hparents, hlists htransactions, htimestamp, hshard, hcreator,
    u64_inj hheight⟩

/-- Equal hashes mean equal contents, or a collision, if and only if equal
bytes mean equally many parents. -/
theorem vertex_hash_binding_iff (hashData : Bytes → Hash) (v w : Vertex) :
    (computeHash hashData v.parents v.transactions v.timestamp v.shardId v.creator v.height
        = computeHash hashData w.parents w.transactions w.timestamp w.shardId w.creator w.height →
      SameContents v w ∨
        (v.hashedBytes ≠ w.hashedBytes ∧ hashData v.hashedBytes = hashData w.hashedBytes))
      ↔ (v.hashedBytes = w.hashedBytes → v.parents.length = w.parents.length) := by
  constructor
  · intro hbinding hbytes
    rcases hbinding (congrArg hashData hbytes) with hsame | hcollision
    · rw [hsame.parents]
    · exact absurd hbytes hcollision.1
  · intro hlength hhash
    by_cases hbytes : v.hashedBytes = w.hashedBytes
    · exact .inl (sameContents_of_hashedBytes_eq hbytes (hlength hbytes))
    · exact .inr ⟨hbytes, hhash⟩

/-- A vertex with these lists and otherwise zeros. -/
def withLists (parents : List Hash) (transactions : List SignedTransaction) : Vertex where
  hash := 0
  parents
  transactions
  timestamp := 0
  shardId := 0
  creator := 0
  signature := []
  height := 0
  status := .pending
  stateRoot := 0

/-- A transaction hash or a second parent: the same bytes. -/
theorem vertex_hash_not_binding :
    (withLists [1] [sampleTx .transfer 1 2 3 0]).hashedBytes = (withLists [1, 0] []).hashedBytes ∧
      ¬ SameContents (withLists [1] [sampleTx .transfer 1 2 3 0]) (withLists [1, 0] []) ∧
      ∀ hashData, computeHash hashData [1] [sampleTx .transfer 1 2 3 0] 0 0 0 0
        = computeHash hashData [1, 0] [] 0 0 0 0 := by
  have hbytes : (withLists [1] [sampleTx .transfer 1 2 3 0]).hashedBytes
      = (withLists [1, 0] []).hashedBytes := by
    decide
  exact ⟨hbytes, fun h => absurd h.parents (by decide), fun hashData => congrArg hashData hbytes⟩

end Vertex

end Quantos

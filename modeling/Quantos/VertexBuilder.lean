import Quantos.Stacc
import Quantos.TxIngress

/-!
# Choosing the transactions of a vertex

`build_vertex_payload` of `dag/ingress.rs`: a batch is drained from the
channel of the shard, sorted by score, and walked once. A transaction is
taken if the quota admits it, its nonce is the one expected of its sender,
and no transaction taken before it locked one of its two accounts or its
resource key. Everything else of the batch is gone.

Taking a transaction locks its sender, so a sender never gets to a second
nonce in one walk, and the payload is a function of the candidates: the
admitted transactions with the current nonce of their sender, in the order
of the scores (`selected_walk`). `losesNothing_iff` says when the whole batch
is accounted for: all of it that is not stale is admitted and current, and no
two of them touch one account.
-/

namespace Quantos

open List Table

/-! ## The order of the walk -/

def saturating128 (n : Nat) : Nat := min n (2 ^ 128 - 1)

/-- Boost and amount per compute unit, in saturating `u128` arithmetic. -/
def Transaction.score (tx : Transaction) : Nat :=
  let boost := tx.boost.elim 0 fun b => b.lockedTokens.toNat
  saturating128 (saturating128
    (saturating128 (boost * 10) + saturating128 (tx.amount.toNat * 2)) * 1000000)
    / (max tx.maxComputeUnits 1).toNat

/-- Stable, the highest score first. -/
def byScore (txs : List SignedTransaction) : List SignedTransaction :=
  txs.insertionSort fun a b => b.transaction.score ≤ a.transaction.score

def resourceConflictKey (hashData : Bytes → Hash) (tx : Transaction) : Hash :=
  hashData (bincodeVec (arrayBytes tx.from) ++ bincodeVec (arrayBytes tx.to)
    ++ bincodeVec tx.data)

/-! ## The walk -/

structure VertexBuilder (V : Type) where
  ingress : TxIngressBuffer V
  stateManager : StateManager V
  stacc : StaccAdmission
  batchSize : Nat

/-- What the loop carries from one transaction to the next. -/
structure Selection (V : Type) where
  stateManager : StateManager V
  stacc : StaccAdmission
  selected : List SignedTransaction
  expectedNonce : Table (Prod.fst : Address × UInt64 → Address)
  accountLocks : List Address
  resourceLocks : List Hash

namespace Selection

variable {V : Type}

def start (stateManager : StateManager V) (stacc : StaccAdmission) : Selection V :=
  ⟨stateManager, stacc, [], Table.empty, [], []⟩

variable (sel : Selection V)

/-- `expected_nonce.entry(sender).or_insert_with(..)`. -/
def expect (sender : Address) : UInt64 × Selection V :=
  match sel.expectedNonce.get sender with
  | some (_, nonce) => (nonce, sel)
  | none =>
    let (account, stateManager) := sel.stateManager.getAccount sender
    (account.nonce,
      { sel with
        stateManager
        expectedNonce := sel.expectedNonce.put (sender, account.nonce) })

def locks (key : Hash) (tx : Transaction) : Bool :=
  sel.accountLocks.contains tx.from || sel.accountLocks.contains tx.to
    || sel.resourceLocks.contains key

def take (key : Hash) (exp : UInt64) (tx : SignedTransaction) : Selection V :=
  { sel with
    selected := sel.selected ++ [tx]
    expectedNonce := sel.expectedNonce.put (tx.transaction.from, exp + 1)
    accountLocks := tx.transaction.to :: tx.transaction.from :: sel.accountLocks
    resourceLocks := key :: sel.resourceLocks }

/-- One turn of the loop. -/
def consider (hashData : Bytes → Hash) (nowBlock : UInt64) (sel : Selection V)
    (tx : SignedTransaction) : Selection V :=
  match sel.stacc.admitTx tx.transaction nowBlock with
  | (.error _, stacc) => { sel with stacc }
  | (.ok (), stacc) =>
    let (exp, sel) := expect { sel with stacc } tx.transaction.from
    let key := resourceConflictKey hashData tx.transaction
    if tx.transaction.nonce ≠ exp then sel
    else if sel.locks key tx.transaction then sel
    else sel.take key exp tx

def walk (hashData : Bytes → Hash) (nowBlock : UInt64) (sel : Selection V)
    (txs : List SignedTransaction) : Selection V :=
  txs.foldl (consider hashData nowBlock) sel

end Selection

def VertexBuilder.buildVertexPayload {V : Type} (hashData : Bytes → Hash)
    (builder : VertexBuilder V) (shardId : ShardId) (nowBlock : UInt64) :
    List SignedTransaction × VertexBuilder V :=
  let (rawTxs, ingress) := builder.ingress.drainShard shardId builder.batchSize
  if rawTxs = [] then ([], { builder with ingress })
  else
    let sel := (Selection.start builder.stateManager builder.stacc).walk hashData nowBlock
      (byScore rawTxs)
    (sel.selected,
      { builder with ingress, stateManager := sel.stateManager, stacc := sel.stacc })

/-! ## The candidates -/

/-- What the quota admits of a batch; it is asked for every transaction. -/
def admitted (nowBlock : UInt64) : StaccAdmission → List SignedTransaction → List SignedTransaction
  | _, [] => []
  | stacc, tx :: txs =>
    match stacc.admitTx tx.transaction nowBlock with
    | (.error _, stacc) => admitted nowBlock stacc txs
    | (.ok (), stacc) => tx :: admitted nowBlock stacc txs

/-- Two transactions that do not go into one vertex. -/
def conflicts (hashData : Bytes → Hash) (tx tx' : Transaction) : Bool :=
  tx'.from = tx.from || tx'.from = tx.to || tx'.to = tx.from || tx'.to = tx.to
    || resourceConflictKey hashData tx' = resourceConflictKey hashData tx

/-- Each candidate that conflicts with none taken before it, in their order. -/
def conflictFree (hashData : Bytes → Hash) (taken : List SignedTransaction) :
    List SignedTransaction → List SignedTransaction
  | [] => taken
  | tx :: txs =>
    if taken.any fun tx' => conflicts hashData tx'.transaction tx.transaction then
      conflictFree hashData taken txs
    else conflictFree hashData (taken ++ [tx]) txs

namespace Selection

variable {V : Type} (hashData : Bytes → Hash)

/-- What holds between two turns: the locks are those of the transactions
taken, and nobody without a lock is past its nonce in the state. -/
structure Consistent (view : Address → Account) (sel : Selection V) : Prop where
  view_eq : sel.stateManager.view = view
  locks_iff : ∀ tx : Transaction, sel.locks (resourceConflictKey hashData tx) tx =
    sel.selected.any fun tx' => conflicts hashData tx'.transaction tx
  expected : ∀ row ∈ sel.expectedNonce.rows,
    row.2 = (view row.1).nonce ∨ row.1 ∈ sel.accountLocks

variable {hashData} {view : Address → Account} {sel : Selection V}

theorem consistent_start {stateManager : StateManager V} {stacc : StaccAdmission} :
    (start stateManager stacc).Consistent hashData stateManager.view where
  view_eq := rfl
  locks_iff := fun _ => rfl
  expected := fun _ h => nomatch h

theorem locks_take (sel : Selection V) (exp : UInt64) (tx : SignedTransaction) (tx' : Transaction) :
    (sel.take (resourceConflictKey hashData tx.transaction) exp tx).locks
        (resourceConflictKey hashData tx') tx' =
      (sel.locks (resourceConflictKey hashData tx') tx'
        || conflicts hashData tx.transaction tx') := by
  simp only [locks, take, conflicts, contains_cons, Bool.beq_eq_decide_eq]
  grind

/-- Asking for the nonce changes none of the locks, and the answer is the
nonce in the state for a sender that holds no lock. -/
theorem expect_spec (h : sel.Consistent hashData view) {sender : Address} :
    (sel.expect sender).2.Consistent hashData view ∧ (sel.expect sender).2.selected = sel.selected ∧
      (sel.expect sender).2.stacc = sel.stacc ∧ ((sel.expect sender).1 = (view sender).nonce ∨
        sender ∈ (sel.expect sender).2.accountLocks) := by
  unfold expect
  split
  · rename_i row nonce hrow
    have hexp := h.expected _ (mem_rows_of_get hrow)
    have hkey : row = sender := key_of_get hrow
    rw [hkey] at hexp
    exact ⟨h, rfl, rfl, hexp⟩
  · obtain ⟨_, hread, hsame, -⟩ := sel.stateManager.getAccount_isRead sender
    rw [hread, h.view_eq]
    refine ⟨⟨hsame.view.trans h.view_eq, h.locks_iff, fun row hrow => ?_⟩, rfl, rfl, .inl rfl⟩
    rcases mem_rows_put hrow with rfl | hold
    · exact .inl rfl
    · exact h.expected row hold

theorem consistent_take (h : sel.Consistent hashData view) {exp : UInt64} {tx : SignedTransaction} :
    (sel.take (resourceConflictKey hashData tx.transaction) exp tx).Consistent hashData view where
  view_eq := h.view_eq
  locks_iff := fun tx' => by
    rw [locks_take, h.locks_iff, take, any_append, any_cons, any_nil, Bool.or_false]
  expected := fun row hrow => by
    rcases mem_rows_put hrow with rfl | hold
    · exact .inr (mem_cons_of_mem _ mem_cons_self)
    · exact (h.expected row hold).imp_right fun hmem =>
        mem_cons_of_mem _ (mem_cons_of_mem _ hmem)

theorem locks_of_mem {sel : Selection V} {key : Hash} {tx : Transaction}
    (h : tx.from ∈ sel.accountLocks) : sel.locks key tx = true := by
  simp [locks, h]

/-- One turn: the transaction is taken if it is admitted, current and free of
conflicts with those taken before it. -/
theorem consider_spec {nowBlock : UInt64} (h : sel.Consistent hashData view)
    {tx : SignedTransaction} :
    (sel.consider hashData nowBlock tx).Consistent hashData view ∧
      (sel.consider hashData nowBlock tx).stacc
        = (sel.stacc.admitTx tx.transaction nowBlock).2 ∧
      (sel.consider hashData nowBlock tx).selected
        = conflictFree hashData sel.selected
            ((admitted nowBlock sel.stacc [tx]).filter fun tx =>
              tx.transaction.nonce = (view tx.transaction.from).nonce) := by
  rcases hadmit : sel.stacc.admitTx tx.transaction nowBlock with ⟨_ | ⟨⟨⟩⟩, stacc⟩
  · have hturn : sel.consider hashData nowBlock tx = { sel with stacc } := by
      simp only [consider, hadmit]
    rw [hturn]
    refine ⟨⟨h.view_eq, h.locks_iff, h.expected⟩, rfl, ?_⟩
    simp only [admitted, hadmit, filter_nil, conflictFree]
  · have hpaid : { sel with stacc }.Consistent hashData view :=
      ⟨h.view_eq, h.locks_iff, h.expected⟩
    obtain ⟨hcons, hsel, hstacc, hexp⟩ := expect_spec hpaid
    simp only [consider, admitted, hadmit]
    generalize hasked : expect { sel with stacc } tx.transaction.from = asked at *
    obtain ⟨exp, sel'⟩ := asked
    simp only at hcons hsel hstacc hexp ⊢
    by_cases hcurrent : tx.transaction.nonce = (view tx.transaction.from).nonce
    · simp only [filter_cons, hcurrent, decide_true, if_true, filter_nil, conflictFree]
      rw [← hsel, ← hcons.locks_iff]
      by_cases hlocked : sel'.locks (resourceConflictKey hashData tx.transaction) tx.transaction
      · rw [if_pos hlocked]
        split
        · exact ⟨hcons, hstacc, rfl⟩
        · exact ⟨hcons, hstacc, rfl⟩
      · have hnonce : (view tx.transaction.from).nonce = exp :=
          (hexp.resolve_right fun hmem => hlocked (locks_of_mem hmem)).symm
        rw [if_neg (not_not.mpr hnonce), if_neg hlocked, if_neg hlocked]
        exact ⟨consistent_take hcons, hstacc, rfl⟩
    · simp only [filter_cons, hcurrent, decide_false, Bool.false_eq_true, if_false,
        filter_nil, conflictFree]
      by_cases hnonce : tx.transaction.nonce = exp
      · -- past its nonce in the state, so the sender holds a lock
        have hmem := hexp.resolve_left fun heq => hcurrent (hnonce.trans heq)
        rw [if_neg (not_not.mpr hnonce), if_pos (locks_of_mem hmem)]
        exact ⟨hcons, hstacc, hsel⟩
      · rw [if_pos hnonce]
        exact ⟨hcons, hstacc, hsel⟩

end Selection

variable (nowBlock : UInt64) (stacc : StaccAdmission) (txs : List SignedTransaction)

/-- Admitted, and carrying the current nonce of their sender. -/
def candidates (view : Address → Account) (stacc : StaccAdmission) (txs : List SignedTransaction) :
    List SignedTransaction :=
  (admitted nowBlock stacc txs).filter fun tx =>
    tx.transaction.nonce = (view tx.transaction.from).nonce

theorem admitted_cons (tx : SignedTransaction) (txs : List SignedTransaction) :
    admitted nowBlock stacc (tx :: txs) = admitted nowBlock stacc [tx] ++
      admitted nowBlock (stacc.admitTx tx.transaction nowBlock).2 txs := by
  simp only [admitted]
  split
  · rename_i h
    rw [h, nil_append]
  · rename_i h
    rw [h, cons_append, nil_append]

theorem admitted_sublist : (admitted nowBlock stacc txs).Sublist txs := by
  induction txs generalizing stacc with
  | nil => exact .slnil
  | cons tx txs ih =>
    simp only [admitted]
    split
    · exact (ih _).cons _
    · exact (ih _).cons_cons _

section ConflictFree

variable {hashData : Bytes → Hash}

theorem conflictFree_append (taken txs txs' : List SignedTransaction) :
    conflictFree hashData taken (txs ++ txs')
      = conflictFree hashData (conflictFree hashData taken txs) txs' := by
  induction txs generalizing taken with
  | nil => rfl
  | cons tx txs ih =>
    simp only [cons_append, conflictFree]
    split
    · exact ih taken
    · exact ih _

variable {taken txs : List SignedTransaction} {tx : SignedTransaction}

theorem mem_conflictFree_of_mem (h : tx ∈ taken) : tx ∈ conflictFree hashData taken txs := by
  induction txs generalizing taken with
  | nil => exact h
  | cons tx' txs ih =>
    simp only [conflictFree]
    split
    · exact ih h
    · exact ih (mem_append_left _ h)

theorem pairwise_conflictFree
    (h : taken.Pairwise fun tx tx' => conflicts hashData tx.transaction tx'.transaction = false) :
    (conflictFree hashData taken txs).Pairwise fun tx tx' =>
      conflicts hashData tx.transaction tx'.transaction = false := by
  induction txs generalizing taken with
  | nil => exact h
  | cons tx txs ih =>
    simp only [conflictFree]
    split
    · exact ih h
    rename_i hnone
    refine ih (pairwise_append.mpr ⟨h, pairwise_singleton _ _, fun tx' htx' => ?_⟩)
    simpa using fun hc => hnone (any_eq_true.mpr ⟨tx', htx', hc⟩)

theorem mem_of_mem_conflictFree (h : tx ∈ conflictFree hashData taken txs) :
    tx ∈ taken ∨ tx ∈ txs := by
  induction txs generalizing taken with
  | nil => exact .inl h
  | cons tx' txs ih =>
    simp only [conflictFree] at h
    split at h
    · exact (ih h).imp_right (mem_cons_of_mem _)
    · rcases ih h with hmem | hmem
      · rw [mem_append, mem_singleton] at hmem
        exact hmem.imp_right fun heq => mem_cons.mpr (.inl heq)
      · exact .inr (mem_cons_of_mem _ hmem)

/-- No two of the transactions conflict, copies of one apart. -/
def Apart (hashData : Bytes → Hash) (txs : List SignedTransaction) : Prop :=
  ∀ tx ∈ txs, ∀ tx' ∈ txs, tx ≠ tx' → conflicts hashData tx.transaction tx'.transaction = false

/-- Where no two conflict, all are taken: what stands in the way of a
transaction can only be a copy of it. -/
theorem mem_conflictFree_of_apart (h : Apart hashData (taken ++ txs)) (htx : tx ∈ txs) :
    tx ∈ conflictFree hashData taken txs := by
  induction txs generalizing taken with
  | nil => cases htx
  | cons tx' txs ih =>
    have hrest : ∀ {l}, l ⊆ taken ++ tx' :: txs → Apart hashData l := fun hl tx htx tx' htx' =>
      h tx (hl htx) tx' (hl htx')
    simp only [conflictFree]
    split
    · rename_i hany
      obtain ⟨old, hold, hc⟩ := any_eq_true.mp hany
      have hcopy : old = tx' := by
        by_contra hne
        rw [h old (mem_append_left _ hold) tx' (by simp) hne] at hc
        cases hc
      rcases mem_cons.mp htx with rfl | htx
      · exact mem_conflictFree_of_mem (hcopy ▸ hold)
      · exact ih (hrest (by simp)) htx
    · rcases mem_cons.mp htx with rfl | htx
      · exact mem_conflictFree_of_mem (mem_append_right _ mem_cons_self)
      · exact ih (hrest (by simp)) htx

theorem conflicts_comm (tx tx' : Transaction) :
    conflicts hashData tx tx' = conflicts hashData tx' tx := by
  unfold conflicts
  grind

end ConflictFree

/-- The whole walk: what it takes of the candidates. -/
theorem Selection.selected_walk {V : Type} {hashData : Bytes → Hash} {nowBlock : UInt64}
    {view : Address → Account} {sel : Selection V} (h : sel.Consistent hashData view)
    (txs : List SignedTransaction) :
    (sel.walk hashData nowBlock txs).selected
      = conflictFree hashData sel.selected (candidates nowBlock view sel.stacc txs) := by
  induction txs generalizing sel with
  | nil => rfl
  | cons tx txs ih =>
    obtain ⟨hcons, hstacc, hsel⟩ := consider_spec h
    have hrest := ih hcons
    rw [hstacc, hsel] at hrest
    rw [candidates, admitted_cons, filter_append, conflictFree_append]
    exact hrest

/-! ## Accounting for the batch -/

namespace VertexBuilder

variable {V : Type} (hashData : Bytes → Hash) (builder : VertexBuilder V) (shardId : ShardId)
  (nowBlock : UInt64)

def drained : List SignedTransaction :=
  (builder.ingress.drainShard shardId builder.batchSize).1

variable (tx : SignedTransaction)

/-- The nonce is one the sender has used. -/
def Stale : Prop :=
  tx.transaction.nonce < (builder.stateManager.view tx.transaction.from).nonce

/-- Every transaction drained is in the payload, still queued, or stale. -/
def LosesNothing : Prop :=
  ∀ tx ∈ builder.drained shardId,
    tx ∈ (builder.buildVertexPayload hashData shardId nowBlock).1 ∨
    tx ∈ (builder.buildVertexPayload hashData shardId nowBlock).2.ingress.queue shardId ∨
    builder.Stale tx

/-- The candidates of the batch, in the order of the walk. -/
def batchCandidates : List SignedTransaction :=
  candidates nowBlock builder.stateManager.view builder.stacc (byScore (builder.drained shardId))

/-- What of the batch is not stale is admitted by the quota, asked in the
order of the scores, carries the nonce its sender is at, and no two of it
conflict. -/
structure Placeable : Prop where
  admitted : ∀ tx ∈ builder.drained shardId, ¬ builder.Stale tx →
    tx ∈ admitted nowBlock builder.stacc (byScore (builder.drained shardId))
  current : ∀ tx ∈ builder.drained shardId, ¬ builder.Stale tx →
    tx.transaction.nonce = (builder.stateManager.view tx.transaction.from).nonce
  apart : ∀ tx ∈ builder.drained shardId, ¬ builder.Stale tx →
    ∀ tx' ∈ builder.drained shardId, ¬ builder.Stale tx' → tx ≠ tx' →
      conflicts hashData tx.transaction tx'.transaction = false

/-- Another copy waits behind the batch. -/
def Behind : Prop :=
  tx ∈ (builder.ingress.queue shardId).drop builder.batchSize

theorem payload_eq : (builder.buildVertexPayload hashData shardId nowBlock).1
    = conflictFree hashData [] (builder.batchCandidates shardId nowBlock) := by
  unfold buildVertexPayload batchCandidates drained
  dsimp only
  split
  · rename_i hempty
    rw [hempty]
    rfl
  · exact Selection.selected_walk Selection.consistent_start _

theorem queue_buildVertexPayload :
    (builder.buildVertexPayload hashData shardId nowBlock).2.ingress.queue shardId
      = (builder.ingress.queue shardId).drop builder.batchSize := by
  rw [← TxIngressBuffer.queue_drainShard]
  unfold buildVertexPayload
  dsimp only
  split <;> rfl

theorem mem_batchCandidates {tx : SignedTransaction} :
    tx ∈ builder.batchCandidates shardId nowBlock ↔
      tx ∈ admitted nowBlock builder.stacc (byScore (builder.drained shardId)) ∧
        tx.transaction.nonce = (builder.stateManager.view tx.transaction.from).nonce := by
  rw [batchCandidates, candidates, mem_filter, decide_eq_true_iff]

theorem drained_of_candidate {tx : SignedTransaction}
    (h : tx ∈ builder.batchCandidates shardId nowBlock) :
    tx ∈ builder.drained shardId ∧ ¬ builder.Stale tx := by
  obtain ⟨hadmitted, hnonce⟩ := (builder.mem_batchCandidates shardId nowBlock).mp h
  have hbatch := (admitted_sublist ..).subset hadmitted
  refine ⟨(perm_insertionSort _ _).mem_iff.mp hbatch, fun hstale => ?_⟩
  rw [Stale, hnonce] at hstale
  exact UInt64.lt_irrefl _ hstale

variable {hashData builder shardId nowBlock}

theorem candidate_of_payload {tx : SignedTransaction}
    (h : tx ∈ (builder.buildVertexPayload hashData shardId nowBlock).1) :
    tx ∈ builder.batchCandidates shardId nowBlock := by
  rw [payload_eq] at h
  exact (mem_of_mem_conflictFree h).resolve_left not_mem_nil

theorem pairwise_payload :
    (builder.buildVertexPayload hashData shardId nowBlock).1.Pairwise fun tx tx' =>
      conflicts hashData tx.transaction tx'.transaction = false := by
  rw [payload_eq]
  exact pairwise_conflictFree .nil

/-- What of the batch is not stale is in the payload exactly when it can all
be placed. -/
theorem placeable_iff : builder.Placeable hashData shardId nowBlock ↔
    ∀ tx ∈ builder.drained shardId, ¬ builder.Stale tx →
      tx ∈ (builder.buildVertexPayload hashData shardId nowBlock).1 := by
  constructor
  · rintro ⟨hadmitted, hcurrent, hapart⟩ tx htx hlive
    rw [payload_eq]
    refine mem_conflictFree_of_apart (fun tx htx tx' htx' hne => ?_)
      ((mem_batchCandidates ..).mpr ⟨hadmitted tx htx hlive, hcurrent tx htx hlive⟩)
    obtain ⟨hmem, hlive⟩ := drained_of_candidate _ _ _ htx
    obtain ⟨hmem', hlive'⟩ := drained_of_candidate _ _ _ htx'
    exact hapart tx hmem hlive tx' hmem' hlive' hne
  · intro h
    have hcandidate := fun tx htx hlive =>
      (mem_batchCandidates ..).mp (candidate_of_payload (h tx htx hlive))
    refine ⟨fun tx htx hlive => (hcandidate tx htx hlive).1,
      fun tx htx hlive => (hcandidate tx htx hlive).2, fun tx htx hlive tx' htx' hlive' hne => ?_⟩
    have : Std.Symm fun tx tx' : SignedTransaction =>
        conflicts hashData tx.transaction tx'.transaction = false :=
      ⟨fun tx tx' hfree => (conflicts_comm ..).trans hfree⟩
    exact pairwise_payload.forall (h tx htx hlive) (h tx' htx' hlive') hne

/-- A channel in use holds no transaction twice, since the prefilter of
`ingest` lets no payload through again. There nothing is lost exactly when
all that is not stale can be placed. -/
theorem losesNothing_iff (hashData : Bytes → Hash) (builder : VertexBuilder V) (shardId : ShardId)
    (nowBlock : UInt64) (hbehind : ∀ tx ∈ builder.drained shardId, ¬ builder.Behind shardId tx) :
    builder.LosesNothing hashData shardId nowBlock ↔
      builder.Placeable hashData shardId nowBlock := by
  rw [placeable_iff]
  unfold LosesNothing
  rw [queue_buildVertexPayload]
  constructor
  · intro h tx htx hstale
    rcases h tx htx with hpayload | hqueued | hold
    · exact hpayload
    · exact absurd hqueued (hbehind tx htx)
    · exact absurd hold hstale
  · intro h tx htx
    by_cases hstale : builder.Stale tx
    · exact .inr (.inr hstale)
    · exact .inl (h tx htx hstale)

variable (hashData builder shardId nowBlock)

/-- The payload can be executed in any order: transactions of the batch that
the quota admitted, with the current nonce of their sender, no two of which
share an address. -/
theorem payload_executable : (builder.buildVertexPayload hashData shardId nowBlock).1.Nodup ∧
      (builder.buildVertexPayload hashData shardId nowBlock).1.Pairwise (fun tx tx' =>
        ∀ a ∈ [tx.transaction.from, tx.transaction.to],
          a ≠ tx'.transaction.from ∧ a ≠ tx'.transaction.to) ∧
      ∀ tx ∈ (builder.buildVertexPayload hashData shardId nowBlock).1,
        tx ∈ builder.drained shardId ∧
        tx.transaction.nonce = (builder.stateManager.view tx.transaction.from).nonce ∧
        tx ∈ admitted nowBlock builder.stacc (byScore (builder.drained shardId)) := by
  have hfree := @pairwise_payload V hashData builder shardId nowBlock
  refine ⟨hfree.imp fun {tx tx'} h heq => ?_, hfree.imp fun {tx tx'} h => ?_, fun tx htx => ?_⟩
  · simp [heq, conflicts] at h
  · simp only [conflicts, Bool.or_eq_false_iff, decide_eq_false_iff_not] at h
    grind
  · have hcandidate := candidate_of_payload htx
    obtain ⟨hadmitted, hnonce⟩ := (mem_batchCandidates ..).mp hcandidate
    exact ⟨(drained_of_candidate _ _ _ hcandidate).1, hnonce, hadmitted⟩

/-- No activation, no quota: the policy of a test network. -/
def openStacc : StaccAdmission where
  policy := ⟨fun _ => 0, fun _ _ => 0, 300000000, false, false⟩
  activation := []
  buckets := Table.empty
  pendingCuByAddr := Table.empty
  pendingCuTotal := 0

/-- What has been ingested on a fresh state is in the one channel. -/
def fed (txs : List SignedTransaction) : VertexBuilder Unit where
  ingress := Runs.run (TxIngressBuffer.step TxIngressBuffer.echoPlatform)
    (.new (.new Table.empty 0#256 ()) 1 (.new 65536)) (txs.map .ingest)
  stateManager := .new Table.empty 0#256 ()
  stacc := openStacc
  batchSize := 10000

/-- The first transaction of key `sender`. -/
def firstTx (sender : UInt8) (recipient : Address) : SignedTransaction :=
  let tx := TxIngressBuffer.echoTx sender sender [sender] 0
  { tx with transaction := { tx.transaction with «to» := tx.transaction.to + recipient } }

instance (builder : VertexBuilder V) (tx : SignedTransaction) : Decidable (builder.Stale tx) :=
  inferInstanceAs (Decidable (_ < _))

/-- Two senders pay two recipients. -/
theorem losesNothing_two_recipients :
    ((fed [firstTx 1 7, firstTx 2 8]).drained 0).length = 2 ∧
      (fed [firstTx 1 7, firstTx 2 8]).LosesNothing digitHash 0 0 := by
  refine ⟨by decide +kernel, (losesNothing_iff digitHash _ 0 0 ?_).mpr ⟨?_, ?_, ?_⟩⟩
  · unfold Behind
    decide +kernel
  all_goals decide +kernel

/-- Two senders pay one recipient. The first payment locks it, and the other
is dropped. -/
theorem second_payment_lost :
    ¬ (fed [firstTx 1 7, firstTx 2 7]).LosesNothing digitHash 0 0 := by
  intro h
  rcases h (firstTx 2 7) (by decide +kernel) with hpayload | hqueued | hstale
  · revert hpayload
    decide +kernel
  · revert hqueued
    decide +kernel
  · revert hstale
    decide +kernel

end VertexBuilder

end Quantos

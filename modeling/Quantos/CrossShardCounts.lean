import Quantos.CrossShardSafety

/-!
# Counting the pending transfers of a sender

`initiate_transfer` bumps the count of the sender and only then looks at the
limit of the shard, serialises the transfer and sends it. Each of these can
fail, and nothing is taken back: the count stays too high for ever, or the
transfer stays pending although the caller got an error. And a transfer under
the id of a pending one replaces it, with the count bumped again.

So the calls are all-or-nothing and the counts right, along a whole run,
exactly when every call that gets past the first checks finds its shard below
the limit, a transfer that serialises, a destination that is registered and
alive, and an id that is not pending (`counted_iff`). Deliveries and timeouts
never spoil the counts.
-/

namespace Quantos

open Runs Table

namespace CrossShardCoordinator

variable (cc : CrossShardCoordinator)

def ofSender (sender : Address) (tx : CrossShardTransaction) : Nat :=
  if tx.sender = sender then 1 else 0

/-- How many transfers of the sender are pending. -/
def pendingOf (sender : Address) : Nat := cc.pending.sum (ofSender sender)

def Counted : Prop :=
  ∀ sender, cc.senderPending sender = cc.pendingOf sender

/-- The transfers, their indexes and the counts are the same. -/
def Untouched (before after : CrossShardCoordinator) : Prop :=
  after.pending = before.pending ∧ after.bySourceShard = before.bySourceShard ∧
    after.byDestShard = before.byDestShard ∧ after.pendingPerSender = before.pendingPerSender

variable (env : CrossShardPlatform) (cc : CrossShardCoordinator)

/-- A failed call changes nothing. -/
def AllOrNothing : CoordinatorOp → Prop
  | .initiateTransfer req io =>
    ∀ e, (cc.initiateTransfer env io req).1 = .error e →
      Untouched cc (cc.initiateTransfer env io req).2
  | _ => True

/-- One of the checks before the count is bumped refuses the call. -/
def RefusedEarly (req : TransferRequest) : Prop :=
  req.sourceShard = req.destShard ∨ req.amount.toNat < MIN_TRANSFER_AMOUNT ∨
    MAX_TRANSFER_AMOUNT < req.amount.toNat ∨ MAX_PENDING_PER_SENDER ≤ cc.senderPending req.sender

/-- What is attached to a transfer with proofs on, `serialized` being the
transfer without it. -/
def proofBytes (tx : CrossShardTransaction) (serialized : Bytes) : Bytes :=
  let proofHash := env.hashData (arrayBytes tx.sourceStateRoot ++ serialized
    ++ arrayBytes tx.sender ++ arrayBytes tx.recipient ++ leBytes 16 tx.amount.toNat)
  arrayBytes proofHash ++ arrayBytes (proofSignature env (arrayBytes proofHash) tx.sourceStateRoot)
    ++ arrayBytes tx.sourceStateRoot

/-- The transfer can be serialised, with proofs on also with its proof. -/
def Serializes (io : CrossShardContext) (cc : CrossShardCoordinator) (req : TransferRequest) :
    Prop :=
  let tx := cc.newTransaction env io req
  ∃ serialized, env.serialize tx = .ok serialized ∧
    (cc.zkEnabled = true →
      (env.serialize { tx with proof := some (proofBytes env tx serialized) }).isOk = true)

/-- The source shard is below its limit, the transfer serialises, and the
destination has a channel that is alive. -/
def CanOpen (io : CrossShardContext) (cc : CrossShardCoordinator) (req : TransferRequest) : Prop :=
  (idsOf cc.bySourceShard req.sourceShard).length < cc.config.maxPendingPerShard ∧
    cc.Serializes env io req ∧ req.destShard ∈ cc.shardChannels ∧
    io.reachable req.destShard = true

/-- A call that gets past the first checks can be carried out to its end,
under a new id. -/
def Smooth : CoordinatorOp → Prop
  | .initiateTransfer req io =>
    cc.RefusedEarly req ∨ cc.CanOpen env io req ∧
      cc.pending.get (generateTxId env io req.sender req.recipient req.amount) = none
  | _ => True

/-! ## Counts and tables -/

section

variable (cc : CrossShardCoordinator) (sender other : Address)

theorem senderPending_countSender : (cc.countSender sender).senderPending other
      = cc.senderPending other + if sender = other then 1 else 0 := by
  unfold senderPending countSender
  rw [get_put]
  by_cases h : sender = other
  · rw [if_pos h, if_pos h, h]
    rfl
  · rw [if_neg h, if_neg h]
    rfl

theorem senderPending_uncountSender : (cc.uncountSender sender).senderPending other
      = cc.senderPending other - if sender = other then 1 else 0 := by
  unfold uncountSender
  cases hget : cc.pendingPerSender.get sender with
  | none =>
    by_cases h : sender = other
    · subst h
      rw [senderPending, hget]
      exact (Nat.zero_sub _).symm
    · rw [if_neg h]
      rfl
  | some row =>
    obtain ⟨_, _⟩ := row
    unfold senderPending
    dsimp only
    by_cases h : sender = other
    · subst h
      rw [hget, if_pos rfl]
      split
      · rename_i hzero
        rw [get_erase, if_pos rfl]
        exact hzero.symm
      · rw [get_put, if_pos rfl]
        rfl
    · rw [if_neg h]
      split
      · rw [get_erase, if_neg h]
        rfl
      · rw [get_put, if_neg h]
        rfl

end

variable {cc cc' : CrossShardCoordinator}

theorem senderPending_congr (h : cc'.pendingPerSender = cc.pendingPerSender) (sender : Address) :
    cc'.senderPending sender = cc.senderPending sender := by
  unfold senderPending
  rw [h]

/-! ## Deliveries and timeouts -/

variable {io : CrossShardContext} {shardId : ShardId} {message : CrossShardMessage} {txId : Hash}
  {phase : CrossShardPhase} {success : Bool} {error : Option String} {tx : CrossShardTransaction}

variable (env : CrossShardPlatform)

theorem counted_setPhase (h : cc.Counted) : (cc.setPhase txId phase).Counted := by
  unfold setPhase
  cases hget : cc.pending.get txId with
  | none => exact h
  | some tx =>
    obtain rfl : tx.id = txId := key_of_get hget
    intro sender
    have hput := sum_put (ofSender sender) cc.pending { tx with phase := phase }
    have hid : ({ tx with phase := phase } : CrossShardTransaction).id = tx.id := rfl
    rw [hid, hget] at hput
    have hsame : cc.pending.sum (ofSender sender)
        = (cc.pending.put { tx with phase := phase }).sum (ofSender sender) := by
      have hone : ofSender sender { tx with phase := phase } = ofSender sender tx := rfl
      rw [hone] at hput
      exact (Nat.add_right_cancel hput).symm
    have hbefore := h sender
    unfold pendingOf at hbefore ⊢
    exact hbefore.trans hsame

theorem counted_credit (h : cc.Counted) : (cc.credit txId).Counted := by
  unfold credit
  split
  · exact h
  · exact counted_setPhase h

theorem counted_finalizeTransaction (h : cc.Counted) :
    (cc.finalizeTransaction io txId success error).2.Counted := by
  unfold finalizeTransaction
  cases hget : cc.pending.get txId with
  | none => exact h
  | some tx =>
    intro sender
    have hpending : (cc.uncountSender tx.sender).pending = cc.pending :=
      congrArg TransferRecords.pending (uncountSender_records ..)
    have hcount := senderPending_uncountSender cc tx.sender sender
    have herase := sum_erase (ofSender sender) cc.pending txId
    rw [hget] at herase
    have hone : (some tx).elim 0 (ofSender sender) = if tx.sender = sender then 1 else 0 := rfl
    have hbefore := h sender
    unfold pendingOf at hbefore ⊢
    show (cc.uncountSender tx.sender).senderPending sender
      = ((cc.uncountSender tx.sender).pending.erase txId).sum (ofSender sender)
    rw [hpending, hcount, hbefore]
    omega

theorem counted_closeAs (h : cc.Counted) : (cc.closeAs io txId phase success error).2.Counted :=
  counted_finalizeTransaction (counted_setPhase h)

theorem counted_expireAll (io : CrossShardContext) (txIds : List Hash) :
    ∀ {cc : CrossShardCoordinator}, cc.Counted → (cc.expireAll io txIds).2.Counted := by
  induction txIds with
  | nil => exact fun h => h
  | cons txId rest ih =>
    intro cc h
    have hclosed : (cc.closeAs io txId .timedOut false (some "Timeout")).2.Counted :=
      counted_closeAs h
    unfold expireAll
    split
    · rename_i heq
      exact heq ▸ hclosed
    rename_i heq
    rw [heq] at hclosed
    exact ih hclosed

theorem counted_processTimeouts (h : cc.Counted) : (cc.processTimeouts io).2.Counted := by
  have hexpired := counted_expireAll io (cc.timedOut io) h
  unfold processTimeouts
  split <;> rename_i heq <;> rw [heq] at hexpired <;> exact hexpired

theorem counted_processMessage (h : cc.Counted) : (cc.processMessage env io message).2.Counted := by
  unfold processMessage
  split
  · exact h
  split
  · unfold handleIncomingTransfer
    split
    · obtain ⟨sent, hsent⟩ := refuse_frame env io cc _ _
      rw [hsent]
      exact h
    · obtain ⟨sent, hsent⟩ := sendToShard_frame io (cc.credit _) _ _
      rw [hsent]
      exact counted_credit h
  · exact counted_closeAs h
  · exact counted_closeAs h
  · exact h
  · exact h
  · exact h

/-! ## Opening a transfer -/

variable {req : TransferRequest}

theorem initiateTransfer_of_refused (h : cc.RefusedEarly req) :
    (cc.initiateTransfer env io req).2 = cc := by
  unfold initiateTransfer
  split
  · rfl
  split
  · rfl
  split
  · rfl
  split
  · rfl
  rename_i hshard hsmall hlarge hlimit
  simp [RefusedEarly, hshard, hsmall, hlarge, hlimit] at h

theorem initiateTransfer_of_not_refused (h : ¬ cc.RefusedEarly req) :
    cc.initiateTransfer env io req = (cc.countSender req.sender).openTransfer env io req := by
  simp only [RefusedEarly, not_or] at h
  obtain ⟨hshard, hsmall, hlarge, hlimit⟩ := h
  unfold initiateTransfer
  rw [if_neg hshard, if_neg hsmall, if_neg hlarge, if_neg hlimit]

theorem sendToShard_isOk_iff : (cc.sendToShard io shardId message).1.isOk = true
    ↔ shardId ∈ cc.shardChannels ∧ io.reachable shardId = true := by
  unfold sendToShard
  by_cases hregistered : shardId ∈ cc.shardChannels
  · rw [if_pos hregistered, and_iff_right hregistered]
    cases io.reachable shardId
    · exact Iff.of_eq rfl
    · exact Iff.of_eq rfl
  · rw [if_neg hregistered]
    exact ⟨fun h => (by cases h), fun h => absurd h.1 hregistered⟩

theorem announce_isOk_iff : (cc.announce env io tx).1.isOk = true
    ↔ (env.serialize tx).isOk = true ∧ tx.destShard ∈ cc.shardChannels
      ∧ io.reachable tx.destShard = true := by
  unfold announce
  cases env.serialize tx with
  | error e => exact ⟨fun h => (by cases h), fun h => (by cases h.1)⟩
  | ok payload =>
    have hpayload : (Except.ok payload : Except String Bytes).isOk = true := rfl
    rw [and_iff_right hpayload]
    dsimp only
    split <;> rename_i heq <;> rw [← sendToShard_isOk_iff, heq] <;> exact Iff.of_eq rfl

/-- A transfer past the first checks goes through exactly when it can be
opened. -/
theorem openTransfer_isOk_iff :
    (cc.openTransfer env io req).1.isOk = true ↔ cc.CanOpen env io req := by
  unfold openTransfer CanOpen
  by_cases hfull : cc.config.maxPendingPerShard ≤ (idsOf cc.bySourceShard req.sourceShard).length
  · rw [if_pos hfull]
    exact ⟨fun h => (by cases h), fun h => absurd h.1 (Nat.not_lt.mpr hfull)⟩
  rw [if_neg hfull, and_iff_right (Nat.not_le.mp hfull)]
  unfold attachProof Serializes proofHash
  cases hzk : cc.zkEnabled with
  | false =>
    refine (announce_isOk_iff env).trans (and_congr_left fun _ => ?_)
    cases hbytes : env.serialize (cc.newTransaction env io req) with
    | error e =>
      refine ⟨fun h => (by cases h), ?_⟩
      rintro ⟨_, hserialized, -⟩
      cases hbytes.symm.trans hserialized
    | ok serialized => exact ⟨fun _ => ⟨serialized, hbytes, fun h => (by cases h)⟩, fun _ => rfl⟩
  | true =>
    have hbare : { cc.newTransaction env io req with proof := none }
        = cc.newTransaction env io req := rfl
    rw [hbare]
    cases hbytes : env.serialize (cc.newTransaction env io req) with
    | error e =>
      refine ⟨fun h => (by cases h), ?_⟩
      rintro ⟨⟨_, hserialized, -⟩, -⟩
      cases hbytes.symm.trans hserialized
    | ok serialized =>
      refine (announce_isOk_iff env).trans (and_congr_left fun _ => ?_)
      constructor
      · exact fun h => ⟨serialized, hbytes, fun _ => h⟩
      · rintro ⟨_, hserialized, h⟩
        cases hbytes.symm.trans hserialized
        exact h rfl

/-- Past the first checks the count is bumped whatever happens; the transfer
is stored, or the call has failed. -/
theorem openTransfer_effect {io : CrossShardContext} {cc : CrossShardCoordinator}
    {req : TransferRequest} :
    (cc.openTransfer env io req).2.pendingPerSender = cc.pendingPerSender ∧
      ((cc.openTransfer env io req).1.isOk = false ∧
          (cc.openTransfer env io req).2.pending = cc.pending ∨
        ∃ tx, tx.id = generateTxId env io req.sender req.recipient req.amount ∧
          tx.sender = req.sender ∧ (cc.openTransfer env io req).2.pending = cc.pending.put tx) := by
  unfold openTransfer
  split
  · exact ⟨rfl, Or.inl ⟨rfl, rfl⟩⟩
  split
  · exact ⟨rfl, Or.inl ⟨rfl, rfl⟩⟩
  rename_i tx hproof
  obtain ⟨proof, rfl⟩ := attachProof_ok hproof
  obtain ⟨sent, hsent⟩ := announce_frame env io (cc.takeNonce.lock _) _
  rw [hsent]
  exact ⟨rfl, Or.inr ⟨_, rfl, rfl, rfl⟩⟩

/-- The counts after a transfer was stored are right exactly if its id was
new: otherwise the one it replaced is still counted. -/
theorem counted_put_iff (h : cc.Counted) (hpending : cc'.pending = cc.pending.put tx)
    (hcounts : cc'.pendingPerSender = (cc.countSender tx.sender).pendingPerSender) :
    cc'.Counted ↔ cc.pending.get tx.id = none := by
  have hcount : ∀ sender, cc'.senderPending sender
      = cc.pending.sum (ofSender sender) + if tx.sender = sender then 1 else 0 := by
    intro sender
    rw [senderPending_congr hcounts, senderPending_countSender, h, pendingOf]
  have hput : ∀ sender, cc'.pendingOf sender + (cc.pending.get tx.id).elim 0 (ofSender sender)
      = cc.pending.sum (ofSender sender) + if tx.sender = sender then 1 else 0 := by
    intro sender
    rw [pendingOf, hpending]
    exact sum_put ..
  constructor
  · intro hafter
    cases hget : cc.pending.get tx.id with
    | none => rfl
    | some old =>
      -- the sender of the replaced transfer has one fewer than it is counted
      have hold := hput old.sender
      rw [hget] at hold
      have hone : (some old).elim 0 (ofSender old.sender) = 1 := if_pos rfl
      have hsame := hafter old.sender
      have hbumped := hcount old.sender
      omega
  · intro hnone sender
    have hsum := hput sender
    rw [hnone] at hsum
    have hbumped := hcount sender
    have hzero : (none : Option CrossShardTransaction).elim 0 (ofSender sender) = 0 := rfl
    omega

theorem not_untouched_of_counted {sender : Address}
    (h : cc'.pendingPerSender = (cc.countSender sender).pendingPerSender) : ¬ Untouched cc cc' := by
  intro huntouched
  have hcount := senderPending_countSender cc sender sender
  rw [← senderPending_congr h, senderPending_congr huntouched.2.2.2, if_pos rfl] at hcount
  omega

theorem initiateTransfer_iff (h : cc.Counted) :
    cc.AllOrNothing env (.initiateTransfer req io) ∧ (cc.initiateTransfer env io req).2.Counted ↔
      cc.Smooth env (.initiateTransfer req io) := by
  by_cases hearly : cc.RefusedEarly req
  · refine ⟨fun _ => Or.inl hearly, fun _ => ⟨fun e _ => ?_, ?_⟩⟩
    · rw [initiateTransfer_of_refused _ hearly]
      exact ⟨rfl, rfl, rfl, rfl⟩
    · rw [initiateTransfer_of_refused _ hearly]
      exact h
  · obtain ⟨hcounts, heffect⟩ := @openTransfer_effect env io (cc.countSender req.sender) req
    have hopens : ((cc.countSender req.sender).openTransfer env io req).1.isOk = true
        ↔ cc.CanOpen env io req := openTransfer_isOk_iff env
    -- an error is behind the count, so it never leaves the node as it was
    have hnothing : cc.AllOrNothing env (.initiateTransfer req io) ↔ cc.CanOpen env io req := by
      rw [← hopens]
      unfold AllOrNothing
      dsimp only
      rw [initiateTransfer_of_not_refused _ hearly]
      cases ((cc.countSender req.sender).openTransfer env io req).1 with
      | ok => exact ⟨fun _ => rfl, fun _ e he => (by cases he)⟩
      | error e =>
        refine ⟨fun hall => ?_, fun hok => (by cases hok)⟩
        exact absurd (hall e rfl) (not_untouched_of_counted hcounts)
    rw [hnothing, initiateTransfer_of_not_refused _ hearly]
    rw [Smooth, or_iff_right hearly]
    obtain ⟨hfailed, -⟩ | ⟨_, hid, hsender, hpending⟩ := heffect
    · have hcannot : ¬ cc.CanOpen env io req := by
        rw [← hopens, hfailed]
        exact Bool.false_ne_true
      exact iff_of_false (fun hand => hcannot hand.1) fun hand => hcannot hand.1
    · rw [counted_put_iff h hpending (hsender ▸ hcounts), hid]

/-! ## Runs -/

theorem counted_step_iff (cc : CrossShardCoordinator) (op : CoordinatorOp) (h : cc.Counted) :
    cc.AllOrNothing env op ∧ (step env cc op).Counted ↔ cc.Smooth env op := by
  have hkept : ∀ {cc' : CrossShardCoordinator}, cc'.Counted → (True ∧ cc'.Counted ↔ True) :=
    fun hcc => ⟨fun _ => trivial, fun _ => ⟨trivial, hcc⟩⟩
  cases op with
  | setCommitteeKeypair => exact hkept h
  | registerShard shardId authToken =>
    refine hkept ?_
    show (cc.registerShard shardId authToken).2.Counted
    unfold registerShard
    split <;> exact h
  | initiateTransfer => exact initiateTransfer_iff env h
  | processMessage => exact hkept (counted_processMessage env h)
  | processTimeouts => exact hkept (counted_processTimeouts h)

theorem counted_new {config : CrossShardConfig} {token : Hash} : (new config token).Counted :=
  fun _ => rfl

/-- Along a run every failed call changes nothing and the counts are right at
all times, exactly when every call that gets past the first checks can be
carried out to its end under a new id. -/
theorem counted_iff (env : CrossShardPlatform) (config : CrossShardConfig) (token : Hash)
    (ops : List CoordinatorOp) :
    (StepsMeet (step env) (AllOrNothing env) (new config token) ops ∧
      ∀ done, done <+: ops → (run (step env) (new config token) done).Counted) ↔
    StepsMeet (step env) (Smooth env) (new config token) ops :=
  always_iff_stepsMeet (counted_step_iff env) counted_new

/-- A shard that takes no transfer: the call fails and stays counted. -/
def fullShard : CrossShardCoordinator :=
  new { CrossShardConfig.default with maxPendingPerShard := 0 } 0

/-- No channel to the destination: the call fails and its transfer is pending. -/
def noChannel : CrossShardCoordinator := new .default 0

/-- The second call of the run is made in the same nanosecond as the first. -/
def sameInstant : CrossShardCoordinator :=
  run (step samplePlatform) (new .default 0)
    (openingOps ++ [.initiateTransfer sampleRequest (sampleContext 100 1)])

def sampleCall (cc : CrossShardCoordinator) : Except CrossShardError Hash × CrossShardCoordinator :=
  cc.initiateTransfer samplePlatform (sampleContext 100 1) sampleRequest

theorem counted_fails : ((sampleCall fullShard).1.isOk = false ∧
      (sampleCall fullShard).2.senderPending 7 = 1 ∧ (sampleCall fullShard).2.pendingOf 7 = 0) ∧
    ((sampleCall noChannel).1.isOk = false ∧
      noChannel.pendingOf 7 = 0 ∧ (sampleCall noChannel).2.pendingOf 7 = 1) ∧
    sameInstant.senderPending 7 = 2 ∧ sameInstant.pendingOf 7 = 1 := by
  decide +kernel

end CrossShardCoordinator

end Quantos

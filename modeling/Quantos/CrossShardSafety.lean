import Quantos.CrossShard
import Quantos.Escrow

/-!
# Credited or refunded

The transfers of the coordinator, seen as an escrow book: a pending
transfer is an open one, its phase tells whether it was credited, and the
receipts are the closings (`book`). Each operation on the records is one
operation of the book (`book_lock`, `book_credit`, `book_closeAs`), and
the rest of a call does not touch them.

The book is safe when no transfer is opened under a used id and none is
refunded after it was credited. The coordinator checks neither: a timeout
or a rejection finalises a credited transfer like any other.
-/

namespace Quantos

open Table Runs

open Escrow (Book)

def TransferEvent.toEscrow : TransferEvent → Escrow.Event Hash
  | .credited txId => .credited txId
  | .finalized receipt => .closed receipt.txId (receipt.finalPhase = .rolledBack)

namespace TransferRecords

variable (pending : Table CrossShardTransaction.id)

def openState (txId : Hash) : Option Bool :=
  (pending.get txId).map fun tx => tx.phase = .credited

def book (r : TransferRecords) : Book Hash where
  state := openState r.pending
  events := r.events.map TransferEvent.toEscrow

/-- The book keeps its rules and every closing left a receipt. -/
structure Sound (r : TransferRecords) : Prop where
  kept : Escrow.Kept r.book
  receipted : ∀ txId ∈ Escrow.closedKeys r.book.events, r.receipts.get txId ≠ none

theorem openState_put (tx : CrossShardTransaction) : openState (pending.put tx)
      = Function.update (openState pending) tx.id (some (tx.phase = .credited)) := by
  funext txId
  unfold openState
  rw [get_put, Function.update_apply]
  by_cases h : tx.id = txId
  · rw [if_pos h, if_pos h.symm]
    rfl
  · rw [if_neg h, if_neg (Ne.symm h)]

theorem openState_erase (txId : Hash) :
    openState (pending.erase txId) = Function.update (openState pending) txId none := by
  funext k
  unfold openState
  rw [get_erase, Function.update_apply]
  by_cases h : txId = k
  · rw [if_pos h, if_pos h.symm]
    rfl
  · rw [if_neg h, if_neg (Ne.symm h)]

theorem openState_eq_none {pending : Table CrossShardTransaction.id} {txId : Hash} :
    openState pending txId = none ↔ pending.get txId = none :=
  Option.map_eq_none_iff

end TransferRecords

namespace CrossShardCoordinator

open TransferRecords

/-! ## The operations on the records -/

variable {tx : CrossShardTransaction}

theorem book_lock (cc : CrossShardCoordinator) (h : tx.phase = .locked) :
    (cc.lock tx).book = Escrow.step cc.book (.open tx.id) := by
  refine congrArg (Book.mk · _) ?_
  rw [show (cc.lock tx).pending = cc.pending.put tx from rfl, openState_put, h]
  rfl

theorem book_credit {cc : CrossShardCoordinator} {txId : Hash} :
    (cc.credit txId).book = Escrow.step cc.book (.credit txId) := by
  show _ = if openState cc.pending txId = none then _ else _
  unfold credit setPhase
  cases hget : cc.pending.get txId with
  | none => rw [if_pos (openState_eq_none.mpr hget)]
  | some tx =>
    have hopen : openState cc.pending txId ≠ none := by
      rw [Ne, openState_eq_none, hget]
      exact Option.some_ne_none _
    rw [if_neg hopen]
    obtain rfl : tx.id = txId := key_of_get hget
    refine (Book.mk.injEq ..).mpr ⟨openState_put _ _, ?_⟩
    exact List.map_append

variable {cc : CrossShardCoordinator} (io : CrossShardContext) {txId : Hash}

theorem closeAs_of_none (h : cc.pending.get txId = none) (phase : CrossShardPhase)
    (success : Bool) (error : Option String) :
    cc.closeAs io txId phase success error = (.error (.transactionNotFound txId), cc) := by
  unfold closeAs setPhase finalizeTransaction
  rw [h]
  rw [h]

theorem uncountSender_records (cc : CrossShardCoordinator) (sender : Address) :
    (cc.uncountSender sender).toTransferRecords = cc.toTransferRecords := by
  unfold uncountSender
  split <;> rfl

/-- The phase set on the way out shows nowhere: the receipt does not carry
it and the transfer is removed at once. -/
theorem closeAs_of_some (h : cc.pending.get txId = some tx) {phase : CrossShardPhase}
    {success : Bool} {error : Option String} :
    (cc.closeAs io txId phase success error).1 = .ok () ∧
      (cc.closeAs io txId phase success error).2.toTransferRecords
        = { pending := (cc.pending.put { tx with phase := phase }).erase txId
            receipts := cc.receipts.put (receiptOf io tx txId success error)
            events := cc.events ++ [.finalized (receiptOf io tx txId success error)] } := by
  obtain rfl : tx.id = txId := key_of_get h
  have hget : (cc.setPhase tx.id phase).pending.get tx.id = some { tx with phase := phase } := by
    unfold setPhase
    rw [h]
    exact get_put_self ..
  have hset : (cc.setPhase tx.id phase).toTransferRecords
      = { cc.toTransferRecords with pending := cc.pending.put { tx with phase := phase } } := by
    unfold setPhase
    rw [h]
  unfold closeAs finalizeTransaction
  rw [hget]
  refine ⟨rfl, ?_⟩
  have hrecords := (uncountSender_records (cc.setPhase tx.id phase) tx.sender).trans hset
  dsimp only
  rw [hrecords]
  rfl

theorem book_closeAs (cc : CrossShardCoordinator) (txId : Hash) (phase : CrossShardPhase)
    (success : Bool) (error : Option String) :
    (cc.closeAs io txId phase success error).2.book
      = Escrow.step cc.book (.close txId (!success)) := by
  show _ = if openState cc.pending txId = none then _ else _
  cases hget : cc.pending.get txId with
  | none => rw [if_pos (openState_eq_none.mpr hget), closeAs_of_none io hget]
  | some tx =>
    have hopen : openState cc.pending txId ≠ none := by
      rw [Ne, openState_eq_none, hget]
      exact Option.some_ne_none _
    rw [if_neg hopen, (closeAs_of_some io hget).2]
    obtain rfl : tx.id = txId := key_of_get hget
    refine (Book.mk.injEq ..).mpr ⟨?_, ?_⟩
    · rw [openState_erase, openState_put, Function.update_idem]
      rfl
    · rw [List.map_append]
      cases success <;> rfl

/-! ## What keeps the records sound -/

theorem sound_new (config : CrossShardConfig) (token : Hash) : (new config token).Sound where
  kept := Escrow.kept_empty
  receipted := fun _ h => absurd h List.not_mem_nil

theorem sound_lock (h : cc.Sound) (hphase : tx.phase = .locked)
    (hpending : cc.pending.get tx.id = none) (hreceipt : cc.receipts.get tx.id = none) :
    (cc.lock tx).Sound where
  kept := by
    rw [book_lock cc hphase]
    refine Escrow.kept_open h.kept ⟨openState_eq_none.mpr hpending, fun hclosed => ?_⟩
    exact h.receipted tx.id hclosed hreceipt
  receipted := h.receipted

theorem sound_credit (h : cc.Sound) {txId : Hash} : (cc.credit txId).Sound := by
  refine ⟨book_credit ▸ Escrow.kept_credit h.kept txId, fun k hk => ?_⟩
  have hreceipts : (cc.credit txId).receipts = cc.receipts := by
    unfold credit setPhase
    cases cc.pending.get txId <;> rfl
  rw [hreceipts]
  rw [book_credit] at hk
  exact h.receipted k (Escrow.closedKeys_credit cc.book txId ▸ hk)

variable {success : Bool}

theorem sound_closeAs (h : cc.Sound) {phase : CrossShardPhase} {error : Option String}
    (hcredited : success = false → openState cc.pending txId ≠ some true) :
    (cc.closeAs io txId phase success error).2.Sound := by
  refine ⟨?_, fun k hk => ?_⟩
  · rw [book_closeAs]
    refine Escrow.kept_close h.kept fun hrefund => hcredited ?_
    exact (Bool.not_eq_true' _).mp hrefund
  · cases hget : cc.pending.get txId with
    | none =>
      rw [closeAs_of_none io hget] at hk ⊢
      exact h.receipted k hk
    | some tx =>
      rw [(closeAs_of_some io hget).2]
      rw [book_closeAs] at hk
      by_cases heq : k = txId
      · subst heq
        have hput : (cc.receipts.put (receiptOf io tx k success error)).get k = some _ :=
          get_put_self cc.receipts (receiptOf io tx k success error)
        exact hput ▸ Option.some_ne_none _
      · rw [get_put_of_ne _ (Ne.symm heq)]
        exact h.receipted k (Escrow.mem_closedKeys_close heq hk)

variable {error : Option String}

theorem openState_closeAs {io : CrossShardContext} {txId' : Hash} {phase : CrossShardPhase}
    (h : openState cc.pending txId' ≠ some true) :
    openState (cc.closeAs io txId phase success error).2.pending txId' ≠ some true := by
  cases hget : cc.pending.get txId with
  | none => rwa [closeAs_of_none io hget]
  | some tx =>
    rw [(closeAs_of_some io hget).2]
    obtain rfl : tx.id = txId := key_of_get hget
    rw [openState_erase, openState_put, Function.update_idem, Function.update_apply]
    split
    · exact (nomatch ·)
    · exact h

theorem sound_expireAll (txIds : List Hash) : ∀ {cc : CrossShardCoordinator}, cc.Sound →
      (∀ txId ∈ txIds, openState cc.pending txId ≠ some true) →
      (cc.expireAll io txIds).2.Sound := by
  induction txIds with
  | nil => exact fun h _ => h
  | cons txId rest ih =>
    intro cc h hcredited
    have hclosed : (cc.closeAs io txId .timedOut false (some "Timeout")).2.Sound :=
      sound_closeAs io h fun _ => hcredited txId List.mem_cons_self
    have hrest : ∀ txId' ∈ rest, openState
        (cc.closeAs io txId .timedOut false (some "Timeout")).2.pending txId' ≠ some true :=
      fun txId' hmem => openState_closeAs (hcredited txId' (List.mem_cons_of_mem _ hmem))
    unfold expireAll
    split
    · rename_i heq
      exact heq ▸ hclosed
    rename_i heq
    rw [heq] at hclosed hrest
    exact ih hclosed hrest

/-! ## Calls -/

theorem sendToShard_frame (cc : CrossShardCoordinator) (shardId : ShardId)
    (message : CrossShardMessage) :
    ∃ sent, (cc.sendToShard io shardId message).2 = { cc with sent } := by
  unfold sendToShard
  split
  · split <;> exact ⟨_, rfl⟩
  · exact ⟨_, rfl⟩

section

variable (env : CrossShardPlatform) (io : CrossShardContext) (cc : CrossShardCoordinator)
  (tx : CrossShardTransaction)

theorem announce_frame : ∃ sent, (cc.announce env io tx).2 = { cc with sent } := by
  unfold announce
  split
  · exact ⟨_, rfl⟩
  dsimp only
  split <;> rename_i heq <;>
    exact (sendToShard_frame ..).imp fun _ => (congrArg Prod.snd heq).symm.trans

theorem refuse_frame (refusal : Refusal) :
    ∃ sent, (cc.refuse env io tx refusal).2 = { cc with sent } := by
  unfold refuse
  split
  · exact ⟨_, rfl⟩
  · split <;> rename_i heq <;>
      exact (sendToShard_frame ..).imp fun _ => (congrArg Prod.snd heq).symm.trans

end

variable {env : CrossShardPlatform}

theorem attachProof_ok {tx' : CrossShardTransaction} (h : cc.attachProof env tx = .ok tx') :
    ∃ proof, tx' = { tx with proof } := by
  unfold attachProof at h
  split at h
  · split at h
    · cases h
    · cases h
      exact ⟨_, rfl⟩
  · cases h
    exact ⟨_, rfl⟩

/-- The id the call would open is neither pending nor receipted. -/
def FreshId (env : CrossShardPlatform) (io : CrossShardContext) (cc : CrossShardCoordinator)
    (req : TransferRequest) : Prop :=
  cc.pending.get (generateTxId env io req.sender req.recipient req.amount) = none ∧
    cc.receipts.get (generateTxId env io req.sender req.recipient req.amount) = none

variable {req : TransferRequest} {io}

theorem sound_openTransfer (h : cc.Sound) (hfresh : cc.FreshId env io req) :
    (cc.openTransfer env io req).2.Sound := by
  unfold openTransfer
  split
  · exact h
  split
  · exact h
  rename_i tx heq
  obtain ⟨proof, rfl⟩ := attachProof_ok heq
  have hnonce : cc.takeNonce.Sound := h
  obtain ⟨sent, hsent⟩ := announce_frame env io (cc.takeNonce.lock _) _
  rw [hsent]
  exact sound_lock hnonce rfl hfresh.1 hfresh.2

theorem sound_initiateTransfer (h : cc.Sound) (hfresh : cc.FreshId env io req) :
    (cc.initiateTransfer env io req).2.Sound := by
  unfold initiateTransfer
  split
  · exact h
  split
  · exact h
  split
  · exact h
  split
  · exact h
  · have hcount : (cc.countSender req.sender).Sound := h
    exact sound_openTransfer hcount hfresh

theorem sound_handleIncomingTransfer {stateRoot : Hash} (h : cc.Sound) :
    (cc.handleIncomingTransfer env io tx stateRoot).2.Sound := by
  unfold handleIncomingTransfer
  split
  · obtain ⟨sent, hsent⟩ := refuse_frame env io cc tx _
    rw [hsent]
    exact h
  · obtain ⟨sent, hsent⟩ := sendToShard_frame io (cc.credit tx.id) _ _
    rw [hsent]
    exact sound_credit h

/-! ## Runs -/

def Credited (cc : CrossShardCoordinator) (txId : Hash) : Prop :=
  ∃ tx ∈ cc.pending.get txId, tx.phase = .credited

instance (cc : CrossShardCoordinator) (txId : Hash) : Decidable (cc.Credited txId) :=
  inferInstanceAs (Decidable (∃ tx ∈ cc.pending.get txId, tx.phase = .credited))

theorem credited_iff : cc.Credited txId ↔ openState cc.pending txId = some true := by
  unfold Credited openState
  cases cc.pending.get txId <;> simp

/-- The calls from outside: any message may be delivered, any number of
times and at any time, and the timeouts may be processed at any time. -/
inductive CoordinatorOp where
  | setCommitteeKeypair (keypair : MlDsa65Keypair)
  | registerShard (shardId : ShardId) (authToken : Hash)
  | initiateTransfer (req : TransferRequest) (io : CrossShardContext)
  | processMessage (message : CrossShardMessage) (io : CrossShardContext)
  | processTimeouts (io : CrossShardContext)

def step (env : CrossShardPlatform) (cc : CrossShardCoordinator) :
    CoordinatorOp → CrossShardCoordinator
  | .setCommitteeKeypair keypair => cc.setCommitteeKeypair keypair
  | .registerShard shardId authToken => (cc.registerShard shardId authToken).2
  | .initiateTransfer req io => (cc.initiateTransfer env io req).2
  | .processMessage message io => (cc.processMessage env io message).2
  | .processTimeouts io => (cc.processTimeouts io).2

/-- No id is used again, and neither a rejection nor a timeout meets a
credited transfer. -/
def Careful (env : CrossShardPlatform) (cc : CrossShardCoordinator) : CoordinatorOp → Prop
  | .initiateTransfer req io => cc.FreshId env io req
  | .processMessage message _ =>
    match message.msgType with
    | .reject txId _ => ¬ cc.Credited txId
    | _ => True
  | .processTimeouts io =>
    ∀ tx ∈ cc.pending.rows, tx.timestamp < cc.timeoutThreshold io → tx.phase ≠ .credited
  | _ => True

instance (env : CrossShardPlatform) (io : CrossShardContext) (cc : CrossShardCoordinator)
    (req : TransferRequest) : Decidable (cc.FreshId env io req) :=
  inferInstanceAs (Decidable (_ ∧ _))

instance (env : CrossShardPlatform) (cc : CrossShardCoordinator) :
    ∀ op, Decidable (cc.Careful env op)
  | .setCommitteeKeypair _ | .registerShard _ _ => isTrue trivial
  | .initiateTransfer req io => inferInstanceAs (Decidable (cc.FreshId env io req))
  | .processMessage ⟨.reject txId _, _, _, _, _, _, _⟩ _ =>
    inferInstanceAs (Decidable (¬ cc.Credited txId))
  | .processMessage ⟨.transfer _, _, _, _, _, _, _⟩ _ => isTrue trivial
  | .processMessage ⟨.confirm _, _, _, _, _, _, _⟩ _ => isTrue trivial
  | .processMessage ⟨.stateSync _ _, _, _, _, _, _, _⟩ _ => isTrue trivial
  | .processMessage ⟨.stateSyncResponse _, _, _, _, _, _, _⟩ _ => isTrue trivial
  | .processMessage ⟨.heartbeat, _, _, _, _, _, _⟩ _ => isTrue trivial
  | .processTimeouts _ => inferInstanceAs (Decidable (∀ tx ∈ _, _ → _))

theorem sound_processMessage {message : CrossShardMessage} (h : cc.Sound)
    (hcareful : cc.Careful env (.processMessage message io)) :
    (cc.processMessage env io message).2.Sound := by
  unfold processMessage
  split
  · exact h
  split
  · exact sound_handleIncomingTransfer h
  · exact sound_closeAs io h (nomatch ·)
  · rename_i txId reason heq
    simp only [Careful, heq] at hcareful
    exact sound_closeAs io h fun _ hcredited => hcareful (credited_iff.mpr hcredited)
  · exact h
  · exact h
  · exact h

theorem sound_processTimeouts (h : cc.Sound) (hcareful : cc.Careful env (.processTimeouts io)) :
    (cc.processTimeouts io).2.Sound := by
  have hexpired : (cc.expireAll io (cc.timedOut io)).2.Sound := by
    refine sound_expireAll io _ h fun txId hmem => ?_
    obtain ⟨tx, hfilter, rfl⟩ := List.mem_map.mp hmem
    obtain ⟨hwalk, hlate⟩ := List.mem_filter.mp hfilter
    have hrow : tx ∈ cc.pending.rows := (io.iteration_perm ..).mem_iff.mp hwalk
    intro hcredited
    obtain ⟨_, hget, hphase⟩ := credited_iff.mpr hcredited
    rw [get_of_mem hrow] at hget
    cases hget
    exact hcareful tx hrow (of_decide_eq_true hlate).1 hphase
  unfold processTimeouts
  split <;> rename_i heq <;> rw [heq] at hexpired <;> exact hexpired

theorem sound_step (cc : CrossShardCoordinator) (op : CoordinatorOp) (h : cc.Sound)
    (hcareful : cc.Careful env op) : (step env cc op).Sound := by
  cases op with
  | setCommitteeKeypair => exact h
  | registerShard shardId authToken =>
    show (cc.registerShard shardId authToken).2.Sound
    unfold registerShard
    split <;> exact h
  | initiateTransfer => exact sound_initiateTransfer h hcareful
  | processMessage => exact sound_processMessage h hcareful
  | processTimeouts => exact sound_processTimeouts h hcareful

def finalizedIds (events : List TransferEvent) : List Hash :=
  events.filterMap fun
    | .finalized receipt => some receipt.txId
    | .credited _ => none

/-- What is asked of the events: no transfer is credited and rolled back,
none is finalised twice. -/
structure CreditedOrRefunded (events : List TransferEvent) : Prop where
  exclusive : ∀ txId receipt, .credited txId ∈ events → .finalized receipt ∈ events →
    receipt.txId = txId → receipt.finalPhase ≠ .rolledBack
  once : (finalizedIds events).Nodup

theorem not_creditedOrRefunded {events : List TransferEvent} (hcredited : .credited txId ∈ events)
    (hrefunded : .finalized (receiptOf io tx txId false error) ∈ events) :
    ¬ CreditedOrRefunded events :=
  fun h => h.exclusive txId _ hcredited hrefunded rfl rfl

theorem finalizedIds_eq {events : List TransferEvent} :
    finalizedIds events = Escrow.closedKeys (events.map TransferEvent.toEscrow) := by
  unfold finalizedIds Escrow.closedKeys
  rw [List.filterMap_map]
  refine List.filterMap_congr fun event _ => ?_
  cases event <;> rfl

theorem Sound.creditedOrRefunded (h : cc.Sound) : CreditedOrRefunded cc.events where
  exclusive := by
    rintro txId receipt hcredited hfinal rfl hphase
    refine h.kept.safe.creditedOrRefunded receipt.txId ?_ ?_
    · exact List.mem_map.mpr ⟨_, hcredited, rfl⟩
    · refine List.mem_map.mpr ⟨_, hfinal, ?_⟩
      exact congrArg (Escrow.Event.closed _) (decide_eq_true hphase)
  once := finalizedIds_eq ▸ h.kept.safe.closedOnce

/-- In every run that opens transfers under new ids and in which neither a
rejection nor a timeout meets a credited transfer, no transfer is both
credited and rolled back and none is finalised twice. -/
theorem credited_or_refunded (env : CrossShardPlatform) (config : CrossShardConfig)
    (token : Hash) (ops : List CoordinatorOp)
    (hcareful : Runs.StepsMeet (step env) (Careful env) (new config token) ops) :
    CreditedOrRefunded (run (step env) (new config token) ops).events :=
  Sound.creditedOrRefunded
    (invariant_of_stepsMeet (I := fun cc => cc.Sound) sound_step (sound_new ..)
      hcareful)

/-! ## Sample runs -/

/-- Transfers are told apart by their nonce, signatures are empty. -/
def samplePlatform : CrossShardPlatform where
  hashData := digitHash
  verifyMlDsa65 := fun _ _ _ => true
  signMlDsa65 := fun _ _ => .ok []
  serialize := fun tx => .ok (leBytes 8 tx.nonce.toNat)

def sampleContext (now nanos : UInt64) : CrossShardContext where
  now := now
  nanos := nanos
  finalNow := now
  reachable := fun _ => true
  iteration := Table.rows
  iteration_perm := fun _ => .refl _

def sampleRequest : TransferRequest := ⟨0, 1, 7, 8, ⟨50#128⟩, 0⟩

def openingOps : List CoordinatorOp :=
  [.registerShard 0 0, .registerShard 1 0, .initiateTransfer sampleRequest (sampleContext 100 1)]

def opened : CrossShardCoordinator :=
  run (step samplePlatform) (new .default 0) openingOps

def sampleTx : CrossShardTransaction :=
  (opened.pending.get (generateTxId samplePlatform (sampleContext 100 1) 7 8 ⟨50#128⟩)).getD
    (opened.newTransaction samplePlatform (sampleContext 0 0) sampleRequest)

def sampleMessage (msgType : CrossShardMessageType) : CrossShardMessage :=
  ⟨msgType, 0, 1, [], [], 0, []⟩

/-- The transfer is delivered, the confirmation is lost, the timeout comes. -/
def lostConfirmation : List CoordinatorOp :=
  openingOps ++
    [.processMessage (sampleMessage (.transfer sampleTx)) (sampleContext 101 2),
      .processTimeouts (sampleContext 200 3)]

/-- Transfer and confirmation are delivered twice, and a second transfer
that nobody receives times out. -/
def redelivered : List CoordinatorOp :=
  openingOps ++
    [.processMessage (sampleMessage (.transfer sampleTx)) (sampleContext 101 2),
      .processMessage (sampleMessage (.transfer sampleTx)) (sampleContext 102 3),
      .initiateTransfer sampleRequest (sampleContext 102 4),
      .processMessage (sampleMessage (.confirm sampleTx.id)) (sampleContext 103 5),
      .processMessage (sampleMessage (.confirm sampleTx.id)) (sampleContext 104 6),
      .processTimeouts (sampleContext 200 7)]

theorem credited_or_refunded_redelivered :
    .credited sampleTx.id ∈ (run (step samplePlatform) (new .default 0) redelivered).events ∧
      CreditedOrRefunded (run (step samplePlatform) (new .default 0) redelivered).events :=
  ⟨by decide +kernel, credited_or_refunded _ _ _ _ (by decide +kernel)⟩

/-- A credited transfer is rolled back by the timeout when its confirmation
does not arrive. -/
theorem lost_confirmation_refunds : ¬ CreditedOrRefunded
        (run (step samplePlatform) (new .default 0) lostConfirmation).events := by
  have hcredited : .credited sampleTx.id ∈
      (run (step samplePlatform) (new .default 0) lostConfirmation).events := by
    decide +kernel
  have hrefunded : .finalized
      (receiptOf (sampleContext 200 3) sampleTx sampleTx.id false (some "Timeout")) ∈
      (run (step samplePlatform) (new .default 0) lostConfirmation).events := by
    decide +kernel
  exact not_creditedOrRefunded hcredited hrefunded

end CrossShardCoordinator

end Quantos

import Quantos.Consensus
import Quantos.Platform
import Quantos.Runs

/-!
# Checkpoints and the finality layer

`types/checkpoint.rs` and `consensus/finality.rs`: a checkpoint is created
at a slot, collects signatures of validators in `pending_checkpoints`, and
is appended to `finalized_checkpoints` once the stake that signed it
reaches two thirds of the active stake of the moment.

The DAG and the storage appear as what they answer to a call
(`CheckpointView`, `FinalizeContext`): the tips, the vertex count and the stored
state root when a checkpoint is created, the outcome of the two writes when
one is finalised. Both may fail, and the second one fails after the
checkpoint has been appended. The aggregated signature stored with a
finalised checkpoint is read by no call modelled here; it is one of these
answers too.

Each call is one step. `SignEffect` lists what the arrival of a signature
can do to the layer; the results of the later modules are by cases on it.
-/

namespace Quantos

/-! ## Checkpoints -/

def DOMAIN_CHECKPOINT : Bytes := asciiBytes "QUANTOS_CHECKPOINT_V1"

structure Checkpoint where
  epoch : UInt64
  slot : UInt64
  stateRoot : Hash
  dagRoot : Hash
  vertexCount : UInt64
  transactionCount : UInt64
  validators : List Address
  signature : Bytes
  timestamp : UInt64
  previousCheckpoint : Hash
deriving DecidableEq, Repr

namespace Checkpoint

variable (hashData : Bytes → Hash)

/-- Neither the validators nor the signature are hashed. -/
def hash (c : Checkpoint) : Hash :=
  hashData (leBytes 8 c.epoch.toNat ++ leBytes 8 c.slot.toNat ++ arrayBytes c.stateRoot
    ++ arrayBytes c.dagRoot ++ leBytes 8 c.vertexCount.toNat ++ leBytes 8 c.transactionCount.toNat
    ++ arrayBytes c.previousCheckpoint ++ leBytes 8 c.timestamp.toNat)

def signingData (c : Checkpoint) : Bytes :=
  withDomain DOMAIN_CHECKPOINT (arrayBytes (c.hash hashData))

/-- The checkpoint with its signers, as `finalize_checkpoint` stores it. -/
def sealed (c : Checkpoint) (validators : List Address) (signature : Bytes) : Checkpoint :=
  { c with validators, signature }

end Checkpoint

structure ValidatorSignature where
  validator : Address
  signature : Bytes
  timestamp : UInt64
deriving DecidableEq, Repr

/-! ## The Merkle root of the DAG tips -/

section Merkle

variable (hashData : Bytes → Hash)

/-- One level up: neighbours are hashed together, a last odd one with itself. -/
def merkleLevel : List Hash → List Hash
  | [] => []
  | [h] => [hashData (arrayBytes h ++ arrayBytes h)]
  | h :: h' :: rest => hashData (arrayBytes h ++ arrayBytes h') :: merkleLevel rest

/-- The `while` loop of `merkle_root`, for at most `rounds` levels. -/
def merkleRounds : Nat → List Hash → Hash
  | _, [] => 0
  | _, [h] => h
  | 0, h :: _ :: _ => h
  | rounds + 1, level => merkleRounds rounds (merkleLevel hashData level)

def merkleRoot (hashes : List Hash) : Hash := merkleRounds hashData hashes.length hashes

theorem merkleLevel_length (level : List Hash) :
    (merkleLevel hashData level).length = (level.length + 1) / 2 := by
  fun_induction merkleLevel hashData level with
  | case1 => rfl
  | case2 => simp
  | case3 h h' rest ih =>
    simp only [List.length_cons, ih]
    omega

end Merkle

/-! ## The layer -/

structure PendingCheckpoint where
  checkpoint : Checkpoint
  dagTips : List Hash
  signatures : List ValidatorSignature
  signers : Finset Address
  totalStakeSigned : U128

structure FinalityLayer where
  committeeManager : CommitteeManager
  pendingCheckpoints : Table (Prod.fst : Hash × PendingCheckpoint → Hash)
  finalizedCheckpoints : List Checkpoint
  checkpointInterval : UInt64
  lastCheckpointSlot : UInt64
  numShards : UInt16

structure FinalizedCheckpoint where
  checkpoint : Checkpoint
  signatures : List ValidatorSignature

/-- What DAG, storage and clock answer while a checkpoint is created. -/
structure CheckpointView where
  getTips : UInt16 → List Hash
  vertexCount : UInt64
  stateRoot : Except String (Option Hash)
  now : UInt64

/-- The aggregated signature, given raw signatures, public keys, message,
committee size and signer indices, and the outcome of the two writes. -/
structure FinalizeContext where
  aggregate : List Bytes → List Bytes → Bytes → Nat → List Nat → Option Bytes
  putCheckpoint : Except String Unit
  finalizeReachableFromTips : List Hash → Except String Unit

namespace FinalityLayer

variable {V : Type} (env : Platform V)

def new (committeeManager : CommitteeManager) (checkpointInterval : UInt64) (numShards : UInt16) :
    FinalityLayer where
  committeeManager := committeeManager
  pendingCheckpoints := Table.empty
  finalizedCheckpoints := []
  checkpointInterval := checkpointInterval
  lastCheckpointSlot := 0
  numShards := numShards

variable (fl : FinalityLayer)

/-- The hash of the last finalised checkpoint, zero before the first. -/
def head : Hash :=
  (fl.finalizedCheckpoints.getLast?.map (Checkpoint.hash env.hashData)).getD 0

def finalizedSlot : UInt64 :=
  (fl.finalizedCheckpoints.getLast?.map Checkpoint.slot).getD 0

variable (p : PendingCheckpoint) (view : CheckpointView) (signature : ValidatorSignature)

def collectDagState : List Hash :=
  (List.range fl.numShards.toNat).flatMap fun shardId => view.getTips (UInt16.ofNat shardId)

/-- The checkpoint `create_checkpoint` builds. -/
def nextCheckpoint (slot : UInt64) (stateRoot : Hash) : Checkpoint where
  epoch := slot / 32
  slot := slot
  stateRoot := stateRoot
  dagRoot := merkleRoot env.hashData (fl.collectDagState view)
  vertexCount := view.vertexCount
  transactionCount := 0
  validators := []
  signature := []
  timestamp := view.now
  previousCheckpoint := fl.head env

def store (hash : Hash) (p : PendingCheckpoint) : FinalityLayer :=
  { fl with pendingCheckpoints := fl.pendingCheckpoints.put (hash, p) }

/-- A checkpoint nobody has signed. -/
def unsigned (checkpoint : Checkpoint) (dagTips : List Hash) : PendingCheckpoint :=
  { checkpoint, dagTips, signatures := [], signers := ∅, totalStakeSigned := 0 }

def createCheckpoint (slot : UInt64) : Except ConsensusError Checkpoint × FinalityLayer :=
  match view.stateRoot with
  | .error e => (.error (.storageError e), fl)
  | .ok stateRoot =>
    let checkpoint := fl.nextCheckpoint env view slot (stateRoot.getD 0)
    (.ok checkpoint,
      fl.store (checkpoint.hash env.hashData) (unsigned checkpoint (fl.collectDagState view)))

/-- The subtraction wraps when the slot runs backwards. -/
def maybeCreateCheckpoint (currentSlot : UInt64) :
    Except ConsensusError (Option Checkpoint) × FinalityLayer :=
  if currentSlot - fl.lastCheckpointSlot < fl.checkpointInterval then (.ok none, fl)
  else
    match fl.createCheckpoint env view currentSlot with
    | (.error e, fl) => (.error e, fl)
    | (.ok checkpoint, fl) => (.ok (some checkpoint), { fl with lastCheckpointSlot := currentSlot })

/-! ### Signatures -/

/-- The checks on an arriving signature: nothing for one already counted,
otherwise the validator it is from. -/
def admitSignature (set : ValidatorSet) (p : PendingCheckpoint) (signature : ValidatorSignature) :
    Except ConsensusError (Option Validator) :=
  let name := "Validator " ++ debugArray signature.validator
  if signature.validator ∈ p.signers then .ok none
  else
    match set.getValidator signature.validator with
    | none => .error (.invalidValidator (name ++ " not found for checkpoint signature"))
    | some v =>
      if !v.active || v.jailed then
        .error (.unauthorized (name ++ " is not active in the finality set"))
      else if v.finalityPublicKey.isEmpty then
        .error (.invalidValidator (name ++ " has no registered finality public key"))
      else if !env.verifyMlDsa65 v.finalityPublicKey (p.checkpoint.signingData env.hashData)
          signature.signature then
        .error (.unauthorized ("Invalid checkpoint signature from validator "
          ++ debugArray signature.validator))
      else .ok (some v)

def record : PendingCheckpoint :=
  { p with
    signers := insert signature.validator p.signers
    signatures := p.signatures ++ [signature] }

def count (totalStakeSigned : U128) : PendingCheckpoint :=
  { record p signature with totalStakeSigned }

/-- The entries of the current set that signed: signature, key and index. -/
def contributions (set : ValidatorSet) (p : PendingCheckpoint) : List (Bytes × Bytes × Nat) :=
  set.validators.zipIdx.filterMap fun (v, i) =>
    if v.address ∈ p.signers then
      (p.signatures.find? fun s => s.validator = v.address).map fun s =>
        (s.signature, v.finalityPublicKey, i)
    else none

variable (io : FinalizeContext) (checkpointHash : Hash)

def aggregatedSignature (set : ValidatorSet) (p : PendingCheckpoint) : Bytes :=
  let parts := contributions set p
  if parts.isEmpty then p.checkpoint.signature
  else
    (io.aggregate (parts.map fun q => q.1) (parts.map fun q => q.2.1)
      (p.checkpoint.signingData env.hashData) set.validators.length
      (parts.map fun q => q.2.2)).getD p.checkpoint.signature

/-- The pending entry is gone whatever the writes answer; a failing second
write leaves the checkpoint in the list. -/
def finalizeCheckpoint : Except ConsensusError FinalizedCheckpoint × FinalityLayer :=
  match fl.pendingCheckpoints.get checkpointHash with
  | none => (.error (.invalidData "pending checkpoint missing during finalization"), fl)
  | some row =>
    let p := row.2
    let set := fl.committeeManager.validatorSet
    let checkpoint := p.checkpoint.sealed (p.signatures.map ValidatorSignature.validator)
      (aggregatedSignature env io set p)
    let fl := { fl with pendingCheckpoints := fl.pendingCheckpoints.erase checkpointHash }
    match io.putCheckpoint with
    | .error e => (.error (.storageError e), fl)
    | .ok _ =>
      let fl := { fl with finalizedCheckpoints := fl.finalizedCheckpoints ++ [checkpoint] }
      match io.finalizeReachableFromTips p.dagTips with
      | .error e => (.error (.storageError e), fl)
      | .ok _ => (.ok ⟨checkpoint, p.signatures⟩, fl)

/-- The stake is that of the moment of signing; the threshold is that of
the moment of the last signature. -/
def receiveCheckpointSignature (signature : ValidatorSignature) :
    Except ConsensusError (Option FinalizedCheckpoint) × FinalityLayer :=
  let set := fl.committeeManager.validatorSet
  match fl.pendingCheckpoints.get checkpointHash with
  | none => (.ok none, fl)
  | some row =>
    match admitSignature env set row.2 signature with
    | .error e => (.error e, fl)
    | .ok none => (.ok none, fl)
    | .ok (some v) =>
      match checkedAdd128 row.2.totalStakeSigned v.effectiveStake with
      | none =>
        (.error (.arithmeticOverflow "Checkpoint signed stake overflow"),
          fl.store checkpointHash (record row.2 signature))
      | some totalStakeSigned =>
        let fl := fl.store checkpointHash (count row.2 signature totalStakeSigned)
        if set.finalityThreshold ≤ totalStakeSigned then
          let (result, fl) := fl.finalizeCheckpoint env io checkpointHash
          (result.map some, fl)
        else (.ok none, fl)

end FinalityLayer

/-! ## Runs -/

/-- The calls that change the layer or the validator set it reads. -/
inductive FinalityOp where
  | create (slot : UInt64) (view : CheckpointView)
  | sign (checkpointHash : Hash) (signature : ValidatorSignature) (io : FinalizeContext)
  | addValidator (validator : Validator)
  | removeValidator (address : Address)
  | slash (address : Address) (percentage : UInt16)
  | jail (address : Address)

namespace FinalityLayer

variable {V : Type} (env : Platform V) (fl : FinalityLayer)

def setValidators (set : ValidatorSet) : FinalityLayer :=
  { fl with committeeManager := { fl.committeeManager with validatorSet := set } }

/-- A refused change leaves everything as it was. -/
def addValidator (fl : FinalityLayer) (validator : Validator) : FinalityLayer :=
  match fl.committeeManager.addValidator validator with
  | .error _ => fl
  | .ok committeeManager => { fl with committeeManager }

@[inherit_doc addValidator]
def slash (address : Address) (percentage : UInt16) : FinalityLayer :=
  match fl.committeeManager.validatorSet.slashValidator address percentage with
  | .error _ => fl
  | .ok (_, set) => fl.setValidators set

def step : FinalityOp → FinalityLayer
  | .create slot view => (fl.maybeCreateCheckpoint env view slot).2
  | .sign checkpointHash signature io =>
    (fl.receiveCheckpointSignature env io checkpointHash signature).2
  | .addValidator validator => fl.addValidator validator
  | .removeValidator address =>
    { fl with committeeManager := fl.committeeManager.removeValidator address }
  | .slash address percentage => fl.slash address percentage
  | .jail address => fl.setValidators (fl.committeeManager.validatorSet.jailValidator address)

/-! ## What a call can do -/

theorem maybeCreateCheckpoint_effect (view : CheckpointView) (slot : UInt64) :
    (fl.maybeCreateCheckpoint env view slot).2 = fl ∨
      ∃ stateRoot, (fl.maybeCreateCheckpoint env view slot).2
        = { fl.store ((fl.nextCheckpoint env view slot stateRoot).hash env.hashData)
              (unsigned (fl.nextCheckpoint env view slot stateRoot) (fl.collectDagState view)) with
            lastCheckpointSlot := slot } := by
  unfold maybeCreateCheckpoint
  split
  · exact Or.inl rfl
  unfold createCheckpoint
  cases view.stateRoot with
  | error => exact Or.inl rfl
  | ok stateRoot => exact Or.inr ⟨stateRoot.getD 0, rfl⟩

/-- A signature that passes the checks. -/
structure Admitted (set : ValidatorSet) (p : PendingCheckpoint) (signature : ValidatorSignature)
    (v : Validator) : Prop where
  fresh : signature.validator ∉ p.signers
  found : set.getValidator signature.validator = some v
  active : v.active = true
  unjailed : v.jailed = false
  valid : env.verifyMlDsa65 v.finalityPublicKey (p.checkpoint.signingData env.hashData)
    signature.signature = true

theorem admitted_of_admitSignature {set : ValidatorSet} {p : PendingCheckpoint}
    {signature : ValidatorSignature} {v : Validator}
    (h : admitSignature env set p signature = .ok (some v)) : Admitted env set p signature v := by
  unfold admitSignature at h
  split at h
  · cases h
  rename_i hfresh
  split at h
  · cases h
  rename_i w hw
  split at h
  · cases h
  rename_i hactive
  split at h
  · cases h
  split at h
  · cases h
  rename_i hvalid
  cases h
  simp only [Bool.or_eq_true, Bool.not_eq_true', not_or] at hactive
  exact ⟨hfresh, hw, by simpa using hactive.1, by simpa using hactive.2,
    by simpa using hvalid⟩

/-- A signature for a pending checkpoint that passes the checks and whose
stake can be added. -/
structure Counted (fl : FinalityLayer) (checkpointHash : Hash) (signature : ValidatorSignature)
    (p : PendingCheckpoint) (v : Validator) (totalStakeSigned : U128) : Prop where
  pending : fl.pendingCheckpoints.get checkpointHash = some (checkpointHash, p)
  admitted : Admitted env fl.committeeManager.validatorSet p signature v
  added : checkedAdd128 p.totalStakeSigned v.effectiveStake = some totalStakeSigned

/-- The layers the arrival of a signature can lead to. -/
inductive SignEffect (fl : FinalityLayer) (checkpointHash : Hash)
    (signature : ValidatorSignature) : FinalityLayer → Prop
  | ignored : SignEffect fl checkpointHash signature fl
  | overflowed {p : PendingCheckpoint} {v : Validator}
      (pending : fl.pendingCheckpoints.get checkpointHash = some (checkpointHash, p))
      (admitted : Admitted env fl.committeeManager.validatorSet p signature v)
      (full : checkedAdd128 p.totalStakeSigned v.effectiveStake = none) :
      SignEffect fl checkpointHash signature (fl.store checkpointHash (record p signature))
  | recorded {p : PendingCheckpoint} {v : Validator} {totalStakeSigned : U128}
      (counted : Counted env fl checkpointHash signature p v totalStakeSigned)
      (below : ¬ fl.committeeManager.validatorSet.finalityThreshold ≤ totalStakeSigned) :
      SignEffect fl checkpointHash signature
        (fl.store checkpointHash (count p signature totalStakeSigned))
  | dropped {p : PendingCheckpoint} {v : Validator} {totalStakeSigned : U128}
      (counted : Counted env fl checkpointHash signature p v totalStakeSigned) :
      SignEffect fl checkpointHash signature
        { fl with
          pendingCheckpoints := (fl.pendingCheckpoints.put
            (checkpointHash, count p signature totalStakeSigned)).erase checkpointHash }
  | finalised {p : PendingCheckpoint} {v : Validator} {totalStakeSigned : U128}
      {aggregated : Bytes}
      (counted : Counted env fl checkpointHash signature p v totalStakeSigned)
      (reached : fl.committeeManager.validatorSet.finalityThreshold ≤ totalStakeSigned) :
      SignEffect fl checkpointHash signature
        { fl with
          pendingCheckpoints := (fl.pendingCheckpoints.put
            (checkpointHash, count p signature totalStakeSigned)).erase checkpointHash
          finalizedCheckpoints := fl.finalizedCheckpoints ++
            [p.checkpoint.sealed ((p.signatures ++ [signature]).map ValidatorSignature.validator)
              aggregated] }

theorem finalizeCheckpoint_effect {fl : FinalityLayer} {io : FinalizeContext}
    {checkpointHash : Hash}
    {p : PendingCheckpoint}
    (h : fl.pendingCheckpoints.get checkpointHash = some (checkpointHash, p)) :
    (fl.finalizeCheckpoint env io checkpointHash).2
        = { fl with pendingCheckpoints := fl.pendingCheckpoints.erase checkpointHash }
      ∨ ∃ aggregated, (fl.finalizeCheckpoint env io checkpointHash).2
        = { fl with
            pendingCheckpoints := fl.pendingCheckpoints.erase checkpointHash
            finalizedCheckpoints := fl.finalizedCheckpoints ++
              [p.checkpoint.sealed (p.signatures.map ValidatorSignature.validator)
                aggregated] } := by
  unfold finalizeCheckpoint
  simp only [h]
  cases io.putCheckpoint with
  | error => exact Or.inl rfl
  | ok =>
    refine Or.inr ⟨aggregatedSignature env io fl.committeeManager.validatorSet p, ?_⟩
    cases io.finalizeReachableFromTips p.dagTips <;> rfl

theorem receiveCheckpointSignature_effect (fl : FinalityLayer) (io : FinalizeContext)
    (checkpointHash : Hash) (signature : ValidatorSignature) :
    SignEffect env fl checkpointHash signature
      (fl.receiveCheckpointSignature env io checkpointHash signature).2 := by
  unfold receiveCheckpointSignature
  cases hget : fl.pendingCheckpoints.get checkpointHash with
  | none => exact .ignored
  | some row =>
    obtain ⟨h, p⟩ := row
    obtain rfl : h = checkpointHash := Table.key_of_get hget
    dsimp only
    rcases hadmit : admitSignature env fl.committeeManager.validatorSet p signature
      with e | (_ | v)
    · exact .ignored
    · exact .ignored
    · have hadm := admitted_of_admitSignature env hadmit
      dsimp only
      cases hadd : checkedAdd128 p.totalStakeSigned v.effectiveStake with
      | none => exact .overflowed hget hadm hadd
      | some totalStakeSigned =>
        have hcounted : Counted env fl h signature p v totalStakeSigned := ⟨hget, hadm, hadd⟩
        dsimp only
        split
        · rename_i hreached
          have hstored :
              (fl.store h (count p signature totalStakeSigned)).pendingCheckpoints.get h
                = some (h, count p signature totalStakeSigned) :=
            Table.get_put_self _ (h, count p signature totalStakeSigned)
          rcases @finalizeCheckpoint_effect V env _ io h _ hstored with heq | ⟨_, heq⟩
          · rw [heq]
            exact .dropped hcounted
          · rw [heq]
            exact .finalised hcounted hreached
        · rename_i hbelow
          exact .recorded hcounted hbelow

/-- The signature an operation delivers. -/
def delivery : FinalityOp → Option ValidatorSignature
  | .sign _ signature _ => some signature
  | _ => none

/-- An operation is a creation, a signature, or changes the manager only. -/
theorem step_cases (op : FinalityOp) :
    (∃ slot view, op = .create slot view) ∨ (∃ h s io, op = .sign h s io) ∨
      delivery op = none ∧ ∃ committeeManager, fl.step env op = { fl with committeeManager } := by
  cases op with
  | create slot view => exact Or.inl ⟨slot, view, rfl⟩
  | sign checkpointHash signature io => exact Or.inr (Or.inl ⟨checkpointHash, signature, io, rfl⟩)
  | addValidator v =>
    refine Or.inr (Or.inr ⟨rfl, ?_⟩)
    show ∃ committeeManager, fl.addValidator v = { fl with committeeManager }
    unfold addValidator
    cases fl.committeeManager.addValidator v <;> exact ⟨_, rfl⟩
  | removeValidator => exact Or.inr (Or.inr ⟨rfl, _, rfl⟩)
  | slash a percentage =>
    refine Or.inr (Or.inr ⟨rfl, ?_⟩)
    show ∃ committeeManager, fl.slash a percentage = { fl with committeeManager }
    unfold slash
    cases fl.committeeManager.validatorSet.slashValidator a percentage <;> exact ⟨_, rfl⟩
  | jail => exact Or.inr (Or.inr ⟨rfl, _, rfl⟩)

theorem step_finalizedCheckpoints {op : FinalityOp} (h : delivery op = none) :
    (fl.step env op).finalizedCheckpoints = fl.finalizedCheckpoints := by
  rcases fl.step_cases env op with ⟨slot, view, rfl⟩ | ⟨_, _, _, rfl⟩ | ⟨-, _, heq⟩
  · show (fl.maybeCreateCheckpoint env view slot).2.finalizedCheckpoints = _
    rcases maybeCreateCheckpoint_effect env fl view slot with heq | ⟨_, heq⟩ <;> rw [heq]
    rfl
  · cases h
  · rw [heq]

end FinalityLayer

/-! ## Sample values -/

def sampleValidator (id stake : Nat) : Validator where
  address := BitVec.ofNat 256 id
  publicKey := [1]
  finalityPublicKey := [1]
  stake := ⟨BitVec.ofNat 128 stake⟩
  commissionRate := 500
  active := true
  jailed := false
  slashCount := 0
  lastActiveSlot := 0
  vrfPublicKey := [1]

/-- A manager whose set holds validators 1, 2, 3, ... with the given stakes. -/
def sampleManager (stakes : List Nat) : CommitteeManager where
  validatorSet :=
    { validators := stakes.zipIdx.map fun (stake, i) => sampleValidator (i + 1) stake
      totalStake := ⟨BitVec.ofNat 128 stakes.sum⟩
      epoch := 0 }

/-- An empty DAG and storage. -/
def sampleView : CheckpointView := ⟨fun _ => [], 0, .ok none, 0⟩

/-- Writes that succeed. -/
def sampleContext : FinalizeContext := ⟨fun _ _ _ _ _ => none, .ok (), fun _ => .ok ()⟩

/-- The checkpoint created at a slot from `sampleView`. -/
def sampleCheckpoint (slot : UInt64) (previous : Hash) : Checkpoint :=
  ⟨slot / 32, slot, 0, 0, 0, 0, [], [], 0, previous⟩

def sampleSign (c : Checkpoint) (validator : Nat) : FinalityOp :=
  .sign (c.hash digitHash) ⟨BitVec.ofNat 256 validator, [], 0⟩ sampleContext

end Quantos

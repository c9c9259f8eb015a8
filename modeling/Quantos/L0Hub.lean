import Quantos.L0Proof

/-!
# The L0 finality hub

`FinalityHub` of `l0/hub.rs`. A call checks its checkpoint, goes through
the contributions of the validators, and, when the stake behind the valid
ones reaches the threshold, emits a proof and updates the hub: the last
proof hash, the head of the external chain, the archive, the metrics.

Each call is one step. What it gets from outside besides its arguments, the
clock and the outcome of the STARK prover, is its `ProofContext`. A prover
failure is only logged, so an answer of the prover is an `Option`. The
backoffs and the target chains of the configuration are read by no call
modelled here.
-/

namespace Quantos

structure L0Config where
  enabled : Bool
  stakeThresholdNum : U128
  stakeThresholdDen : U128
  attestationIntervalSlots : UInt64
  archiveProofs : Bool
  archiveCapacity : Nat

def saturatingMul128 (a b : U128) : U128 :=
  if a.toNat * b.toNat < 2 ^ 128 then a * b else BitVec.ofNat 128 (2 ^ 128 - 1)

namespace L0Config

def validate (c : L0Config) : Except String Unit :=
  if c.stakeThresholdDen = 0 then .error "stake_threshold_den must be non-zero"
  else if c.stakeThresholdNum = 0 ∨ c.stakeThresholdDen < c.stakeThresholdNum then
    .error "stake_threshold_num must be within (0, stake_threshold_den]"
  else if c.attestationIntervalSlots = 0 then .error "attestation_interval_slots must be > 0"
  else if c.archiveCapacity = 0 ∧ c.archiveProofs = true then
    .error "archive_capacity must be > 0 when archive_proofs is enabled"
  else .ok ()

/-- `ceil(total * num / den)`, with saturating words. -/
def requiredStake (c : L0Config) (totalStake : U128) : U128 :=
  let den := if c.stakeThresholdDen = 0 then 1 else c.stakeThresholdDen
  saturatingAdd128 (saturatingMul128 totalStake c.stakeThresholdNum) (den - 1) / den

end L0Config

structure HubMetrics where
  proofsProduced : UInt64
  proofsFailed : UInt64
  archivedProofs : UInt64

structure SignatureContribution where
  validator : Address
  algo : PqcSignatureAlgo
  signature : Bytes

/-! ## Equivocations -/

/-- Which block a validator signed at a chain and height. The two nested
maps of the source are one table over pairs. -/
structure EquivocationTracker where
  signedBlocks : Table (Prod.fst : (Address × String) × Hash → Address × String)
  offenders : List Address

namespace EquivocationTracker

def new : EquivocationTracker where
  signedBlocks := Table.empty
  offenders := []

variable (t : EquivocationTracker) (validator : Address)

def signedBlock (key : String) : Option Hash :=
  (t.signedBlocks.get (validator, key)).map Prod.snd

/-- Whether the signature is an equivocation, and the tracker after it. The
block recorded first stays. -/
def record (key : String) (blockHash : Hash) : Bool × EquivocationTracker :=
  match t.signedBlock validator key with
  | some existing =>
    if existing ≠ blockHash then
      (true, { t with
        offenders :=
          if t.offenders.contains validator then t.offenders
          else t.offenders ++ [validator] })
    else (false, t)
  | none => (false, { t with signedBlocks := t.signedBlocks.put ((validator, key), blockHash) })

def isOffender : Bool :=
  t.offenders.contains validator

end EquivocationTracker

/-! ## The hub -/

structure FinalityHub where
  config : L0Config
  metrics : HubMetrics
  lastProofHash : Hash
  /-- Oldest first. -/
  archive : List L0FinalityProof
  equivocations : EquivocationTracker
  /-- The block hash of the last proof for a chain, by the chain's name. -/
  lastBlockByChain : Table (Prod.fst : String × Hash → String)

structure SignerInput where
  validatorIndex : UInt32
  stake : U128
  sigCommitment : Hash
  isSigner : Bool

/-- What a call gets from outside: the clock, and the STARK prover. -/
structure ProofContext where
  nowMs : UInt64
  proveBatch : List SignerInput → BatchPublicInputs → Option StarkBatchProof

/-- Signatures attached so far and the stake behind them. -/
structure Tally where
  signatures : List ProofSignature
  signedStake : U128

namespace Tally

def empty : Tally := ⟨[], 0⟩

/-- The index is cut down to the `u32` of the wire format. -/
def push (t : Tally) (index : Nat) (validator : ValidatorRecord) (c : SignatureContribution) :
    Tally where
  signatures := t.signatures ++ [⟨UInt32.ofNat index, c.algo, c.signature⟩]
  signedStake := saturatingAdd128 t.signedStake validator.stake

end Tally

section

variable {V : Type} (env : Platform V) (snapshot : ValidatorSetSnapshot) (message : Bytes)

/-- `SignerInput::build_commitment`. -/
def SignerInput.buildCommitment (pubkey message rawSig : Bytes) : Hash :=
  env.hashData (pubkey ++ message ++ rawSig)

/-- The position and record a contribution is counted for: its validator is
in the snapshot, its signature is valid, and no signature with that index
is attached yet. -/
def admits (signatures : List ProofSignature) (c : SignatureContribution) : Option
    (Nat × ValidatorRecord) :=
  match snapshot.positionOf c.validator with
  | none => none
  | some index =>
    match snapshot.validators[index]? with
    | none => none
    | some validator =>
      if !env.verifyMlDsa65 validator.publicKey message c.signature then none
      else if signatures.any fun s => s.validatorIndex.toNat = index then none
      else some (index, validator)

/-- The loop body of `build_proof`, with the inputs of the STARK circuit. -/
def countNative (t : Tally × List SignerInput) (c : SignatureContribution) :
    Tally × List SignerInput :=
  match admits env snapshot message t.1.signatures c with
  | none => t
  | some (index, validator) =>
    (t.1.push index validator c,
      t.2.modify index fun si =>
        { si with
          isSigner := true
          sigCommitment :=
            SignerInput.buildCommitment env validator.publicKey message c.signature })

/-- What the loop of `build_external_proof` carries. -/
structure ExternalTally where
  tally : Tally
  equivocations : EquivocationTracker

/-- The loop body of `build_external_proof`, and whether a signature was
attached. Known offenders are passed over; a validator found signing a
second block is recorded, and its signature is not attached. -/
def countExternal (chainEpochKey : String) (blockHash : Hash) (t : ExternalTally)
    (c : SignatureContribution) : Bool × ExternalTally :=
  if t.equivocations.isOffender c.validator then (false, t)
  else
    match admits env snapshot message t.tally.signatures c with
    | none => (false, t)
    | some (index, validator) =>
      match t.equivocations.record c.validator chainEpochKey blockHash with
      | (true, equivocations) => (false, { t with equivocations })
      | (false, equivocations) => (true, ⟨t.tally.push index validator c, equivocations⟩)

/-- The loop, left once an attached signature reaches the threshold. -/
def collectExternal (snapshot : ValidatorSetSnapshot) (message : Bytes) (chainEpochKey : String)
    (blockHash : Hash) (required : U128) :
    ExternalTally → List SignatureContribution → ExternalTally
  | t, [] => t
  | t, c :: rest =>
    let (attached, t) := countExternal env snapshot message chainEpochKey blockHash t c
    if attached ∧ required ≤ t.tally.signedStake then t
    else collectExternal snapshot message chainEpochKey blockHash required t rest

/-- The proof with the outcome of the prover. -/
def L0FinalityProof.withStark (proof : L0FinalityProof) (ctx : ProofContext)
    (signers : List SignerInput) (inputs : BatchPublicInputs) : L0FinalityProof :=
  match ctx.proveBatch signers inputs with
  | some stark =>
    { proof with
      header := { proof.header with starkCommitment := stark.commitment }
      starkProof := some stark }
  | none => proof

namespace FinalityHub

/-- `self.metrics.proofs_failed.saturating_add(1)` and the like. -/
def saturatingSucc64 (n : UInt64) : UInt64 := if n.toNat + 1 < 2 ^ 64 then n + 1 else n

def new (config : L0Config) : Except L0Error FinalityHub :=
  match config.validate with
  | .error e => .error (.config e)
  | .ok () =>
    .ok { config, metrics := ⟨0, 0, 0⟩, lastProofHash := 0, archive := [],
          equivocations := .new, lastBlockByChain := Table.empty }

variable (hub : FinalityHub) (checkpoint : ExternalCheckpoint)

def updateConfig (config : L0Config) : Except L0Error Unit × FinalityHub :=
  match config.validate with
  | .error e => (.error (.config e), hub)
  | .ok () => (.ok (), { hub with config })

def countFailure : FinalityHub :=
  { hub with
    metrics := { hub.metrics with proofsFailed := saturatingSucc64 hub.metrics.proofsFailed } }

/-- The updates both calls make for an emitted proof. -/
def emit (proof : L0FinalityProof) : FinalityHub :=
  let archive :=
    if hub.config.archiveProofs then
      (if hub.config.archiveCapacity ≤ hub.archive.length then hub.archive.tail else hub.archive)
        ++ [proof]
    else hub.archive
  { hub with
    lastProofHash := proof.proofHash env
    archive
    metrics :=
      { hub.metrics with
        proofsProduced := saturatingSucc64 hub.metrics.proofsProduced
        archivedProofs :=
          if hub.config.archiveProofs then UInt64.ofNat archive.length
          else hub.metrics.archivedProofs } }

/-- A proof without signatures under the given header. -/
def draft (header : L0ProofHeader) (snapshot : ValidatorSetSnapshot) : L0FinalityProof where
  header
  validators := snapshot.validators
  signatures := []
  starkProof := none

variable (ctx : ProofContext) (checkpoint : ExternalCheckpoint) (snapshot : ValidatorSetSnapshot)
  (contributions : List SignatureContribution)

/-- The signer inputs before any signature is verified. -/
def idleSigners : List SignerInput :=
  snapshot.validators.zipIdx.map fun (v, i) =>
    { validatorIndex := UInt32.ofNat i, stake := v.stake, sigCommitment := 0, isSigner := false }

section

variable (checkpoint : Checkpoint) (snapshot : ValidatorSetSnapshot)

def nativeHeader : L0ProofHeader where
  version := L0_PROOF_VERSION
  externalChain := none
  epoch := checkpoint.epoch
  slot := checkpoint.slot
  previousProofHash := hub.lastProofHash
  stateRoot := checkpoint.stateRoot
  dagRoot := checkpoint.dagRoot
  parentBlockHash := checkpoint.previousCheckpoint
  chainWork := 0
  validatorSetRoot := snapshot.root
  totalStake := snapshot.totalStake
  stakeThreshold := hub.config.requiredStake snapshot.totalStake
  emittedAtMs := ctx.nowMs
  starkCommitment := 0
  checkpointHash := checkpoint.hash env.hashData

/-- What the loop over the contributions of `build_proof` ends with. -/
def nativeTally (contributions : List SignatureContribution) : Tally × List SignerInput :=
  contributions.foldl (countNative env snapshot (checkpoint.signingData env.hashData))
    (Tally.empty, idleSigners snapshot)

def buildProof (contributions : List SignatureContribution) :
    Except L0Error L0FinalityProof × FinalityHub :=
  if !hub.config.enabled then (.error (.config "L0 hub is disabled"), hub)
  else if checkpoint.slot = 0 ∧ checkpoint.epoch = 0 then
    (.error (.invalidCheckpoint "genesis checkpoint cannot be promoted"), hub)
  else if snapshot.validators.isEmpty then
    (.error (.unknownValidatorSet "snapshot has no validators"), hub)
  else
    let required := hub.config.requiredStake snapshot.totalStake
    let proof := draft (nativeHeader env hub ctx checkpoint snapshot) snapshot
    let (t, signerInputs) := nativeTally env checkpoint snapshot contributions
    if t.signedStake < required then
      (.error (.insufficientStake t.signedStake required), hub.countFailure)
    else
      let inputs :=
        { validatorSetRoot := snapshot.root
          messageHash := checkpoint.hash env.hashData
          signedStake := t.signedStake
          stakeThreshold := required
          signerCount := UInt32.ofNat t.signatures.length }
      let proof := { proof with signatures := t.signatures }.withStark ctx signerInputs inputs
      (.ok proof, hub.emit env proof)

end

/-- The error of the parent continuity check. -/
def continuityError : Option L0Error :=
  match hub.lastBlockByChain.get checkpoint.chainId.asStr with
  | some (_, lastHash) =>
    if checkpoint.parentBlockHash ≠ lastHash then
      some (.invalidCheckpoint ("Parent continuity broken: expected "
        ++ hexEncode (arrayBytes lastHash) ++ ", got "
        ++ hexEncode (arrayBytes checkpoint.parentBlockHash)))
    else none
  | none => none

/-- The error of the chain work check: only the last archived proof is
looked at, and only if it is of the same chain. -/
def chainWorkError : Option L0Error :=
  match hub.archive.getLast? with
  | some prev =>
    if prev.header.externalChain = some checkpoint.chainId
        ∧ checkpoint.chainWork ≤ prev.header.chainWork then
      some (.invalidCheckpoint ("Chain work did not advance: "
        ++ toString checkpoint.chainWork.toNat ++ " <= "
        ++ toString prev.header.chainWork.toNat))
    else none
  | none => none

def externalHeader : L0ProofHeader where
  version := L0_PROOF_VERSION
  externalChain := some checkpoint.chainId
  epoch := checkpoint.blockNumber
  slot := 0
  previousProofHash := hub.lastProofHash
  stateRoot := checkpoint.stateRoot
  dagRoot := checkpoint.blockHash
  parentBlockHash := checkpoint.parentBlockHash
  chainWork := checkpoint.chainWork
  validatorSetRoot := snapshot.root
  totalStake := snapshot.totalStake
  stakeThreshold := hub.config.requiredStake snapshot.totalStake
  emittedAtMs := ctx.nowMs
  starkCommitment := 0
  checkpointHash := 0

/-- `format!("{}:{}", chain_id, block_number)`. -/
def chainEpochKey : String :=
  checkpoint.chainId.asStr ++ ":" ++ toString checkpoint.blockNumber.toNat

/-- One circuit input per attached signature. -/
def externalSigners (proof : L0FinalityProof) (digest : Bytes) : List SignerInput :=
  proof.signatures.filterMap fun sig =>
    (proof.validatorOf sig).map fun v =>
      { validatorIndex := sig.validatorIndex
        stake := v.stake
        sigCommitment := SignerInput.buildCommitment env v.publicKey digest sig.signature
        isSigner := true }

def externalDraft : L0FinalityProof :=
  draft (externalHeader hub ctx checkpoint snapshot) snapshot

/-- What the loop over the contributions ends with. The digest it verifies
against is that of the draft. -/
def externalTally : ExternalTally :=
  collectExternal env snapshot
    (arrayBytes ((externalDraft hub ctx checkpoint snapshot).signingDigest env))
    (chainEpochKey checkpoint) checkpoint.blockHash (hub.config.requiredStake snapshot.totalStake)
    ⟨Tally.empty, hub.equivocations⟩ contributions

def buildExternalProof (verification : VerificationResult) :
    Except L0Error L0FinalityProof × FinalityHub :=
  if !verification.valid then
    (.error (.invalidCheckpoint (verification.reason.getD "Invalid external checkpoint")), hub)
  else if snapshot.validators.isEmpty then
    (.error (.unknownValidatorSet "snapshot has no validators"), hub)
  else
    match hub.continuityError checkpoint with
    | some e => (.error e, hub)
    | none =>
      match hub.chainWorkError checkpoint with
      | some e => (.error e, hub)
      | none =>
        let required := hub.config.requiredStake snapshot.totalStake
        let proof := externalDraft hub ctx checkpoint snapshot
        let digest := proof.signingDigest env
        let t := externalTally env hub ctx checkpoint snapshot contributions
        let hub := { hub with equivocations := t.equivocations }
        if t.tally.signedStake < required then
          (.error (.insufficientStake t.tally.signedStake required), hub.countFailure)
        else
          let proof := { proof with signatures := t.tally.signatures }
          let signerInputs := externalSigners env proof (arrayBytes digest)
          let inputs :=
            { validatorSetRoot := snapshot.root
              messageHash := digest
              signedStake := t.tally.signedStake
              stakeThreshold := required
              signerCount := UInt32.ofNat signerInputs.length }
          let proof := proof.withStark ctx signerInputs inputs
          (.ok proof,
            { hub with
              lastBlockByChain :=
                hub.lastBlockByChain.put (checkpoint.chainId.asStr, checkpoint.blockHash) }.emit
              env proof)

end FinalityHub

end

end Quantos

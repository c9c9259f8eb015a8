import Quantos.L0Proof
import Mathlib.Data.Sym.Sym2

/-!
# Slashing

`consensus/slashing.rs`: evidence is validated when it is submitted and waits
in a pool; `process_evidence` executes what is in the pool, takes stake from
the validator, and jails it where the offence asks for it.

An evidence names its offence twice, as an `OffenseType` and by the kind of
its data. The data is what `validateEvidence` looks at and the type is what
`executeSlashing` goes by. The identifier that keeps an evidence from being
executed again is a third field the submitter fills in.

The multiplier for repeat offenders is floating point and a field of the
configuration. Metrics are left out, nothing reads them.
-/

namespace Quantos

open List

def DOMAIN_SLASH_DOUBLE_SIGN : Bytes := asciiBytes "QUANTOS_SLASH_DS_V1"

def DOMAIN_SLASH_EQUIVOC : Bytes := asciiBytes "QUANTOS_SLASH_EQ_V1"

def DOMAIN_SLASH_INVALID_BLOCK : Bytes := asciiBytes "QUANTOS_SLASH_IBLOCK_V1"

def DOMAIN_SLASH_FRONT_RUN : Bytes := asciiBytes "QUANTOS_SLASH_FRUN_V1"

def MIN_VALIDATOR_STAKE : UInt64 := 10000

def MAX_VALIDATOR_STAKE : UInt64 := 1000000000000

/-- `hex::encode(&address[..8])`. -/
def shortHex (address : Address) : String := hexEncode ((arrayBytes address).take 8)

inductive SlashingError where
  | invalidEvidence (reason : String)
  | duplicateEvidence (id : Hash)
  | validatorNotFound (validator : String)
  | evidenceExpired (submitted current : UInt64)
  | insufficientStake (required available : UInt64)
  | alreadyJailed
  | signatureVerificationFailed
deriving DecidableEq, Repr

structure SlashingConfig where
  doubleSignPenaltyBps : UInt64
  surroundVotePenaltyBps : UInt64
  downtimePenaltyBps : UInt64
  invalidBlockPenaltyBps : UInt64
  equivocationPenaltyBps : UInt64
  frontRunningPenaltyBps : UInt64
  maxEvidenceAge : UInt64
  jailDuration : UInt64
  minStakeAfterSlash : UInt64
  reporterRewardBps : UInt64
  burnPercentageBps : UInt64
  progressiveSlashing : Bool
  /-- `(bps as f64 * progressive_multiplier.powi(count)) as u64`. -/
  progressive : UInt64 → Nat → UInt64

/-- The values of `Default`, over a multiplier. -/
def SlashingConfig.default (progressive : UInt64 → Nat → UInt64) : SlashingConfig where
  doubleSignPenaltyBps := 500
  surroundVotePenaltyBps := 500
  downtimePenaltyBps := 10
  invalidBlockPenaltyBps := 1000
  equivocationPenaltyBps := 500
  frontRunningPenaltyBps := 200
  maxEvidenceAge := 10000
  jailDuration := 50000
  minStakeAfterSlash := 1000
  reporterRewardBps := 1000
  burnPercentageBps := 5000
  progressiveSlashing := true
  progressive

/-! ## Offences and their evidence -/

inductive OffenseType where
  | doubleSigning
  | surroundVote
  | downtime
  | invalidBlock
  | equivocation
  | frontRunning
  | custom (name : String)
deriving DecidableEq, Repr

namespace OffenseType

def basePenaltyBps (config : SlashingConfig) : OffenseType → UInt64
  | doubleSigning => config.doubleSignPenaltyBps
  | surroundVote => config.surroundVotePenaltyBps
  | downtime => config.downtimePenaltyBps
  | invalidBlock => config.invalidBlockPenaltyBps
  | equivocation => config.equivocationPenaltyBps
  | frontRunning => config.frontRunningPenaltyBps
  | custom _ => 100

def resultsInJail : OffenseType → Bool
  | doubleSigning | surroundVote | invalidBlock | equivocation | frontRunning => true
  | downtime | custom _ => false

end OffenseType

/-- What an offence is punished with. -/
structure Penalty where
  basePenaltyBps : UInt64
  jailed : Bool

def OffenseType.penalty (config : SlashingConfig) (offense : OffenseType) : Penalty :=
  ⟨offense.basePenaltyBps config, offense.resultsInJail⟩

structure SignedMessage where
  messageHash : Hash
  slot : UInt64
  signature : Bytes

structure SignedVote where
  source : UInt64
  target : UInt64
  voteHash : Hash
  signature : Bytes

inductive DutyType where
  | blockProposal
  | attestation
  | syncCommittee
deriving DecidableEq, Repr

structure MissedDuty where
  slot : UInt64
  dutyType : DutyType
deriving DecidableEq, Repr

/-- The fields the validation reads. -/
inductive EvidenceData where
  | doubleSigning (message1 message2 : SignedMessage)
  | surroundVote (vote1 vote2 : SignedVote)
  | downtime (missedDuties : List MissedDuty)
  | invalidBlock (blockHash : Hash) (blockSlot : UInt64) (validationError : String)
      (proposerSignature : Bytes)
  | equivocation (vote1 vote2 : SignedVote)
  | frontRunning (block : UInt64) (orderingBeacon : Hash) (canonicalOrder proposedOrder : List Hash)
      (leaderSignature : Bytes)

structure SlashingEvidence where
  id : Hash
  offenseType : OffenseType
  validator : Address
  offenseSlot : UInt64
  reporter : Address
  evidenceData : EvidenceData

/-- The offence the data is evidence of. -/
def EvidenceData.kind : EvidenceData → OffenseType
  | doubleSigning .. => .doubleSigning
  | surroundVote .. => .surroundVote
  | downtime .. => .downtime
  | invalidBlock .. => .invalidBlock
  | equivocation .. => .equivocation
  | frontRunning .. => .frontRunning

/-! ## The manager -/

structure SlashingRecord where
  evidenceId : Hash
  offenseType : OffenseType
  amountSlashed : UInt64
  slashedAt : UInt64
  reporter : Address
  reporterReward : UInt64
  amountBurned : UInt64
  jailed : Bool

structure JailStatus where
  jailedAt : UInt64
  jailEndsAt : UInt64
  reason : OffenseType
  jailCount : UInt32

structure SlashingExecution where
  validator : Address
  totalSlashed : UInt64
  reporterReward : UInt64
  amountBurned : UInt64
  amountRedistributed : UInt64
  jailed : Bool
  newStake : UInt64

structure SlashingManager where
  config : SlashingConfig
  evidencePool : Table SlashingEvidence.id
  processedEvidence : Table (Prod.fst : Hash × UInt64 → Hash)
  slashingHistory : Table (Prod.fst : Address × List SlashingRecord → Address)
  jailStatus : Table (Prod.fst : Address × JailStatus → Address)
  validatorStakes : Table (Prod.fst : Address × UInt64 → Address)
  validatorPubkeys : Table (Prod.fst : Address × Bytes → Address)
  currentSlot : UInt64

/-- SHA3-256 and ML-DSA-65. -/
structure SlashingCrypto where
  hashData : Bytes → Hash
  verifyMlDsa65 : (publicKey message signature : Bytes) → Bool

/-- Any order in which the map of pending evidence may be walked. -/
structure PoolOrder where
  order : Table SlashingEvidence.id → List Hash
  order_perm : ∀ pool, (order pool).Perm (pool.rows.map SlashingEvidence.id)

def PoolOrder.asStored : PoolOrder :=
  ⟨fun pool => pool.rows.map SlashingEvidence.id, fun _ => .refl _⟩

namespace SlashingManager

def new (config : SlashingConfig) : SlashingManager where
  config
  evidencePool := Table.empty
  processedEvidence := Table.empty
  slashingHistory := Table.empty
  jailStatus := Table.empty
  validatorStakes := Table.empty
  validatorPubkeys := Table.empty
  currentSlot := 0

variable (m : SlashingManager) (validator : Address)

def stakeOf : Option UInt64 :=
  (m.validatorStakes.get validator).map Prod.snd

def getValidatorPubkey : Option Bytes :=
  (m.validatorPubkeys.get validator).map Prod.snd

def getSlashingHistory : List SlashingRecord :=
  ((m.slashingHistory.get validator).map Prod.snd).getD []

variable (stake : UInt64)

def checkStake : Except SlashingError Unit :=
  if stake < MIN_VALIDATOR_STAKE then .error (.insufficientStake MIN_VALIDATOR_STAKE stake)
  else if stake > MAX_VALIDATOR_STAKE then
    .error (.invalidEvidence ("Stake " ++ toString stake ++ " exceeds maximum "
      ++ toString MAX_VALIDATOR_STAKE))
  else .ok ()

def registerValidator : Except SlashingError Unit × SlashingManager :=
  match checkStake stake with
  | .error e => (.error e, m)
  | .ok () => (.ok (), { m with validatorStakes := m.validatorStakes.put (validator, stake) })

def registerValidatorWithPubkey (publicKey : Bytes) : Except SlashingError Unit × SlashingManager :=
  match checkStake stake with
  | .error e => (.error e, m)
  | .ok () =>
    (.ok (),
      { m with
        validatorStakes := m.validatorStakes.put (validator, stake)
        validatorPubkeys := m.validatorPubkeys.put (validator, publicKey) })

variable (crypto : SlashingCrypto)

/-! ## Validation -/

variable (m : SlashingManager) (validator : Address) (evidence : SlashingEvidence)

def registeredKey (missing : String) : Except SlashingError Bytes :=
  match m.getValidatorPubkey validator with
  | none => .error (.invalidEvidence (missing ++ shortHex validator))
  | some publicKey => .ok publicKey

def checkSignature (publicKey payload signature : Bytes) : Except SlashingError Unit :=
  if crypto.verifyMlDsa65 publicKey payload signature then .ok ()
  else .error .signatureVerificationFailed

/-- Two hashes signed under one domain. Neither slots nor epochs are part of
what is signed. -/
def checkSignedPair (domain : Bytes) (hash1 hash2 : Hash) (signature1 signature2 : Bytes) :
    Except SlashingError Unit := do
  let publicKey ← m.registeredKey validator "Validator public key not registered: "
  checkSignature crypto publicKey (withDomain domain (arrayBytes hash1)) signature1
  checkSignature crypto publicKey (withDomain domain (arrayBytes hash2)) signature2

def validateDoubleSigning (msg1 msg2 : SignedMessage) : Except SlashingError Unit :=
  if msg1.slot ≠ msg2.slot then .error (.invalidEvidence "Messages not from same slot")
  else if msg1.messageHash = msg2.messageHash then
    .error (.invalidEvidence "Messages are identical")
  else
    m.checkSignedPair crypto evidence.validator DOMAIN_SLASH_DOUBLE_SIGN msg1.messageHash
      msg2.messageHash msg1.signature msg2.signature

variable (vote1 vote2 : SignedVote)

def surrounds : Bool :=
  vote1.source < vote2.source && vote1.target > vote2.target

def validateSurroundVote : Except SlashingError Unit :=
  if ! surrounds vote1 vote2 && ! surrounds vote2 vote1 then
    .error (.invalidEvidence "Votes do not constitute a surround")
  else
    m.checkSignedPair crypto evidence.validator DOMAIN_SLASH_EQUIVOC vote1.voteHash
      vote2.voteHash vote1.signature vote2.signature

def validateEquivocation : Except SlashingError Unit :=
  if vote1.target ≠ vote2.target then .error (.invalidEvidence "Votes not for same target")
  else if vote1.voteHash = vote2.voteHash then .error (.invalidEvidence "Votes are identical")
  else
    m.checkSignedPair crypto evidence.validator DOMAIN_SLASH_EQUIVOC vote1.voteHash
      vote2.voteHash vote1.signature vote2.signature

/-- The position among the sorted addresses. -/
def getValidatorIndex : Nat :=
  let validators := (m.validatorStakes.rows.map Prod.fst).insertionSort fun a b =>
    a.toNat ≤ b.toNat
  if validators.contains validator then validators.idxOf validator else 0

/-- Eight bytes of a digest, as `u64::from_le_bytes`. -/
def seedWord (seed : Hash) (start : Nat) : Nat := leValue (((arrayBytes seed).drop start).take 8)

def verifyDutyAssignment (slot epoch : UInt64) (dutyType : DutyType) : Bool :=
  match m.stakeOf validator with
  | none => false
  | some stake =>
    if stake < m.config.minStakeAfterSlash then false
    else
      let seed := crypto.hashData
        (leBytes 8 epoch.toNat ++ leBytes 8 slot.toNat ++ arrayBytes validator)
      match dutyType with
      | .blockProposal =>
        let totalValidators := m.validatorStakes.rows.length
        totalValidators ≠ 0
          && seedWord seed 0 % totalValidators = m.getValidatorIndex validator
      | .attestation => seedWord seed 8 % 32 = slot.toNat % 32
      | .syncCommittee =>
        let syncHash := crypto.hashData
          (leBytes 8 (epoch / 256).toNat ++ arrayBytes validator)
        seedWord syncHash 0 < (2 ^ 64 - 1) / 512 * min (stake.toNat / 1000) 10

def dutyAssigned (duty : MissedDuty) : Bool :=
  m.verifyDutyAssignment crypto validator duty.slot (duty.slot / 32) duty.dutyType

/-- The loop of `validate_downtime`: how many of the duties are assigned. A
duty that is listed twice counts twice. -/
def countDuties (m : SlashingManager) (validator : Address) :
    List MissedDuty → Except SlashingError Nat
  | [] => .ok 0
  | duty :: duties =>
    if duty.slot > m.currentSlot then
      .error (.invalidEvidence ("Missed duty in future slot: " ++ toString duty.slot))
    else if m.currentSlot - duty.slot > m.config.maxEvidenceAge then
      .error (.invalidEvidence ("Missed duty too old: slot " ++ toString duty.slot))
    else
      match m.countDuties validator duties with
      | .error e => .error e
      | .ok verified =>
        .ok (if m.dutyAssigned crypto validator duty then verified + 1 else verified)

def MINIMUM_MISSED : Nat := 10

def validateDowntime (missedDuties : List MissedDuty) : Except SlashingError Unit :=
  if missedDuties = [] then .error (.invalidEvidence "No missed duties provided")
  else
    match m.countDuties crypto evidence.validator missedDuties with
    | .error e => .error e
    | .ok verified =>
      if verified < MINIMUM_MISSED then
        .error (.invalidEvidence ("Not enough verified missed duties: " ++ toString verified
          ++ " (minimum " ++ toString MINIMUM_MISSED ++ ", submitted "
          ++ toString missedDuties.length ++ ")"))
      else .ok ()

def invalidBlockSigningData (blockSlot : UInt64) (blockHash : Hash) : Bytes :=
  withDomain DOMAIN_SLASH_INVALID_BLOCK
    (arrayBytes validator ++ leBytes 8 blockSlot.toNat ++ arrayBytes blockHash)

def validateInvalidBlock (blockHash : Hash) (blockSlot : UInt64) (validationError : String)
    (proposerSignature : Bytes) :
    Except SlashingError Unit :=
  if blockHash = 0#256 then .error (.invalidEvidence "Invalid block hash: empty")
  else if validationError = "" then .error (.invalidEvidence "No validation error provided")
  else if blockSlot > m.currentSlot then
    .error (.invalidEvidence ("Block in future slot: " ++ toString blockSlot))
  else if m.currentSlot - blockSlot > m.config.maxEvidenceAge then
    .error (.invalidEvidence ("Block too old: slot " ++ toString blockSlot))
  else if ! m.dutyAssigned crypto evidence.validator ⟨blockSlot, .blockProposal⟩ then
    .error (.invalidEvidence ("Validator was not assigned as block proposer for slot "
      ++ toString blockSlot))
  else do
    let publicKey ← m.registeredKey evidence.validator
      "Validator public key not registered for invalid block evidence: "
    checkSignature crypto publicKey
      (invalidBlockSigningData evidence.validator blockSlot blockHash) proposerSignature

def frontRunOrderSigningPayload (block : UInt64) (beacon : Hash) (txOrder : List Hash) : Bytes :=
  withDomain DOMAIN_SLASH_FRONT_RUN
    (leBytes 8 block.toNat ++ arrayBytes beacon ++ txOrder.flatMap arrayBytes)

def validateFrontRunning (block : UInt64) (orderingBeacon : Hash)
    (canonicalOrder proposedOrder : List Hash) (leaderSignature : Bytes) :
    Except SlashingError Unit :=
  if canonicalOrder = [] then .error (.invalidEvidence "empty canonical order")
  else if proposedOrder = [] then .error (.invalidEvidence "empty proposed order")
  else if canonicalOrder = proposedOrder then
    .error (.invalidEvidence "orders match; not front-running")
  else if ! m.dutyAssigned crypto evidence.validator ⟨block, .blockProposal⟩ then
    .error (.invalidEvidence ("validator was not block proposer for slot " ++ toString block))
  else do
    let publicKey ← m.registeredKey evidence.validator "validator public key not registered: "
    checkSignature crypto publicKey
      (frontRunOrderSigningPayload block orderingBeacon proposedOrder) leaderSignature

def validateEvidence : Except SlashingError Unit :=
  match m.stakeOf evidence.validator with
  | none => .error (.validatorNotFound (shortHex evidence.validator))
  | some _ =>
    match evidence.evidenceData with
    | .doubleSigning message1 message2 =>
      m.validateDoubleSigning crypto evidence message1 message2
    | .surroundVote vote1 vote2 => m.validateSurroundVote crypto evidence vote1 vote2
    | .downtime missedDuties => m.validateDowntime crypto evidence missedDuties
    | .invalidBlock blockHash blockSlot validationError proposerSignature =>
      m.validateInvalidBlock crypto evidence blockHash blockSlot validationError
        proposerSignature
    | .equivocation vote1 vote2 => m.validateEquivocation crypto evidence vote1 vote2
    | .frontRunning block orderingBeacon canonicalOrder proposedOrder leaderSignature =>
      m.validateFrontRunning crypto evidence block orderingBeacon canonicalOrder proposedOrder
        leaderSignature

/-- Only the ids of processed evidence are looked up. -/
def submitEvidence : Except SlashingError Hash × SlashingManager :=
  if (m.processedEvidence.get evidence.id).isSome then
    (.error (.duplicateEvidence evidence.id), m)
  else if evidence.offenseSlot > m.currentSlot then
    (.error (.invalidEvidence ("Evidence from future slot: offense_slot="
      ++ toString evidence.offenseSlot ++ ", current_slot=" ++ toString m.currentSlot)), m)
  else if m.currentSlot > evidence.offenseSlot + m.config.maxEvidenceAge then
    (.error (.evidenceExpired evidence.offenseSlot m.currentSlot), m)
  else
    match m.validateEvidence crypto evidence with
    | .error e => (.error e, m)
    | .ok () => (.ok evidence.id, { m with evidencePool := m.evidencePool.put evidence })

/-! ## Execution -/

def isJailed : Bool :=
  (m.jailStatus.get validator).elim false fun row => row.2.jailEndsAt > m.currentSlot

/-- The base rate, scaled for repeat offenders and capped at 100%. -/
def penaltyBps (basePenaltyBps : UInt64) : UInt64 :=
  let offenseCount := (m.getSlashingHistory validator).length
  min (if m.config.progressiveSlashing && offenseCount > 0 then
    m.config.progressive basePenaltyBps offenseCount else basePenaltyBps) 10000

def jail (reason : OffenseType) : SlashingManager :=
  let jailCount := (m.jailStatus.get validator).elim 1 fun row => row.2.jailCount + 1
  { m with
    jailStatus := m.jailStatus.put
      (validator, ⟨m.currentSlot, m.currentSlot + m.config.jailDuration, reason, jailCount⟩) }

/-- Take the stake, jail, and write the record. -/
def carryOut (currentStake : UInt64) (penalty : Penalty) : SlashingExecution × SlashingManager :=
  let validator := evidence.validator
  let slashAmount := currentStake * m.penaltyBps validator penalty.basePenaltyBps / 10000
  let reporterReward := slashAmount * m.config.reporterRewardBps / 10000
  let remaining := slashAmount - reporterReward
  let burnAmount := remaining * m.config.burnPercentageBps / 10000
  let newStake := if slashAmount ≤ currentStake then currentStake - slashAmount else 0
  let record : SlashingRecord :=
    ⟨evidence.id, evidence.offenseType, slashAmount, m.currentSlot, evidence.reporter,
      reporterReward, burnAmount, penalty.jailed⟩
  let history := m.getSlashingHistory validator
  let m := { m with validatorStakes := m.validatorStakes.put (validator, newStake) }
  let m := if penalty.jailed then m.jail validator evidence.offenseType else m
  (⟨validator, slashAmount, reporterReward, burnAmount, remaining - burnAmount, penalty.jailed,
      newStake⟩,
    { m with slashingHistory := m.slashingHistory.put (validator, history ++ [record]) })

/-- The declared type decides. -/
def appliedPenalty : Penalty :=
  evidence.offenseType.penalty m.config

def executeSlashing : Except SlashingError SlashingExecution × SlashingManager :=
  if m.isJailed evidence.validator then (.error .alreadyJailed, m)
  else
    match m.stakeOf evidence.validator with
    | none => (.error (.validatorNotFound (shortHex evidence.validator)), m)
    | some currentStake =>
      let (execution, m) := m.carryOut evidence currentStake (m.appliedPenalty evidence)
      (.ok execution, m)

/-- The loop of `process_evidence`, with the evidence behind each execution. -/
def processIds (m : SlashingManager) :
    List Hash → List (SlashingEvidence × SlashingExecution) × SlashingManager
  | [] => ([], m)
  | id :: ids =>
    match m.evidencePool.get id with
    | none => m.processIds ids
    | some evidence =>
      match executeSlashing { m with evidencePool := m.evidencePool.erase id } evidence with
      | (.error _, m) => m.processIds ids
      | (.ok execution, m) =>
        let m := { m with processedEvidence := m.processedEvidence.put (id, m.currentSlot) }
        let (rest, m) := m.processIds ids
        ((evidence, execution) :: rest, m)

def processEvidence (order : PoolOrder) (m : SlashingManager) :
    List SlashingExecution × SlashingManager :=
  let (done, m) := m.processIds (order.order m.evidencePool)
  (done.map Prod.snd, m)

def unjail : Except SlashingError Unit × SlashingManager :=
  if m.isJailed validator then (.error .alreadyJailed, m)
  else (.ok (), { m with jailStatus := m.jailStatus.erase validator })

def pruneProcessedEvidence (beforeSlot : UInt64) : SlashingManager :=
  { m with processedEvidence := m.processedEvidence.keep fun row => row.2 ≥ beforeSlot }

/-! ## What a call can do -/

/-- Everything but stake, jail and history stays, and the history of the
validator has one record more, under the declared type. -/
structure Slashed (m : SlashingManager) (evidence : SlashingEvidence)
    (execution : SlashingExecution) (m' : SlashingManager) : Prop where
  config : m'.config = m.config
  evidencePool : m'.evidencePool = m.evidencePool
  processedEvidence : m'.processedEvidence = m.processedEvidence
  validatorPubkeys : m'.validatorPubkeys = m.validatorPubkeys
  history : ∀ validator, ∀ record ∈ m'.getSlashingHistory validator,
    record ∈ m.getSlashingHistory validator ∨
      validator = evidence.validator ∧ record.offenseType = evidence.offenseType
  jailed : execution.jailed = evidence.offenseType.resultsInJail

variable (m : SlashingManager)

theorem slashed_carryOut (evidence : SlashingEvidence) (currentStake : UInt64) :
    m.Slashed evidence (m.carryOut evidence currentStake (m.appliedPenalty evidence)).1
      (m.carryOut evidence currentStake (m.appliedPenalty evidence)).2 := by
  have hframe : ∀ m' : SlashingManager,
      (if (m.appliedPenalty evidence).jailed then
        m'.jail evidence.validator evidence.offenseType else m')
        = { m' with
            jailStatus := (if (m.appliedPenalty evidence).jailed then
              m'.jail evidence.validator evidence.offenseType else m').jailStatus } := by
    intro m'
    split <;> rfl
  unfold carryOut
  dsimp only
  rw [hframe]
  refine ⟨rfl, rfl, rfl, rfl, fun validator record hrecord => ?_, rfl⟩
  simp only [getSlashingHistory, Table.get_put] at hrecord
  split at hrecord
  · rename_i heq
    rcases mem_append.mp hrecord with hold | hnew
    · exact .inl (heq ▸ hold)
    · rw [mem_singleton.mp hnew]
      exact .inr ⟨heq.symm, rfl⟩
  · exact .inl hrecord

theorem executeSlashing_cases (evidence : SlashingEvidence) :
    (∃ e, m.executeSlashing evidence = (.error e, m)) ∨
      ∃ execution m', m.executeSlashing evidence = (.ok execution, m') ∧
        m.Slashed evidence execution m' := by
  unfold executeSlashing
  split
  · exact .inl ⟨_, rfl⟩
  split
  · exact .inl ⟨_, rfl⟩
  · exact .inr ⟨_, _, rfl, slashed_carryOut ..⟩

/-- What is true of the manager and of the executions so far when evidence
leaves the pool, executed or not, is true after the whole loop. -/
theorem processIds_induct {I : List (SlashingEvidence × SlashingExecution) → SlashingManager → Prop}
    (hskip : ∀ done (m : SlashingManager) id, I done m →
      I done { m with evidencePool := m.evidencePool.erase id })
    (hexecute : ∀ done (m : SlashingManager) evidence execution m', I done m →
      m.evidencePool.get evidence.id = some evidence →
      Slashed { m with evidencePool := m.evidencePool.erase evidence.id } evidence execution m' →
      I (done ++ [(evidence, execution)])
        { m' with processedEvidence := m'.processedEvidence.put (evidence.id, m'.currentSlot) })
    (ids : List Hash) : ∀ done (m : SlashingManager), I done m →
      I (done ++ (m.processIds ids).1) (m.processIds ids).2 := by
  induction ids with
  | nil =>
    intro done m h
    rwa [processIds, append_nil]
  | cons id ids ih =>
    intro done m h
    unfold processIds
    split
    · exact ih done m h
    rename_i evidence hget
    obtain rfl : evidence.id = id := Table.key_of_get hget
    rcases executeSlashing_cases { m with evidencePool := m.evidencePool.erase evidence.id }
      evidence with ⟨e, hfail⟩ | ⟨execution, m', hok, hslashed⟩
    · rw [hfail]
      exact ih done _ (hskip done m evidence.id h)
    rw [hok]
    have hstep := ih _ _ (hexecute done m evidence execution m' h hget hslashed)
    rwa [append_assoc, singleton_append] at hstep

theorem submitEvidence_cases (evidence : SlashingEvidence) :
    (∃ e, m.submitEvidence crypto evidence = (.error e, m)) ∨
      (m.processedEvidence.get evidence.id = none ∧
        m.validateEvidence crypto evidence = .ok () ∧
        m.submitEvidence crypto evidence
          = (.ok evidence.id, { m with evidencePool := m.evidencePool.put evidence })) := by
  unfold submitEvidence
  split
  · exact .inl ⟨_, rfl⟩
  rename_i hnew
  split
  · exact .inl ⟨_, rfl⟩
  split
  · exact .inl ⟨_, rfl⟩
  split
  · exact .inl ⟨_, rfl⟩
  · rename_i hvalid
    exact .inr ⟨Option.not_isSome_iff_eq_none.mp hnew, hvalid, rfl⟩

end SlashingManager

/-! ## Runs -/

inductive SlashingOp where
  | submit (evidence : SlashingEvidence)
  | process (order : PoolOrder)
  | setCurrentSlot (slot : UInt64)
  | register (validator : Address) (stake : UInt64)
  | registerWithPubkey (validator : Address) (stake : UInt64) (publicKey : Bytes)
  | unjail (validator : Address)
  | prune (beforeSlot : UInt64)

/-- The manager, and every execution of the run so far with its evidence. -/
structure SlashingLog where
  manager : SlashingManager
  executed : List (SlashingEvidence × SlashingExecution)

namespace SlashingLog

def start (config : SlashingConfig) : SlashingLog := ⟨.new config, []⟩

def step (crypto : SlashingCrypto) (s : SlashingLog) : SlashingOp → SlashingLog
  | .submit evidence => { s with manager := (s.manager.submitEvidence crypto evidence).2 }
  | .process order =>
    let (done, manager) := s.manager.processIds (order.order s.manager.evidencePool)
    ⟨manager, s.executed ++ done⟩
  | .setCurrentSlot slot => { s with manager := { s.manager with currentSlot := slot } }
  | .register validator stake =>
    { s with manager := (s.manager.registerValidator validator stake).2 }
  | .registerWithPubkey validator stake publicKey =>
    { s with manager := (s.manager.registerValidatorWithPubkey validator stake publicKey).2 }
  | .unjail validator => { s with manager := (s.manager.unjail validator).2 }
  | .prune beforeSlot => { s with manager := s.manager.pruneProcessedEvidence beforeSlot }

end SlashingLog

end Quantos

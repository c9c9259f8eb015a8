import Quantos.L0Hub
import Quantos.L0Verifier

/-!
# What the hub emits

`buildProof_cases` and `buildExternalProof_cases` list what a call can do
to the hub; the results about runs of the hub are by cases on them.

A proof that is emitted is accepted by the verifier, with the stake of its
distinct signers (`emitted_proof_verifies`). The loops attach only valid
signatures, at most one for each index, and add the stake of each one
(`Tally.Counts`); the message is the one the verifier recovers from the
header, although the STARK commitment is filled in later. All this is about
indices that fit the `u32` of the wire format: a snapshot of more than
`2 ^ 32` validators is cut down to it silently.
-/

namespace Quantos

open List

variable {V : Type} {env : Platform V}

/-! ## The loops over the contributions -/

variable {snapshot : ValidatorSetSnapshot} {message : Bytes} {index : Nat}

theorem admits_eq_some {signatures : List ProofSignature} {c : SignatureContribution}
    {validator : ValidatorRecord}
    (h : admits env snapshot message signatures c = some (index, validator)) :
    snapshot.validators[index]? = some validator ∧ validator.address = c.validator ∧
      env.verifyMlDsa65 validator.publicKey message c.signature = true ∧
      ∀ sig ∈ signatures, sig.validatorIndex.toNat ≠ index := by
  unfold admits at h
  rcases hposition : snapshot.positionOf c.validator with _ | position
  · rw [hposition] at h
    cases h
  rw [hposition] at h
  dsimp only at h
  rcases hrecord : snapshot.validators[position]? with _ | record
  · rw [hrecord] at h
    cases h
  rw [hrecord] at h
  dsimp only at h
  split_ifs at h with hinvalid hduplicate
  obtain ⟨rfl, rfl⟩ := Prod.mk.inj (Option.some.inj h)
  obtain ⟨hlt, hfound, -⟩ := findIdx?_eq_some_iff_getElem.mp hposition
  have haddress : record.address = c.validator := by
    rw [getElem?_eq_getElem hlt] at hrecord
    rw [← Option.some.inj hrecord]
    exact of_decide_eq_true hfound
  refine ⟨hrecord, haddress, by simpa using hinvalid, ?_⟩
  intro sig hsig hindex
  exact hduplicate (any_eq_true.mpr ⟨sig, hsig, decide_eq_true hindex⟩)

/-- Valid signatures, at most one for each index, and their stake. -/
structure Tally.Counts (env : Platform V) (snapshot : ValidatorSetSnapshot) (message : Bytes)
    (t : Tally) : Prop where
  valid : ∀ sig ∈ t.signatures, ∃ v, snapshot.validators[sig.validatorIndex.toNat]? = some v ∧
    env.verifyMlDsa65 v.publicKey message sig.signature = true
  nodup : (t.signatures.map fun sig => sig.validatorIndex.toNat).Nodup
  stake : t.signedStake = saturatingStake
    (t.signatures.filterMap fun sig => snapshot.validators[sig.validatorIndex.toNat]?)

theorem Tally.Counts.empty (snapshot : ValidatorSetSnapshot) (message : Bytes) :
    Tally.empty.Counts env snapshot message where
  valid := by simp [Tally.empty]
  nodup := nodup_nil
  stake := rfl

theorem saturatingStake_append_singleton (records : List ValidatorRecord) (v : ValidatorRecord) :
    saturatingStake (records ++ [v]) = saturatingAdd128 (saturatingStake records) v.stake := by
  simp [saturatingStake]

theorem toNat_ofNat_index (hnarrow : snapshot.validators.length ≤ 2 ^ 32) {v : ValidatorRecord}
    (h : snapshot.validators[index]? = some v) : (UInt32.ofNat index).toNat = index := by
  have hlt := (List.getElem?_eq_some_iff.mp h).1
  rw [UInt32.toNat_ofNat', Nat.mod_eq_of_lt (by omega)]

theorem Tally.Counts.push {t : Tally} (ht : t.Counts env snapshot message)
    (hnarrow : snapshot.validators.length ≤ 2 ^ 32) {c : SignatureContribution}
    {validator : ValidatorRecord}
    (h : admits env snapshot message t.signatures c = some (index, validator)) :
    (t.push index validator c).Counts env snapshot message := by
  obtain ⟨hrecord, -, hverify, hfresh⟩ := admits_eq_some h
  have hindex := toNat_ofNat_index hnarrow hrecord
  constructor
  · intro sig hsig
    rcases mem_append.mp hsig with hsig | hsig
    · exact ht.valid sig hsig
    · rw [mem_singleton.mp hsig, hindex]
      exact ⟨validator, hrecord, hverify⟩
  · simp only [Tally.push, map_append, map_cons, map_nil, hindex]
    refine nodup_append.mpr ⟨ht.nodup, nodup_singleton _, ?_⟩
    intro i hi j hj hij
    obtain ⟨sig, hsig, rfl⟩ := mem_map.mp hi
    exact hfresh sig hsig (hij.trans (mem_singleton.mp hj))
  · simp only [Tally.push, filterMap_append, filterMap_cons, filterMap_nil, hindex,
      hrecord, saturatingStake_append_singleton, ht.stake]

theorem countNative_keeps (hnarrow : snapshot.validators.length ≤ 2 ^ 32)
    {t : Tally × List SignerInput} (ht : t.1.Counts env snapshot message)
    (c : SignatureContribution) :
    (countNative env snapshot message t c).1.Counts env snapshot message := by
  unfold countNative
  rcases hadmits : admits env snapshot message t.1.signatures c with _ | ⟨_, _⟩
  · exact ht
  · exact ht.push hnarrow hadmits

/-- What the loop of `build_external_proof` keeps, if its body does. -/
theorem collectExternal_keeps {key : String} {blockHash : Hash} {required : U128}
    {I : ExternalTally → Prop}
    (hbody : ∀ t c, I t → I (countExternal env snapshot message key blockHash t c).2)
    {t : ExternalTally} (ht : I t) (contributions : List SignatureContribution) :
    I (collectExternal env snapshot message key blockHash required t contributions) := by
  induction contributions generalizing t with
  | nil => exact ht
  | cons c rest ih =>
    unfold collectExternal
    dsimp only
    split
    · exact hbody t c ht
    · exact ih (hbody t c ht)

/-- What the body of that loop can do: nothing, record an equivocation, or
attach the signature of a validator who has signed no other block. -/
theorem countExternal_cases (env : Platform V) (snapshot : ValidatorSetSnapshot) (message : Bytes)
    (key : String) (blockHash : Hash) (t : ExternalTally) (c : SignatureContribution) :
    (countExternal env snapshot message key blockHash t c).2 = t ∨
      (∃ tracker, t.equivocations.record c.validator key blockHash = (true, tracker) ∧
        (countExternal env snapshot message key blockHash t c).2
          = { t with equivocations := tracker }) ∨
      ∃ tracker index validator, t.equivocations.isOffender c.validator = false ∧
        admits env snapshot message t.tally.signatures c = some (index, validator) ∧
        t.equivocations.record c.validator key blockHash = (false, tracker) ∧
        (countExternal env snapshot message key blockHash t c).2
          = ⟨t.tally.push index validator c, tracker⟩ := by
  unfold countExternal
  rcases hoffender : t.equivocations.isOffender c.validator with _ | _
  · rcases hadmits : admits env snapshot message t.tally.signatures c with _ | ⟨index, validator⟩
    · exact .inl rfl
    · rcases hrecord : t.equivocations.record c.validator key blockHash with ⟨_ | _, tracker⟩
      · exact .inr (.inr ⟨tracker, index, validator, rfl, rfl, rfl, rfl⟩)
      · exact .inr (.inl ⟨tracker, rfl, rfl⟩)
  · exact .inl rfl

theorem countExternal_keeps {key : String} {blockHash : Hash}
    (hnarrow : snapshot.validators.length ≤ 2 ^ 32) {t : ExternalTally}
    (ht : t.tally.Counts env snapshot message) (c : SignatureContribution) :
    (countExternal env snapshot message key blockHash t c).2.tally.Counts env snapshot message := by
  rcases countExternal_cases env snapshot message key blockHash t c with
    h | ⟨tracker, -, h⟩ | ⟨tracker, _, _, -, hadmits, -, h⟩
  · rwa [h]
  · rwa [h]
  · rw [h]
    exact ht.push hnarrow hadmits

/-! ## What a call can do -/

/-- The proof is the draft with signatures and the outcome of the prover. -/
structure Completes (p draft : L0FinalityProof) (signatures : List ProofSignature) : Prop where
  header : ∃ commitment, p.header = { draft.header with starkCommitment := commitment }
  validators : p.validators = draft.validators
  signatures : p.signatures = signatures

theorem completes_withStark {draft : L0FinalityProof} {signatures : List ProofSignature}
    {ctx : ProofContext} {signers : List SignerInput} {inputs : BatchPublicInputs} :
    Completes ({ draft with signatures }.withStark ctx signers inputs) draft signatures := by
  unfold L0FinalityProof.withStark
  rcases ctx.proveBatch signers inputs with _ | stark
  · exact ⟨⟨draft.header.starkCommitment, rfl⟩, rfl, rfl⟩
  · exact ⟨⟨stark.commitment, rfl⟩, rfl, rfl⟩

theorem Completes.signingDigest {p draft : L0FinalityProof} {signatures : List ProofSignature}
    (h : Completes p draft signatures) : p.signingDigest env = draft.signingDigest env := by
  obtain ⟨_, hheader⟩ := h.header
  simp only [L0FinalityProof.signingDigest, L0FinalityProof.signingPreimage,
    L0FinalityProof.signingUpdates, hheader, h.validators]

namespace FinalityHub

/-- `build_proof` refuses and leaves the hub, counts a failure, or emits a
proof whose signed stake reaches the threshold. -/
theorem buildProof_cases (env : Platform V) (hub : FinalityHub) (ctx : ProofContext)
    (checkpoint : Checkpoint) (snapshot : ValidatorSetSnapshot)
    (contributions : List SignatureContribution) :
    (∃ e, hub.buildProof env ctx checkpoint snapshot contributions = (.error e, hub)) ∨
      (∃ e, hub.buildProof env ctx checkpoint snapshot contributions
        = (.error e, hub.countFailure)) ∨
      ∃ p, hub.buildProof env ctx checkpoint snapshot contributions = (.ok p, hub.emit env p) ∧
        Completes p (draft (nativeHeader env hub ctx checkpoint snapshot) snapshot)
          (nativeTally env checkpoint snapshot contributions).1.signatures ∧
        hub.config.requiredStake snapshot.totalStake
          ≤ (nativeTally env checkpoint snapshot contributions).1.signedStake := by
  unfold buildProof
  split_ifs with hdisabled hgenesis hempty
  · exact .inl ⟨_, rfl⟩
  · exact .inl ⟨_, rfl⟩
  · exact .inl ⟨_, rfl⟩
  · dsimp only
    split_ifs with hstake
    · exact .inr (.inl ⟨_, rfl⟩)
    · exact .inr (.inr ⟨_, rfl, completes_withStark, BitVec.not_lt.mp hstake⟩)

variable {hub : FinalityHub} {ctx : ProofContext} {p : L0FinalityProof} (n : Nat)

/-- The hub with a new head of the chain, and with who signed it. -/
def advanced (hub : FinalityHub) (checkpoint : ExternalCheckpoint)
    (equivocations : EquivocationTracker) : FinalityHub :=
  { hub with
    equivocations
    lastBlockByChain :=
      hub.lastBlockByChain.put (checkpoint.chainId.asStr, checkpoint.blockHash) }

/-- `build_external_proof` refuses and leaves the hub, fails with what it
has recorded, or emits a proof that passed the checks against the chain's
head and the last archived proof. -/
theorem buildExternalProof_cases (env : Platform V) (hub : FinalityHub) (ctx : ProofContext)
    (checkpoint : ExternalCheckpoint) (snapshot : ValidatorSetSnapshot)
    (contributions : List SignatureContribution) (verification : VerificationResult) :
    (∃ e, hub.buildExternalProof env ctx checkpoint snapshot contributions verification
        = (.error e, hub)) ∨
      (∃ e, hub.buildExternalProof env ctx checkpoint snapshot contributions verification
        = (.error e, countFailure
            { hub with
              equivocations :=
                (externalTally env hub ctx checkpoint snapshot contributions).equivocations })) ∨
      ∃ p, hub.buildExternalProof env ctx checkpoint snapshot contributions verification
          = (.ok p, emit env (hub.advanced checkpoint
              (externalTally env hub ctx checkpoint snapshot contributions).equivocations) p) ∧
        Completes p (externalDraft hub ctx checkpoint snapshot)
          (externalTally env hub ctx checkpoint snapshot contributions).tally.signatures ∧
        hub.continuityError checkpoint = none ∧ hub.chainWorkError checkpoint = none ∧
        hub.config.requiredStake snapshot.totalStake
          ≤ (externalTally env hub ctx checkpoint snapshot contributions).tally.signedStake := by
  unfold buildExternalProof
  split_ifs with hinvalid hempty
  · exact .inl ⟨_, rfl⟩
  · exact .inl ⟨_, rfl⟩
  · rcases hcontinuity : hub.continuityError checkpoint with _ | e
    · rcases hwork : hub.chainWorkError checkpoint with _ | e
      · dsimp only
        split_ifs with hstake
        · exact .inr (.inl ⟨_, rfl⟩)
        · exact .inr (.inr ⟨_, rfl, completes_withStark, rfl, rfl,
            BitVec.not_lt.mp hstake⟩)
      · exact .inl ⟨e, rfl⟩
    · exact .inl ⟨e, rfl⟩

theorem exists_buildProof {checkpoint : Checkpoint} {contributions : List SignatureContribution}
    (henabled : hub.config.enabled = true)
    (hgenesis : ¬ (checkpoint.slot = 0 ∧ checkpoint.epoch = 0)) (hne : snapshot.validators ≠ [])
    (hstake : hub.config.requiredStake snapshot.totalStake
      ≤ (nativeTally env checkpoint snapshot contributions).1.signedStake) :
    ∃ p, hub.buildProof env ctx checkpoint snapshot contributions = (.ok p, hub.emit env p) ∧
      Completes p (draft (nativeHeader env hub ctx checkpoint snapshot) snapshot)
        (nativeTally env checkpoint snapshot contributions).1.signatures := by
  unfold buildProof
  rw [if_neg (by simp [henabled]), if_neg hgenesis, if_neg (by simpa using hne)]
  dsimp only
  rw [if_neg (BitVec.not_lt.mpr hstake)]
  exact ⟨_, rfl, completes_withStark⟩

theorem exists_buildExternalProof {checkpoint : ExternalCheckpoint}
    {contributions : List SignatureContribution} {verification : VerificationResult}
    (hvalid : verification.valid = true) (hne : snapshot.validators ≠ [])
    (hcontinuity : hub.continuityError checkpoint = none)
    (hwork : hub.chainWorkError checkpoint = none)
    (hstake : hub.config.requiredStake snapshot.totalStake
      ≤ (externalTally env hub ctx checkpoint snapshot contributions).tally.signedStake) :
    ∃ p, hub.buildExternalProof env ctx checkpoint snapshot contributions verification
        = (.ok p, emit env (hub.advanced checkpoint
            (externalTally env hub ctx checkpoint snapshot contributions).equivocations) p) ∧
      Completes p (externalDraft hub ctx checkpoint snapshot)
        (externalTally env hub ctx checkpoint snapshot contributions).tally.signatures := by
  unfold buildExternalProof
  rw [if_neg (by simp [hvalid]), if_neg (by simpa using hne), hcontinuity, hwork]
  rw [if_neg (BitVec.not_lt.mpr hstake)]
  exact ⟨_, rfl, completes_withStark⟩

/-! ## Emitted proofs verify -/

theorem nativeTally_counts (hnarrow : snapshot.validators.length ≤ 2 ^ 32) {checkpoint : Checkpoint}
    {contributions : List SignatureContribution} :
    (nativeTally env checkpoint snapshot contributions).1.Counts env snapshot
      (checkpoint.signingData env.hashData) := by
  have hempty : (Tally.empty, idleSigners snapshot).1.Counts env snapshot
      (checkpoint.signingData env.hashData) := Tally.Counts.empty snapshot _
  refine List.foldlRecOn (motive := fun t : Tally × List SignerInput =>
    t.1.Counts env snapshot (checkpoint.signingData env.hashData)) contributions _ hempty ?_
  intro t ht c _
  exact countNative_keeps hnarrow ht c

theorem externalTally_counts (hnarrow : snapshot.validators.length ≤ 2 ^ 32) {hub : FinalityHub}
    {ctx : ProofContext} {checkpoint : ExternalCheckpoint}
    {contributions : List SignatureContribution} :
    (externalTally env hub ctx checkpoint snapshot contributions).tally.Counts env snapshot
      (arrayBytes ((externalDraft hub ctx checkpoint snapshot).signingDigest env)) := by
  unfold externalTally
  generalize arrayBytes ((externalDraft hub ctx checkpoint snapshot).signingDigest env) = message
  refine @collectExternal_keeps V env snapshot message _ _ _
    (fun t => t.tally.Counts env snapshot message) ?_ _ (Tally.Counts.empty snapshot message) _
  intro t c ht
  exact countExternal_keeps hnarrow ht c

/-- Stake of the validators the signatures name, each counted once. -/
def distinctSignerStake (p : L0FinalityProof) : Nat :=
  ∑ i ∈ (p.signatures.map fun sig => sig.validatorIndex.toNat).toFinset,
    WeightedQuorum.weightAt (fun v => v.stake.toNat) p.validators i

/-- Signatures with distinct indices: where the total fits, their stake is
that of the distinct signers. -/
theorem toNat_signedStake (hnodup : (p.signatures.map fun sig => sig.validatorIndex.toNat).Nodup)
    (hstake : stakeOf p.validators < 2 ^ 100) : p.signedStake.toNat = distinctSignerStake p := by
  have hsum : (List.map (fun v => v.stake.toNat) (p.signatures.filterMap p.validatorOf)).sum
      = distinctSignerStake p := by
    unfold distinctSignerStake
    rw [sum_toFinset _ hnodup, map_map]
    exact WeightedQuorum.total_filterMap _ _ _
  have hbound : distinctSignerStake p ≤ stakeOf p.validators :=
    WeightedQuorum.sum_weightAt_le _ _ _
  unfold L0FinalityProof.signedStake
  rw [toNat_saturatingStake, hsum]
  omega

/-- A completed draft verifies, if the tally is over the message the
verifier recovers. -/
theorem verifies_of_completes {header : L0ProofHeader} {t : Tally}
    (hp : Completes p (draft header snapshot) t.signatures)
    (ht : t.Counts env snapshot (p.signedMessage env))
    (hversion : header.version = L0_PROOF_VERSION) (hroot : header.validatorSetRoot = snapshot.root)
    (htotal : header.totalStake = snapshot.totalStake)
    (hthreshold : header.stakeThreshold ≤ t.signedStake)
    (hstake : stakeOf snapshot.validators < 2 ^ 100) :
    ∃ report, ExternalVerifier.verify env p snapshot = .ok report ∧ report.isFinal = true ∧
      report.signedStake.toNat = distinctSignerStake p := by
  obtain ⟨_, hheader⟩ := hp.header
  have hvalidators : p.validators = snapshot.validators := hp.validators
  have hmatches : ExternalVerifier.Matches p snapshot :=
    ⟨by rw [hheader]; exact hversion, by rw [hheader]; exact hroot, by rw [hvalidators],
      by rw [hheader]; exact htotal⟩
  have hvalid : ∀ sig ∈ p.signatures,
      ExternalVerifier.ValidSignature env p (p.signedMessage env) sig := by
    intro sig hsig
    rw [hp.signatures] at hsig
    obtain ⟨v, hv, hverify⟩ := ht.valid sig hsig
    exact ⟨v, by rw [L0FinalityProof.validatorOf, hvalidators]; exact hv, hverify⟩
  have hsigned : p.signedStake = t.signedStake := by
    unfold L0FinalityProof.signedStake L0FinalityProof.validatorOf
    rw [ht.stake, hp.signatures, hvalidators]
  obtain ⟨report, hreport, hreportStake, hreportThreshold, hinvalid⟩ :=
    ExternalVerifier.exists_report env hmatches hvalid
  refine ⟨report, hreport, ?_, ?_⟩
  · simp only [VerificationReport.isFinal, hinvalid, hreportThreshold, hreportStake, hsigned,
      hheader, decide_true, Bool.true_and]
    exact BitVec.ule_iff_le.mpr hthreshold
  · rw [hreportStake]
    exact toNat_signedStake (hp.signatures ▸ ht.nodup) (hvalidators ▸ hstake)

/-- Every proof the hub emits over a snapshot whose positions fit a `u32`
is reported final, with the stake of its distinct signers. -/
theorem emitted_proof_verifies (hub : FinalityHub) (ctx : ProofContext)
    (snapshot : ValidatorSetSnapshot) (contributions : List SignatureContribution)
    (p : L0FinalityProof) (hnarrow : snapshot.validators.length ≤ 2 ^ 32)
    (hstake : stakeOf snapshot.validators < 2 ^ 100) (hemitted :
      (∃ checkpoint : Checkpoint, checkpoint.hash env.hashData ≠ 0 ∧
        (hub.buildProof env ctx checkpoint snapshot contributions).1 = .ok p) ∨
      ∃ checkpoint verification,
        (hub.buildExternalProof env ctx checkpoint snapshot contributions verification).1 = .ok p) :
    ∃ report, ExternalVerifier.verify env p snapshot = .ok report ∧ report.isFinal = true ∧
      report.signedStake.toNat = distinctSignerStake p := by
  rcases hemitted with ⟨checkpoint, hhash, h⟩ | ⟨checkpoint, verification, h⟩
  · rcases buildProof_cases env hub ctx checkpoint snapshot contributions with
      ⟨e, hbuild⟩ | ⟨e, hbuild⟩ | ⟨q, hbuild, hcompletes, hthreshold⟩ <;> rw [hbuild] at h
    · cases h
    · cases h
    · obtain rfl := Except.ok.inj h
      obtain ⟨commitment, hheader⟩ := hcompletes.header
      have hmessage : q.signedMessage env = checkpoint.signingData env.hashData := by
        unfold L0FinalityProof.signedMessage
        rw [hheader]
        exact if_pos ⟨rfl, hhash⟩
      refine verifies_of_completes hcompletes ?_ rfl rfl rfl hthreshold hstake
      rw [hmessage]
      exact nativeTally_counts hnarrow
  · rcases buildExternalProof_cases env hub ctx checkpoint snapshot contributions verification with
      ⟨e, hbuild⟩ | ⟨e, hbuild⟩ | ⟨q, hbuild, hcompletes, -, -, hthreshold⟩ <;> rw [hbuild] at h
    · cases h
    · cases h
    · obtain rfl := Except.ok.inj h
      obtain ⟨commitment, hheader⟩ := hcompletes.header
      have hmessage : q.signedMessage env
          = arrayBytes ((externalDraft hub ctx checkpoint snapshot).signingDigest env) := by
        rw [← hcompletes.signingDigest]
        unfold L0FinalityProof.signedMessage
        rw [hheader]
        exact if_neg fun hnative => Option.some_ne_none _ hnative.1
      refine verifies_of_completes hcompletes ?_ rfl rfl rfl hthreshold hstake
      rw [hmessage]
      exact externalTally_counts hnarrow

/-- A configuration that asks for all the stake. -/
def unanimousConfig : L0Config where
  enabled := true
  stakeThresholdNum := 1
  stakeThresholdDen := 1
  attestationIntervalSlots := 32
  archiveProofs := true
  archiveCapacity := 1024

def freshHub (config : L0Config) : FinalityHub where
  config
  metrics := ⟨0, 0, 0⟩
  lastProofHash := 0
  archive := []
  equivocations := .new
  lastBlockByChain := Table.empty

/-- A prover that never succeeds. -/
def idleContext : ProofContext := ⟨0, fun _ _ => none⟩

def sampleCheckpoint : Checkpoint where
  epoch := 1
  slot := 1
  stateRoot := 2
  dagRoot := 3
  vertexCount := 0
  transactionCount := 0
  validators := []
  signature := []
  timestamp := 0
  previousCheckpoint := 4

/-- The signature of a validator of the sample snapshot on the checkpoint. -/
def sampleContribution (i : UInt8) : SignatureContribution :=
  ⟨BitVec.ofNat 256 i.toNat, .mlDsa65, i :: sampleCheckpoint.signingData digitHash⟩

/-- Three validators, one of them twice. -/
theorem emitted_proof_verifies_three :
    ∃ p, ((freshHub unanimousConfig).buildProof ExternalVerifier.keyedPlatform idleContext
        sampleCheckpoint ExternalVerifier.sampleSnapshot
        [sampleContribution 2, sampleContribution 1, sampleContribution 2,
          sampleContribution 3]).1 = .ok p ∧
      ∃ report, ExternalVerifier.verify ExternalVerifier.keyedPlatform p
          ExternalVerifier.sampleSnapshot = .ok report ∧ report.isFinal = true ∧
        report.signedStake.toNat = distinctSignerStake p := by
  have hstake : unanimousConfig.requiredStake ExternalVerifier.sampleSnapshot.totalStake
      ≤ (nativeTally ExternalVerifier.keyedPlatform sampleCheckpoint
          ExternalVerifier.sampleSnapshot
          [sampleContribution 2, sampleContribution 1, sampleContribution 2,
            sampleContribution 3]).1.signedStake := by
    decide +kernel
  obtain ⟨p, h, -⟩ := @exists_buildProof Unit ExternalVerifier.keyedPlatform
    ExternalVerifier.sampleSnapshot (freshHub unanimousConfig) idleContext sampleCheckpoint _ rfl
    (by decide) (by decide) hstake
  have hp := congrArg Prod.fst h
  exact ⟨p, hp, emitted_proof_verifies _ _ _ _ p (by decide) (by decide)
    (.inl ⟨sampleCheckpoint, by decide +kernel, hp⟩)⟩

/-! ## A snapshot too wide for the wire format -/

/-- Only the key `[1]` signs, and it signs everything. -/
def oneKeyPlatform : Platform Unit :=
  { Platform.sample with verifyMlDsa65 := fun publicKey _ _ => publicKey = [1] }

/-- Validator `i` of `n + 1`. The last one has the key and all the stake. -/
def wideRecord (i : Nat) : ValidatorRecord :=
  ⟨BitVec.ofNat 256 i, if i = n then [1] else [], if i = n then 1 else 0⟩

def wideSnapshot : ValidatorSetSnapshot where
  root := 0
  validators := (List.range (n + 1)).map (wideRecord n)

theorem wideSnapshot_getElem? {n i : Nat} (hi : i ≤ n) :
    (wideSnapshot n).validators[i]? = some (wideRecord n i) := by
  simp only [wideSnapshot, getElem?_map, getElem?_range (Nat.lt_succ_of_le hi), Option.map_some]

theorem stakeOf_wideSnapshot : stakeOf (wideSnapshot n).validators = 1 := by
  have hrest : ((List.range n).map fun i => (wideRecord n i).stake.toNat).sum = 0 := by
    refine sum_eq_zero fun w hw => ?_
    obtain ⟨i, hi, rfl⟩ := mem_map.mp hw
    simp [wideRecord, Nat.ne_of_lt (mem_range.mp hi)]
  have hlast : (wideRecord n n).stake.toNat = 1 := by simp [wideRecord]
  unfold stakeOf WeightedQuorum.total wideSnapshot
  rw [map_map, range_succ, map_append, sum_append]
  simp only [Function.comp_def, hrest, map_cons, map_nil, sum_cons, sum_nil,
    hlast, Nat.zero_add, Nat.add_zero]

theorem totalStake_wideSnapshot : (wideSnapshot n).totalStake = 1 := by
  refine BitVec.eq_of_toNat_eq ?_
  rw [ValidatorSetSnapshot.totalStake, toNat_saturatingStake]
  exact congrArg (min · (2 ^ 128 - 1)) (stakeOf_wideSnapshot n)

theorem wideAddress_inj {i j : Nat} (hi : i < 2 ^ 256) (hj : j < 2 ^ 256)
    (h : BitVec.ofNat 256 i = BitVec.ofNat 256 j) : i = j := by
  have htoNat := congrArg BitVec.toNat h
  rwa [BitVec.toNat_ofNat, BitVec.toNat_ofNat, Nat.mod_eq_of_lt hi, Nat.mod_eq_of_lt hj] at htoNat

theorem wideSnapshot_addresses {n : Nat} (hn : n < 2 ^ 256) :
    ((wideSnapshot n).validators.map ValidatorRecord.address).Nodup := by
  rw [wideSnapshot, map_map]
  refine List.Nodup.map_on ?_ nodup_range
  intro i hi j hj hij
  rw [mem_range] at hi hj
  exact wideAddress_inj (by omega) (by omega) hij

theorem admits_wideSnapshot {n : Nat} (hn : n < 2 ^ 256) (message signature : Bytes) :
    admits oneKeyPlatform (wideSnapshot n) message [] ⟨BitVec.ofNat 256 n, .mlDsa65, signature⟩
      = some (n, wideRecord n n) := by
  have hposition : (wideSnapshot n).positionOf (BitVec.ofNat 256 n) = some n := by
    have hlength : n < (wideSnapshot n).validators.length := by simp [wideSnapshot]
    refine findIdx?_eq_some_iff_getElem.mpr ⟨hlength, ?_, ?_⟩
    · simp [wideSnapshot, wideRecord]
    · intro j hj
      have hne : BitVec.ofNat 256 j ≠ BitVec.ofNat 256 n := by
        intro hjn
        have hsame := wideAddress_inj (by omega) hn hjn
        omega
      simpa [wideSnapshot, wideRecord] using hne
  have hvalid : oneKeyPlatform.verifyMlDsa65 (wideRecord n n).publicKey message signature
      = true := by
    simp [oneKeyPlatform, wideRecord]
  simp only [admits, hposition, wideSnapshot_getElem? (Nat.le_refl n), hvalid, Bool.not_true,
    Bool.false_eq_true, if_false, any_nil]

theorem requiredStake_wideSnapshot :
    unanimousConfig.requiredStake (wideSnapshot n).totalStake = 1 := by
  rw [totalStake_wideSnapshot]
  decide

/-- The signature of the last validator is attached under the index that is
left of `n`, and the proof that is emitted is not final. -/
theorem exists_wide_proof {n : Nat} (hn : n < 2 ^ 256) (hcut : UInt32.ofNat n = 0) (hpos : 0 < n) :
    ∃ p, ((freshHub unanimousConfig).buildProof oneKeyPlatform idleContext sampleCheckpoint
        (wideSnapshot n) [⟨BitVec.ofNat 256 n, .mlDsa65, []⟩]).1 = .ok p ∧
      ExternalVerifier.reportedFinal oneKeyPlatform p (wideSnapshot n) = false := by
  have htally : (nativeTally oneKeyPlatform sampleCheckpoint (wideSnapshot n)
      [⟨BitVec.ofNat 256 n, .mlDsa65, []⟩]).1 = ⟨[⟨0, .mlDsa65, []⟩], 1⟩ := by
    simp only [nativeTally, foldl_cons, foldl_nil, countNative, Tally.empty,
      admits_wideSnapshot hn, Tally.push, wideRecord, if_true, hcut]
    rfl
  have hne : (wideSnapshot n).validators ≠ [] := by simp [wideSnapshot]
  have hstake : unanimousConfig.requiredStake (wideSnapshot n).totalStake
      ≤ (nativeTally oneKeyPlatform sampleCheckpoint (wideSnapshot n)
        [⟨BitVec.ofNat 256 n, .mlDsa65, []⟩]).1.signedStake := by
    rw [requiredStake_wideSnapshot, htally]
    exact BitVec.le_refl _
  obtain ⟨p, h, hcompletes⟩ := @exists_buildProof Unit oneKeyPlatform (wideSnapshot n)
    (freshHub unanimousConfig) idleContext sampleCheckpoint _ rfl (by decide) hne hstake
  refine ⟨p, by rw [h], ?_⟩
  rw [Bool.eq_false_iff]
  intro hfinal
  obtain ⟨v, hv, hverify⟩ := ((ExternalVerifier.reportedFinal_iff _).mp hfinal).2.1
    ⟨0, .mlDsa65, []⟩ (by rw [hcompletes.signatures, htally]; exact mem_singleton_self _)
  have hvalidators : p.validators = (wideSnapshot n).validators := hcompletes.validators
  rw [L0FinalityProof.validatorOf, hvalidators] at hv
  obtain rfl := Option.some.inj ((wideSnapshot_getElem? (Nat.zero_le n)).symm.trans hv)
  -- validator 0 does not have the key
  simp [oneKeyPlatform, wideRecord, Nat.ne_of_lt hpos] at hverify

/-- Over `2 ^ 32 + 1` validators the hub emits a proof that is not final. -/
theorem wide_proof_not_final : FinalityHub.new unanimousConfig = .ok (freshHub unanimousConfig) ∧
      ((wideSnapshot (2 ^ 32)).validators.map ValidatorRecord.address).Nodup ∧
      stakeOf (wideSnapshot (2 ^ 32)).validators < 2 ^ 100 ∧
      sampleCheckpoint.hash oneKeyPlatform.hashData ≠ 0 ∧
      ∃ p, ((freshHub unanimousConfig).buildProof oneKeyPlatform idleContext sampleCheckpoint
          (wideSnapshot (2 ^ 32)) [⟨BitVec.ofNat 256 (2 ^ 32), .mlDsa65, []⟩]).1 = .ok p ∧
        ExternalVerifier.reportedFinal oneKeyPlatform p (wideSnapshot (2 ^ 32)) = false := by
  refine ⟨rfl, wideSnapshot_addresses (by decide), ?_, by decide +kernel,
    exists_wide_proof (by decide) (by decide) (by decide)⟩
  rw [stakeOf_wideSnapshot]
  decide

end FinalityHub

end Quantos

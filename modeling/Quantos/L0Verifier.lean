import Quantos.L0Proof

/-!
# What a final L0 proof says

A report is final when no signature failed and the stake behind them
reaches the threshold of the header. `reportedFinal_iff` reads this off the
loop of the verifier.

Two things a relayer takes from a final proof do not follow. The keys and
stakes are those of the list inside the proof, of which only the length is
compared with the snapshot, and a signature may be repeated; so the stake
counted need not be stake of the snapshot. It is enough exactly if what is
counted for repetitions and for records of the proof's own can be spared
(`verify_sound_iff`). And the
signatures of a native proof are over its checkpoint hash, which nothing
ties to the other fields of the header, so the content can be replaced
(`final_withContent`) unless the proof has no checkpoint hash
(`content_covered_iff`).
-/

namespace Quantos

open List

/-- Total stake, as a number. -/
def stakeOf (records : List ValidatorRecord) : Nat :=
  WeightedQuorum.total (fun v => v.stake.toNat) records

namespace ExternalVerifier

variable {V : Type} (env : Platform V)

/-- The proof carries a record for the signature, and the signature is
valid under the key of that record. -/
def ValidSignature (proof : L0FinalityProof) (message : Bytes) (sig : ProofSignature) : Prop :=
  ∃ validator, proof.validatorOf sig = some validator ∧
    env.verifyMlDsa65 validator.publicKey message sig.signature = true

/-- What `verify` compares before it looks at a signature. -/
structure Matches (proof : L0FinalityProof) (snapshot : ValidatorSetSnapshot) : Prop where
  version : proof.header.version = L0_PROOF_VERSION
  root : proof.header.validatorSetRoot = snapshot.root
  length : proof.validators.length = snapshot.validators.length
  totalStake : proof.header.totalStake = snapshot.totalStake

/-- `verify` returns a report that is final. -/
def reportedFinal (proof : L0FinalityProof) (snapshot : ValidatorSetSnapshot) : Bool :=
  match verify env proof snapshot with
  | .ok report => report.isFinal
  | .error _ => false

/-! ## The loop over the signatures -/

section Loop

variable {env} {proof : L0FinalityProof} {message : Bytes} {sig : ProofSignature}

theorem countSignature_of_valid {validator : ValidatorRecord}
    (hvalidator : proof.validatorOf sig = some validator)
    (hvalid : env.verifyMlDsa65 validator.publicKey message sig.signature = true)
    (report : VerificationReport) :
    countSignature env proof message report sig
      = { report with
          validSignatures := report.validSignatures + 1
          signedStake := saturatingAdd128 report.signedStake validator.stake } := by
  simp only [countSignature, hvalidator, hvalid, if_true]

theorem countSignature_of_not_valid (h : ¬ ValidSignature env proof message sig)
    (report : VerificationReport) :
    countSignature env proof message report sig
      = { report with invalidSignatures := report.invalidSignatures + 1 } := by
  unfold countSignature
  rcases hvalidator : proof.validatorOf sig with _ | validator
  · rfl
  · exact if_neg fun hvalid => h ⟨validator, hvalidator, hvalid⟩

variable (sigs : List ProofSignature) (report : VerificationReport)

theorem invalidSignatures_le_foldl : report.invalidSignatures
      ≤ (sigs.foldl (countSignature env proof message) report).invalidSignatures := by
  induction sigs generalizing report with
  | nil => exact Nat.le_refl _
  | cons sig sigs ih =>
    rw [foldl_cons]
    refine Nat.le_trans ?_ (ih _)
    by_cases h : ValidSignature env proof message sig
    · obtain ⟨_, hvalidator, hvalid⟩ := h
      rw [countSignature_of_valid hvalidator hvalid]
    · rw [countSignature_of_not_valid h]
      exact Nat.le_succ _

theorem invalidSignatures_foldl_eq_iff :
    (sigs.foldl (countSignature env proof message) report).invalidSignatures
        = report.invalidSignatures ↔ ∀ sig ∈ sigs, ValidSignature env proof message sig := by
  induction sigs generalizing report with
  | nil => simp
  | cons sig sigs ih =>
    rw [foldl_cons, forall_mem_cons]
    by_cases h : ValidSignature env proof message sig
    · obtain ⟨validator, hvalidator, hvalid⟩ := h
      rw [countSignature_of_valid hvalidator hvalid, ih]
      exact ⟨fun hrest => ⟨⟨validator, hvalidator, hvalid⟩, hrest⟩, fun hall => hall.2⟩
    rw [countSignature_of_not_valid h]
    constructor
    · intro heq
      have hle := @invalidSignatures_le_foldl V env proof message sigs
        { report with invalidSignatures := report.invalidSignatures + 1 }
      rw [heq] at hle
      exact absurd hle (Nat.not_succ_le_self _)
    · intro hall
      exact absurd hall.1 h

/-- With every signature valid, the stakes of the records named are added. -/
theorem signedStake_foldl {sigs : List ProofSignature}
    (h : ∀ sig ∈ sigs, ValidSignature env proof message sig) (report : VerificationReport) :
    (sigs.foldl (countSignature env proof message) report).signedStake
      = (sigs.filterMap proof.validatorOf).foldl (fun acc v => saturatingAdd128 acc v.stake)
          report.signedStake := by
  induction sigs generalizing report with
  | nil => rfl
  | cons sig sigs ih =>
    obtain ⟨⟨_, hvalidator, hvalid⟩, hrest⟩ := forall_mem_cons.mp h
    rw [foldl_cons, ih hrest, countSignature_of_valid hvalidator hvalid,
      filterMap_cons_some hvalidator, foldl_cons]

theorem stakeThreshold_foldl : (sigs.foldl (countSignature env proof message) report).stakeThreshold
      = report.stakeThreshold := by
  induction sigs generalizing report with
  | nil => rfl
  | cons sig sigs ih =>
    rw [foldl_cons, ih]
    unfold countSignature
    split
    · rfl
    · split <;> rfl

end Loop

variable {snapshot : ValidatorSetSnapshot} {proof : L0FinalityProof}

theorem verify_of_matches (h : Matches proof snapshot) : verify env proof snapshot
      = .ok (proof.signatures.foldl (countSignature env proof (proof.signedMessage env))
          { signedStake := 0, stakeThreshold := proof.header.stakeThreshold, validSignatures := 0,
            invalidSignatures := 0 }) := by
  unfold verify
  rw [if_neg (not_not.mpr h.version), if_neg (not_not.mpr h.root), if_neg (not_not.mpr h.length),
    if_neg (not_not.mpr h.totalStake)]

theorem matches_of_verify {report : VerificationReport}
    (h : verify env proof snapshot = .ok report) : Matches proof snapshot := by
  unfold verify at h
  split_ifs at h with hversion hroot hlength htotal
  exact ⟨not_not.mp hversion, not_not.mp hroot, not_not.mp hlength, not_not.mp htotal⟩

theorem exists_report (hmatches : Matches proof snapshot)
    (hvalid : ∀ sig ∈ proof.signatures, ValidSignature env proof (proof.signedMessage env) sig) :
    ∃ report, verify env proof snapshot = .ok report ∧ report.signedStake = proof.signedStake ∧
      report.stakeThreshold = proof.header.stakeThreshold ∧ report.invalidSignatures = 0 :=
  ⟨_, verify_of_matches env hmatches, signedStake_foldl hvalid _, stakeThreshold_foldl _ _,
    (invalidSignatures_foldl_eq_iff _ _).mpr hvalid⟩

/-- A final proof matches the snapshot, has only valid signatures, and the
stakes of the records they name reach its threshold. -/
theorem reportedFinal_iff : reportedFinal env proof snapshot = true ↔ Matches proof snapshot ∧
        (∀ sig ∈ proof.signatures, ValidSignature env proof (proof.signedMessage env) sig) ∧
        proof.meetsThreshold = true := by
  constructor
  · intro h
    unfold reportedFinal at h
    rcases hverify : verify env proof snapshot with e | report
    · rw [hverify] at h
      cases h
    have hmatches := matches_of_verify env hverify
    rw [hverify] at h
    obtain rfl := Except.ok.inj (hverify.symm.trans (verify_of_matches env hmatches))
    simp only [VerificationReport.isFinal, Bool.and_eq_true, decide_eq_true_eq] at h
    have hvalid := (invalidSignatures_foldl_eq_iff _ _).mp h.1
    rw [signedStake_foldl hvalid, stakeThreshold_foldl] at h
    exact ⟨hmatches, hvalid, h.2⟩
  · rintro ⟨hmatches, hvalid, hthreshold⟩
    obtain ⟨report, hverify, hstake, hreport, hinvalid⟩ := exists_report env hmatches hvalid
    simp only [reportedFinal, hverify, VerificationReport.isFinal, hinvalid, hreport, hstake,
      decide_true, Bool.true_and]
    exact hthreshold

/-! ## Signers of the snapshot -/

section

variable (proof : L0FinalityProof)

/-- One of the signatures is valid under the validator's own key. -/
def Signed (v : ValidatorRecord) : Bool :=
  proof.signatures.any fun sig =>
    env.verifyMlDsa65 v.publicKey (proof.signedMessage env) sig.signature

/-- The records whose stake is counted, one for each signature. -/
def counted : List ValidatorRecord := proof.signatures.filterMap proof.validatorOf

/-- No signature names the record, but one is valid under its key. -/
def Overlooked (v : ValidatorRecord) : Bool :=
  !(v ∈ counted proof : Bool) && Signed env proof v

/-- Distinct validators of the snapshot that signed with the stake the
header asks for. -/
def HasSigners (snapshot : ValidatorSetSnapshot) : Prop :=
  ∃ signers : List ValidatorRecord, signers ⊆ snapshot.validators ∧
    (signers.map ValidatorRecord.address).Nodup ∧
    (∀ v ∈ signers, ∃ sig ∈ proof.signatures,
      env.verifyMlDsa65 v.publicKey (proof.signedMessage env) sig.signature = true) ∧
    proof.header.stakeThreshold.toNat ≤ stakeOf signers

end

/-- The largest set of signers is that of all who signed. -/
theorem hasSigners_iff (hdistinct : (snapshot.validators.map ValidatorRecord.address).Nodup) :
    HasSigners env proof snapshot ↔ proof.header.stakeThreshold.toNat
          ≤ stakeOf (snapshot.validators.filter (Signed env proof)) := by
  constructor
  · rintro ⟨_, hsubset, hnodup, hsigned, hstake⟩
    refine hstake.trans (WeightedQuorum.total_le_of_subset _ hnodup.of_map fun v hv => ?_)
    refine mem_filter.mpr ⟨hsubset hv, any_eq_true.mpr ?_⟩
    exact hsigned v hv
  · intro hstake
    refine ⟨_, filter_subset_self _, (filter_sublist.map _).nodup hdistinct, ?_, hstake⟩
    intro v hv
    exact any_eq_true.mp (mem_filter.mp hv).2

theorem meetsThreshold_iff : proof.meetsThreshold = true ↔
    proof.header.stakeThreshold.toNat ≤ stakeOf (counted proof) := by
  have hsum := toNat_saturatingStake (counted proof)
  have hlt := proof.header.stakeThreshold.isLt
  unfold L0FinalityProof.meetsThreshold BitVec.ule
  rw [decide_eq_true_iff]
  change _ ≤ (saturatingStake (counted proof)).toNat ↔ _
  unfold stakeOf WeightedQuorum.total
  omega

/-- A proof that passes the checks has signers in the snapshot for its
threshold if and only if the stake counted, with that of the overlooked
validators, reaches it even without the stake counted for repeated records
and for records that are not in the snapshot. -/
theorem verify_sound_iff (proof : L0FinalityProof) (snapshot : ValidatorSetSnapshot)
    (hdistinct : (snapshot.validators.map ValidatorRecord.address).Nodup) :
    (reportedFinal env proof snapshot = true → HasSigners env proof snapshot)
      ↔ (Matches proof snapshot →
          (∀ sig ∈ proof.signatures, ValidSignature env proof (proof.signedMessage env) sig) →
          proof.header.stakeThreshold.toNat ≤ stakeOf (counted proof) →
          proof.header.stakeThreshold.toNat + stakeOf ((counted proof).diff snapshot.validators)
            ≤ stakeOf (counted proof)
              + stakeOf (snapshot.validators.filter (Overlooked env proof))) := by
  rw [reportedFinal_iff, and_imp, and_imp, meetsThreshold_iff]
  refine imp_congr_right fun _ => imp_congr_right fun hvalid => imp_congr_right fun _ => ?_
  have hnamed : ∀ v ∈ snapshot.validators, decide (v ∈ counted proof) = true →
      Signed env proof v = true := by
    intro v _ hv
    obtain ⟨sig, hsig, hname⟩ := mem_filterMap.mp (of_decide_eq_true hv)
    obtain ⟨_, hvalidator, hverify⟩ := hvalid sig hsig
    obtain rfl := Option.some.inj (hvalidator.symm.trans hname)
    exact any_eq_true.mpr ⟨sig, hsig, hverify⟩
  -- the signers are the counted validators and the overlooked ones
  have hsigned : stakeOf (snapshot.validators.filter (Signed env proof)) = _ :=
    WeightedQuorum.total_filter_of_imp _ hnamed
  have hcounted : stakeOf (counted proof) = _ :=
    WeightedQuorum.total_diff_add _ hdistinct.of_map
  rw [hasSigners_iff env hdistinct]
  unfold Overlooked stakeOf at *
  omega

/-- The signature of a key on a message is the two written one after the
other: each signature is valid for one message under each key. -/
def keyedPlatform : Platform Unit :=
  { Platform.sample with
    verifyMlDsa65 := fun publicKey message signature => signature = publicKey ++ message }

section

variable (proof : L0FinalityProof)

theorem keyedPlatform_one_message (publicKey message message' signature : Bytes)
    (h : keyedPlatform.verifyMlDsa65 publicKey message signature = true)
    (h' : keyedPlatform.verifyMlDsa65 publicKey message' signature = true) :
    message = message' := by
  simp only [keyedPlatform, decide_eq_true_eq] at h h'
  exact append_cancel_left (h.symm.trans h')

/-- A native proof of checkpoint 7 over the snapshot's size and stake, with
the validators and signatures given. -/
def sampleProof (snapshot : ValidatorSetSnapshot) (threshold : U128)
    (validators : List ValidatorRecord) (signatures : List ProofSignature) : L0FinalityProof where
  header :=
    { version := L0_PROOF_VERSION, externalChain := none, epoch := 1, slot := 1,
      previousProofHash := 0, stateRoot := 2, dagRoot := 3, parentBlockHash := 4, chainWork := 0,
      validatorSetRoot := snapshot.root, totalStake := snapshot.totalStake,
      stakeThreshold := threshold, emittedAtMs := 0, starkCommitment := 0, checkpointHash := 7 }
  validators
  signatures
  starkProof := none

/-- The signature of the one-byte key on checkpoint 7, attached at an index. -/
def sampleSignature (index : UInt32) (key : UInt8) : ProofSignature :=
  ⟨index, .mlDsa65, key :: withDomain DOMAIN_CHECKPOINT (arrayBytes 7)⟩

def sampleSnapshot : ValidatorSetSnapshot :=
  let validators := [⟨1, [1], 1⟩, ⟨2, [2], 1⟩, ⟨3, [3], 1⟩]
  { root := ValidatorSetSnapshot.computeRoot digitHash validators, validators }

/-- A validator list of one's own, of the length and the total stake asked. -/
def ownListProof : L0FinalityProof :=
  sampleProof sampleSnapshot 2 (List.replicate 3 ⟨9, [9], 2⟩) [sampleSignature 0 9]

/-- One signature three times. -/
def repeatedProof : L0FinalityProof :=
  sampleProof sampleSnapshot 3 sampleSnapshot.validators (List.replicate 3 (sampleSignature 0 1))

/-- Two final proofs that nobody, or only one validator, has signed. -/
theorem verify_accepts_own_list_and_repeats :
    sampleSnapshot.root = ValidatorSetSnapshot.computeRoot keyedPlatform.hashData
        sampleSnapshot.validators ∧ (sampleSnapshot.validators.map ValidatorRecord.address).Nodup ∧
      (reportedFinal keyedPlatform ownListProof sampleSnapshot = true ∧
        ¬ HasSigners keyedPlatform ownListProof sampleSnapshot) ∧
      (reportedFinal keyedPlatform repeatedProof sampleSnapshot = true ∧
        ¬ HasSigners keyedPlatform repeatedProof sampleSnapshot) := by
  have hdistinct : (sampleSnapshot.validators.map ValidatorRecord.address).Nodup := by decide
  refine ⟨rfl, hdistinct, ⟨by decide +kernel, ?_⟩, by decide +kernel, ?_⟩
  · rw [hasSigners_iff _ hdistinct]
    decide
  · rw [hasSigners_iff _ hdistinct]
    decide

/-- A proof that each of the three validators has signed once. -/
def threeSigned : L0FinalityProof :=
  sampleProof sampleSnapshot 3 sampleSnapshot.validators
    [sampleSignature 0 1, sampleSignature 1 2, sampleSignature 2 3]

theorem verify_sound_three_signers :
    reportedFinal keyedPlatform threeSigned sampleSnapshot = true ∧
      HasSigners keyedPlatform threeSigned sampleSnapshot := by
  have hfinal : reportedFinal keyedPlatform threeSigned sampleSnapshot = true := by
    decide +kernel
  refine ⟨hfinal, (verify_sound_iff _ _ _ (by decide)).mpr (fun _ _ _ => ?_) hfinal⟩
  decide

/-! ## What the signatures cover -/

/-- The fields of the header that say what has been finalised. -/
structure HeaderContent where
  epoch : UInt64
  slot : UInt64
  stateRoot : Hash
  dagRoot : Hash
  parentBlockHash : Hash
deriving DecidableEq, Repr

def content : HeaderContent where
  epoch := proof.header.epoch
  slot := proof.header.slot
  stateRoot := proof.header.stateRoot
  dagRoot := proof.header.dagRoot
  parentBlockHash := proof.header.parentBlockHash

def withContent (c : HeaderContent) : L0FinalityProof :=
  { proof with
    header :=
      { proof.header with
        epoch := c.epoch, slot := c.slot, stateRoot := c.stateRoot, dagRoot := c.dagRoot,
        parentBlockHash := c.parentBlockHash } }

@[simp] theorem content_withContent (c : HeaderContent) : content (withContent proof c) = c := rfl

end

/-- The digests of two proofs are equal, and what was hashed is not. -/
def SigningCollision (p q : L0FinalityProof) : Prop :=
  p.signingPreimage ≠ q.signingPreimage ∧ p.signingDigest env = q.signingDigest env

instance (p q : L0FinalityProof) : Decidable (SigningCollision env p q) :=
  inferInstanceAs (Decidable (_ ∧ _))

variable {p q : L0FinalityProof}

/-- The pieces hashed for a native proof have fixed lengths, so the content
can be read back. -/
theorem content_eq_of_signingPreimage_eq (hp : p.header.externalChain = none)
    (hq : q.header.externalChain = none) (hvalidators : p.validators = q.validators)
    (h : p.signingPreimage = q.signingPreimage) : content p = content q := by
  have hupdates : p.signingUpdates = q.signingUpdates := by
    refine eq_iff_flatten_eq.mpr ⟨h, ?_⟩
    simp [L0FinalityProof.signingUpdates, hp, hq, hvalidators]
  simp only [L0FinalityProof.signingUpdates, cons_append, nil_append, List.cons.injEq] at hupdates
  obtain ⟨-, -, hepoch, hslot, -, hstate, hdag, hparent, -⟩ := hupdates
  rw [HeaderContent.mk.injEq]
  have hword : ∀ {a b : UInt64}, beBytes 8 a.toNat = beBytes 8 b.toNat → a = b := fun h =>
    UInt64.toNat_inj.mp (eq_of_beBytes_eq h (UInt64.toNat_lt _) (UInt64.toNat_lt _))
  exact ⟨hword hepoch, hword hslot,
    arrayBytes_injective hstate, arrayBytes_injective hdag, arrayBytes_injective hparent⟩

/-- The signatures of a native proof with a checkpoint hash, or with none
at all, are as good for any other content. -/
theorem final_withContent (hp : p.header.externalChain = none)
    (huncovered : p.signatures = [] ∨ p.header.checkpointHash ≠ 0) (c : HeaderContent)
    (h : reportedFinal env p snapshot = true) :
    reportedFinal env (withContent p c) snapshot = true := by
  rw [reportedFinal_iff] at h ⊢
  obtain ⟨hmatches, hvalid, hthreshold⟩ := h
  refine ⟨⟨hmatches.version, hmatches.root, hmatches.length, hmatches.totalStake⟩, ?_, hthreshold⟩
  intro sig hsig
  rcases huncovered with hnone | hhash
  · rw [show (withContent p c).signatures = p.signatures from rfl, hnone] at hsig
    cases hsig
  have hmessage : (withContent p c).signedMessage env = p.signedMessage env := by
    have hcheckpoint : p.header.externalChain = none ∧ p.header.checkpointHash ≠ 0 :=
      ⟨hp, hhash⟩
    exact (if_pos hcheckpoint).trans (if_pos hcheckpoint).symm
  rw [hmessage]
  exact hvalid sig hsig

theorem checkpointHash_eq_zero_of_signedMessage_eq (hp : p.header.checkpointHash = 0)
    (hq : q.header.externalChain = none) (h : p.signedMessage env = q.signedMessage env) :
    q.header.checkpointHash = 0 := by
  by_contra hhash
  have hlength := congrArg List.length h
  unfold L0FinalityProof.signedMessage at hlength
  rw [if_neg (fun hc => hc.2 hp), if_pos ⟨hq, hhash⟩] at hlength
  simp [withDomain, length_leBytes, DOMAIN_CHECKPOINT, asciiBytes] at hlength

/-- Two final proofs over the same signatures signed the same message. -/
theorem signedMessage_eq_of_final (hone : ∀ publicKey message message' signature,
      env.verifyMlDsa65 publicKey message signature = true →
      env.verifyMlDsa65 publicKey message' signature = true → message = message')
    (hvalidators : q.validators = p.validators) (hsignatures : q.signatures = p.signatures)
    (hne : p.signatures ≠ []) (hp : reportedFinal env p snapshot = true)
    (hq : reportedFinal env q snapshot = true) : p.signedMessage env = q.signedMessage env := by
  obtain ⟨sig, hsig⟩ := exists_mem_of_ne_nil _ hne
  obtain ⟨v, hv, hverify⟩ := ((reportedFinal_iff env).mp hp).2.1 sig hsig
  obtain ⟨v', hv', hverify'⟩ := ((reportedFinal_iff env).mp hq).2.1 sig (hsignatures ▸ hsig)
  have hsame : some v' = some v := by
    rw [← hv, ← hv']
    exact congrArg (fun records : List ValidatorRecord => records[sig.validatorIndex.toNat]?)
      hvalidators
  obtain rfl := Option.some.inj hsame
  exact hone _ _ _ _ hverify hverify'

/-- The content of a final native proof is covered by its signatures if and
only if there are any and the proof has no checkpoint hash. The hash is
asked to tell the proof from one other with the same signatures. -/
theorem content_covered_iff (snapshot : ValidatorSetSnapshot) (p : L0FinalityProof)
    (hone : ∀ publicKey message message' signature,
      env.verifyMlDsa65 publicKey message signature = true →
      env.verifyMlDsa65 publicKey message' signature = true → message = message')
    (hp : p.header.externalChain = none)
    (hseparates : ∃ c, c ≠ content p ∧ ¬ SigningCollision env p (withContent p c)) :
    (∀ q : L0FinalityProof, q.header.externalChain = none → q.validators = p.validators →
        q.signatures = p.signatures → reportedFinal env p snapshot = true →
        reportedFinal env q snapshot = true → content p = content q ∨ SigningCollision env p q)
      ↔ (reportedFinal env p snapshot = true →
          p.signatures ≠ [] ∧ p.header.checkpointHash = 0) := by
  constructor
  · intro hcovered hfinal
    by_contra huncovered
    obtain ⟨c, hc, hnocollision⟩ := hseparates
    have hcases : p.signatures = [] ∨ p.header.checkpointHash ≠ 0 := by
      by_cases hnone : p.signatures = []
      · exact .inl hnone
      · exact .inr fun hhash => huncovered ⟨hnone, hhash⟩
    have hother := final_withContent env hp hcases c hfinal
    rcases hcovered (withContent p c) hp rfl rfl hfinal hother with hsame | hcollision
    · exact hc (by rw [hsame, content_withContent])
    · exact hnocollision hcollision
  · intro hcondition q hq hvalidators hsignatures hfinal hfinalq
    obtain ⟨hne, hhash⟩ := hcondition hfinal
    have hmessage := signedMessage_eq_of_final env hone hvalidators hsignatures hne hfinal hfinalq
    have hhashq := checkpointHash_eq_zero_of_signedMessage_eq env hhash hq hmessage
    -- both signed their digest, so equal messages are equal digests
    have hdigest : p.signingDigest env = q.signingDigest env := by
      unfold L0FinalityProof.signedMessage at hmessage
      rw [if_neg (fun hc => hc.2 hhash), if_neg (fun hc => hc.2 hhashq)] at hmessage
      exact arrayBytes_injective hmessage
    by_cases hpreimage : p.signingPreimage = q.signingPreimage
    · exact .inl (content_eq_of_signingPreimage_eq hp hq hvalidators.symm hpreimage)
    · exact .inr ⟨hpreimage, hdigest⟩

/-- A proof without checkpoint hash, signed by the first validator. -/
def digestProof : L0FinalityProof :=
  let unsigned := sampleProof sampleSnapshot 1 sampleSnapshot.validators []
  let draft := { unsigned with header := { unsigned.header with checkpointHash := 0 } }
  { draft with
    signatures := [⟨0, .mlDsa65, 1 :: arrayBytes (draft.signingDigest keyedPlatform)⟩] }

theorem content_covered_digestProof :
    reportedFinal keyedPlatform digestProof sampleSnapshot = true ∧
      ∀ q : L0FinalityProof, q.header.externalChain = none →
        q.validators = digestProof.validators → q.signatures = digestProof.signatures →
        reportedFinal keyedPlatform digestProof sampleSnapshot = true →
        reportedFinal keyedPlatform q sampleSnapshot = true →
        content digestProof = content q ∨ SigningCollision keyedPlatform digestProof q := by
  refine ⟨by decide +kernel, (content_covered_iff _ _ _ keyedPlatform_one_message rfl
    ⟨⟨2, 1, 2, 3, 4⟩, by decide, by decide +kernel⟩).mpr fun _ => ⟨by decide, rfl⟩⟩

/-- The proof of three signers, and the same signatures under another slot
and another state root: both are final. -/
theorem content_not_covered : (∀ publicKey message message' signature,
      keyedPlatform.verifyMlDsa65 publicKey message signature = true →
      keyedPlatform.verifyMlDsa65 publicKey message' signature = true → message = message') ∧
    ∃ p q : L0FinalityProof, p.header.externalChain = none ∧ q.header.externalChain = none ∧
      q.validators = p.validators ∧ q.signatures = p.signatures ∧
      reportedFinal keyedPlatform p sampleSnapshot = true ∧
      reportedFinal keyedPlatform q sampleSnapshot = true ∧
      content p ≠ content q ∧ ¬ SigningCollision keyedPlatform p q := by
  refine ⟨keyedPlatform_one_message, threeSigned, withContent threeSigned ⟨1, 9, 9, 3, 4⟩, ?_⟩
  decide +kernel

end ExternalVerifier

end Quantos

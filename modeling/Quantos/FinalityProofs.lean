import Quantos.FinalityQuorum

/-!
# Finality proofs

`FinalityProof` of `types/checkpoint.rs` with `create_finality_proof` and
`verify_finality_proof` of `consensus/finality.rs`. The verifier checks the
signatures of a proof against the current validator set, but it compares
their stake with the threshold the proof itself carries.

`verifyFinalityProof_iff` says what a proof has to look like to be
accepted. The current set enters it only through the stake of the signers,
not through the threshold; so acceptance means a quorum exactly when the
claimed total reaches the threshold of the set.
-/

namespace Quantos

open List

open WeightedQuorum (threshold)
open FinalityLayer (ValidlySigned)

def MAX_FINALITY_SIGNATURES : Nat := 1000

structure FinalityProof where
  checkpoint : Checkpoint
  superCommitteeSignatures : List ValidatorSignature
  totalStakeSigned : U128
  stakeThreshold : U128
deriving DecidableEq, Repr

namespace FinalityProof

variable {V : Type} (env : Platform V)

def new (checkpoint : Checkpoint) (stakeThreshold : U128) : FinalityProof :=
  ⟨checkpoint, [], 0, stakeThreshold⟩

def addSignature (proof : FinalityProof) (sig : ValidatorSignature) (stake : U128)
    (validatorPubkey : Bytes) : Except String FinalityProof :=
  if proof.superCommitteeSignatures.length ≥ MAX_FINALITY_SIGNATURES then
    .error ("Finality proof signature limit reached: " ++ toString MAX_FINALITY_SIGNATURES)
  else if proof.superCommitteeSignatures.any (fun s => s.validator = sig.validator) then
    .error "Duplicate validator signature"
  else if !env.verifyMlDsa65 validatorPubkey (proof.checkpoint.signingData env.hashData)
      sig.signature then
    .error "Invalid finality signature: verification failed"
  else
    .ok { proof with
      superCommitteeSignatures := proof.superCommitteeSignatures ++ [sig]
      totalStakeSigned := saturatingAdd128 proof.totalStakeSigned stake }

end FinalityProof

namespace FinalityLayer

variable {V : Type} (env : Platform V)
  (set : ValidatorSet) (checkpointData : Bytes) (sig : ValidatorSignature)
  (fl : FinalityLayer)

/-- Signatures that do not verify are skipped. -/
def createFinalityProof (checkpoint : Checkpoint) : Except ConsensusError FinalityProof :=
  let set := fl.committeeManager.validatorSet
  match fl.pendingCheckpoints.get (checkpoint.hash env.hashData) with
  | none => .error .checkpointVerificationFailed
  | some row =>
    .ok (row.2.signatures.foldl
      (fun proof sig =>
        let (stake, pubkey) := match set.getValidator sig.validator with
          | some v => (v.effectiveStake, v.finalityPublicKey)
          | none => (0, [])
        match proof.addSignature env sig stake pubkey with
        | .ok proof => proof
        | .error _ => proof)
      (FinalityProof.new checkpoint set.finalityThreshold))

/-- The stake one signature stands for, nothing when it is not by an active
validator or not valid. -/
def countedStake : Option U128 :=
  match set.getValidator sig.validator with
  | none => none
  | some v =>
    if !v.active || v.jailed || v.finalityPublicKey.isEmpty then none
    else if !env.verifyMlDsa65 v.finalityPublicKey checkpointData sig.signature then none
    else some v.effectiveStake

/-- The loop over the signatures; nothing as soon as one is repeated or
does not count. -/
def signedStake (set : ValidatorSet) (checkpointData : Bytes) :
    List ValidatorSignature → Finset Address → U128 → Option U128
  | [], _, stake => some stake
  | sig :: rest, seen, stake =>
    if sig.validator ∈ seen then none
    else
      match countedStake env set checkpointData sig with
      | none => none
      | some counted =>
        signedStake set checkpointData rest (insert sig.validator seen)
          (saturatingAdd128 stake counted)

def verifyFinalityProof (proof : FinalityProof) : Except ConsensusError Bool :=
  if proof.totalStakeSigned < proof.stakeThreshold then .ok false
  else
    match signedStake env fl.committeeManager.validatorSet
        (proof.checkpoint.signingData env.hashData) proof.superCommitteeSignatures ∅ 0 with
    | none => .ok false
    | some stake => .ok (stake ≥ proof.stakeThreshold && stake = proof.totalStakeSigned)

/-! ## What is accepted -/

/-- A signature the verifier's loop lets pass. -/
def Passes : Prop :=
  ∃ v, set.getValidator sig.validator = some v ∧ v.active = true ∧ v.jailed = false ∧
    v.finalityPublicKey ≠ [] ∧
    env.verifyMlDsa65 v.finalityPublicKey checkpointData sig.signature = true

variable {env} {set : ValidatorSet} {sig : ValidatorSignature} {data : Bytes}

/-- What counts is the stake the set records for the signer. -/
theorem countedStake_some {counted : U128} (h : countedStake env set data sig = some counted) :
    Passes env set data sig ∧ counted.toNat = set.stakeOf sig.validator := by
  unfold countedStake at h
  split at h
  · cases h
  rename_i v hv
  split at h
  · cases h
  rename_i hstanding
  split at h
  · cases h
  rename_i hvalid
  obtain rfl := Option.some.inj h
  simp only [Bool.or_eq_true, Bool.not_eq_true', not_or, Bool.not_eq_false,
    Bool.not_eq_true, isEmpty_eq_false_iff] at hstanding hvalid
  exact ⟨⟨v, hv, hstanding.1.1, hstanding.1.2, hstanding.2, hvalid⟩,
    (ValidatorSet.stakeOf_of_getValidator hv).symm⟩

theorem countedStake_of_passes (h : Passes env set data sig) :
    ∃ counted, countedStake env set data sig = some counted := by
  obtain ⟨v, hv, hactive, hjailed, hkey, hvalid⟩ := h
  refine ⟨v.effectiveStake, ?_⟩
  simp [countedStake, hv, hactive, hjailed, hkey, hvalid]

/-- The signers still to come avoid the new one: that is `Nodup`. -/
theorem avoids_insert_iff {seen : Finset Address} {signer : Address}
    {rest : List ValidatorSignature} :
    (∀ s ∈ rest, s.validator ∉ insert signer seen ∧ Passes env set data s) ↔
      signer ∉ rest.map ValidatorSignature.validator ∧
        ∀ s ∈ rest, s.validator ∉ seen ∧ Passes env set data s := by
  simp only [Finset.mem_insert, not_or, mem_map, not_exists, not_and]
  constructor
  · intro h
    exact ⟨fun s hs => (h s hs).1.1, fun s hs => ⟨(h s hs).1.2, (h s hs).2⟩⟩
  · intro h s hs
    exact ⟨⟨h.1 s hs, (h.2 s hs).1⟩, (h.2 s hs).2⟩

variable {sigs : List ValidatorSignature} {total : U128}

/-- The loop goes through exactly on signatures that pass, of distinct
validators not seen before, and then returns their stake. -/
theorem signedStake_eq_some_iff (hfits : set.activeStake < 2 ^ 128) :
    ∀ {seen : Finset Address} {stake : U128}, stake.toNat = ∑ a ∈ seen, set.stakeOf a →
      (signedStake env set data sigs seen stake = some total ↔
        (sigs.map ValidatorSignature.validator).Nodup ∧
          (∀ sig ∈ sigs, sig.validator ∉ seen ∧ Passes env set data sig) ∧ total.toNat
            = ∑ a ∈ seen ∪ (sigs.map ValidatorSignature.validator).toFinset, set.stakeOf a) := by
  induction sigs with
  | nil =>
    intro seen stake hstake
    simp only [signedStake, Option.some.injEq, map_nil, nodup_nil, not_mem_nil,
      false_implies, implies_true, true_and, toFinset_nil, Finset.union_empty, ← hstake]
    exact ⟨fun h => h ▸ rfl, fun h => (BitVec.eq_of_toNat_eq h).symm⟩
  | cons sig rest ih =>
    intro seen stake hstake
    rw [signedStake]
    by_cases hseen : sig.validator ∈ seen
    · rw [if_pos hseen]
      exact ⟨(nomatch ·), fun h => absurd hseen (h.2.1 sig mem_cons_self).1⟩
    rw [if_neg hseen]
    cases hcount : countedStake env set data sig with
    | none =>
      refine ⟨(nomatch ·), fun h => ?_⟩
      obtain ⟨counted, hcounted⟩ := countedStake_of_passes (h.2.1 sig mem_cons_self).2
      rw [hcount] at hcounted
      cases hcounted
    | some counted =>
      obtain ⟨_, hcounted⟩ := countedStake_some hcount
      have hsum : ∑ a ∈ insert sig.validator seen, set.stakeOf a
          = stake.toNat + counted.toNat := by
        rw [Finset.sum_insert hseen, hstake, hcounted, Nat.add_comm]
      have hroom : stake.toNat + counted.toNat < 2 ^ 128 := by
        rw [← hsum]
        exact lt_of_le_of_lt (set.sum_stakeOf_le _) hfits
      rw [ih ((saturatingAdd128_toNat hroom).trans hsum.symm)]
      rw [avoids_insert_iff]
      simp only [map_cons, nodup_cons, toFinset_cons, forall_mem_cons,
        Finset.insert_union, Finset.union_insert]
      tauto

theorem signedStake_start_iff (hfits : set.activeStake < 2 ^ 128) :
    signedStake env set data sigs ∅ 0 = some total ↔ (sigs.map ValidatorSignature.validator).Nodup ∧
        (∀ sig ∈ sigs, Passes env set data sig) ∧
        total.toNat = ∑ a ∈ (sigs.map ValidatorSignature.validator).toFinset, set.stakeOf a := by
  rw [signedStake_eq_some_iff hfits (by rfl), Finset.empty_union]
  simp only [Finset.notMem_empty, not_false_eq_true, true_and]

/-- A proof that holds together on its face: its total reaches the threshold
it states, its signatures are valid ones of distinct active validators, and
its total is the stake of the signers. -/
structure WellFormed (env : Platform V) (set : ValidatorSet) (proof : FinalityProof) : Prop where
  reached : proof.stakeThreshold ≤ proof.totalStakeSigned
  nodup : (proof.superCommitteeSignatures.map ValidatorSignature.validator).Nodup
  passes : ∀ sig ∈ proof.superCommitteeSignatures,
    Passes env set (proof.checkpoint.signingData env.hashData) sig
  stake : proof.totalStakeSigned.toNat =
    ∑ a ∈ (proof.superCommitteeSignatures.map ValidatorSignature.validator).toFinset,
      set.stakeOf a

variable {proof : FinalityProof} {fl : FinalityLayer}

theorem verifyFinalityProof_iff (hfits : fl.committeeManager.validatorSet.activeStake < 2 ^ 128) :
    fl.verifyFinalityProof env proof = .ok true ↔
      WellFormed env fl.committeeManager.validatorSet proof := by
  constructor
  · intro h
    unfold verifyFinalityProof at h
    split at h
    · cases h
    rename_i hreached
    split at h
    · cases h
    rename_i stake hstake
    simp only [Except.ok.injEq, Bool.and_eq_true, decide_eq_true_eq] at h
    obtain ⟨-, rfl⟩ := h
    obtain ⟨hnodup, hpasses, htotal⟩ := (signedStake_start_iff hfits).mp hstake
    exact ⟨BitVec.not_lt.mp hreached, hnodup, hpasses, htotal⟩
  · intro h
    have hloop := (signedStake_start_iff hfits).mpr ⟨h.nodup, h.passes, h.stake⟩
    unfold verifyFinalityProof
    rw [if_neg (BitVec.not_lt.mpr h.reached), hloop]
    simp [h.reached]

/-! ## What acceptance means -/

/-- Distinct active validators with two thirds of the stake of the current
set signed the checkpoint in the proof. -/
def QuorumSigned (env : Platform V) (set : ValidatorSet) (proof : FinalityProof) : Prop :=
  ∃ signers : Finset Address,
    (∀ a ∈ signers,
      ValidlySigned env set proof.superCommitteeSignatures proof.checkpoint a) ∧
      threshold set.activeStake ≤ ∑ a ∈ signers, set.stakeOf a

theorem WellFormed.validlySigned (h : WellFormed env set proof) :
    ∀ a ∈ (proof.superCommitteeSignatures.map ValidatorSignature.validator).toFinset,
      ValidlySigned env set proof.superCommitteeSignatures proof.checkpoint a := by
  intro a ha
  obtain ⟨sig, hsig, rfl⟩ := mem_map.mp (mem_toFinset.mp ha)
  obtain ⟨v, hv, hactive, hjailed, -, hvalid⟩ := h.passes sig hsig
  exact ⟨sig, hsig, rfl, v, hv, hactive, hjailed, hvalid⟩

/-- No signers of a proof hold more than its total. -/
theorem WellFormed.sum_le (h : WellFormed env set proof) {signers : Finset Address}
    (hsigners : ∀ a ∈ signers,
      ValidlySigned env set proof.superCommitteeSignatures proof.checkpoint a) :
    ∑ a ∈ signers, set.stakeOf a ≤ proof.totalStakeSigned.toNat := by
  rw [h.stake]
  refine Finset.sum_le_sum_of_subset fun a ha => ?_
  obtain ⟨_, hsig, rfl, -⟩ := hsigners a ha
  exact mem_toFinset.mpr (mem_map_of_mem hsig)

theorem WellFormed.quorumSigned_iff (h : WellFormed env set proof) :
    QuorumSigned env set proof ↔ threshold set.activeStake ≤ proof.totalStakeSigned.toNat := by
  constructor
  · rintro ⟨_, hsigners, hquorum⟩
    exact hquorum.trans (h.sum_le hsigners)
  · intro hquorum
    exact ⟨_, h.validlySigned, hquorum.trans h.stake.le⟩

/-- Acceptance means a quorum exactly for the proofs that fail on their
face and those whose total reaches the threshold of the current set. -/
theorem finality_proof_sound_iff (fl : FinalityLayer) (proof : FinalityProof)
    (hfits : 2 * fl.committeeManager.validatorSet.activeStake < 2 ^ 128) :
    (fl.verifyFinalityProof env proof = .ok true →
        QuorumSigned env fl.committeeManager.validatorSet proof) ↔
      (¬ WellFormed env fl.committeeManager.validatorSet proof ∨
        threshold fl.committeeManager.validatorSet.activeStake ≤ proof.totalStakeSigned.toNat) := by
  rw [verifyFinalityProof_iff (by omega), ← imp_iff_not_or]
  exact forall_congr' fun h => h.quorumSigned_iff

/-- Four validators of stake one each. -/
def sampleLayer : FinalityLayer := .new (sampleManager [1, 1, 1, 1]) 10 4

/-- Three of the four, under a threshold of three. -/
def sampleProof : FinalityProof where
  checkpoint := sampleCheckpoint 10 0
  superCommitteeSignatures := [⟨1, [], 0⟩, ⟨2, [], 0⟩, ⟨3, [], 0⟩]
  totalStakeSigned := 3
  stakeThreshold := 3

theorem sampleProof_quorumSigned :
    2 * sampleLayer.committeeManager.validatorSet.activeStake < 2 ^ 128 ∧
      sampleLayer.verifyFinalityProof .sample sampleProof = .ok true ∧
      QuorumSigned .sample sampleLayer.committeeManager.validatorSet sampleProof := by
  have hverify : sampleLayer.verifyFinalityProof .sample sampleProof = .ok true := by
    decide
  refine ⟨by decide, hverify, ?_⟩
  exact (finality_proof_sound_iff sampleLayer sampleProof (by decide)).mpr
    (.inr (by decide)) hverify

/-- Nobody signed, and a threshold of zero asks for nobody. -/
def emptyProof : FinalityProof := .new (sampleCheckpoint 10 0) 0

theorem emptyProof_accepted : 2 * sampleLayer.committeeManager.validatorSet.activeStake < 2 ^ 128 ∧
      sampleLayer.verifyFinalityProof .sample emptyProof = .ok true ∧
      ¬ QuorumSigned .sample sampleLayer.committeeManager.validatorSet emptyProof := by
  have hverify : sampleLayer.verifyFinalityProof .sample emptyProof = .ok true := by
    decide
  refine ⟨by decide, hverify, fun hquorum => ?_⟩
  have hwf := (verifyFinalityProof_iff (by decide)).mp hverify
  exact absurd (hwf.quorumSigned_iff.mp hquorum) (by decide)

theorem addSignature_stakeThreshold {proof' : FinalityProof} {stake : U128} {pubkey : Bytes}
    (h : proof.addSignature env sig stake pubkey = .ok proof') :
    proof'.stakeThreshold = proof.stakeThreshold := by
  unfold FinalityProof.addSignature at h
  repeat' split at h
  all_goals cases h
  rfl

variable {checkpoint : Checkpoint}

theorem createFinalityProof_stakeThreshold (h : fl.createFinalityProof env checkpoint = .ok proof) :
    proof.stakeThreshold = fl.committeeManager.validatorSet.finalityThreshold := by
  unfold createFinalityProof at h
  dsimp only at h
  split at h
  · cases h
  obtain rfl := Except.ok.inj h
  -- no signature that is added or skipped touches the threshold
  refine List.foldlRecOn
    (motive := fun proof : FinalityProof => proof.stakeThreshold
      = fl.committeeManager.validatorSet.finalityThreshold)
    _ _ rfl fun proof ih sig _ => ?_
  split
  · rename_i hadd
    exact (addSignature_stakeThreshold hadd).trans ih
  · exact ih

/-- A proof the layer makes carries the threshold of its own set, so that
acceptance by the same set does mean a quorum. -/
theorem createFinalityProof_sound
    (hfits : 2 * fl.committeeManager.validatorSet.activeStake < 2 ^ 128)
    (hcreate : fl.createFinalityProof env checkpoint = .ok proof)
    (hverify : fl.verifyFinalityProof env proof = .ok true) :
    QuorumSigned env fl.committeeManager.validatorSet proof := by
  have hwf := (verifyFinalityProof_iff (by omega)).mp hverify
  have hthreshold := createFinalityProof_stakeThreshold hcreate
  refine hwf.quorumSigned_iff.mpr ?_
  have hreached := hwf.reached
  rw [hthreshold] at hreached
  rw [← ValidatorSet.finalityThreshold_toNat hfits]
  exact hreached

/-- Two of four validators sign the checkpoint, and the other two leave. -/
def afterRemovals : FinalityLayer :=
  afterRun (signedTwice 5 ++ [.removeValidator 3, .removeValidator 4])

/-- The checkpoint is still pending, with a quorum of those who stayed. -/
theorem created_proof_quorumSigned :
    let proof : FinalityProof := ⟨sampleCheckpoint 10 0, [⟨1, [], 0⟩, ⟨2, [], 0⟩], 10, 7⟩
    afterRemovals.createFinalityProof .sample (sampleCheckpoint 10 0) = .ok proof ∧
      afterRemovals.verifyFinalityProof .sample proof = .ok true ∧
      QuorumSigned .sample afterRemovals.committeeManager.validatorSet proof := by
  intro proof
  have hcreate : afterRemovals.createFinalityProof .sample (sampleCheckpoint 10 0) = .ok proof := by
    decide +kernel
  have hverify : afterRemovals.verifyFinalityProof .sample proof = .ok true := by decide +kernel
  exact ⟨hcreate, hverify, createFinalityProof_sound (by decide +kernel) hcreate hverify⟩

end FinalityLayer

end Quantos

import Quantos.Finality

/-!
# The stake behind a finalised checkpoint

A pending checkpoint keeps a running total of the stake that signed it.
`Tallied` ties the total to a validator set: it is the effective stake, in
that set, of the distinct signers. Counting a signature keeps it
(`Tallied.count`), and within a set whose doubled active stake fits a word
the addition cannot overflow (`Tallied.room`).

Under a fixed set this makes every finalised checkpoint a quorum, and two
quorums share more than a third of the stake. When the set changes under a
pending checkpoint the total goes stale: it keeps the stake a signer had
when signing, while the threshold follows the current set. The second half
says for which changes the total stays right.
-/

namespace Quantos

open Table Runs List ValidatorSet

open WeightedQuorum (threshold)

namespace FinalityLayer

/-! ## The running total -/

structure Tallied (set : ValidatorSet) (p : PendingCheckpoint) : Prop where
  nodup : (p.signatures.map ValidatorSignature.validator).Nodup
  signers : p.signers = (p.signatures.map ValidatorSignature.validator).toFinset
  known : ∀ a ∈ p.signers, ∃ v, set.getValidator a = some v
  stake : p.totalStakeSigned.toNat = ∑ a ∈ p.signers, set.stakeOf a

theorem tallied_unsigned {set : ValidatorSet} {c : Checkpoint} {dagTips : List Hash} :
    Tallied set (unsigned c dagTips) where
  nodup := nodup_nil
  signers := rfl
  known := fun _ h => absurd h (Finset.notMem_empty _)
  stake := rfl

variable {V : Type} {env : Platform V}
  {set : ValidatorSet} {p : PendingCheckpoint} {signature : ValidatorSignature}
  {v : Validator}

theorem Tallied.room (h : Tallied set p) (hadm : Admitted env set p signature v) :
    p.totalStakeSigned.toNat + v.effectiveStake.toNat
      = ∑ a ∈ insert signature.validator p.signers, set.stakeOf a := by
  rw [Finset.sum_insert hadm.fresh, h.stake, stakeOf_of_getValidator hadm.found, Nat.add_comm]

theorem Tallied.count (h : Tallied set p) {total : U128} (hadm : Admitted env set p signature v)
    (hadd : checkedAdd128 p.totalStakeSigned v.effectiveStake = some total) :
    Tallied set (count p signature total) where
  nodup := by
    show ((p.signatures ++ [signature]).map ValidatorSignature.validator).Nodup
    rw [map_append, map_singleton, ← concat_eq_append, nodup_concat]
    refine ⟨?_, h.nodup⟩
    have hfresh := hadm.fresh
    rwa [h.signers, mem_toFinset] at hfresh
  signers := by
    show insert signature.validator p.signers
      = ((p.signatures ++ [signature]).map ValidatorSignature.validator).toFinset
    rw [map_append, toFinset_append, ← h.signers, Finset.union_comm]
    rfl
  known := fun a ha => by
    rcases Finset.mem_insert.mp ha with rfl | ha
    · exact ⟨v, hadm.found⟩
    · exact h.known a ha
  stake := by
    have hroom := h.room hadm
    unfold checkedAdd128 at hadd
    split at hadd
    · rename_i hlt
      obtain rfl := Option.some.inj hadd
      show (p.totalStakeSigned + v.effectiveStake).toNat = _
      rw [BitVec.toNat_add, Nat.mod_eq_of_lt hlt]
      exact hroom
    · cases hadd

/-- Within a set whose active stake fits a word, adding never overflows. -/
theorem Tallied.not_full (h : Tallied set p) (hadm : Admitted env set p signature v)
    (hfits : set.activeStake < 2 ^ 128) :
    checkedAdd128 p.totalStakeSigned v.effectiveStake ≠ none := by
  have hroom := h.room hadm
  have hbound := set.sum_stakeOf_le (insert signature.validator p.signers)
  rw [(checkedAdd128_of_lt (by omega)).1]
  exact Option.some_ne_none _

/-- The validators a finalised checkpoint lists are the signers counted. -/
theorem Tallied.validators (h : Tallied set p)
    (hreached : threshold set.activeStake ≤ p.totalStakeSigned.toNat) :
    (p.signatures.map ValidatorSignature.validator).Nodup ∧ threshold set.activeStake ≤
        ∑ a ∈ (p.signatures.map ValidatorSignature.validator).toFinset, set.stakeOf a := by
  refine ⟨h.nodup, ?_⟩
  rw [← h.signers, ← h.stake]
  exact hreached

/-! ## The layer -/

/-- Among the signatures, one of the validator on the checkpoint, by a
validator in good standing and valid under its registered key. -/
def ValidlySigned (env : Platform V) (set : ValidatorSet) (signatures : List ValidatorSignature)
    (c : Checkpoint) (a : Address) : Prop :=
  ∃ signature ∈ signatures, signature.validator = a ∧
    ∃ v, set.getValidator a = some v ∧ v.active = true ∧ v.jailed = false ∧
      env.verifyMlDsa65 v.finalityPublicKey (c.signingData env.hashData) signature.signature = true

/-- A pending checkpoint whose total is right, its signatures valid and
among those given. -/
structure Backed (env : Platform V) (set : ValidatorSet) (delivered : List ValidatorSignature)
    (p : PendingCheckpoint) : Prop extends Tallied set p where
  signed : ∀ signature ∈ p.signatures,
    ValidlySigned env set delivered p.checkpoint signature.validator

/-- A finalised checkpoint that lists distinct validators with two thirds
of the stake, each of whom signed it. -/
structure Certified (env : Platform V) (set : ValidatorSet) (delivered : List ValidatorSignature)
    (c : Checkpoint) : Prop where
  nodup : c.validators.Nodup
  quorum : threshold set.activeStake ≤ ∑ a ∈ c.validators.toFinset, set.stakeOf a
  signed : ∀ a ∈ c.validators, ValidlySigned env set delivered c a

/-- Every pending checkpoint is backed by the current set, whose doubled
active stake fits a word. -/
structure Sound (env : Platform V) (delivered : List ValidatorSignature) (fl : FinalityLayer) :
    Prop where
  fits : 2 * fl.committeeManager.validatorSet.activeStake < 2 ^ 128
  pending : ∀ row ∈ fl.pendingCheckpoints.rows,
    Backed env fl.committeeManager.validatorSet delivered row.2

theorem backed_unsigned {set : ValidatorSet} {delivered : List ValidatorSignature} {c : Checkpoint}
    {dagTips : List Hash} : Backed env set delivered (unsigned c dagTips) where
  toTallied := tallied_unsigned
  signed := fun _ h => absurd h not_mem_nil

section Sign

variable {delivered : List ValidatorSignature} {fl : FinalityLayer} {checkpointHash : Hash}
  {total : U128}

theorem Sound.count (hfl : Sound env delivered fl) (hdelivered : signature ∈ delivered)
    (h : Counted env fl checkpointHash signature p v total) :
    Backed env fl.committeeManager.validatorSet delivered (count p signature total) := by
  have hbacked := hfl.pending _ (mem_rows_of_get h.pending)
  have hadm := h.admitted
  refine ⟨hbacked.toTallied.count hadm h.added, fun s hs => ?_⟩
  rcases mem_append.mp hs with hs | hs
  · exact hbacked.signed s hs
  · obtain rfl := mem_singleton.mp hs
    exact ⟨s, hdelivered, rfl, v, hadm.found, hadm.active, hadm.unjailed, hadm.valid⟩

theorem Sound.certified (hfl : Sound env delivered fl) (hdelivered : signature ∈ delivered)
    (h : Counted env fl checkpointHash signature p v total)
    (hreached : fl.committeeManager.validatorSet.finalityThreshold ≤ total) (aggregated : Bytes) :
    Certified env fl.committeeManager.validatorSet delivered (p.checkpoint.sealed
      ((p.signatures ++ [signature]).map ValidatorSignature.validator) aggregated) := by
  have hcount := hfl.count hdelivered h
  have hquorum := hcount.validators
    ((finalityThreshold_toNat hfl.fits).symm.trans_le hreached)
  refine ⟨hquorum.1, hquorum.2, fun a ha => ?_⟩
  obtain ⟨s, hs, rfl⟩ := mem_map.mp ha
  exact hcount.signed s hs

/-- A signature keeps every pending checkpoint backed, and what it
finalises is certified by the set of that moment. -/
theorem Sound.sign (hfl : Sound env delivered fl) (hdelivered : signature ∈ delivered)
    {fl' : FinalityLayer} (heffect : SignEffect env fl checkpointHash signature fl') :
    Sound env delivered fl' ∧ fl'.committeeManager = fl.committeeManager ∧
      (fl'.finalizedCheckpoints = fl.finalizedCheckpoints ∨
        ∃ c, fl'.finalizedCheckpoints = fl.finalizedCheckpoints ++ [c] ∧
          Certified env fl.committeeManager.validatorSet delivered c) := by
  cases heffect with
  | ignored => exact ⟨hfl, rfl, Or.inl rfl⟩
  | overflowed hget hadm hfull =>
    have htallied := (hfl.pending _ (mem_rows_of_get hget)).toTallied
    have hfits := hfl.fits
    exact absurd hfull (htallied.not_full hadm (by omega))
  | recorded hcounted =>
    refine ⟨⟨hfl.fits, fun row hrow => ?_⟩, rfl, Or.inl rfl⟩
    rcases mem_rows_put hrow with rfl | hrow
    · exact hfl.count hdelivered hcounted
    · exact hfl.pending row hrow
  | dropped hcounted =>
    refine ⟨⟨hfl.fits, fun row hrow => ?_⟩, rfl, Or.inl rfl⟩
    rcases mem_rows_put (mem_rows_erase hrow) with rfl | hrow
    · exact hfl.count hdelivered hcounted
    · exact hfl.pending row hrow
  | finalised hcounted hreached =>
    refine ⟨⟨hfl.fits, fun row hrow => ?_⟩, rfl,
      Or.inr ⟨_, rfl, hfl.certified hdelivered hcounted hreached _⟩⟩
    rcases mem_rows_put (mem_rows_erase hrow) with rfl | hrow
    · exact hfl.count hdelivered hcounted
    · exact hfl.pending row hrow

end Sign

variable {delivered : List ValidatorSignature} {fl : FinalityLayer}

theorem Sound.create (hfl : Sound env delivered fl) (view : CheckpointView) (slot : UInt64) :
    Sound env delivered (fl.maybeCreateCheckpoint env view slot).2 ∧
      (fl.maybeCreateCheckpoint env view slot).2.committeeManager = fl.committeeManager ∧
      (fl.maybeCreateCheckpoint env view slot).2.finalizedCheckpoints
        = fl.finalizedCheckpoints := by
  rcases maybeCreateCheckpoint_effect env fl view slot with heq | ⟨_, heq⟩
  · rw [heq]
    exact ⟨hfl, rfl, rfl⟩
  rw [heq]
  refine ⟨⟨hfl.fits, fun row hrow => ?_⟩, rfl, rfl⟩
  rcases mem_rows_put hrow with rfl | hrow
  · exact backed_unsigned
  · exact hfl.pending row hrow

/-! ## A fixed validator set -/

/-- The creations and signatures, without changes of the validator set. -/
def KeepsValidators : FinalityOp → Prop
  | .create .. => True
  | .sign .. => True
  | _ => False

instance : DecidablePred KeepsValidators
  | .create .. | .sign .. => inferInstanceAs (Decidable True)
  | .addValidator _ | .removeValidator _ | .slash .. | .jail _ => inferInstanceAs (Decidable False)

/-- Under a fixed set, what has been finalised stays certified. -/
structure Quorate (env : Platform V) (set : ValidatorSet) (delivered : List ValidatorSignature)
    (fl : FinalityLayer) : Prop extends Sound env delivered fl where
  fixed : fl.committeeManager.validatorSet = set
  finalized : ∀ c ∈ fl.finalizedCheckpoints, Certified env set delivered c

variable {op : FinalityOp}

theorem Quorate.step (hfl : Quorate env set delivered fl) (hop : KeepsValidators op)
    (hdelivered : ∀ signature, delivery op = some signature → signature ∈ delivered) :
    Quorate env set delivered (fl.step env op) := by
  cases op with
  | create slot view =>
    obtain ⟨hsound, hmanager, hlist⟩ := hfl.toSound.create view slot
    exact ⟨hsound, (congrArg _ hmanager).trans hfl.fixed,
      fun c hc => hfl.finalized c (hlist ▸ hc)⟩
  | sign checkpointHash signature io =>
    obtain ⟨hsound, hmanager, hlist⟩ := hfl.toSound.sign (hdelivered signature rfl)
      (receiveCheckpointSignature_effect ..)
    refine ⟨hsound, (congrArg _ hmanager).trans hfl.fixed, fun c hc => ?_⟩
    rcases hlist with hlist | ⟨d, hlist, hcertified⟩
    · exact hfl.finalized c (hlist ▸ hc)
    rcases mem_append.mp (hlist ▸ hc : c ∈ fl.finalizedCheckpoints ++ [d]) with hc | hc
    · exact hfl.finalized c hc
    · obtain rfl := mem_singleton.mp hc
      exact hfl.fixed ▸ hcertified
  | addValidator => exact hop.elim
  | removeValidator => exact hop.elim
  | slash => exact hop.elim
  | jail => exact hop.elim

/-- Under a fixed validator set, in every run of creations and signatures
in any order and with duplicates, any two finalised checkpoints have
common signers with more than a third of the active stake, each of whom
validly signed both. -/
theorem finality_quorum_intersection (env : Platform V) (committeeManager : CommitteeManager)
    (checkpointInterval : UInt64) (numShards : UInt16)
    (hfits : 2 * committeeManager.validatorSet.activeStake < 2 ^ 128) {ops : List FinalityOp}
    (hops : ∀ op ∈ ops, KeepsValidators op) {c c' : Checkpoint}
    (hc : c ∈ (run (step env) (new committeeManager checkpointInterval numShards)
      ops).finalizedCheckpoints)
    (hc' : c' ∈ (run (step env) (new committeeManager checkpointInterval numShards)
      ops).finalizedCheckpoints) :
    ∃ common : Finset Address, committeeManager.validatorSet.activeStake
          < 3 * ∑ a ∈ common, committeeManager.validatorSet.stakeOf a ∧
        ∀ a ∈ common, a ∈ c.validators ∧ a ∈ c'.validators ∧
          ValidlySigned env committeeManager.validatorSet (ops.filterMap delivery) c a ∧
          ValidlySigned env committeeManager.validatorSet (ops.filterMap delivery) c' a := by
  have hstart : Quorate env committeeManager.validatorSet (ops.filterMap delivery)
      (new committeeManager checkpointInterval numShards) :=
    ⟨⟨hfits, fun _ h => absurd h not_mem_nil⟩, rfl, fun _ h => absurd h not_mem_nil⟩
  have hend := invariant_of_forall
    (fun fl op (hfl : Quorate env committeeManager.validatorSet (ops.filterMap delivery) fl)
      (hop : op ∈ ops) => hfl.step (hops op hop) fun s hs => mem_filterMap.mpr ⟨op, hop, hs⟩)
    hstart fun _ h => h
  have hcert := hend.finalized c hc
  have hcert' := hend.finalized c' hc'
  refine ⟨c.validators.toFinset ∩ c'.validators.toFinset,
    WeightedQuorum.inter_of_threshold (sum_stakeOf_le _) hcert.quorum hcert'.quorum,
    fun a ha => ?_⟩
  obtain ⟨ha, ha'⟩ := Finset.mem_inter.mp ha
  rw [mem_toFinset] at ha ha'
  exact ⟨ha, ha', hcert.signed a ha, hcert'.signed a ha'⟩

/-- Four validators of stake 1: two checkpoints, one signed by 1, 2, 3 (one
of them twice), the other by 2, 3, 4. -/
def intersectionRun : List FinalityOp :=
  let first := sampleCheckpoint 10 0
  let second := sampleCheckpoint 20 0
  [.create 10 sampleView, .create 20 sampleView, sampleSign first 1, sampleSign second 4,
    sampleSign first 2, sampleSign first 1, sampleSign second 3, sampleSign first 3,
    sampleSign second 2]

theorem intersectionRun_common :
    (run (step Platform.sample) (new (sampleManager [1, 1, 1, 1]) 10 1)
        intersectionRun).finalizedCheckpoints.map Checkpoint.validators = [[1, 2, 3], [4, 3, 2]] ∧
      ∀ c ∈ (run (step Platform.sample) (new (sampleManager [1, 1, 1, 1]) 10 1)
        intersectionRun).finalizedCheckpoints,
      ∀ c' ∈ (run (step Platform.sample) (new (sampleManager [1, 1, 1, 1]) 10 1)
        intersectionRun).finalizedCheckpoints, ∃ common : Finset Address,
        (sampleManager [1, 1, 1, 1]).validatorSet.activeStake
            < 3 * ∑ a ∈ common, (sampleManager [1, 1, 1, 1]).validatorSet.stakeOf a ∧
          ∀ a ∈ common, a ∈ c.validators ∧ a ∈ c'.validators ∧
            ValidlySigned Platform.sample (sampleManager [1, 1, 1, 1]).validatorSet
              (intersectionRun.filterMap delivery) c a ∧
            ValidlySigned Platform.sample (sampleManager [1, 1, 1, 1]).validatorSet
              (intersectionRun.filterMap delivery) c' a :=
  ⟨by decide +kernel, fun _ hc _ hc' =>
    finality_quorum_intersection Platform.sample (sampleManager [1, 1, 1, 1]) 10 1 (by decide)
      (by decide) hc hc'⟩

/-! ## A changing validator set -/

variable {set' : ValidatorSet}

theorem Tallied.of_getValidator (h : Tallied set p)
    (heq : ∀ a ∈ p.signers, set'.getValidator a = set.getValidator a) :
    Tallied set' p where
  nodup := h.nodup
  signers := h.signers
  known := fun a ha => by
    rw [heq a ha]
    exact h.known a ha
  stake := by
    rw [h.stake]
    exact Finset.sum_congr rfl fun a ha => (stakeOf_congr (heq a ha)).symm

/-- A backed checkpoint stays backed when the entries of its signers do not
change. -/
theorem Backed.of_getValidator (h : Backed env set delivered p)
    (heq : ∀ a ∈ p.signers, set'.getValidator a = set.getValidator a) :
    Backed env set' delivered p := by
  refine ⟨h.toTallied.of_getValidator heq, fun s hs => ?_⟩
  have hsigner : s.validator ∈ p.signers := by
    rw [h.signers, mem_toFinset]
    exact mem_map_of_mem hs
  unfold ValidlySigned
  rw [heq _ hsigner]
  exact h.signed s hs

/-- Whoever is removed, slashed or jailed has signed no pending checkpoint,
and an addition leaves room to double the active stake. -/
def Undisturbed (fl : FinalityLayer) : FinalityOp → Prop
  | .create .. => True
  | .sign .. => True
  | .addValidator v =>
    2 * (fl.committeeManager.validatorSet.activeStake + v.effectiveStake.toNat) < 2 ^ 128
  | .removeValidator a => ∀ row ∈ fl.pendingCheckpoints.rows, a ∉ row.2.signers
  | .slash a _ => ∀ row ∈ fl.pendingCheckpoints.rows, a ∉ row.2.signers
  | .jail a => ∀ row ∈ fl.pendingCheckpoints.rows, a ∉ row.2.signers

instance (fl : FinalityLayer) : DecidablePred (Undisturbed fl)
  | .create .. | .sign .. => inferInstanceAs (Decidable True)
  | .addValidator _ => inferInstanceAs (Decidable (_ < _))
  | .removeValidator _ | .slash .. | .jail _ => inferInstanceAs (Decidable (∀ row ∈ _, _))

/-- A change of the set that spares the signers and keeps the doubled stake
within a word keeps the layer sound. -/
theorem Sound.setValidators (hfl : Sound env delivered fl) (hfits : 2 * set.activeStake < 2 ^ 128)
    (heq : ∀ row ∈ fl.pendingCheckpoints.rows, ∀ a ∈ row.2.signers,
      set.getValidator a = fl.committeeManager.validatorSet.getValidator a) :
    Sound env delivered (fl.setValidators set) :=
  ⟨hfits, fun row hrow => (hfl.pending row hrow).of_getValidator (heq row hrow)⟩

/-- The same when the change touches one address, which signed nothing. -/
theorem Sound.setValidators_of_ne (hfl : Sound env delivered fl) {address : Address}
    (hspared : ∀ row ∈ fl.pendingCheckpoints.rows, address ∉ row.2.signers)
    (hothers : ∀ other ≠ address,
      set.getValidator other = fl.committeeManager.validatorSet.getValidator other)
    (hstake : set.activeStake ≤ fl.committeeManager.validatorSet.activeStake) :
    Sound env delivered (fl.setValidators set) := by
  have hfits := hfl.fits
  exact hfl.setValidators (by omega) fun row hrow a ha =>
    hothers a fun h => hspared row hrow (h ▸ ha)

theorem Sound.step (hfl : Sound env delivered fl) (hop : Undisturbed fl op)
    (hdelivered : ∀ signature, delivery op = some signature → signature ∈ delivered) :
    Sound env delivered (fl.step env op) := by
  cases op with
  | create slot view => exact (hfl.create view slot).1
  | sign checkpointHash signature io =>
    exact (hfl.sign (hdelivered signature rfl)
      (receiveCheckpointSignature_effect ..)).1
  | addValidator v =>
    show Sound env delivered (fl.addValidator v)
    unfold FinalityLayer.addValidator
    cases hadd : fl.committeeManager.addValidator v with
    | error => exact hfl
    | ok =>
      obtain ⟨rfl, _⟩ := CommitteeManager.addValidator_ok hadd
      refine hfl.setValidators ?_ fun row hrow a ha => ?_
      · rw [activeStake_enter]
        exact hop
      · obtain ⟨w, hw⟩ := (hfl.pending row hrow).known a ha
        rw [hw]
        exact getValidator_enter hw v
  | removeValidator a =>
    exact hfl.setValidators_of_ne hop
      (fun other h => getValidator_leave _ h) (activeStake_leave _ a)
  | slash a percentage =>
    show Sound env delivered (fl.slash a percentage)
    unfold FinalityLayer.slash
    cases hslash : fl.committeeManager.validatorSet.slashValidator a percentage with
    | error => exact hfl
    | ok =>
      obtain ⟨hothers, hstake⟩ := slashValidator_ok hslash
      exact hfl.setValidators_of_ne hop hothers hstake
  | jail a =>
    exact hfl.setValidators_of_ne hop (fun other h => getValidator_jailValidator _ h)
      (activeStake_jailValidator _ a)

/-- The sums and thresholds a signature causes to be computed stay within
`u128` and mean what they say. -/
structure NoOverflow (env : Platform V) (fl : FinalityLayer) : Prop where
  total : fl.committeeManager.validatorSet.totalActiveStake.toNat
    = fl.committeeManager.validatorSet.activeStake
  doubled : 2 * fl.committeeManager.validatorSet.activeStake < 2 ^ 128
  threshold : fl.committeeManager.validatorSet.finalityThreshold.toNat
    = threshold fl.committeeManager.validatorSet.activeStake
  signed : ∀ checkpointHash signature p v,
    fl.pendingCheckpoints.get checkpointHash = some (checkpointHash, p) →
    Admitted env fl.committeeManager.validatorSet p signature v →
      p.totalStakeSigned.toNat + v.effectiveStake.toNat < 2 ^ 128

theorem Sound.noOverflow (hfl : Sound env delivered fl) : NoOverflow env fl := by
  have hfits := hfl.fits
  refine ⟨totalActiveStake_toNat (by omega), hfits,
    finalityThreshold_toNat hfits, fun checkpointHash signature p v hget hadm => ?_⟩
  have htallied : Tallied fl.committeeManager.validatorSet p :=
    (hfl.pending _ (mem_rows_of_get hget)).toTallied
  have hroom := htallied.room hadm
  have hbound := fl.committeeManager.validatorSet.sum_stakeOf_le
    (insert signature.validator p.signers)
  omega

/-- From an empty validator set, in every run that meets `Undisturbed`: no
arithmetic overflows, and a checkpoint finalised by the last step lists
distinct validators that signed it and have two thirds of the active stake
in the set of that moment. -/
theorem finality_counts_current_stake (env : Platform V) (checkpointInterval : UInt64)
    (numShards : UInt16) {ops : List FinalityOp} {op : FinalityOp}
    (hmeet : Runs.StepsMeet (step env) Undisturbed
      (new ⟨ValidatorSet.new⟩ checkpointInterval numShards) (ops ++ [op])) :
    let fl := run (step env) (new ⟨ValidatorSet.new⟩ checkpointInterval numShards) ops
    NoOverflow env fl ∧
      ∀ c, (fl.step env op).finalizedCheckpoints = fl.finalizedCheckpoints ++ [c] →
        Certified env (fl.step env op).committeeManager.validatorSet
          ((ops ++ [op]).filterMap delivery) c := by
  intro fl
  obtain ⟨hops, _⟩ := hmeet.append
  have hstart : Sound env ((ops ++ [op]).filterMap delivery)
      (new ⟨ValidatorSet.new⟩ checkpointInterval numShards) :=
    ⟨Nat.two_pow_pos 128, fun _ h => absurd h not_mem_nil⟩
  have hsound : Sound env ((ops ++ [op]).filterMap delivery) fl :=
    invariant_of_stepsMeet
      (fun fl o (hfl : Sound env ((ops ++ [op]).filterMap delivery) fl) ho => hfl.step ho.1 ho.2)
      hstart (hops.and_mem fun o ho s hs =>
        mem_filterMap.mpr ⟨o, mem_append_left _ ho, hs⟩)
  refine ⟨hsound.noOverflow, fun c hc => ?_⟩
  cases hdel : delivery op with
  | none =>
    have hgrown := congrArg List.length ((fl.step_finalizedCheckpoints env hdel).symm.trans hc)
    simp at hgrown
  | some s =>
    obtain ⟨checkpointHash, signature, io, rfl⟩ : ∃ h s io, op = .sign h s io := by
      cases op <;> first | exact ⟨_, _, _, rfl⟩ | cases hdel
    obtain ⟨-, hmanager, hlist⟩ := hsound.sign
      (mem_filterMap.mpr ⟨_, mem_append_right _ (mem_singleton_self _), rfl⟩)
      (receiveCheckpointSignature_effect ..)
    rcases hlist with hlist | ⟨d, hlist, hcertified⟩
    · have hgrown := congrArg List.length (hlist.symm.trans hc)
      simp at hgrown
    obtain rfl : d = c := by simpa using hlist.symm.trans hc
    show Certified env (fl.receiveCheckpointSignature env io checkpointHash
      signature).2.committeeManager.validatorSet _ d
    rw [hmanager]
    exact hcertified

/-- Four validators join and one checkpoint is created and signed twice. -/
def signedTwice (stake : Nat) : List FinalityOp :=
  [.addValidator (sampleValidator 1 stake), .addValidator (sampleValidator 2 stake),
    .addValidator (sampleValidator 3 stake), .addValidator (sampleValidator 4 stake),
    .create 10 sampleView, sampleSign (sampleCheckpoint 10 0) 1,
    sampleSign (sampleCheckpoint 10 0) 2]

/-- The layer after a run from an empty validator set. -/
def afterRun (ops : List FinalityOp) : FinalityLayer :=
  run (step Platform.sample) (new ⟨ValidatorSet.new⟩ 10 1) ops

/-- Validator 4, who has signed nothing, is jailed. -/
def jailingRun : List FinalityOp := signedTwice 5 ++ [.jail 4]

def thirdSignature : FinalityOp := sampleSign (sampleCheckpoint 10 0) 3

/-- The signature of validator 3 then completes the quorum. -/
theorem current_stake_jailing :
    let fl := run (step Platform.sample) (new ⟨ValidatorSet.new⟩ 10 1) jailingRun
    (fl.step Platform.sample thirdSignature).finalizedCheckpoints.map Checkpoint.validators
        = [[1, 2, 3]] ∧
      ∀ c, (fl.step Platform.sample thirdSignature).finalizedCheckpoints
          = fl.finalizedCheckpoints ++ [c] →
        Certified Platform.sample
          (fl.step Platform.sample thirdSignature).committeeManager.validatorSet
          ((jailingRun ++ [thirdSignature]).filterMap delivery) c := by
  have hmeet : Runs.StepsMeet (step Platform.sample) Undisturbed (new ⟨ValidatorSet.new⟩ 10 1)
      (jailingRun ++ [thirdSignature]) := by
    decide +kernel
  exact ⟨by decide +kernel, (finality_counts_current_stake Platform.sample 10 1 hmeet).2⟩

/-- Validators 1 and 2 leave after signing, and validator 3 completes a
checkpoint with 5 of the 10 units of the current stake. -/
def leaversRun : List FinalityOp :=
  signedTwice 5 ++
    [.removeValidator 1, .removeValidator 2, sampleSign (sampleCheckpoint 10 0) 3]

/-- Two validators of the largest stake `add_validator` accepts. -/
def largestStakes : List FinalityOp :=
  [.addValidator (sampleValidator 1 (2 ^ 127 - 1)), .addValidator (sampleValidator 2 (2 ^ 127 - 1))]

/-- The checkpoint of `leaversRun` is finalised below the threshold, and the
threshold of `largestStakes` wraps to a third of the stake. -/
theorem stale_stake_finalises :
    (afterRun leaversRun).finalizedCheckpoints.map Checkpoint.validators = [[1, 2, 3]] ∧
    ∑ a ∈ {1, 2, 3}, (afterRun leaversRun).committeeManager.validatorSet.stakeOf a = 5 ∧
    (afterRun leaversRun).committeeManager.validatorSet.activeStake = 10 ∧ threshold 10 = 7 ∧
    (afterRun largestStakes).committeeManager.validatorSet.activeStake = 2 ^ 128 - 2 ∧
    (afterRun largestStakes).committeeManager.validatorSet.finalityThreshold.toNat
      = (2 ^ 128 - 4) / 3 + 1 := by
  decide +kernel

end FinalityLayer

end Quantos

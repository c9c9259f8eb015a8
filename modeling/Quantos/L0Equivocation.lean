import Quantos.L0ForkChoice

/-!
# Accountability for signing two blocks

The hub remembers the block each validator signed at a chain and height,
and attaches no signature of a validator for another block there. A
validator caught with a second block is an offender, and none of its later
signatures is attached.

The table only grows: a recorded block is never replaced, also by calls
that fail. Every signature of an emitted proof has its block recorded
(`Recorded`), and a signature is attached only for a validator that is no
offender at that moment (`Accountable`). As in `L0HubProofs` this is about
snapshots whose positions fit a `u32`: beyond that a signature is filed
under another validator than the one who gave it.
-/

namespace Quantos

open FinalityHub Runs List

/-- A signature of the proof is filed under the validator. -/
def L0FinalityProof.Contains (p : L0FinalityProof) (validator : Address) : Prop :=
  ∃ sig ∈ p.signatures, ∃ v, p.validatorOf sig = some v ∧ v.address = validator

theorem Completes.contains {p draft : L0FinalityProof} {signatures : List ProofSignature}
    (h : Completes p draft signatures) {sig : ProofSignature} (hsig : sig ∈ signatures)
    {v : ValidatorRecord} (hv : draft.validatorOf sig = some v) : p.Contains v.address := by
  refine ⟨sig, h.signatures ▸ hsig, v, ?_, rfl⟩
  rw [L0FinalityProof.validatorOf, h.validators]
  exact hv

namespace EquivocationTracker

/-- Everything in one tracker is still in a later one. -/
structure Extends (t t' : EquivocationTracker) : Prop where
  signedBlock : ∀ validator key block, t.signedBlock validator key = some block →
    t'.signedBlock validator key = some block
  offenders : ∀ validator ∈ t.offenders, validator ∈ t'.offenders

variable (t : EquivocationTracker)

theorem Extends.refl : t.Extends t := ⟨fun _ _ _ h => h, fun _ h => h⟩

variable {t' : EquivocationTracker}

theorem Extends.trans {t t'' : EquivocationTracker} (h : t.Extends t') (h' : t'.Extends t'') :
    t.Extends t'' :=
  ⟨fun v k b hb => h'.signedBlock v k b (h.signedBlock v k b hb),
    fun v hv => h'.offenders v (h.offenders v hv)⟩

theorem signedBlock_put (validator : Address) (key : String) (block : Hash) (validator' : Address)
    (key' : String) :
    { t with signedBlocks := t.signedBlocks.put ((validator, key), block) }.signedBlock validator'
        key'
      = if (validator, key) = (validator', key') then some block
        else t.signedBlock validator' key' := by
  simp only [signedBlock, Table.get_put]
  split <;> rfl

theorem extends_record (validator : Address) (key : String) (block : Hash) :
    t.Extends (t.record validator key block).2 := by
  unfold record
  rcases hentry : t.signedBlock validator key with _ | existing
  · refine ⟨fun validator' key' block' h => ?_, fun _ h => h⟩
    rw [signedBlock_put, if_neg, h]
    intro heq
    obtain ⟨rfl, rfl⟩ := Prod.mk.inj heq
    rw [hentry] at h
    cases h
  · dsimp only
    split
    · refine ⟨fun _ _ _ h => h, fun validator' h => ?_⟩
      split
      · exact h
      · exact mem_append_left _ h
    · exact Extends.refl t

/-- Whoever is not found equivocating has this block recorded. -/
theorem signedBlock_of_record {t : EquivocationTracker} {validator : Address} {key : String}
    {block : Hash} (h : t.record validator key block = (false, t')) :
    t'.signedBlock validator key = some block := by
  unfold record at h
  rcases hentry : t.signedBlock validator key with _ | existing <;> rw [hentry] at h
  · obtain rfl := (Prod.mk.inj h).2
    rw [signedBlock_put, if_pos rfl]
  · dsimp only at h
    split at h
    · cases (Prod.mk.inj h).1
    rename_i hsame
    obtain rfl := (Prod.mk.inj h).2
    rw [hentry, not_not.mp hsame]

end EquivocationTracker

/-- Each signature of a proof for another chain is filed under a validator
who was no offender in `start` and has the block recorded in `tracker`. -/
def L0FinalityProof.FiledIn (start tracker : EquivocationTracker) (p : L0FinalityProof) : Prop :=
  ∀ chain ∈ p.header.externalChain, ∀ a, p.Contains a → a ∉ start.offenders ∧
    tracker.signedBlock a (chain.asStr ++ ":" ++ toString p.header.epoch.toNat)
      = some p.header.dagRoot

section Loop

variable {V : Type} {env : Platform V}

/-- What the loop over the contributions keeps: the tracker it started from
is extended, and each attached signature is filed under a validator who was
no offender and has the block recorded. -/
structure Accountable (start : EquivocationTracker) (snapshot : ValidatorSetSnapshot)
    (key : String) (block : Hash) (t : ExternalTally) : Prop where
  tracker : start.Extends t.equivocations
  filed : ∀ sig ∈ t.tally.signatures, ∃ v,
    snapshot.validators[sig.validatorIndex.toNat]? = some v ∧ v.address ∉ start.offenders ∧
      t.equivocations.signedBlock v.address key = some block

variable {snapshot : ValidatorSetSnapshot} {start : EquivocationTracker} {t : ExternalTally}
  {key : String} {block : Hash}

theorem Accountable.extend (ht : Accountable start snapshot key block t)
    {tracker : EquivocationTracker} (h : t.equivocations.Extends tracker) :
    Accountable start snapshot key block { t with equivocations := tracker } := by
  refine ⟨ht.tracker.trans h, fun sig hsig => ?_⟩
  obtain ⟨v, hv, hoffender, hblock⟩ := ht.filed sig hsig
  exact ⟨v, hv, hoffender, h.signedBlock _ _ _ hblock⟩

theorem Accountable.count {message : Bytes} (hnarrow : snapshot.validators.length ≤ 2 ^ 32)
    (ht : Accountable start snapshot key block t) (c : SignatureContribution) :
    Accountable start snapshot key block (countExternal env snapshot message key block t c).2 := by
  have hextends := t.equivocations.extends_record c.validator key block
  rcases countExternal_cases env snapshot message key block t c with
    h | ⟨tracker, hrecord, h⟩ | ⟨tracker, _, v, hoffender, hadmits, hrecord, h⟩ <;> rw [h]
  · exact ht
  · rw [hrecord] at hextends
    exact ht.extend hextends
  · rw [hrecord] at hextends
    obtain ⟨hv, haddress, -, -⟩ := admits_eq_some hadmits
    have hindex := toNat_ofNat_index hnarrow hv
    refine ⟨ht.tracker.trans hextends, fun sig hsig => ?_⟩
    rcases mem_append.mp hsig with hsig | hsig
    · exact (ht.extend hextends).filed sig hsig
    rw [mem_singleton.mp hsig, hindex]
    refine ⟨v, hv, ?_, ?_⟩
    · intro hstart
      have hnow := ht.tracker.offenders _ hstart
      rw [haddress] at hnow
      exact absurd (contains_iff_mem.mpr hnow) (Bool.eq_false_iff.mp hoffender)
    · rw [haddress]
      exact EquivocationTracker.signedBlock_of_record hrecord

theorem FinalityHub.externalTally_accountable (hnarrow : snapshot.validators.length ≤ 2 ^ 32)
    (hub : FinalityHub) (ctx : ProofContext) (checkpoint : ExternalCheckpoint)
    (contributions : List SignatureContribution) :
    Accountable hub.equivocations snapshot (chainEpochKey checkpoint) checkpoint.blockHash
      (externalTally env hub ctx checkpoint snapshot contributions) := by
  have hstart : Accountable hub.equivocations snapshot (chainEpochKey checkpoint)
      checkpoint.blockHash ⟨Tally.empty, hub.equivocations⟩ :=
    ⟨EquivocationTracker.Extends.refl _, fun _ hsig => absurd hsig not_mem_nil⟩
  exact collectExternal_keeps (fun _ c ht => ht.count hnarrow c) hstart contributions

theorem FinalityHub.filedIn_of_completes {hub : FinalityHub} {ctx : ProofContext}
    {checkpoint : ExternalCheckpoint}
    (ht : Accountable hub.equivocations snapshot (chainEpochKey checkpoint) checkpoint.blockHash t)
    {p : L0FinalityProof}
    (hp : Completes p (externalDraft hub ctx checkpoint snapshot) t.tally.signatures) :
    p.FiledIn hub.equivocations t.equivocations := by
  rintro chain hchain a ⟨sig, hsig, v, hv, rfl⟩
  obtain ⟨_, hheader⟩ := hp.header
  rw [hp.signatures] at hsig
  obtain ⟨_, hv', hoffender, hblock⟩ := ht.filed sig hsig
  rw [L0FinalityProof.validatorOf, hp.validators] at hv
  obtain rfl := Option.some.inj (hv.symm.trans hv')
  rw [hheader] at hchain ⊢
  obtain rfl := Option.some.inj hchain
  exact ⟨hoffender, hblock⟩

end Loop

/-- The snapshot's positions fit the wire format. -/
def HubCall.Narrow : HubCall → Prop
  | .external _ _ snapshot _ _ => snapshot.validators.length ≤ 2 ^ 32
  | .native .. => True
  | .configure _ => True

namespace HubLog

variable {V : Type} {env : Platform V}

/-- What a call does to the tracker and the list of emitted proofs: the
tracker grows, and the signatures of a proof that is emitted are filed. -/
theorem step_accountable (s : HubLog) {call : HubCall} (hnarrow : call.Narrow) :
    s.hub.equivocations.Extends (s.step env call).hub.equivocations ∧
      ∃ new, (s.step env call).emitted = s.emitted ++ new ∧
        ∀ p ∈ new, p.FiledIn s.hub.equivocations (s.step env call).hub.equivocations := by
  have hquiet : ∀ tracker, ∃ new, s.emitted = s.emitted ++ new ∧
      ∀ p ∈ new, L0FinalityProof.FiledIn s.hub.equivocations tracker p :=
    fun _ => ⟨[], (append_nil _).symm, fun _ hp => absurd hp not_mem_nil⟩
  cases call with
  | configure config =>
    refine ⟨?_, hquiet _⟩
    simp only [step, updateConfig]
    rcases config.validate with e | u <;> exact EquivocationTracker.Extends.refl _
  | native ctx checkpoint snapshot contributions =>
    rcases buildProof_cases env s.hub ctx checkpoint snapshot contributions with
      ⟨e, hbuild⟩ | ⟨e, hbuild⟩ | ⟨p, hbuild, hcompletes, -⟩ <;> simp only [step, hbuild, after]
    · exact ⟨EquivocationTracker.Extends.refl _, hquiet _⟩
    · exact ⟨EquivocationTracker.Extends.refl _, hquiet _⟩
    · refine ⟨EquivocationTracker.Extends.refl _, [p], rfl, ?_⟩
      intro q hq chain hchain
      obtain ⟨_, hheader⟩ := hcompletes.header
      rw [mem_singleton.mp hq, hheader] at hchain
      cases hchain
  | external ctx checkpoint snapshot contributions verification =>
    have haccountable := @FinalityHub.externalTally_accountable V env snapshot hnarrow s.hub ctx
      checkpoint contributions
    rcases buildExternalProof_cases env s.hub ctx checkpoint snapshot contributions
      verification with
      ⟨e, hbuild⟩ | ⟨e, hbuild⟩ | ⟨p, hbuild, hcompletes, -⟩ <;> simp only [step, hbuild, after]
    · exact ⟨EquivocationTracker.Extends.refl _, hquiet _⟩
    · exact ⟨haccountable.tracker, hquiet _⟩
    · refine ⟨haccountable.tracker, [p], rfl, ?_⟩
      intro q hq
      rw [mem_singleton.mp hq]
      exact filedIn_of_completes haccountable hcompletes

/-- Every signature of an emitted proof has its block recorded. -/
def Recorded (s : HubLog) : Prop :=
  ∀ p ∈ s.emitted, ∀ chain ∈ p.header.externalChain, ∀ a, p.Contains a →
    s.hub.equivocations.signedBlock a (chain.asStr ++ ":" ++ toString p.header.epoch.toNat)
      = some p.header.dagRoot

theorem Recorded.step {s : HubLog} (hs : s.Recorded) {call : HubCall} (hnarrow : call.Narrow) :
    (s.step env call).Recorded := by
  obtain ⟨hextends, _, hemitted, hnew⟩ := @step_accountable V env s call hnarrow
  intro p hp chain hchain a ha
  rw [hemitted] at hp
  rcases mem_append.mp hp with hp | hp
  · exact hextends.signedBlock _ _ _ (hs p hp chain hchain a ha)
  · exact (hnew p hp chain hchain a ha).2

/-- The validator is an offender, and no proof emitted for another chain
since `old` contains its signature. -/
def Excluded (old : List L0FinalityProof) (a : Address) (s : HubLog) : Prop :=
  a ∈ s.hub.equivocations.offenders ∧
    ∃ later, s.emitted = old ++ later ∧
      ∀ p ∈ later, p.header.externalChain ≠ none → ¬ p.Contains a

theorem Excluded.step {old : List L0FinalityProof} {a : Address} {s : HubLog}
    (hs : s.Excluded old a) {call : HubCall} (hnarrow : call.Narrow) :
    (s.step env call).Excluded old a := by
  obtain ⟨hoffender, later, hlater, hclean⟩ := hs
  obtain ⟨hextends, new, hemitted, hnew⟩ := @step_accountable V env s call hnarrow
  refine ⟨hextends.offenders a hoffender, later ++ new, ?_, ?_⟩
  · rw [hemitted, hlater, append_assoc]
  · intro p hp hexternal ha
    rcases mem_append.mp hp with hp | hp
    · exact hclean p hp hexternal ha
    · obtain ⟨chain, hchain⟩ := Option.ne_none_iff_exists'.mp hexternal
      exact (hnew p hp chain hchain a ha).1 hoffender

/-- Over every run with snapshots that fit the wire format, no validator's
signature is in two emitted proofs for different blocks at one chain and
height, and none of an offender's is in a proof emitted later. -/
theorem equivocation_accountability (hub : FinalityHub) (calls : List HubCall)
    (hnarrow : ∀ call ∈ calls, call.Narrow) :
    (∀ p ∈ (run (step env) ⟨hub, []⟩ calls).emitted,
      ∀ q ∈ (run (step env) ⟨hub, []⟩ calls).emitted, ∀ chain a,
        p.header.externalChain = some chain → q.header.externalChain = some chain →
        p.header.epoch = q.header.epoch → p.header.dagRoot ≠ q.header.dagRoot →
        ¬ (p.Contains a ∧ q.Contains a)) ∧ ∀ before after, calls = before ++ after →
        ∀ a ∈ (run (step env) ⟨hub, []⟩ before).hub.equivocations.offenders,
          ∃ later, (run (step env) ⟨hub, []⟩ calls).emitted
              = (run (step env) ⟨hub, []⟩ before).emitted ++ later ∧
            ∀ p ∈ later, p.header.externalChain ≠ none → ¬ p.Contains a := by
  constructor
  · have hstart : Recorded ⟨hub, []⟩ := fun _ hp => absurd hp not_mem_nil
    have hrecorded : (run (step env) ⟨hub, []⟩ calls).Recorded :=
      invariant_of_forall (fun s call hs hcall => hs.step hcall) hstart hnarrow
    intro p hp q hq chain a hpchain hqchain hepoch hblock hboth
    have hpblock := hrecorded p hp chain hpchain a hboth.1
    have hqblock := hrecorded q hq chain hqchain a hboth.2
    rw [hepoch, hqblock] at hpblock
    exact hblock (Option.some.inj hpblock).symm
  · rintro before after rfl a ha
    have hstart : Excluded (run (step env) ⟨hub, []⟩ before).emitted a
        (run (step env) ⟨hub, []⟩ before) :=
      ⟨ha, [], (append_nil _).symm, fun _ hp => absurd hp not_mem_nil⟩
    rw [run_append]
    exact (invariant_of_forall (fun s call hs hcall => hs.step hcall) hstart
      fun call hcall => hnarrow call (mem_append_right _ hcall)).2

/-- A validator signs two blocks at height 5, and then one at height 6. -/
def equivocatingCalls : List HubCall :=
  [sampleCall .ethereum 5 0 10 1, sampleCall .ethereum 5 10 11 2, sampleCall .ethereum 6 10 12 3]

/-- Its first signature is in a proof, the two others are not. -/
theorem equivocation_accountability_caught :
    (run (step Platform.sample) ⟨freshHub unanimousConfig, []⟩
        equivocatingCalls).hub.equivocations.offenders = [1] ∧ ∃ later, (run (step Platform.sample)
            ⟨freshHub unanimousConfig, []⟩ equivocatingCalls).emitted = (run (step Platform.sample)
              ⟨freshHub unanimousConfig, []⟩ (equivocatingCalls.take 2)).emitted ++ later ∧
        ∀ p ∈ later, p.header.externalChain ≠ none → ¬ p.Contains 1 := by
  have hnarrow : ∀ call ∈ equivocatingCalls, call.Narrow := by
    simp [equivocatingCalls, sampleCall, HubCall.Narrow]
  refine ⟨by decide, (equivocation_accountability _ _ hnarrow).2 _
    (equivocatingCalls.drop 2) (take_append_drop 2 _).symm 1 (by decide)⟩

/-! ## A snapshot too wide for the wire format -/

/-- A call with one admitted contribution that carries enough stake emits a
proof with this one signature. -/
theorem exists_single_proof {hub : FinalityHub} {ctx : ProofContext}
    {checkpoint : ExternalCheckpoint} {snapshot : ValidatorSetSnapshot} {c : SignatureContribution}
    {index : Nat} {v : ValidatorRecord}
    (hoffender : hub.equivocations.isOffender c.validator = false)
    (hadmits : ∀ message, admits env snapshot message [] c = some (index, v))
    (hfresh : hub.equivocations.signedBlock c.validator (chainEpochKey checkpoint)
      = none)
    (hcontinuity : hub.continuityError checkpoint = none)
    (hwork : hub.chainWorkError checkpoint = none)
    (hstake : hub.config.requiredStake snapshot.totalStake ≤ saturatingAdd128 0 v.stake) :
    ∃ p, hub.buildExternalProof env ctx checkpoint snapshot [c] .accepted
        = (.ok p, emit env (hub.advanced checkpoint
            { hub.equivocations with
              signedBlocks := hub.equivocations.signedBlocks.put
                ((c.validator, chainEpochKey checkpoint), checkpoint.blockHash) }) p) ∧
      Completes p (externalDraft hub ctx checkpoint snapshot)
        [⟨UInt32.ofNat index, c.algo, c.signature⟩] := by
  have htally : externalTally env hub ctx checkpoint snapshot [c]
      = ⟨⟨[⟨UInt32.ofNat index, c.algo, c.signature⟩], saturatingAdd128 0 v.stake⟩,
          { hub.equivocations with
            signedBlocks := hub.equivocations.signedBlocks.put
              ((c.validator, chainEpochKey checkpoint), checkpoint.blockHash) }⟩ := by
    simp only [externalTally, collectExternal, countExternal, hoffender, Tally.empty,
      hadmits, EquivocationTracker.record, hfresh, Tally.push, nil_append, ite_self,
      Bool.false_eq_true, if_false]
  have hne : snapshot.validators ≠ [] := by
    intro hnil
    have hrecord := (admits_eq_some (hadmits [])).1
    rw [hnil] at hrecord
    cases hrecord
  have hemits := @FinalityHub.exists_buildExternalProof V env snapshot hub ctx checkpoint [c]
    .accepted rfl hne hcontinuity hwork (by rw [htally]; exact hstake)
  rwa [htally] at hemits

/-- A checkpoint of Ethereum at height 5. -/
def height5 (parentBlockHash blockHash : Hash) (chainWork : U128) : ExternalCheckpoint where
  chainId := .ethereum
  blockNumber := 5
  blockHash
  stateRoot := 0
  parentBlockHash
  chainWork
  timestampMs := 0
  proof := .icp [] [] []
  metadata := none

/-- The last of `n + 1` validators certifies block 10, and validator 0, in a
snapshot of its own, block 20 at the same height. -/
def wideCalls (n : Nat) : List HubCall :=
  [.external idleContext (height5 0 10 1) (wideSnapshot n)
      [⟨BitVec.ofNat 256 n, .mlDsa65, []⟩] .accepted,
    .external idleContext (height5 10 20 2) ⟨0, [⟨0, [1], 1⟩]⟩
      [⟨0, .mlDsa65, []⟩] .accepted]

/-- Where the index of the last validator is cut down to 0, both proofs are
emitted, and both are filed under validator 0. -/
theorem exists_wide_equivocation {n : Nat} (hn : n < 2 ^ 256) (hcut : UInt32.ofNat n = 0)
    (hpos : 0 < n) :
    ∃ p q, (run (step oneKeyPlatform)
          ⟨freshHub unanimousConfig, []⟩ (wideCalls n)).emitted = [p, q] ∧
      p.header.externalChain = some .ethereum ∧ q.header.externalChain = some .ethereum ∧
      p.header.epoch = q.header.epoch ∧ p.header.dagRoot ≠ q.header.dagRoot ∧
      p.Contains 0 ∧ q.Contains 0 := by
  have hne : BitVec.ofNat 256 n ≠ 0 := fun hzero =>
    Nat.ne_of_gt hpos (wideAddress_inj hn (by decide) hzero)
  have hwide : unanimousConfig.requiredStake (wideSnapshot n).totalStake
      ≤ saturatingAdd128 0 (wideRecord n n).stake := by
    rw [requiredStake_wideSnapshot, wideRecord, if_pos rfl, if_pos rfl]
    show (1 : U128) ≤ saturatingAdd128 0 1
    decide
  obtain ⟨p, hp, hpcompletes⟩ := @exists_single_proof Unit oneKeyPlatform
    (freshHub unanimousConfig) idleContext (height5 0 10 1)
    (wideSnapshot n) ⟨BitVec.ofNat 256 n, .mlDsa65, []⟩ n (wideRecord n n)
    rfl (fun message => admits_wideSnapshot hn message []) rfl rfl rfl hwide
  generalize hhub : emit _ _ p = hub at hp
  obtain ⟨_, hpheader⟩ := hpcompletes.header
  -- the hub after the first call: validator 0 has signed nothing yet
  have hfresh : hub.equivocations.signedBlock 0 (chainEpochKey (height5 10 20 2))
      = none := by
    rw [← hhub]
    refine (EquivocationTracker.signedBlock_put ..).trans (if_neg ?_)
    exact fun heq => hne (Prod.mk.inj heq).1
  have hwork : hub.chainWorkError (height5 10 20 2) = none := by
    have hback : hub.archive.getLast? = some p := by
      rw [← hhub]
      rfl
    have hless : ¬ (2 : U128) ≤ 1 := by decide
    simp only [chainWorkError, hback, hpheader]
    exact if_neg fun hcheck => hless hcheck.2
  have hcontinuity : hub.continuityError (height5 10 20 2) = none := by
    rw [← hhub]
    rfl
  have hstake : hub.config.requiredStake (ValidatorSetSnapshot.totalStake ⟨0, [⟨0, [1], 1⟩]⟩)
      ≤ saturatingAdd128 0 1 := by
    rw [← hhub]
    show unanimousConfig.requiredStake _ ≤ _
    decide
  obtain ⟨q, hq, hqcompletes⟩ := @exists_single_proof Unit oneKeyPlatform hub
    idleContext (height5 10 20 2) ⟨0, [⟨0, [1], 1⟩]⟩ ⟨0, .mlDsa65, []⟩ 0 ⟨0, [1], 1⟩
    (by rw [← hhub]; rfl) (fun _ => rfl) hfresh hcontinuity hwork hstake
  obtain ⟨_, hqheader⟩ := hqcompletes.header
  refine ⟨p, q, ?_, by rw [hpheader]; rfl, by rw [hqheader]; rfl, by rw [hpheader, hqheader]; rfl,
    ?_, ?_, ?_⟩
  · simp only [wideCalls, run_cons, run_nil, step, hp, after, hq, nil_append, cons_append]
  · have hblocks : (10 : Hash) ≠ 20 := by decide
    rw [hpheader, hqheader]
    exact hblocks
  · rw [hcut] at hpcompletes
    exact hpcompletes.contains (mem_singleton_self _)
      (wideSnapshot_getElem? (Nat.zero_le n))
  · exact hqcompletes.contains (mem_singleton_self _) rfl

/-- Over `2 ^ 32 + 1` validators two proofs for different blocks at one
height are filed under the same validator. -/
theorem wide_equivocation :
    ∃ p q, (run (step oneKeyPlatform) ⟨freshHub unanimousConfig, []⟩ (wideCalls (2 ^ 32))).emitted
        = [p, q] ∧
      p.header.externalChain = some .ethereum ∧ q.header.externalChain = some .ethereum ∧
      p.header.epoch = q.header.epoch ∧ p.header.dagRoot ≠ q.header.dagRoot ∧
      p.Contains 0 ∧ q.Contains 0 :=
  exists_wide_equivocation (by decide) (by decide) (by decide)

end HubLog

end Quantos

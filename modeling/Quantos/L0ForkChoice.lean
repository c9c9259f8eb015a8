import Quantos.L0HubProofs

/-!
# Fork choice across calls of the hub

A run of the hub is a list of calls for any chains and configurations. The
proofs it emits for one external chain are meant to be a chain: each with
the previous one's block as parent, and with more chain work.

The two checks behind this look at different places. The parent is compared
with the head recorded under the chain's *name*, which a custom chain may
share with a built-in one. The work is compared with the last proof in the
*archive*, if that is of the same chain; a proof of another chain, a native
proof, or archiving switched off is enough for the comparison not to be
made. `Keeps` is what has to hold of a call that emits a proof for the
chains to stay chains (`chains_linked`).
-/

namespace Quantos

open FinalityHub List

/-- The calls of a run. -/
inductive HubCall
  | native (ctx : ProofContext) (checkpoint : Checkpoint) (snapshot : ValidatorSetSnapshot)
      (contributions : List SignatureContribution)
  | external (ctx : ProofContext) (checkpoint : ExternalCheckpoint)
      (snapshot : ValidatorSetSnapshot) (contributions : List SignatureContribution)
      (verification : VerificationResult)
  | configure (config : L0Config)

/-- The hub and the proofs it has emitted so far, oldest first. -/
structure HubLog where
  hub : FinalityHub
  emitted : List L0FinalityProof

namespace HubLog

variable {V : Type} (env : Platform V) (s : HubLog)

/-- The log after a call with the given outcome. -/
def after : Except L0Error L0FinalityProof × FinalityHub → HubLog
  | (.ok p, hub) => ⟨hub, s.emitted ++ [p]⟩
  | (.error _, hub) => ⟨hub, s.emitted⟩

def step : HubCall → HubLog
  | .native ctx checkpoint snapshot contributions =>
    s.after (s.hub.buildProof env ctx checkpoint snapshot contributions)
  | .external ctx checkpoint snapshot contributions verification =>
    s.after (s.hub.buildExternalProof env ctx checkpoint snapshot contributions verification)
  | .configure config => { s with hub := (s.hub.updateConfig config).2 }

variable (chain : ChainId)

/-- The proofs emitted for a chain. -/
def emittedFor : List L0FinalityProof :=
  s.emitted.filter fun p => p.header.externalChain = some chain

/-- `q` continues the chain whose last proof is `p`. -/
def Continues (p q : L0FinalityProof) : Prop :=
  q.header.parentBlockHash = p.header.dagRoot ∧ p.header.chainWork < q.header.chainWork

instance (p q : L0FinalityProof) : Decidable (Continues p q) := inferInstanceAs (Decidable (_ ∧ _))

/-- No other chain of the same name has had a proof. -/
def NoNamesake : Prop :=
  ∀ p ∈ s.emitted, ∀ other ∈ p.header.externalChain, other.asStr = chain.asStr → other = chain

instance : Decidable (s.NoNamesake chain) :=
  inferInstanceAs (Decidable (∀ p ∈ s.emitted, ∀ other ∈ p.header.externalChain,
    other.asStr = chain.asStr → other = chain))

/-- Asked of a call that emits a proof: it is the first for a chain of that
name, or the chain's last proof is also the last one in the archive, or
the work of the checkpoint is more than that proof's. -/
def Keeps : HubCall → Prop
  | .external ctx checkpoint snapshot contributions verification =>
    (s.hub.buildExternalProof env ctx checkpoint snapshot contributions verification).1.isOk →
      s.NoNamesake checkpoint.chainId ∧
        ∀ prev ∈ (s.emittedFor checkpoint.chainId).getLast?,
          s.hub.archive.getLast? = some prev ∨ prev.header.chainWork < checkpoint.chainWork
  | .native .. => True
  | .configure _ => True

instance decidableKeeps : ∀ call, Decidable (Keeps env s call)
  | .external .. => inferInstanceAs (Decidable (_ → _ ∧ ∀ prev ∈ _, _))
  | .native .. => isTrue trivial
  | .configure _ => isTrue trivial

/-- The proofs of each chain are linked, and a chain that shares its name
with no other has its last block as head. -/
structure Linked (s : HubLog) : Prop where
  chain : ∀ chain, (s.emittedFor chain).IsChain Continues
  head : ∀ chain prev, s.NoNamesake chain → (s.emittedFor chain).getLast? = some prev →
    s.hub.lastBlockByChain.get chain.asStr = some (chain.asStr, prev.header.dagRoot)

variable {p : L0FinalityProof} {hub : FinalityHub} {s} {chain}

theorem emittedFor_after_of_ne (h : p.header.externalChain ≠ some chain) :
    (s.after (.ok p, hub)).emittedFor chain = s.emittedFor chain := by
  simp [emittedFor, after, h]

theorem emittedFor_after_self (h : p.header.externalChain = some chain) :
    (s.after (.ok p, hub)).emittedFor chain = s.emittedFor chain ++ [p] := by
  simp [emittedFor, after, h]

theorem NoNamesake.before (h : (s.after (.ok p, hub)).NoNamesake chain) : s.NoNamesake chain :=
  fun q hq => h q (mem_append_left [p] hq)

theorem Linked.native (hs : s.Linked) (hp : p.header.externalChain = none)
    (hheads : hub.lastBlockByChain = s.hub.lastBlockByChain) : (s.after (.ok p, hub)).Linked := by
  have hsame : ∀ chain, (s.after (.ok p, hub)).emittedFor chain = s.emittedFor chain :=
    fun chain => emittedFor_after_of_ne (by simp [hp])
  constructor
  · intro chain
    rw [hsame]
    exact hs.chain chain
  · intro chain prev hname hlast
    rw [hsame] at hlast
    exact (congrArg (Table.get · chain.asStr) hheads).trans (hs.head chain prev hname.before hlast)

/-- A proof for a chain that continues it, with its block as the new head. -/
theorem Linked.external (hs : s.Linked) (hp : p.header.externalChain = some chain)
    (hheads : hub.lastBlockByChain = s.hub.lastBlockByChain.put (chain.asStr, p.header.dagRoot))
    (hcontinues : ∀ prev, (s.emittedFor chain).getLast? = some prev → Continues prev p) :
    (s.after (.ok p, hub)).Linked := by
  have hget : ∀ name, (s.after (.ok p, hub)).hub.lastBlockByChain.get name
      = if chain.asStr = name then some (chain.asStr, p.header.dagRoot)
        else s.hub.lastBlockByChain.get name := by
    intro name
    exact (congrArg (Table.get · name) hheads).trans (Table.get_put _ _ _)
  constructor
  · intro other
    by_cases hother : p.header.externalChain = some other
    · obtain rfl := Option.some.inj (hp.symm.trans hother)
      rw [emittedFor_after_self hp, isChain_append]
      refine ⟨hs.chain _, isChain_singleton _, ?_⟩
      intro prev hprev q hq
      obtain rfl := Option.some.inj hq
      exact hcontinues prev hprev
    · rw [emittedFor_after_of_ne hother]
      exact hs.chain other
  · intro other prev hname hlast
    rw [hget]
    by_cases hother : p.header.externalChain = some other
    · obtain rfl := Option.some.inj (hp.symm.trans hother)
      rw [emittedFor_after_self hp, getLast?_concat] at hlast
      rw [if_pos rfl, Option.some.inj hlast]
    -- the new proof has another name, or it would be a namesake
    have hdifferent : chain.asStr ≠ other.asStr := by
      intro hsame
      have hmem : p ∈ (s.after (.ok p, hub)).emitted :=
        mem_append_right _ (mem_singleton_self p)
      exact hother (hp.trans (congrArg some (hname p hmem chain hp hsame)))
    rw [emittedFor_after_of_ne hother] at hlast
    rw [if_neg hdifferent]
    exact hs.head other prev hname.before hlast

/-- What the checks of a call and the condition on it give for the proof. -/
theorem continues_of_checks (hs : s.Linked) {checkpoint : ExternalCheckpoint}
    (hcontinuity : s.hub.continuityError checkpoint = none)
    (hwork : s.hub.chainWorkError checkpoint = none) (hname : s.NoNamesake checkpoint.chainId)
    (hseen : ∀ prev, (s.emittedFor checkpoint.chainId).getLast? = some prev →
      s.hub.archive.getLast? = some prev ∨ prev.header.chainWork < checkpoint.chainWork)
    {prev : L0FinalityProof} (hprev : (s.emittedFor checkpoint.chainId).getLast? = some prev) :
    checkpoint.parentBlockHash = prev.header.dagRoot ∧
      prev.header.chainWork < checkpoint.chainWork := by
  constructor
  · simp only [continuityError, hs.head _ _ hname hprev] at hcontinuity
    by_contra hparent
    rw [if_pos hparent] at hcontinuity
    cases hcontinuity
  · rcases hseen prev hprev with hback | hmore
    · have hchain : prev.header.externalChain = some checkpoint.chainId := by
        have hmem := mem_of_getLast? hprev
        exact of_decide_eq_true (mem_filter.mp hmem).2
      simp only [chainWorkError, hback, hchain, true_and] at hwork
      by_contra hless
      rw [if_pos (BitVec.not_lt.mp hless)] at hwork
      cases hwork
    · exact hmore

theorem Linked.step (hs : s.Linked) (call : HubCall) (hkeeps : s.Keeps env call) :
    (s.step env call).Linked := by
  cases call with
  | configure config =>
    have hheads : (s.step env (.configure config)).hub.lastBlockByChain
        = s.hub.lastBlockByChain := by
      simp only [HubLog.step, updateConfig]
      rcases config.validate with e | u <;> rfl
    exact ⟨hs.chain, fun chain prev hname hlast =>
      (congrArg (Table.get · chain.asStr) hheads).trans (hs.head chain prev hname hlast)⟩
  | native ctx checkpoint snapshot contributions =>
    simp only [HubLog.step]
    rcases buildProof_cases env s.hub ctx checkpoint snapshot contributions with
      ⟨e, hbuild⟩ | ⟨e, hbuild⟩ | ⟨p, hbuild, hcompletes, -⟩ <;> rw [hbuild]
    · exact hs
    · exact ⟨hs.chain, hs.head⟩
    · obtain ⟨commitment, hheader⟩ := hcompletes.header
      exact hs.native (by rw [hheader]; rfl) rfl
  | external ctx checkpoint snapshot contributions verification =>
    simp only [HubLog.step]
    rcases buildExternalProof_cases env s.hub ctx checkpoint snapshot contributions
      verification with
      ⟨e, hbuild⟩ | ⟨e, hbuild⟩ | ⟨p, hbuild, hcompletes, hcontinuity, hwork, -⟩
    · rw [hbuild]
      exact hs
    · rw [hbuild]
      exact ⟨hs.chain, hs.head⟩
    · obtain ⟨hname, hseen⟩ := hkeeps (by rw [hbuild]; rfl)
      obtain ⟨commitment, hheader⟩ := hcompletes.header
      rw [hbuild]
      have hblock : p.header.dagRoot = checkpoint.blockHash := by rw [hheader]; rfl
      refine hs.external (by rw [hheader]; rfl) (by rw [hblock]; rfl) ?_
      intro prev hprev
      have hnext := continues_of_checks hs hcontinuity hwork hname hseen hprev
      rw [Continues, hheader]
      exact hnext

/-- Over every run whose calls meet the condition, the proofs emitted for
each external chain are linked by their parents and have increasing work. -/
theorem chains_linked (hub : FinalityHub) (calls : List HubCall)
    (hcalls : Runs.StepsMeet (step env) (Keeps env) ⟨hub, []⟩ calls) (chain : ChainId) :
    ((Runs.run (step env) ⟨hub, []⟩ calls).emittedFor chain).IsChain Continues := by
  have hstart : Linked ⟨hub, []⟩ :=
    ⟨fun _ => isChain_nil, fun _ _ _ hlast => by cases hlast⟩
  exact (Runs.invariant_of_stepsMeet (fun s call hs hkeeps => hs.step env call hkeeps) hstart
    hcalls).chain chain

/-- One validator certifies a block of a chain. -/
def sampleCall (chainId : ChainId) (blockNumber : UInt64) (parentBlockHash blockHash : Hash)
    (chainWork : U128) : HubCall :=
  .external idleContext
    { chainId, blockNumber, blockHash, stateRoot := 0, parentBlockHash, chainWork,
      timestampMs := 0, proof := .icp [] [] [], metadata := none }
    ⟨0, [⟨1, [1], 1⟩]⟩ [⟨1, .mlDsa65, []⟩] .accepted

/-- Two chains in turn, with increasing work each. -/
def interleavedCalls : List HubCall :=
  [sampleCall .ethereum 1 0 10 5, sampleCall .solana 1 0 20 2, sampleCall .ethereum 2 10 11 6,
    sampleCall .solana 2 20 21 3]

theorem chains_linked_interleaved : ((Runs.run (step Platform.sample) ⟨freshHub unanimousConfig, []⟩
        interleavedCalls).emittedFor .ethereum).length = 2 ∧
      ((Runs.run (step Platform.sample) ⟨freshHub unanimousConfig, []⟩
        interleavedCalls).emittedFor .ethereum).IsChain Continues :=
  ⟨by decide, chains_linked Platform.sample _ _ (by decide) .ethereum⟩

/-- A proof for another chain in between, and the work of Ethereum falls
from 5 to 3; a custom chain of the same name in between, and the parent is
the block of that chain. -/
theorem chains_not_linked : new unanimousConfig = .ok (freshHub unanimousConfig) ∧
      ¬ ((Runs.run (step Platform.sample) ⟨freshHub unanimousConfig, []⟩
          [sampleCall .ethereum 1 0 10 5, sampleCall .solana 1 0 20 2,
            sampleCall .ethereum 2 10 11 3]).emittedFor .ethereum).IsChain Continues ∧
      ¬ ((Runs.run (step Platform.sample) ⟨freshHub unanimousConfig, []⟩
          [sampleCall .ethereum 1 0 10 5, sampleCall (.custom "ethereum") 2 10 20 6,
            sampleCall .ethereum 3 20 30 7]).emittedFor .ethereum).IsChain Continues :=
  ⟨rfl, by decide, by decide⟩

end HubLog

end Quantos

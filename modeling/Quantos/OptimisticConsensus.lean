import Mathlib.Data.UInt
import Quantos.Runs
import Quantos.Types

/-!
# Optimistic responsiveness

`consensus/optimistic_responsiveness.rs`. A round has a proposal, fast votes
that count until a deadline, and the votes of the standard phases. Enough
stake on the fast votes or on the commit votes makes a certificate: the hash
of the round's proposal with the voters as signers. Then the round number
advances, and states of rounds more than ten behind it are dropped.

Nothing compares the hash in a vote with that of the proposal, so a signer
may have voted for something else (`otherHashOps`). Nothing remembers a round
whose state was dropped, so a proposal for it starts it anew, and it can get
a second certificate (`revivedOps`). And a second proposal of the node itself
takes over the votes for the first (`reproposedOps`). Where none of the three
happens (`Orderly`) the certificates are what they should be
(`certificates_bound`).

A state gets its proposal and its deadline in the step that creates it, so
both are there without an option. Time is in nanoseconds and an argument. The
sums of stake wrap. The signers of a certificate come in the order of a hash
map, here in that of a table. Metrics and the notification of certificates
are left out.
-/

namespace Quantos.Optimistic

open Runs List Table

/-! ## Messages -/

structure FastProposal where
  hash : Hash
  round : UInt64
  proposer : Address
  payloadHash : Hash
  stateRoot : Hash
  createdAt : Nat

structure FastVote where
  proposalHash : Hash
  round : UInt64
  voter : Address
  stake : UInt64
  signature : Bytes
  receivedAt : Nat

inductive VotePhase where
  | prepare
  | preCommit
  | commit
  | decide
deriving DecidableEq, Repr

structure StandardVote where
  proposalHash : Hash
  round : UInt64
  phase : VotePhase
  voter : Address
  stake : UInt64
  signature : Bytes

structure CommitCertificate where
  proposalHash : Hash
  round : UInt64
  fastPath : Bool
  aggregatedSig : Bytes
  signers : List Address
  totalStake : UInt64
  latencyMs : UInt64

/-! ## Network conditions -/

inductive NetworkCondition where
  | synchronous
  | partialSync
  | asynchronous

inductive ResponsivenessMode where
  | optimistic
  | standard
  | conservative
deriving DecidableEq, Repr

structure LatencyTracker where
  samples : Table (Prod.fst : Address × List Nat → Address)
  maxSamples : Nat
  expectedRtt : Nat

namespace LatencyTracker

def new (expectedRtt : Nat) : LatencyTracker := ⟨.empty, 100, expectedRtt⟩

def record (t : LatencyTracker) (validator : Address) (rtt : Nat) : LatencyTracker :=
  let samples := ((t.samples.get validator).map Prod.snd).getD [] ++ [rtt]
  let samples := if samples.length > t.maxSamples then samples.tail else samples
  { t with samples := t.samples.put (validator, samples) }

/-- The counters have 32 bits, so that the ratios of doubles compare with 0.9
and 0.67 as the fractions do. -/
def detectCondition (t : LatencyTracker) : NetworkCondition :=
  let last := t.samples.rows.filterMap fun row => row.2.getLast?
  let fastCount := last.countP fun rtt => rtt ≤ t.expectedRtt * 2
  let total := last.length
  if total = 0 then .asynchronous
  else if fastCount * 10 ≥ total * 9 then .synchronous
  else if fastCount * 100 ≥ total * 67 then .partialSync
  else .asynchronous

end LatencyTracker

/-! ## Rounds -/

structure RoundState where
  proposal : FastProposal
  fastVotes : Table FastVote.voter
  prepareVotes : Table StandardVote.voter
  precommitVotes : Table StandardVote.voter
  commitVotes : Table StandardVote.voter
  fastPathDeadline : Nat
  committed : Bool

structure OptimisticConfig where
  expectedRtt : Nat
  fastPathTimeout : Nat
  quorumThreshold : UInt64
  fastQuorumThreshold : UInt64

structure OptimisticConsensus where
  localAddr : Address
  config : OptimisticConfig
  currentRound : UInt64
  rounds : Table (Prod.fst : UInt64 × RoundState → UInt64)
  mode : ResponsivenessMode
  latency : LatencyTracker
  committed : List CommitCertificate

namespace RoundState

def new (proposal : FastProposal) (fastPathDeadline : Nat) : RoundState :=
  ⟨proposal, .empty, .empty, .empty, .empty, fastPathDeadline, false⟩

variable (s : RoundState)

def fastVoteStake : UInt64 := (s.fastVotes.rows.map FastVote.stake).sum

def commitStake : UInt64 := (s.commitVotes.rows.map StandardVote.stake).sum

/-- The certificate of a list of votes. -/
def certificate (now : Nat) (fastPath : Bool) (votes : List (Address × Bytes × UInt64)) :
    CommitCertificate where
  proposalHash := s.proposal.hash
  round := s.proposal.round
  fastPath := fastPath
  aggregatedSig := votes.flatMap fun v => v.2.1
  signers := votes.map Prod.fst
  totalStake := (votes.map fun v => v.2.2).sum
  latencyMs := UInt64.ofNat ((now - s.proposal.createdAt) / 1000000)

def createFastCommitCert (now : Nat) : CommitCertificate :=
  s.certificate now true (s.fastVotes.rows.map fun v => (v.voter, v.signature, v.stake))

def createStandardCommitCert (now : Nat) : CommitCertificate :=
  s.certificate now false (s.commitVotes.rows.map fun v => (v.voter, v.signature, v.stake))

end RoundState

namespace OptimisticConsensus

def new (localAddr : Address) (config : OptimisticConfig) : OptimisticConsensus :=
  ⟨localAddr, config, 0, .empty, .optimistic, .new config.expectedRtt, []⟩

variable (c : OptimisticConsensus)

def getRound (round : UInt64) : Option RoundState :=
  (c.rounds.get round).map Prod.snd

def putRound (round : UInt64) (s : RoundState) : OptimisticConsensus :=
  { c with rounds := c.rounds.put (round, s) }

/-- `current.saturating_sub(10)` is the subtraction of numbers. -/
def advanceRound : OptimisticConsensus :=
  let current := c.currentRound + 1
  { c with
    currentRound := current
    mode := match c.latency.detectCondition with
      | .synchronous => .optimistic
      | .partialSync => .standard
      | .asynchronous => .conservative
    rounds := c.rounds.keep fun row => decide (row.1.toNat ≥ current.toNat - 10) }

def switchToStandard : OptimisticConsensus :=
  { c with mode := .standard }

variable (hashData : Bytes → Hash) (c : OptimisticConsensus)

def proposalHash (payloadHash stateRoot : Hash) : Hash :=
  hashData (leBytes 8 c.currentRound.toNat ++ arrayBytes payloadHash ++ arrayBytes stateRoot
    ++ arrayBytes c.localAddr)

variable (now : Nat)

/-- A proposal of the node itself replaces the one that is there. -/
def propose (payloadHash stateRoot : Hash) : FastProposal × OptimisticConsensus :=
  let proposal : FastProposal := ⟨c.proposalHash hashData payloadHash stateRoot, c.currentRound,
    c.localAddr, payloadHash, stateRoot, now⟩
  let deadline := now + c.config.fastPathTimeout
  let s := match c.getRound c.currentRound with
    | some s => { s with proposal, fastPathDeadline := deadline }
    | none => .new proposal deadline
  (proposal, c.putRound c.currentRound s)

/-- A proposal from elsewhere does not. -/
def onProposal (proposal : FastProposal) : OptimisticConsensus :=
  match c.getRound proposal.round with
  | some _ => c
  | none => c.putRound proposal.round (.new proposal (now + c.config.fastPathTimeout))

/-- The round is committed, and the certificate goes to the list. -/
def commit (round : UInt64) (s : RoundState) (cert : CommitCertificate) :
    Option CommitCertificate × OptimisticConsensus :=
  let c := c.putRound round { s with committed := true }
  (some cert, advanceRound { c with committed := c.committed ++ [cert] })

def onFastVote (vote : FastVote) : Option CommitCertificate × OptimisticConsensus :=
  let c := { c with latency := c.latency.record vote.voter (now - vote.receivedAt) }
  match c.getRound vote.round with
  | none => (none, c)
  | some s =>
    if now > s.fastPathDeadline then (none, c.switchToStandard)
    else if (s.fastVotes.get vote.voter).isSome then (none, c)
    else
      let s := { s with fastVotes := s.fastVotes.put vote }
      if s.fastVoteStake ≥ c.config.fastQuorumThreshold ∧ s.committed = false then
        c.commit vote.round s (s.createFastCommitCert now)
      else (none, c.putRound vote.round s)

/-- A second vote of a voter takes the place of the first. -/
def onStandardVote (vote : StandardVote) : Option CommitCertificate × OptimisticConsensus :=
  match c.getRound vote.round with
  | none => (none, c)
  | some s =>
    if s.committed then (none, c)
    else
      match vote.phase with
      | .prepare =>
        (none, c.putRound vote.round { s with prepareVotes := s.prepareVotes.put vote })
      | .preCommit =>
        (none, c.putRound vote.round { s with precommitVotes := s.precommitVotes.put vote })
      | .commit =>
        let s := { s with commitVotes := s.commitVotes.put vote }
        if s.commitStake ≥ c.config.quorumThreshold then
          c.commit vote.round s (s.createStandardCommitCert now)
        else (none, c.putRound vote.round s)
      | .decide => (none, c)

def onTimeout (round : UInt64) : OptimisticConsensus :=
  if round < c.currentRound then c
  else
    let c := if c.mode = .optimistic then c.switchToStandard else c
    c.advanceRound

end OptimisticConsensus

/-! ## Runs -/

inductive Message where
  | propose (now : Nat) (payloadHash stateRoot : Hash)
  | proposal (now : Nat) (proposal : FastProposal)
  | fastVote (now : Nat) (vote : FastVote)
  | standardVote (now : Nat) (vote : StandardVote)
  | timeout (round : UInt64)

/-- Whose vote a message is, and for what. -/
def Message.vote : Message → Option (Address × Hash)
  | .fastVote _ vote => some (vote.voter, vote.proposalHash)
  | .standardVote _ vote => some (vote.voter, vote.proposalHash)
  | _ => none

namespace OptimisticConsensus

variable (hashData : Bytes → Hash) (c : OptimisticConsensus)

def step : Message → OptimisticConsensus
  | .propose now payloadHash stateRoot => (c.propose hashData now payloadHash stateRoot).2
  | .proposal now proposal => c.onProposal now proposal
  | .fastVote now vote => (c.onFastVote now vote).2
  | .standardVote now vote => (c.onStandardVote now vote).2
  | .timeout round => c.onTimeout round

/-- No certificate for the round has been made. -/
def Uncertified (round : UInt64) : Prop :=
  ∀ cert ∈ c.committed, cert.round ≠ round

/-- A round is not started again after its certificate. The node replaces a
proposal by one with its hash or before there are votes. Votes are for the
proposal of their round. -/
def Orderly : Message → Prop
  | .propose _ payloadHash stateRoot =>
    (c.getRound c.currentRound = none → c.Uncertified c.currentRound) ∧
    ∀ s ∈ c.getRound c.currentRound,
      c.proposalHash hashData payloadHash stateRoot = s.proposal.hash ∨
        (s.fastVotes.rows = [] ∧ s.commitVotes.rows = [])
  | .proposal _ proposal => c.getRound proposal.round = none → c.Uncertified proposal.round
  | .fastVote _ vote => ∀ s ∈ c.getRound vote.round, vote.proposalHash = s.proposal.hash
  | .standardVote _ vote => vote.phase = .commit →
      ∀ s ∈ c.getRound vote.round, vote.proposalHash = s.proposal.hash
  | .timeout _ => True

instance (round : UInt64) : Decidable (c.Uncertified round) :=
  inferInstanceAs (Decidable (∀ cert ∈ c.committed, cert.round ≠ round))

instance decidableOrderly : ∀ m, Decidable (c.Orderly hashData m)
  | .propose .. => inferInstanceAs (Decidable (_ ∧ ∀ s ∈ _, _))
  | .proposal .. => inferInstanceAs (Decidable (_ → _))
  | .fastVote .. => inferInstanceAs (Decidable (∀ s ∈ _, _))
  | .standardVote .. => inferInstanceAs (Decidable (_ → ∀ s ∈ _, _))
  | .timeout _ => isTrue trivial

end OptimisticConsensus

/-! ## The invariant -/

/-- Every vote of a round was sent for its proposal. -/
structure RoundState.Bound (s : RoundState) (sent : List (Address × Hash)) : Prop where
  fast : ∀ v ∈ s.fastVotes.rows, (v.voter, s.proposal.hash) ∈ sent
  commit : ∀ v ∈ s.commitVotes.rows, (v.voter, s.proposal.hash) ∈ sent

namespace RoundState

variable {s : RoundState} {sent : List (Address × Hash)}

theorem bound_new {proposal : FastProposal} {deadline : Nat} {sent : List (Address × Hash)} :
    (RoundState.new proposal deadline).Bound sent :=
  ⟨fun _ h => (by cases h), fun _ h => by cases h⟩

theorem Bound.putFast (h : s.Bound sent) {vote : FastVote}
    (hvote : (vote.voter, s.proposal.hash) ∈ sent) :
    ({ s with fastVotes := s.fastVotes.put vote } : RoundState).Bound sent := by
  refine ⟨fun v hv => ?_, h.commit⟩
  rcases mem_rows_put hv with rfl | hv
  · exact hvote
  · exact h.fast v hv

theorem Bound.putCommit (h : s.Bound sent) {vote : StandardVote}
    (hvote : (vote.voter, s.proposal.hash) ∈ sent) :
    ({ s with commitVotes := s.commitVotes.put vote } : RoundState).Bound sent := by
  refine ⟨h.fast, fun v hv => ?_⟩
  rcases mem_rows_put hv with rfl | hv
  · exact hvote
  · exact h.commit v hv

theorem Bound.createFastCommitCert (h : s.Bound sent) (now : Nat) :
    ∀ a ∈ (s.createFastCommitCert now).signers, (a, s.proposal.hash) ∈ sent := by
  intro a ha
  simp only [RoundState.createFastCommitCert, certificate, map_map, mem_map,
    Function.comp_apply] at ha
  obtain ⟨v, hv, rfl⟩ := ha
  exact h.fast v hv

theorem Bound.createStandardCommitCert (h : s.Bound sent) (now : Nat) :
    ∀ a ∈ (s.createStandardCommitCert now).signers, (a, s.proposal.hash) ∈ sent := by
  intro a ha
  simp only [RoundState.createStandardCommitCert, certificate, map_map, mem_map,
    Function.comp_apply] at ha
  obtain ⟨v, hv, rfl⟩ := ha
  exact h.commit v hv

end RoundState

namespace OptimisticConsensus

variable (hashData : Bytes → Hash)

/-- A state belongs to its round, its votes are bound to the proposal, and as
long as it is not committed there is no certificate. -/
structure Sound (c : OptimisticConsensus) (sent : List (Address × Hash)) (round : UInt64)
    (s : RoundState) : Prop where
  round_eq : s.proposal.round = round
  bound : s.Bound sent
  uncertified : s.committed = false → c.Uncertified round

/-- `sent` are the votes of the run so far. -/
structure Inv (c : OptimisticConsensus) (sent : List (Address × Hash)) : Prop where
  sound : ∀ {round s}, c.getRound round = some s → Sound c sent round s
  once : (c.committed.map CommitCertificate.round).Nodup
  signed : ∀ cert ∈ c.committed, ∀ a ∈ cert.signers, (a, cert.proposalHash) ∈ sent

theorem inv_new {localAddr : Address} {config : OptimisticConfig} :
    Inv (new localAddr config) [] where
  sound := fun h => by cases h
  once := nodup_nil
  signed := fun _ h => by cases h

section

variable {c c' : OptimisticConsensus} {sent : List (Address × Hash)} {round : UInt64}
  {s : RoundState}

theorem getRound_putRound (c : OptimisticConsensus) (round : UInt64) (s : RoundState)
    (round' : UInt64) :
    (c.putRound round s).getRound round' =
      if round = round' then some s else c.getRound round' := by
  unfold getRound putRound
  rw [get_put]
  split <;> rfl

theorem Sound.congr (h : Sound c sent round s) (hcommitted : c'.committed = c.committed) :
    Sound c' sent round s :=
  ⟨h.round_eq, h.bound, fun hs => by
    unfold Uncertified
    rw [hcommitted]
    exact h.uncertified hs⟩

theorem Inv.mono (h : Inv c sent) {sent' : List (Address × Hash)} (hsent : sent ⊆ sent') :
    Inv c sent' := by
  refine ⟨fun hget => ?_, h.once, fun cert hcert a ha => hsent (h.signed cert hcert a ha)⟩
  have hs := h.sound hget
  exact ⟨hs.round_eq, ⟨fun v hv => hsent (hs.bound.fast v hv),
    fun v hv => hsent (hs.bound.commit v hv)⟩, hs.uncertified⟩

/-- What matters is the states that are there and the certificates. -/
theorem Inv.of_rounds (h : Inv c sent)
    (hrounds : ∀ {round s}, c'.getRound round = some s → c.getRound round = some s)
    (hcommitted : c'.committed = c.committed) : Inv c' sent := by
  refine ⟨fun hget => (h.sound (hrounds hget)).congr hcommitted, ?_, ?_⟩
  · rw [hcommitted]
    exact h.once
  · rw [hcommitted]
    exact h.signed

theorem Inv.advanceRound (h : Inv c sent) : Inv c.advanceRound sent := by
  refine h.of_rounds (fun {round s} hget => ?_) rfl
  obtain ⟨row, hrow, rfl⟩ := Option.map_eq_some_iff.mp hget
  exact Option.map_eq_some_iff.mpr ⟨row, get_of_get_keep hrow, rfl⟩

theorem Inv.putRound (h : Inv c sent) (hs : Sound c sent round s) :
    Inv (c.putRound round s) sent := by
  refine ⟨fun {round' s'} hget => ?_, h.once, h.signed⟩
  rw [getRound_putRound] at hget
  split at hget
  · rename_i hround
    obtain rfl := Option.some.inj hget
    obtain rfl := hround
    exact hs.congr rfl
  · exact (h.sound hget).congr rfl

/-- A certificate for a round that had none. -/
theorem Inv.commit (h : Inv c sent) (hs : Sound c sent round s) (hopen : s.committed = false)
    {cert : CommitCertificate} (hround : cert.round = round)
    (hsigned : ∀ a ∈ cert.signers, (a, cert.proposalHash) ∈ sent) :
    Inv (c.commit round s cert).2 sent := by
  have hnone := hs.uncertified hopen
  refine Inv.advanceRound ⟨fun {round' s'} hget => ?_, ?_, ?_⟩
  · change (c.putRound round { s with committed := true }).getRound round' = some s' at hget
    rw [getRound_putRound] at hget
    split at hget
    · rename_i heq
      obtain rfl := Option.some.inj hget
      obtain rfl := heq
      exact ⟨hs.round_eq, ⟨hs.bound.fast, hs.bound.commit⟩, fun hfalse => by cases hfalse⟩
    · rename_i hne
      -- the states of other rounds see one more certificate, which is not theirs
      have hother := h.sound hget
      refine ⟨hother.round_eq, hother.bound, fun hfalse cert' hcert' => ?_⟩
      rcases mem_append.mp hcert' with hold | hnew
      · exact hother.uncertified hfalse cert' hold
      obtain rfl := mem_singleton.mp hnew
      rw [hround]
      exact hne
  · rw [map_append, map_singleton, nodup_append]
    refine ⟨h.once, nodup_singleton _, fun r hr r' hr' heq => ?_⟩
    obtain ⟨cert', hcert', rfl⟩ := mem_map.mp hr
    rw [mem_singleton.mp hr', hround] at heq
    exact hnone cert' hcert' heq
  · intro cert' hcert'
    rcases mem_append.mp hcert' with hold | hnew
    · exact h.signed cert' hold
    · obtain rfl := mem_singleton.mp hnew
      exact hsigned

/-! ### Steps -/

variable {hashData} {now : Nat}

theorem Inv.propose (h : Inv c sent) {payloadHash stateRoot : Hash}
    (hop : c.Orderly hashData (.propose now payloadHash stateRoot)) :
    Inv (c.propose hashData now payloadHash stateRoot).2 sent := by
  obtain ⟨hnone, hsome⟩ := hop
  unfold OptimisticConsensus.propose
  cases hget : c.getRound c.currentRound with
  | none => exact h.putRound ⟨rfl, RoundState.bound_new, fun _ => hnone hget⟩
  | some s =>
    have hs := h.sound hget
    refine h.putRound ⟨rfl, ?_, hs.uncertified⟩
    -- the votes of the state stay; they are for the new hash or there are none
    rcases hsome s hget with hhash | ⟨hfast, hcommit⟩
    · exact ⟨fun v hv => hhash ▸ hs.bound.fast v hv, fun v hv => hhash ▸ hs.bound.commit v hv⟩
    refine ⟨fun v (hv : v ∈ s.fastVotes.rows) => ?_,
      fun v (hv : v ∈ s.commitVotes.rows) => ?_⟩
    · rw [hfast] at hv
      cases hv
    · rw [hcommit] at hv
      cases hv

theorem Inv.onProposal (h : Inv c sent) {proposal : FastProposal}
    (hop : c.Orderly hashData (.proposal now proposal)) : Inv (c.onProposal now proposal) sent := by
  unfold OptimisticConsensus.onProposal
  cases hget : c.getRound proposal.round with
  | some => exact h
  | none => exact h.putRound ⟨rfl, RoundState.bound_new, fun _ => hop hget⟩

theorem Inv.onFastVote (h : Inv c sent) {vote : FastVote}
    (hop : c.Orderly hashData (.fastVote now vote))
    (hsent : (vote.voter, vote.proposalHash) ∈ sent) : Inv (c.onFastVote now vote).2 sent := by
  have hlatency : Inv { c with
      latency := c.latency.record vote.voter (now - vote.receivedAt) } sent :=
    h.of_rounds id rfl
  unfold OptimisticConsensus.onFastVote
  dsimp only
  split
  · exact hlatency
  rename_i s hget
  have hs := hlatency.sound hget
  split
  · exact hlatency.of_rounds id rfl
  split
  · exact hlatency
  have hbound := hs.bound.putFast (hop s hget ▸ hsent)
  have hs' : Sound _ sent vote.round { s with fastVotes := s.fastVotes.put vote } :=
    ⟨hs.round_eq, hbound, hs.uncertified⟩
  split
  · rename_i hquorum
    exact hlatency.commit hs' hquorum.2 hs.round_eq (hbound.createFastCommitCert now)
  · exact hlatency.putRound hs'

theorem Inv.onStandardVote (h : Inv c sent) {vote : StandardVote}
    (hop : c.Orderly hashData (.standardVote now vote))
    (hsent : (vote.voter, vote.proposalHash) ∈ sent) : Inv (c.onStandardVote now vote).2 sent := by
  unfold OptimisticConsensus.onStandardVote
  cases hget : c.getRound vote.round with
  | none => exact h
  | some s =>
    have hs := h.sound hget
    dsimp only
    split
    · exact h
    rename_i hopen
    split
    · exact h.putRound ⟨hs.round_eq, ⟨hs.bound.fast, hs.bound.commit⟩, hs.uncertified⟩
    · exact h.putRound ⟨hs.round_eq, ⟨hs.bound.fast, hs.bound.commit⟩, hs.uncertified⟩
    · rename_i hphase
      have hbound := hs.bound.putCommit (hop hphase s hget ▸ hsent)
      have hs' : Sound c sent vote.round { s with commitVotes := s.commitVotes.put vote } :=
        ⟨hs.round_eq, hbound, hs.uncertified⟩
      split
      · exact h.commit hs' (Bool.eq_false_iff.mpr hopen) hs.round_eq
          (hbound.createStandardCommitCert now)
      · exact h.putRound hs'
    · exact h

theorem Inv.onTimeout (h : Inv c sent) (round : UInt64) : Inv (c.onTimeout round) sent := by
  unfold OptimisticConsensus.onTimeout
  split
  · exact h
  split
  · exact Inv.advanceRound (h.of_rounds id rfl)
  · exact h.advanceRound

theorem Inv.step (h : Inv c sent) {m : Message} (hop : c.Orderly hashData m) :
    Inv (c.step hashData m) (sent ++ m.vote.toList) := by
  have h' := h.mono (subset_append_left sent m.vote.toList)
  cases m with
  | propose => exact h'.propose hop
  | proposal => exact h'.onProposal hop
  | fastVote => exact h'.onFastVote hop (mem_append_right _ mem_cons_self)
  | standardVote =>
    exact h'.onStandardVote hop (mem_append_right _ mem_cons_self)
  | timeout round => exact h'.onTimeout round

theorem Inv.run {ms : List Message} (h : Inv c sent)
    (hops : StepsMeet (OptimisticConsensus.step hashData) (Orderly hashData) c ms) :
    Inv (run (OptimisticConsensus.step hashData) c ms) (sent ++ ms.filterMap Message.vote) := by
  induction ms generalizing c sent with
  | nil => exact h.mono (subset_append_left _ _)
  | cons m ms ih =>
    obtain ⟨hop, hops⟩ := hops
    have hsent : (m :: ms).filterMap Message.vote
        = m.vote.toList ++ ms.filterMap Message.vote := by
      cases hvote : m.vote <;> simp [hvote]
    rw [hsent, ← append_assoc]
    exact ih (h.step hop) hops

end

/-- In an orderly run there is one certificate for a round at most, and its
signers have voted for its proposal. -/
theorem certificates_bound (localAddr : Address) (config : OptimisticConfig) (ms : List Message)
    (hops : StepsMeet (step hashData) (Orderly hashData) (new localAddr config) ms) :
    let c := run (step hashData) (new localAddr config) ms
    (c.committed.map CommitCertificate.round).Nodup ∧
      ∀ cert ∈ c.committed, ∀ signer ∈ cert.signers,
        ∃ m ∈ ms, m.vote = some (signer, cert.proposalHash) := by
  have hinv := inv_new.run hops
  refine ⟨hinv.once, fun cert hcert signer hsigner => ?_⟩
  have hmem := hinv.signed cert hcert signer hsigner
  rw [nil_append] at hmem
  exact mem_filterMap.mp hmem

end OptimisticConsensus

/-! ### Samples -/

def OptimisticConfig.default : OptimisticConfig where
  expectedRtt := 50000000
  fastPathTimeout := 150000000
  quorumThreshold := 67
  fastQuorumThreshold := 90

/-- The hash of bytes is their sum. -/
def sumHash (data : Bytes) : Hash := BitVec.ofNat 256 (data.map UInt8.toNat).sum

variable (round : UInt64) (hash : Hash)

def proposalOf : Message := .proposal 0 ⟨hash, round, 9, 0, 0, 0⟩

def fastVoteOf (voter : Address) (stake : UInt64) : Message :=
  .fastVote 0 ⟨hash, round, voter, stake, [], 0⟩

def commitVoteOf (voter : Address) (stake : UInt64) : Message :=
  .standardVote 0 ⟨hash, round, .commit, voter, stake, []⟩

/-- The rounds, hashes and signers of the certificates of a run. -/
def certified (ms : List Message) : List (UInt64 × Hash × List Address) :=
  (run (OptimisticConsensus.step sumHash) (.new 9 .default) ms).committed.map fun cert =>
    (cert.round, cert.proposalHash, cert.signers)

/-- The first round goes the fast path, the second the standard one. -/
def orderlyOps : List Message :=
  [proposalOf 0 1, fastVoteOf 0 1 5 60, fastVoteOf 0 1 6 30,
    .propose 0 2 3, commitVoteOf 1 15 5 60, commitVoteOf 1 15 6 30]

theorem orderlyOps_bound : certified orderlyOps = [(0, 1, [6, 5]), (1, 15, [6, 5])] ∧
      ∀ cert ∈ (run (OptimisticConsensus.step sumHash) (.new 9 .default) orderlyOps).committed,
        ∀ signer ∈ cert.signers, ∃ m ∈ orderlyOps, m.vote = some (signer, cert.proposalHash) :=
  ⟨by decide,
    (OptimisticConsensus.certificates_bound sumHash 9 .default orderlyOps (by decide)).2⟩

/-- A vote for another hash than the proposal's. -/
def otherHashOps : List Message := [proposalOf 0 1, fastVoteOf 0 2 5 90]

/-- After ten timeouts the state of the first round is gone, and another
proposal for it is taken. -/
def revivedOps : List Message :=
  [proposalOf 0 1, fastVoteOf 0 1 5 90]
    ++ (List.range 10).map (fun i => .timeout (UInt64.ofNat (i + 1)))
    ++ [proposalOf 0 2, fastVoteOf 0 2 5 90]

/-- The node proposes twice in a round, with a vote for each. -/
def reproposedOps : List Message :=
  [.propose 0 1 0, fastVoteOf 0 10 5 60, .propose 0 2 0, fastVoteOf 0 11 6 30]

theorem certificates_not_bound :
    certified otherHashOps = [(0, 1, [5])] ∧ otherHashOps.filterMap Message.vote = [(5, 2)] ∧
    certified revivedOps = [(0, 1, [5]), (0, 2, [5])] ∧
    certified reproposedOps = [(0, 11, [6, 5])] ∧
      reproposedOps.filterMap Message.vote = [(5, 10), (6, 11)] := by
  decide

end Quantos.Optimistic

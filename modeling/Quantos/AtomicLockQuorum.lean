import Quantos.AtomicLocks
import Quantos.Finality

/-!
# What a lock-commit proves

A node should lock a shard for an atomic operation only when two thirds
of the committee and one more have signed for it (`RealQuorum`). The
handler counts the approvals in the message. The count and the quorum
agree exactly when the message is refused anyway, or when throwing away
the copies and the votes that nobody signed for this id and this shard
still leaves enough of them.
-/

namespace Quantos.LockNode

open List

variable {V : Type} (env : NodePlatform V) (node : LockNode) (commit : LockCommitMessage)

/-- The shard is put under the atomic id by this very message. -/
def Installs : Prop :=
  node.lockManager.localLock commit.shardId ≠ some commit.atomicId ∧
    (node.handleLockCommit env commit).2.lockManager.localLock commit.shardId
      = some commit.atomicId

/-- An approval for exactly the atomic id and shard of the commit, signed
by the validator it names. -/
def genuine (vote : LockVote) : Bool :=
  vote.approved ∧ vote.atomicId = commit.atomicId ∧ vote.shardId = commit.shardId ∧
    node.signedBy env vote.validator
      (voteSigningPayload vote.atomicId vote.shardId vote.approved) vote.signature

/-- Pairwise distinct members of the committee in charge, as many as the
threshold asks for, each with a genuine approval in the message. -/
def RealQuorum : Prop :=
  ∃ committee, node.committeeFor commit.shardId = some committee ∧
    ∃ voters : List Address, voters.Nodup ∧ committee.memberCount * 2 / 3 + 1 ≤ voters.length ∧
      ∀ a ∈ voters, committee.hasMember a ∧
        ∃ vote ∈ commit.votes, vote.validator = a ∧ node.genuine env commit vote

def genuineVoters : List Address :=
  ((commit.votes.filter (node.genuine env commit)).map LockVote.validator).dedup

variable {commit} {node}

theorem mem_genuineVoters {a : Address} : a ∈ node.genuineVoters env commit ↔
      ∃ vote ∈ commit.votes, vote.validator = a ∧ node.genuine env commit vote := by
  simp only [genuineVoters, mem_dedup, mem_map, mem_filter]
  exact exists_congr fun vote => by tauto

theorem installs_iff : node.Installs env commit ↔
      node.lockManager.localLock commit.shardId ≠ some commit.atomicId ∧
        ∃ committee, Passes node commit committee := by
  refine and_congr_right fun hother => ?_
  rcases handleLockCommit_lockManager env node commit with ⟨hpasses, hlocked⟩ | ⟨hrefused, hsame⟩
  · rw [hlocked]
    refine iff_of_true ?_ hpasses
    exact congrArg (Option.map Prod.snd) (Table.get_put_self ..)
  · rw [hsame]
    exact iff_of_false hother hrefused

/-- Enough voters are left once copies and votes not genuine are dropped. -/
def EnoughGenuine (node : LockNode) (commit : LockCommitMessage) : Prop :=
  ∀ committee ∈ node.committeeFor commit.shardId,
    voteThreshold committee ≤ (node.genuineVoters env commit).length

theorem realQuorum_iff {committee : Committee} (h : Passes node commit committee) :
    node.RealQuorum env commit ↔ node.EnoughGenuine env commit := by
  constructor
  · rintro ⟨c, hc, voters, hnodup, henough, hvoters⟩ c' hc'
    obtain rfl : c = c' := Option.some.inj (hc.symm.trans hc')
    have hsubset : voters ⊆ node.genuineVoters env commit := fun a ha =>
      (mem_genuineVoters env).mpr (hvoters a ha).2
    exact henough.trans (hnodup.subperm hsubset).length_le
  · intro henough
    refine ⟨committee, h.found, node.genuineVoters env commit, nodup_dedup _,
      henough committee h.found, fun a ha => ?_⟩
    obtain ⟨vote, hvote, rfl, hgenuine⟩ := (mem_genuineVoters env).mp ha
    exact ⟨h.members vote hvote, vote, hvote, rfl, hgenuine⟩

/-- A lock-commit installs a lock only with a real quorum, exactly when it
is refused (no committee, a voter from outside, too few approvals, a shard
under another lock), finds its lock in place, or has enough voters without
the copies and the votes that are not genuine. -/
theorem lock_quorum_iff (node : LockNode) (commit : LockCommitMessage) :
    (node.Installs env commit → node.RealQuorum env commit) ↔
      (¬ ∃ committee, Passes node commit committee) ∨
        node.lockManager.localLock commit.shardId = some commit.atomicId ∨
          node.EnoughGenuine env commit := by
  rw [installs_iff]
  by_cases hpasses : ∃ committee, Passes node commit committee
  · obtain ⟨committee, hcommittee⟩ := hpasses
    by_cases hheld : node.lockManager.localLock commit.shardId = some commit.atomicId
    · exact iff_of_true (fun h => absurd hheld h.1) (.inr (.inl hheld))
    rw [realQuorum_iff env hcommittee]
    constructor
    · exact fun h => .inr (.inr (h ⟨hheld, committee, hcommittee⟩))
    · rintro (hrefused | hheld' | henough) _
      · exact absurd ⟨committee, hcommittee⟩ hrefused
      · exact absurd hheld' hheld
      · exact henough
  · exact iff_of_true (fun h => absurd h.2 hpasses) (.inl hpasses)

/-! ## One vote, three times -/

/-- Any signature that is not empty is valid. -/
def samplePlatform : NodePlatform Unit :=
  { Platform.sample with
    verifyMlDsa65 := fun _ _ signature => signature ≠ []
    sign := fun _ => .ok [1] }

def sampleMembers : List CommitteeMember := [⟨1, 1⟩, ⟨2, 1⟩, ⟨3, 1⟩]

/-- Three validators of stake one, all in the one committee of epoch 0. -/
def sampleNode : LockNode where
  lockManager := .new
  committeeManager :=
    (RotatingManager.new (some (sampleManager [1, 1, 1]).validatorSet) 1 3).insertCommittee 0 0
      sampleMembers
  currentEpoch := 0
  nodePublicKey := []
  validatorChannels := ∅
  sent := []

/-- The unsigned approval of validator 1 in three copies. -/
def copiedVotes : LockCommitMessage where
  atomicId := 7
  shardId := 0
  votes := List.replicate 3 ⟨7, 0, 1, true, []⟩

theorem copied_votes_install : sampleNode.Installs samplePlatform copiedVotes ∧
      ¬ sampleNode.RealQuorum samplePlatform copiedVotes := by
  refine ⟨⟨by decide, by decide⟩, ?_⟩
  rintro ⟨_, _, voters, -, henough, hvoters⟩
  have hvotes : ∀ vote ∈ copiedVotes.votes,
      ¬ sampleNode.genuine samplePlatform copiedVotes vote := by
    decide
  cases voters with
  | nil => exact absurd henough (by simp)
  | cons a =>
    obtain ⟨-, vote, hvote, -, hgenuine⟩ := hvoters a mem_cons_self
    exact hvotes vote hvote hgenuine

end Quantos.LockNode

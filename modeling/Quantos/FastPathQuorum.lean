import Quantos.FastPath
import Quantos.Finality

/-!
# The committee stake behind a confirmed vertex

`receive_vote` weighs the votes with the current validator set and asks for
the quorum of the sitting committee. Two things can pull the sides apart.
Votes cast under an earlier committee are still counted after a rotation,
though their voters need not sit on the new one; and a member that is
removed and added again with more stake weighs more than its committee
records.

`VotesSound` rules both out. It is kept by every call except a rotation
over approving votes and an addition of the second kind (`Settled`), and
under it a count that reaches the quorum is backed by recorded stake of
distinct sitting members.
-/

namespace Quantos

open Table Runs List ValidatorSet

open WeightedQuorum (threshold)

namespace FastPath

variable {V : Type} {env : Platform V}

/-! ## The property -/

/-- The approving voters of a pending vertex that sit on a committee. -/
def approvers (c : Committee) (p : PendingVertex) : List Address :=
  (p.votes.filter fun w => w.approve && c.hasMember w.validator).map CommitteeVote.validator

/-- The sitting committee of the shard backs the vertex: distinct members
with two thirds of its recorded stake approve. -/
def QuorumBacked (cm : RotatingManager) (p : PendingVertex) : Prop :=
  ∃ c, cm.sitting p.vertex.shardId = some c ∧ (approvers c p).Nodup ∧
    threshold c.totalStake.toNat ≤ ∑ a ∈ (approvers c p).toFinset, c.stakeOf a

/-- The call confirms the vertex it votes on, leaving it as `p`. -/
def Confirms (env : Platform V) (io : ConfirmContext) (fp : FastPath V) (vote : CommitteeVote)
    (p : PendingVertex) : Prop :=
  (∃ q, fp.pendingVertices.get vote.vertexHash = some q ∧ q.preConfirmed = false) ∧
    (fp.receiveVote env io vote).2.pendingVertices.get vote.vertexHash = some p ∧
    p.preConfirmed = true

/-! ## The invariant -/

structure VotesSound (fp : FastPath V) : Prop where
  distinct : fp.committeeManager.validatorSet.Distinct
  covers : ∀ shardId c, fp.committeeManager.sitting shardId = some c →
    c.Covers fp.committeeManager.validatorSet
  nodup : ∀ p ∈ fp.pendingVertices.rows, (p.votes.map CommitteeVote.validator).Nodup
  seated : ∀ p ∈ fp.pendingVertices.rows, p.preConfirmed = false → ∀ w ∈ p.votes,
    w.approve = true → ∃ c, fp.committeeManager.sitting p.vertex.shardId = some c ∧
      c.hasMember w.validator = true

/-- The counted stake, as a number, is at most that of the approving voters. -/
theorem approveStake_le {set : ValidatorSet} {votes : List CommitteeVote} :
    (approveStake set votes).toNat
      ≤ ((votes.filter CommitteeVote.approve).map fun w => set.stakeOf w.validator).sum := by
  unfold approveStake
  rw [toNat_sum_map]
  refine (Nat.mod_le _ _).trans (le_of_eq ?_)
  induction votes.filter CommitteeVote.approve with
  | nil => rfl
  | cons w ws ih =>
    cases hget : set.getValidator w.validator with
    | none =>
      rw [filterMap_cons, hget, map_cons, sum_cons, stakeOf_of_none hget, Nat.zero_add]
      exact ih
    | some =>
      rw [filterMap_cons, hget, map_cons, sum_cons, map_cons,
        sum_cons, stakeOf_of_getValidator hget, ← ih]

variable {p : PendingVertex} {set : ValidatorSet} {c : Committee}

/-- When the approving voters all sit on a committee that covers the set,
the count is backed by recorded stake. -/
theorem approveStake_le_approvers (hcovers : c.Covers set)
    (hnodup : (p.votes.map CommitteeVote.validator).Nodup)
    (hseated : ∀ w ∈ p.votes, w.approve = true → c.hasMember w.validator = true) :
    (approvers c p).Nodup ∧
      (approveStake set p.votes).toNat ≤ ∑ a ∈ (approvers c p).toFinset, c.stakeOf a := by
  have happrove : p.votes.filter (fun w => w.approve && c.hasMember w.validator)
      = p.votes.filter CommitteeVote.approve := by
    refine filter_congr fun w hw => ?_
    cases hwa : w.approve with
    | false => rfl
    | true => exact hseated w hw hwa
  have hnodup' : (approvers c p).Nodup := (filter_sublist.map _).nodup hnodup
  refine ⟨hnodup', approveStake_le.trans ?_⟩
  rw [sum_toFinset _ hnodup']
  unfold approvers
  rw [happrove, map_map]
  refine sum_le_sum fun w hw => ?_
  obtain ⟨hmem, hwa⟩ := mem_filter.mp hw
  exact hcovers _ (hseated w hmem hwa)

/-! ## A vote -/

variable {fp : FastPath V} {vote : CommitteeVote}

theorem nodup_pushVote (hp : (p.votes.map CommitteeVote.validator).Nodup)
    (haccepted : Accepted env fp p vote c) :
    ((pushVote p vote).votes.map CommitteeVote.validator).Nodup := by
  show ((p.votes ++ [vote]).map CommitteeVote.validator).Nodup
  rw [map_append, map_singleton, ← concat_eq_append, nodup_concat]
  exact ⟨haccepted.fresh, hp⟩

/-- Old and new votes of an unconfirmed vertex come from one committee. -/
theorem VotesSound.seated_pushVote (h : VotesSound fp) (hp : p ∈ fp.pendingVertices.rows)
    (hfirst : p.preConfirmed = false) (haccepted : Accepted env fp p vote c) :
    ∀ w ∈ (pushVote p vote).votes, w.approve = true → c.hasMember w.validator = true := by
  intro w hw hwa
  rcases mem_append.mp hw with hw | hw
  · obtain ⟨c', hc', hmember⟩ := h.seated p hp hfirst w hw hwa
    obtain rfl : c = c' := Option.some.inj (haccepted.sitting.symm.trans hc')
    exact hmember
  · rw [mem_singleton.mp hw]
    exact haccepted.isMember

/-- A vote that confirms is backed by the sitting committee. -/
theorem VotesSound.quorumBacked (h : VotesSound fp) {io : ConfirmContext}
    (hconfirm : Confirms env io fp vote p) : QuorumBacked fp.committeeManager p := by
  obtain ⟨⟨q, hq, hqfalse⟩, hp, hptrue⟩ := hconfirm
  have heffect := (receiveVote_effect env io fp vote).2
  generalize (fp.receiveVote env io vote).2.pendingVertices = table at hp heffect
  cases heffect with
  | ignored =>
    obtain rfl := Option.some.inj (hq.symm.trans hp)
    rw [hqfalse] at hptrue
    cases hptrue
  | counted hget =>
    obtain rfl := Option.some.inj (hq.symm.trans hget)
    rw [← key_of_get hget] at hp
    obtain rfl := Option.some.inj ((get_put_self ..).symm.trans hp)
    rw [show (pushVote q vote).preConfirmed = q.preConfirmed from rfl, hqfalse] at hptrue
    cases hptrue
  | @confirmed pending c quorum hget haccepted hquorum hreached hfirst =>
    rw [← key_of_get hget] at hp
    obtain rfl :=
      Option.some.inj ((get_put_self ..).symm.trans hp)
    have hmem := mem_rows_of_get hget
    obtain ⟨hnodup, hsum⟩ := approveStake_le_approvers
      (h.covers _ c haccepted.sitting) (nodup_pushVote (h.nodup _ hmem) haccepted)
      (h.seated_pushVote hmem hfirst haccepted)
    refine ⟨c, haccepted.sitting, hnodup, ?_⟩
    rw [← Committee.quorumThreshold_toNat hquorum]
    exact (BitVec.le_def.mp hreached).trans hsum

/-- A pending vertex after a vote is an old one, or an old one with the vote. -/
theorem VoteEffect.rows {table : Table PendingVertex.key} (h : VoteEffect env fp vote table) :
    ∀ p ∈ table.rows, p ∈ fp.pendingVertices.rows ∨
      ∃ q ∈ fp.pendingVertices.rows, ∃ c, Accepted env fp q vote c ∧
        p.votes = (pushVote q vote).votes ∧ p.vertex.shardId = q.vertex.shardId ∧
        (p.preConfirmed = false → q.preConfirmed = false) := by
  intro p hp
  cases h with
  | ignored => exact .inl hp
  | counted hget haccepted =>
    rcases mem_rows_put hp with rfl | hp
    · exact .inr ⟨_, mem_rows_of_get hget, _, haccepted, rfl, rfl, id⟩
    · exact .inl hp
  | confirmed hget haccepted =>
    rcases mem_rows_put hp with rfl | hp
    · exact .inr ⟨_, mem_rows_of_get hget, _, haccepted, rfl, rfl, fun h => nomatch h⟩
    · exact .inl hp

theorem VotesSound.receiveVote (h : VotesSound fp) (io : ConfirmContext) (vote : CommitteeVote) :
    VotesSound (fp.receiveVote env io vote).2 := by
  obtain ⟨hcm, heffect⟩ := receiveVote_effect env io fp vote
  refine ⟨hcm ▸ h.distinct, hcm ▸ h.covers, fun p hp => ?_, fun p hp hfalse => ?_⟩
  · rcases heffect.rows p hp with hp | ⟨q, hq, c, haccepted, hvotes, -, -⟩
    · exact h.nodup p hp
    · rw [hvotes]
      exact nodup_pushVote (h.nodup q hq) haccepted
  · rw [hcm]
    rcases heffect.rows p hp with hp | ⟨q, hq, c, haccepted, hvotes, hshard, hfirst⟩
    · exact h.seated p hp hfalse
    rw [hvotes, hshard]
    exact fun w hw hwa => ⟨c, haccepted.sitting,
      h.seated_pushVote hq (hfirst hfalse) haccepted w hw hwa⟩

/-! ## The other calls -/

theorem VotesSound.unvoted {fp' : FastPath V} (h : VotesSound fp) (hun : Unvoted fp fp') :
    VotesSound fp' := by
  have hcm := hun.manager
  refine ⟨hcm ▸ h.distinct, hcm ▸ h.covers, fun p hp => ?_, fun p hp hfalse => ?_⟩
  · rcases hun.pending p hp with hp | hp
    · exact h.nodup p hp
    · rw [hp]
      exact nodup_nil
  · rw [hcm]
    rcases hun.pending p hp with hp | hp
    · exact h.seated p hp hfalse
    · rw [hp]
      exact fun _ hw => absurd hw not_mem_nil

/-- A change of the set that the sitting committees still cover. -/
theorem VotesSound.setValidators (h : VotesSound fp) (hdistinct : set.Distinct)
    (hcovers : ∀ shardId c, fp.committeeManager.sitting shardId = some c → c.Covers set) :
    VotesSound (fp.setValidators set) :=
  ⟨hdistinct, hcovers, h.nodup, h.seated⟩

theorem VotesSound.setValidators_of_le (h : VotesSound fp) (hdistinct : set.Distinct)
    (hle : ∀ a, set.stakeOf a ≤ fp.committeeManager.validatorSet.stakeOf a) :
    VotesSound (fp.setValidators set) :=
  h.setValidators hdistinct fun shardId c hc => (h.covers shardId c hc).mono hle

/-- What is asked of the calls: no rotation while an unconfirmed vertex
holds an approving vote, and no addition under the address of a sitting
member with more stake than its committee records. -/
def Settled (fp : FastPath V) : FastPathOp → Prop
  | .rotate _ _ _ _ =>
    fp.committeeManager.validatorSet.activeValidators.isEmpty = true ∨
      ∀ p ∈ fp.pendingVertices.rows, p.preConfirmed = false → ∀ w ∈ p.votes, w.approve = false
  | .addValidator v =>
    ∀ c ∈ fp.committeeManager.committees.rows, c.epoch = fp.committeeManager.currentEpoch →
      c.hasMember v.address = true → v.effectiveStake.toNat ≤ c.stakeOf v.address
  | _ => True

instance decidableSettled (fp : FastPath V) : ∀ op, Decidable (Settled fp op)
  | .rotate _ _ _ _ => inferInstanceAs (Decidable (_ ∨ _))
  | .addValidator _ => inferInstanceAs (Decidable (∀ c ∈ _, _ → _ → _))
  | .createVertex _ _ _ _ | .receiveVertex _ _ | .receiveVote _ _ | .confirmDirect _ _
  | .cleanup _ | .removeValidator _ | .slash _ _ | .jail _ => isTrue trivial

theorem VotesSound.rotate (h : VotesSound fp) {epoch slot : UInt64} {randomness : Hash}
    {tries : Nat} (hsettled : Settled fp (.rotate epoch slot randomness tries)) :
    VotesSound (fp.rotate env epoch slot randomness tries) := by
  rcases hsettled with hidle | hsettled
  · have hsame : fp.rotate env epoch slot randomness tries = fp := by
      unfold FastPath.rotate RotatingManager.rotateCommittees
      rw [if_pos hidle]
    rw [hsame]
    exact h
  · have hset : (fp.rotate env epoch slot randomness tries).committeeManager.validatorSet
        = fp.committeeManager.validatorSet :=
      congrArg CommitteeManager.validatorSet
        (RotatingManager.rotateCommittees_manager ..)
    refine ⟨hset ▸ h.distinct, fun shardId c hc => ?_, h.nodup, fun p hp hfalse w hw hwa => ?_⟩
    · rw [hset]
      rcases RotatingManager.sitting_rotateCommittees env.hashData hc with hdrawn | hold
      · exact hdrawn.covers h.distinct
      · exact h.covers shardId c hold
    · rw [hsettled p hp hfalse w hw] at hwa
      cases hwa

theorem VotesSound.addValidator (h : VotesSound fp) {v : Validator}
    (hsettled : Settled fp (.addValidator v)) : VotesSound (fp.addValidator v) := by
  unfold FastPath.addValidator
  split
  · exact h
  rename_i cm hadd
  obtain ⟨rfl, hfresh⟩ := CommitteeManager.addValidator_ok hadd
  refine h.setValidators (h.distinct.enter hfresh) fun shardId c hc => ?_
  obtain ⟨hmem, hepoch⟩ := RotatingManager.epoch_of_sitting hc
  exact (h.covers shardId c hc).enter (hsettled c hmem hepoch)

theorem VotesSound.slash (h : VotesSound fp) (address : Address) (percentage : UInt16) :
    VotesSound (fp.slash address percentage) := by
  unfold FastPath.slash
  split
  · exact h
  rename_i amount set hslash
  obtain ⟨v, _, hv, haddress, hle, heq⟩ := slashValidator_spec hslash
  refine h.setValidators_of_le (h.distinct.updateFirst heq fun _ _ => haddress)
    (stakeOf_updateFirst_le heq (fun _ _ => haddress) fun w hw => ?_)
  obtain rfl := Option.some.inj (hv.symm.trans hw)
  exact hle

theorem VotesSound.jail (h : VotesSound fp) (address : Address) :
    VotesSound (fp.setValidators (fp.committeeManager.validatorSet.jailValidator address)) := by
  refine h.setValidators_of_le (h.distinct.updateFirst rfl fun _ hv => hv)
    (stakeOf_updateFirst_le rfl (fun _ hv => hv) fun v _ => ?_)
  unfold Validator.effectiveStake
  simp

theorem VotesSound.step {fp : FastPath V} (op : FastPathOp) (h : VotesSound fp)
    (hsettled : Settled fp op) : VotesSound (fp.step env op) := by
  cases op with
  | createVertex => exact h.unvoted (createVertex_effect env).unvoted
  | receiveVertex => exact h.unvoted (receiveVertex_effect env).unvoted
  | receiveVote vote io => exact h.receiveVote io vote
  | confirmDirect vertices io =>
    exact h.unvoted (unvoted_confirmVerticesBatchDirect env io vertices fp)
  | cleanup => exact h.unvoted unvoted_cleanup
  | rotate => exact h.rotate hsettled
  | addValidator => exact h.addValidator hsettled
  | removeValidator address =>
    exact h.setValidators_of_le (h.distinct.leave address)
      (stakeOf_leave_le _ address)
  | slash address percentage => exact h.slash address percentage
  | jail address => exact h.jail address

/-! ## Runs -/

theorem votesSound_new {dag : DAGGraph} {executor : OptimisticExecutor V}
    {stored : Option ValidatorSet} (hstored : ∀ set ∈ stored, set.Distinct)
    {numCommittees : UInt16} {validatorsPerCommittee : Nat} :
    VotesSound (new dag executor (.new stored numCommittees validatorsPerCommittee)) where
  distinct := by
    show (RotatingManager.new stored _ _).validatorSet.Distinct
    unfold RotatingManager.new
    split
    · split
      · exact nodup_nil
      · exact hstored _ rfl
    · exact nodup_nil
  covers := fun shardId c hc => by
    obtain ⟨-, hget⟩ := RotatingManager.sitting_eq_some_iff.mp hc
    cases hget
  nodup := fun _ hp => absurd hp not_mem_nil
  seated := fun _ hp => absurd hp not_mem_nil

/-- In every run of settled calls, a vote confirms only what the sitting
committee backs. -/
theorem fast_path_quorum (dag : DAGGraph) (executor : OptimisticExecutor V)
    (stored : Option ValidatorSet) (hstored : ∀ set ∈ stored, set.Distinct)
    (numCommittees : UInt16) (validatorsPerCommittee : Nat) (ops : List FastPathOp)
    (hmeet : Runs.StepsMeet (step env) Settled
      (new dag executor (.new stored numCommittees validatorsPerCommittee)) ops)
    (io : ConfirmContext) (vote : CommitteeVote) (p : PendingVertex)
    (hconfirm : Confirms env io (run (step env)
      (new dag executor (.new stored numCommittees validatorsPerCommittee)) ops) vote p) :
    QuorumBacked (run (step env)
      (new dag executor (.new stored numCommittees validatorsPerCommittee)) ops).committeeManager
      p :=
  (invariant_of_stepsMeet (fun _ op h hsettled => h.step op hsettled)
    (votesSound_new hstored)
    hmeet).quorumBacked hconfirm

/-! ### Sample runs -/

/-- A digest that keeps the first eight bytes: the committee seeds then
start with the epoch, and so do the seeds of the seats. -/
def headHash (bytes : Bytes) : Hash :=
  BitVec.ofNat 256 (leValue (bytes.take 8).reverse * 2 ^ 192)

def headPlatform : Platform Unit := { Platform.sample with hashData := headHash }

/-- Three stored validators of stake one, one committee of up to two. -/
def sampleFastPath : FastPath Unit :=
  new (.new Table.empty 0 4) (.new (StateManager.sample []))
    (.new (some (sampleManager [1, 1, 1]).validatorSet) 1 2)

def sampleConfirmContext : ConfirmContext := ⟨.working, .working, none⟩

def sampleVertexContext : VertexContext :=
  ⟨0, 0, .working, Schedule.inOrder, fun _ => .ok [], none⟩

/-- An empty vertex of shard 0 on the empty ledger. -/
def sampleVertex (hash : Hash) : Vertex where
  hash := hash
  transactions := []
  parents := []
  timestamp := 0
  shardId := 0
  creator := 0
  signature := []
  height := 0
  status := .pending
  stateRoot := (sampleFastPath.executor.speculativeExecute headPlatform ⟨hash, []⟩ (.inOrder [])).1

def sampleVote (validator : Nat) (approve : Bool) : CommitteeVote :=
  ⟨BitVec.ofNat 256 validator, 7, approve, 1, [], 0⟩

/-- The sample vertex, pre-confirmed with some votes. -/
def preConfirmed (votes : List CommitteeVote) : PendingVertex :=
  ⟨(sampleVertex 7).setStatus .preConfirmed, votes, 0, true⟩

/-- In epoch 1 validators 2 and 3 sit, and validator 2 approves. -/
def approvedOnce : List FastPathOp :=
  [.rotate 1 32 0 8, .receiveVertex (sampleVertex 7) sampleVertexContext,
    .receiveVote (sampleVote 2 true) sampleConfirmContext]

theorem fast_path_quorum_both :
    Confirms headPlatform sampleConfirmContext (run (step headPlatform) sampleFastPath approvedOnce)
        (sampleVote 3 true) (preConfirmed [sampleVote 2 true, sampleVote 3 true]) ∧
      QuorumBacked (run (step headPlatform) sampleFastPath approvedOnce).committeeManager
        (preConfirmed [sampleVote 2 true, sampleVote 3 true]) := by
  have hconfirm : Confirms headPlatform sampleConfirmContext
      (run (step headPlatform) sampleFastPath approvedOnce) (sampleVote 3 true)
      (preConfirmed [sampleVote 2 true, sampleVote 3 true]) :=
    ⟨⟨⟨sampleVertex 7, [sampleVote 2 true], 0, false⟩, by decide, rfl⟩,
      by decide, rfl⟩
  have hstored : ∀ set ∈ some (sampleManager [1, 1, 1]).validatorSet, set.Distinct := by
    rintro set ⟨⟩
    decide
  exact ⟨hconfirm, fast_path_quorum _ _ _ hstored _ _ approvedOnce (by decide)
    sampleConfirmContext _ _ hconfirm⟩

/-- In epoch 2 only validator 3 sits, and the approval of epoch 1 is still
there. -/
def approvedBefore : List FastPathOp := approvedOnce ++ [.rotate 2 64 0 8]

/-- Validator 2 of the sitting committee leaves and comes back with stake 5. -/
def memberReturns : List FastPathOp :=
  [.rotate 1 32 0 8, .receiveVertex (sampleVertex 7) sampleVertexContext, .removeValidator 2,
    .addValidator (sampleValidator 2 5)]

/-- No quorum where the recorded stake of the approvers falls short. -/
theorem not_quorumBacked {cm : RotatingManager} {p : PendingVertex} {c : Committee}
    (hsitting : cm.sitting p.vertex.shardId = some c)
    (hshort : ∑ a ∈ (approvers c p).toFinset, c.stakeOf a < threshold c.totalStake.toNat) :
    ¬ QuorumBacked cm p := by
  rintro ⟨_, hc', -, _⟩
  obtain rfl := Option.some.inj (hsitting.symm.trans hc')
  omega

/-- The vote of the only sitting member, against the vertex, confirms it on
the strength of a vote of the epoch before; and a member that returns with
more stake confirms alone. -/
theorem stale_votes_confirm :
    (Confirms headPlatform sampleConfirmContext
        (run (step headPlatform) sampleFastPath approvedBefore)
        (sampleVote 3 false) (preConfirmed [sampleVote 2 true, sampleVote 3 false]) ∧
      ¬ QuorumBacked (run (step headPlatform) sampleFastPath approvedBefore).committeeManager
        (preConfirmed [sampleVote 2 true, sampleVote 3 false])) ∧
    (Confirms headPlatform sampleConfirmContext
        (run (step headPlatform) sampleFastPath memberReturns)
        (sampleVote 2 true) (preConfirmed [sampleVote 2 true]) ∧
      ¬ QuorumBacked (run (step headPlatform) sampleFastPath memberReturns).committeeManager
        (preConfirmed [sampleVote 2 true])) := by
  refine ⟨⟨?_, ?_⟩, ?_, ?_⟩
  · exact ⟨⟨⟨sampleVertex 7, [sampleVote 2 true], 0, false⟩, by decide, rfl⟩,
      by decide, rfl⟩
  · exact @not_quorumBacked _ _ (.snapshot 2 0 [⟨3, 1⟩]) (by decide) (by decide)
  · exact ⟨⟨⟨sampleVertex 7, [], 0, false⟩, by decide, rfl⟩, by decide, rfl⟩
  · exact @not_quorumBacked _ _ (.snapshot 1 0 [⟨2, 1⟩, ⟨3, 1⟩]) (by decide)
      (by decide)

end FastPath

end Quantos

import Quantos.DagFinalization
import Quantos.Finality

/-!
# Errors around finalisation

A signature that completes the quorum of a checkpoint starts
`finalize_checkpoint`, which removes the pending entry, writes the checkpoint
to disk, appends it to the list and walks the DAG from the tips of the
checkpoint. The disk can refuse the checkpoint, and the walk has its own
failures: a read or a write on disk, and the limit of its length. Each of
them comes after the entry was removed, and those of the walk after the
checkpoint was appended as well.

So an error leaves the checkpoint pending and the list as it was where it
comes before the quorum, and never after it (`error_keeps_pending_iff`).
-/

namespace Quantos

open Table

/-- What the disk answers while a checkpoint is finalised. -/
structure NodeContext where
  aggregate : List Bytes → List Bytes → Bytes → Nat → List Nat → Option Bytes
  putCheckpoint : Except String Unit
  walk : WalkContext

/-- The layer with the DAG that it marks (`mark_vertices_finalized`). -/
def NodeContext.finalizeContext (io : NodeContext) (dag : DAGGraph) : FinalizeContext where
  aggregate := io.aggregate
  putCheckpoint := io.putCheckpoint
  finalizeReachableFromTips tips :=
    match (dag.finalizeReachableFromTips io.walk tips).1 with
    | .error e => .error e.toText
    | .ok _ => .ok ()

namespace FinalityLayer

variable {V : Type} (env : Platform V)

/-- The checkpoint has kept its place: the list is the same, and the pending
entry has the checkpoint, the tips and the stake that it had. -/
def StillPending (fl fl' : FinalityLayer) (checkpointHash : Hash) : Prop :=
  fl'.finalizedCheckpoints = fl.finalizedCheckpoints ∧
    ∃ p p' : PendingCheckpoint,
      fl.pendingCheckpoints.get checkpointHash = some (checkpointHash, p) ∧
      fl'.pendingCheckpoints.get checkpointHash = some (checkpointHash, p') ∧
      p'.checkpoint = p.checkpoint ∧ p'.dagTips = p.dagTips ∧
      p'.totalStakeSigned = p.totalStakeSigned

/-- The signature is counted, and with it the quorum is reached. -/
structure Completes (fl : FinalityLayer) (checkpointHash : Hash) (signature : ValidatorSignature)
    (p : PendingCheckpoint) (v : Validator) (totalStakeSigned : U128) : Prop where
  pending : fl.pendingCheckpoints.get checkpointHash = some (checkpointHash, p)
  admitted : admitSignature env fl.committeeManager.validatorSet p signature = .ok (some v)
  added : checkedAdd128 p.totalStakeSigned v.effectiveStake = some totalStakeSigned
  reached : fl.committeeManager.validatorSet.finalityThreshold ≤ totalStakeSigned

section

variable {fl : FinalityLayer} {io : FinalizeContext} {checkpointHash : Hash}
  {signature : ValidatorSignature} {p : PendingCheckpoint}

theorem receive_of_completes {v : Validator} {totalStakeSigned : U128}
    (h : Completes env fl checkpointHash signature p v totalStakeSigned) :
    fl.receiveCheckpointSignature env io checkpointHash signature
      = (((fl.store checkpointHash (count p signature totalStakeSigned)).finalizeCheckpoint env io
            checkpointHash).1.map some,
          ((fl.store checkpointHash (count p signature totalStakeSigned)).finalizeCheckpoint env io
            checkpointHash).2) := by
  simp only [receiveCheckpointSignature, h.pending, h.admitted, h.added, if_pos h.reached]

/-- Before the quorum every error leaves the checkpoint in its place. -/
theorem stillPending_of_error
    (hbefore : ∀ p v total, ¬ Completes env fl checkpointHash signature p v total)
    {e : ConsensusError}
    (herror : (fl.receiveCheckpointSignature env io checkpointHash signature).1 = .error e) :
    StillPending fl (fl.receiveCheckpointSignature env io checkpointHash signature).2
      checkpointHash := by
  unfold receiveCheckpointSignature at *
  cases hget : fl.pendingCheckpoints.get checkpointHash with
  | none =>
    rw [hget] at herror
    cases herror
  | some row =>
    obtain ⟨h, p⟩ := row
    obtain rfl : h = checkpointHash := key_of_get hget
    simp only [hget] at herror ⊢
    rcases hadmitted : admitSignature env fl.committeeManager.validatorSet p signature
      with e | (_ | v)
    · exact ⟨rfl, p, p, hget, hget, rfl, rfl, rfl⟩
    · rw [hadmitted] at herror
      cases herror
    · simp only [hadmitted] at herror ⊢
      cases hadd : checkedAdd128 p.totalStakeSigned v.effectiveStake with
      | none => exact ⟨rfl, p, record p signature, hget, get_put_self .., rfl, rfl, rfl⟩
      | some total =>
        simp only [hadd] at herror
        split at herror
        · rename_i hreached
          exact absurd ⟨hget, hadmitted, hadd, hreached⟩ (hbefore p v total)
        · cases herror

theorem not_stillPending_of_none {fl' : FinalityLayer}
    (h : fl'.pendingCheckpoints.get checkpointHash = none) :
    ¬ StillPending fl fl' checkpointHash := by
  rintro ⟨-, p, _, -, hget, -⟩
  cases h.symm.trans hget

/-- Finalisation removes the entry in any case, and fails with the disk or
with the walk. -/
theorem finalizeCheckpoint_cases
    (hget : fl.pendingCheckpoints.get checkpointHash = some (checkpointHash, p)) :
    (fl.finalizeCheckpoint env io checkpointHash).2.pendingCheckpoints.get checkpointHash = none ∧
      ((∃ e, (fl.finalizeCheckpoint env io checkpointHash).1 = .error e) ↔
        ¬ (io.putCheckpoint = .ok () ∧ io.finalizeReachableFromTips p.dagTips = .ok ())) := by
  have herase : (fl.pendingCheckpoints.erase checkpointHash).get checkpointHash = none := by
    rw [get_erase, if_pos rfl]
  unfold finalizeCheckpoint
  simp only [hget]
  cases io.putCheckpoint with
  | error => exact ⟨herase, iff_of_true ⟨_, rfl⟩ fun h => by cases h.1⟩
  | ok u =>
    cases io.finalizeReachableFromTips p.dagTips with
    | error => exact ⟨herase, iff_of_true ⟨_, rfl⟩ fun h => by cases h.2⟩
    | ok =>
      refine ⟨herase, iff_of_false ?_ fun h => h ⟨rfl, rfl⟩⟩
      rintro ⟨e, he⟩
      cases he

end

theorem exists_error_map_iff {ε α β : Type} {r : Except ε α} {f : α → β} :
    (∃ e, r.map f = .error e) ↔ ∃ e, r = .error e := by
  cases r with
  | error e => exact iff_of_true ⟨e, rfl⟩ ⟨e, rfl⟩
  | ok => exact iff_of_false (fun ⟨_, h⟩ => by cases h) fun ⟨_, h⟩ => by cases h

theorem walk_ok_iff (dag : DAGGraph) (io : NodeContext) (tips : List Hash) :
    (io.finalizeContext dag).finalizeReachableFromTips tips = .ok () ↔
      ∃ counts, (dag.finalizeReachableFromTips io.walk tips).1 = .ok counts := by
  simp only [NodeContext.finalizeContext]
  cases (dag.finalizeReachableFromTips io.walk tips).1 with
  | error => exact iff_of_false (fun h => by cases h) fun ⟨_, h⟩ => by cases h
  | ok counts => exact iff_of_true rfl ⟨counts, rfl⟩

/-- With a quorum there is an error where the disk or the walk fails, and
then the checkpoint has lost its place. -/
theorem error_of_completes {fl : FinalityLayer} {checkpointHash : Hash}
    {signature : ValidatorSignature} {p : PendingCheckpoint} {v : Validator} {total : U128}
    (h : Completes env fl checkpointHash signature p v total) {io : FinalizeContext} :
    let call := fl.receiveCheckpointSignature env io checkpointHash signature
    ((∃ e, call.1 = .error e) ↔
        ¬ (io.putCheckpoint = .ok () ∧ io.finalizeReachableFromTips p.dagTips = .ok ())) ∧
      ¬ StillPending fl call.2 checkpointHash := by
  intro call
  have hget : (fl.store checkpointHash (count p signature total)).pendingCheckpoints.get
      checkpointHash = some (checkpointHash, count p signature total) :=
    get_put_self _ (checkpointHash, count p signature total)
  obtain ⟨hnone, herror⟩ := @finalizeCheckpoint_cases V env _ io checkpointHash _ hget
  simp only [call, receive_of_completes env h]
  exact ⟨exists_error_map_iff.trans herror, not_stillPending_of_none hnone⟩

/-- An error leaves the checkpoint in its place exactly where the signature
does not complete the quorum, or neither the disk nor the walk fails, so that
there is no error. -/
theorem error_keeps_pending_iff (fl : FinalityLayer) (dag : DAGGraph) (io : NodeContext)
    (checkpointHash : Hash) (signature : ValidatorSignature) :
    let call := fl.receiveCheckpointSignature env (io.finalizeContext dag) checkpointHash signature
    ((∃ e, call.1 = .error e) → StillPending fl call.2 checkpointHash) ↔
      ∀ p v total, Completes env fl checkpointHash signature p v total →
        io.putCheckpoint = .ok () ∧
          ∃ counts, (dag.finalizeReachableFromTips io.walk p.dagTips).1 = .ok counts := by
  intro call
  constructor
  · intro hkeeps p v total hcompletes
    obtain ⟨herror, hlost⟩ := error_of_completes env hcompletes
    rw [← walk_ok_iff]
    by_contra hfails
    exact hlost (hkeeps (herror.mpr hfails))
  · rintro hworks ⟨e, herror⟩
    refine stillPending_of_error env (fun p v total hcompletes => ?_) herror
    have hok := hworks p v total hcompletes
    rw [← walk_ok_iff] at hok
    exact (error_of_completes env hcompletes).1.mp ⟨e, herror⟩ hok

end FinalityLayer

/-- One validator, whose signature is a quorum, and one pending checkpoint. -/
def oneSignatureShort : FinalityLayer :=
  (FinalityLayer.new (sampleManager [100]) 10 1).store 5
    (FinalityLayer.unsigned (sampleCheckpoint 10 0) [7])

/-- The disk refuses the checkpoint, or the walk cannot read its first vertex. -/
def fullDisk : NodeContext := ⟨fun _ _ _ _ _ => none, .error "disk full", .working⟩

def unreadableVertex : NodeContext :=
  ⟨fun _ _ _ _ _ => none, .ok (),
    ⟨{ DagContext.working with readError := fun _ => some "read failed" }, fun _ => none⟩⟩

theorem finality_error_half_finalises :
    let call := fun io : NodeContext => oneSignatureShort.receiveCheckpointSignature
      Platform.sample (io.finalizeContext (.new .empty 1 8)) 5 ⟨1, [], 0⟩
    ((call fullDisk).1.isOk = false ∧ ((call fullDisk).2.pendingCheckpoints.get 5).isNone = true) ∧
      (call unreadableVertex).1.isOk = false ∧
      ((call unreadableVertex).2.pendingCheckpoints.get 5).isNone = true ∧
      oneSignatureShort.finalizedCheckpoints.length = 0 ∧
      (call unreadableVertex).2.finalizedCheckpoints.length = 1 := by
  decide

end Quantos

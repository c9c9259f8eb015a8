import Quantos.Finality

/-!
# The finalised checkpoints as a chain

A checkpoint records, when it is created, the hash of the checkpoint that
is finalised last at that moment. Older pending checkpoints stay signable,
and finalising one of them later appends it as it is. So two checkpoints
pending at once end up with the same predecessor, and in the order in
which their quorums complete.

The list is a chain in runs in which a signature is only ever for the
checkpoint created last. Between the creation of that checkpoint and its
finalisation nothing else is finalised, so its recorded predecessor is
still the head; `Chained` carries this, together with the slots. Nothing
is assumed of the hash.
-/

namespace Quantos.FinalityLayer

open Table Runs List

/-! ## Links -/

/-- Each checkpoint names the hash of the one before, the first one `previous`. -/
def Linked (hashData : Bytes → Hash) : Hash → List Checkpoint → Prop
  | _, [] => True
  | previous, c :: cs => c.previousCheckpoint = previous ∧ Linked hashData (c.hash hashData) cs

instance decidableLinked (hashData : Bytes → Hash) :
    ∀ previous cs, Decidable (Linked hashData previous cs)
  | _, [] => isTrue trivial
  | previous, c :: cs =>
    have : Decidable (Linked hashData (c.hash hashData) cs) := decidableLinked hashData _ cs
    inferInstanceAs (Decidable (c.previousCheckpoint = previous ∧ _))

theorem Linked.concat {hashData : Bytes → Hash} {c : Checkpoint} :
    ∀ {previous : Hash} {cs : List Checkpoint}, Linked hashData previous cs →
      c.previousCheckpoint = (cs.getLast?.map (Checkpoint.hash hashData)).getD previous →
      Linked hashData previous (cs ++ [c])
  | _, [], _, hc => ⟨hc, trivial⟩
  | _, [_], h, hc => ⟨h.1, hc, trivial⟩
  | _, _ :: d :: cs, h, hc => by
    refine ⟨h.1, Linked.concat h.2 ?_⟩
    rw [hc, getLast?_cons_cons]
    cases hlast : (d :: cs).getLast? with
    | none => simp at hlast
    | some => rfl

variable {V : Type} {env : Platform V}

/-! ## Append-only -/

theorem step_extends (fl : FinalityLayer) (op : FinalityOp) :
    fl.finalizedCheckpoints <+: (fl.step env op).finalizedCheckpoints := by
  cases hdel : delivery op with
  | none => rw [fl.step_finalizedCheckpoints env hdel]
  | some =>
    rcases fl.step_cases env op with ⟨_, _, rfl⟩ | ⟨checkpointHash, signature, io, rfl⟩ | ⟨h, -⟩
    · cases hdel
    · have heffect := receiveCheckpointSignature_effect env fl io checkpointHash signature
      show _ <+: (fl.receiveCheckpointSignature env io checkpointHash
        signature).2.finalizedCheckpoints
      generalize (fl.receiveCheckpointSignature env io checkpointHash signature).2 = fl'
        at heffect ⊢
      cases heffect with
      | finalised => exact prefix_append _ _
      | ignored => exact prefix_rfl
      | overflowed => exact prefix_rfl
      | recorded => exact prefix_rfl
      | dropped => exact prefix_rfl
    · rw [h] at hdel
      cases hdel

theorem run_extends (fl : FinalityLayer) (ops : List FinalityOp) :
    fl.finalizedCheckpoints <+: (run (step env) fl ops).finalizedCheckpoints := by
  induction ops generalizing fl with
  | nil => exact prefix_rfl
  | cons op ops ih => exact (step_extends ..).trans (ih (fl.step env op))

/-! ## The invariant -/

structure Chained (env : Platform V) (fl : FinalityLayer) : Prop where
  linked : Linked env.hashData 0 fl.finalizedCheckpoints
  increasing : fl.finalizedCheckpoints.Pairwise fun c c' => c.slot < c'.slot
  /-- Pending checkpoints have different slots. -/
  distinct : ∀ row ∈ fl.pendingCheckpoints.rows, ∀ row' ∈ fl.pendingCheckpoints.rows,
    row.2.checkpoint.slot = row'.2.checkpoint.slot → row.1 = row'.1
  /-- The checkpoint created last, while pending, extends the head. -/
  newest : ∀ row ∈ fl.pendingCheckpoints.rows,
    row.2.checkpoint.slot = fl.lastCheckpointSlot →
      row.2.checkpoint.previousCheckpoint = fl.head env ∧
        ∀ c ∈ fl.finalizedCheckpoints, c.slot < row.2.checkpoint.slot

/-- A slot after those of all checkpoints so far. -/
structure Later (fl : FinalityLayer) (slot : UInt64) : Prop where
  pending : ∀ row ∈ fl.pendingCheckpoints.rows, row.2.checkpoint.slot < slot
  finalized : ∀ c ∈ fl.finalizedCheckpoints, c.slot < slot

def creationSlot : FinalityOp → Option UInt64
  | .create slot _ => some slot
  | _ => none

/-- A signature is for the checkpoint created last. -/
def SignsNewest (fl : FinalityLayer) : FinalityOp → Prop
  | .sign checkpointHash _ _ =>
    ∀ row ∈ fl.pendingCheckpoints.rows, row.1 = checkpointHash →
      row.2.checkpoint.slot = fl.lastCheckpointSlot
  | _ => True

instance (fl : FinalityLayer) : DecidablePred (SignsNewest fl)
  | .sign .. => inferInstanceAs (Decidable (∀ row ∈ _, _))
  | .create .. | .addValidator _ | .removeValidator _ | .slash .. | .jail _ =>
    inferInstanceAs (Decidable True)

variable {fl : FinalityLayer} {slot : UInt64}

theorem Chained.create (hfl : Chained env fl) (hlater : Later fl slot) (view : CheckpointView) :
    Chained env (fl.maybeCreateCheckpoint env view slot).2 := by
  rcases maybeCreateCheckpoint_effect env fl view slot with heq | ⟨_, heq⟩
  · rw [heq]
    exact hfl
  rw [heq]
  refine ⟨hfl.linked, hfl.increasing, fun row hrow row' hrow' hslot => ?_,
    fun row hrow hslot => ?_⟩
  · rcases mem_rows_put hrow with rfl | hrow <;>
      rcases mem_rows_put hrow' with rfl | hrow'
    · rfl
    · exact absurd hslot.symm (UInt64.ne_of_lt (hlater.pending row' hrow'))
    · exact absurd hslot (UInt64.ne_of_lt (hlater.pending row hrow))
    · exact hfl.distinct row hrow row' hrow' hslot
  · rcases mem_rows_put hrow with rfl | hrow
    · exact ⟨rfl, hlater.finalized⟩
    · exact absurd hslot (UInt64.ne_of_lt (hlater.pending row hrow))

variable {checkpointHash : Hash} {p : PendingCheckpoint}

/-- A change of one pending checkpoint that keeps the checkpoint itself. -/
theorem Chained.store (hfl : Chained env fl) {p' : PendingCheckpoint}
    (hget : fl.pendingCheckpoints.get checkpointHash = some (checkpointHash, p))
    (hsame : p'.checkpoint = p.checkpoint) : Chained env (fl.store checkpointHash p') := by
  have hold := mem_rows_of_get hget
  -- every row after the change carries the checkpoint of a row before it
  have hrows : ∀ row ∈ (fl.store checkpointHash p').pendingCheckpoints.rows,
      ∃ row₀ ∈ fl.pendingCheckpoints.rows, row₀.1 = row.1 ∧
        row₀.2.checkpoint = row.2.checkpoint := by
    intro row hrow
    rcases mem_rows_put hrow with rfl | hrow
    · exact ⟨_, hold, rfl, hsame.symm⟩
    · exact ⟨row, hrow, rfl, rfl⟩
  refine ⟨hfl.linked, hfl.increasing, fun row hrow row' hrow' hslot => ?_, fun row hrow hslot => ?_⟩
  · obtain ⟨row₀, hrow₀, hkey, hcheck⟩ := hrows row hrow
    obtain ⟨row₀', hrow₀', hkey', hcheck'⟩ := hrows row' hrow'
    rw [← hkey, ← hkey']
    exact hfl.distinct row₀ hrow₀ row₀' hrow₀' (by rw [hcheck, hcheck', hslot])
  · obtain ⟨row₀, hrow₀, -, hcheck⟩ := hrows row hrow
    rw [← hcheck] at hslot ⊢
    exact hfl.newest row₀ hrow₀ hslot

theorem mem_rows_put_erase {row : Hash × PendingCheckpoint}
    (h : row ∈ ((fl.pendingCheckpoints.put (checkpointHash, p)).erase checkpointHash).rows) :
    row ∈ fl.pendingCheckpoints.rows ∧ row.1 ≠ checkpointHash := by
  have hne : row.1 ≠ checkpointHash := by simpa using (mem_filter.mp h).2
  rcases mem_rows_put (mem_rows_erase h) with rfl | hrow
  · exact absurd rfl hne
  · exact ⟨hrow, hne⟩

variable {signature : ValidatorSignature} {fl' : FinalityLayer}

theorem Chained.sign (hfl : Chained env fl)
    (hnewest : ∀ row ∈ fl.pendingCheckpoints.rows, row.1 = checkpointHash →
      row.2.checkpoint.slot = fl.lastCheckpointSlot)
    (heffect : SignEffect env fl checkpointHash signature fl') : Chained env fl' := by
  cases heffect with
  | ignored => exact hfl
  | overflowed hget => exact hfl.store hget rfl
  | recorded hcounted => exact hfl.store hcounted.pending rfl
  | dropped =>
    refine ⟨hfl.linked, hfl.increasing, fun row hrow row' hrow' => ?_, fun row hrow => ?_⟩
    · exact hfl.distinct row (mem_rows_put_erase hrow).1 row' (mem_rows_put_erase hrow').1
    · exact hfl.newest row (mem_rows_put_erase hrow).1
  | @finalised p v totalStakeSigned aggregated hcounted hreached =>
    have hmem := mem_rows_of_get hcounted.pending
    have hslot : p.checkpoint.slot = fl.lastCheckpointSlot := hnewest _ hmem rfl
    obtain ⟨hprevious, hafter⟩ := hfl.newest _ hmem hslot
    refine ⟨hfl.linked.concat hprevious, ?_, fun row hrow row' hrow' => ?_,
      fun row hrow hrowslot => ?_⟩
    · refine pairwise_append.mpr ⟨hfl.increasing, pairwise_singleton _ _, ?_⟩
      intro c hc c' hc'
      obtain rfl := mem_singleton.mp hc'
      exact hafter c hc
    · exact hfl.distinct row (mem_rows_put_erase hrow).1 row' (mem_rows_put_erase hrow').1
    · -- the slot identifies the checkpoint just finalised
      obtain ⟨hrow, hne⟩ := mem_rows_put_erase hrow
      exact absurd (hfl.distinct row hrow _ hmem (hrowslot.trans hslot.symm)) hne

theorem Later.store (hfl : Later fl slot) (hp : p.checkpoint.slot < slot) :
    Later (fl.store checkpointHash p) slot := by
  refine ⟨fun row hrow => ?_, hfl.finalized⟩
  rcases mem_rows_put hrow with rfl | hrow
  · exact hp
  · exact hfl.pending row hrow

theorem Later.sign (hfl : Later fl slot)
    (heffect : SignEffect env fl checkpointHash signature fl') : Later fl' slot := by
  cases heffect with
  | ignored => exact hfl
  | overflowed hget => exact hfl.store (hfl.pending _ (mem_rows_of_get hget))
  | recorded hcounted =>
    exact hfl.store (hfl.pending _ (mem_rows_of_get hcounted.pending))
  | dropped =>
    exact ⟨fun row hrow => hfl.pending row (mem_rows_put_erase hrow).1, hfl.finalized⟩
  | finalised hcounted =>
    refine ⟨fun row hrow => hfl.pending row (mem_rows_put_erase hrow).1, fun c hc => ?_⟩
    rcases mem_append.mp hc with hc | hc
    · exact hfl.finalized c hc
    · obtain rfl := mem_singleton.mp hc
      exact hfl.pending _ (mem_rows_of_get hcounted.pending)

variable {op : FinalityOp}

/-- An operation keeps the chain, given a later slot for a creation and the
newest checkpoint for a signature. -/
theorem Chained.step (hfl : Chained env fl)
    (hslot : ∀ slot, creationSlot op = some slot → Later fl slot) (hsign : SignsNewest fl op) :
    Chained env (fl.step env op) := by
  rcases fl.step_cases env op with ⟨slot, view, rfl⟩ | ⟨checkpointHash, signature, io, rfl⟩ | h
  · exact hfl.create (hslot slot rfl) view
  · exact hfl.sign hsign (receiveCheckpointSignature_effect ..)
  · obtain ⟨-, _, heq⟩ := h
    rw [heq]
    exact ⟨hfl.linked, hfl.increasing, hfl.distinct, hfl.newest⟩

theorem Later.step (hfl : Later fl slot)
    (hbefore : ∀ slot', creationSlot op = some slot' → slot' < slot) :
    Later (fl.step env op) slot := by
  rcases fl.step_cases env op with ⟨slot', view, rfl⟩ | ⟨checkpointHash, signature, io, rfl⟩ | h
  · show Later (fl.maybeCreateCheckpoint env view slot').2 slot
    rcases maybeCreateCheckpoint_effect env fl view slot' with heq | ⟨_, heq⟩
    · rw [heq]
      exact hfl
    rw [heq]
    refine ⟨fun row hrow => ?_, hfl.finalized⟩
    rcases mem_rows_put hrow with rfl | hrow
    · exact hbefore slot' rfl
    · exact hfl.pending row hrow
  · exact hfl.sign (receiveCheckpointSignature_effect ..)
  · obtain ⟨-, _, heq⟩ := h
    rw [heq]
    exact ⟨hfl.pending, hfl.finalized⟩

/-- The chain along a run, the remaining creations being later than all so far. -/
theorem Chained.run {ops : List FinalityOp} :
    ∀ {fl : FinalityLayer}, Chained env fl → (∀ slot ∈ ops.filterMap creationSlot, Later fl slot) →
      (ops.filterMap creationSlot).Pairwise (· < ·) →
      Runs.StepsMeet (FinalityLayer.step env) SignsNewest fl ops →
      Chained env (run (FinalityLayer.step env) fl ops) := by
  induction ops with
  | nil => exact fun hfl _ _ _ => hfl
  | cons op ops ih =>
    intro fl hfl hlater hslots hmeet
    have hnow : ∀ slot, creationSlot op = some slot → Later fl slot := fun slot hslot =>
      hlater slot (mem_filterMap.mpr ⟨op, mem_cons_self, hslot⟩)
    have hrest : ∀ slot ∈ ops.filterMap creationSlot, Later fl slot := fun slot hslot => by
      obtain ⟨o, ho, hslot⟩ := mem_filterMap.mp hslot
      exact hlater slot (mem_filterMap.mpr ⟨o, mem_cons_of_mem _ ho, hslot⟩)
    rw [filterMap_cons] at hslots
    refine ih (hfl.step hnow hmeet.1) (fun slot hslot => (hrest slot hslot).step ?_) ?_ hmeet.2
    · intro slot' hslot'
      rw [hslot'] at hslots
      exact (pairwise_cons.mp hslots).1 slot hslot
    · cases hop : creationSlot op with
      | none => rwa [hop] at hslots
      | some =>
        rw [hop] at hslots
        exact (pairwise_cons.mp hslots).2

theorem chained_new (env : Platform V) (committeeManager : CommitteeManager)
    (checkpointInterval : UInt64) (numShards : UInt16) :
    Chained env (new committeeManager checkpointInterval numShards) :=
  ⟨trivial, List.Pairwise.nil, fun _ h => absurd h not_mem_nil,
    fun _ h => absurd h not_mem_nil⟩

/-- Appending to a list of increasing slots does not lower the last one. -/
theorem getLast?_slot_le {cs cs' : List Checkpoint} (hextends : cs <+: cs')
    (hincreasing : cs'.Pairwise fun c c' => c.slot < c'.slot) :
    (cs.getLast?.map Checkpoint.slot).getD 0 ≤ (cs'.getLast?.map Checkpoint.slot).getD 0 := by
  obtain ⟨more, rfl⟩ := hextends
  cases hlast : more.getLast? with
  | none =>
    rw [getLast?_eq_none_iff.mp hlast, append_nil]
    exact UInt64.le_refl _
  | some d =>
    rw [getLast?_append, hlast]
    cases hfirst : cs.getLast? with
    | none => exact UInt64.le_iff_toNat_le.mpr (Nat.zero_le _)
    | some c =>
      have hlt := (pairwise_append.mp hincreasing).2.2 c (mem_of_getLast? hfirst) d
        (mem_of_getLast? hlast)
      exact UInt64.le_of_lt hlt

/-- In every run whose creations are at increasing slots and whose signatures
are for the checkpoint created last: the finalised checkpoints have
increasing slots, each names the hash of the one before and the first one
zero, and a longer run has no lower `finalized_slot`. -/
theorem finalised_chain (env : Platform V) (committeeManager : CommitteeManager)
    (checkpointInterval : UInt64) (numShards : UInt16) {ops ops' : List FinalityOp}
    (hslots : ((ops ++ ops').filterMap creationSlot).Pairwise (· < ·))
    (hnewest : Runs.StepsMeet (step env) SignsNewest
      (new committeeManager checkpointInterval numShards) (ops ++ ops')) :
    let fl := run (step env) (new committeeManager checkpointInterval numShards) ops
    let fl' := run (step env) (new committeeManager checkpointInterval numShards) (ops ++ ops')
    fl'.finalizedCheckpoints.Pairwise (fun c c' => c.slot < c'.slot) ∧
      Linked env.hashData 0 fl'.finalizedCheckpoints ∧
      fl.finalizedSlot ≤ fl'.finalizedSlot := by
  intro fl fl'
  have hstart := chained_new env committeeManager checkpointInterval numShards
  have hlater : ∀ slot ∈ (ops ++ ops').filterMap creationSlot,
      Later (new committeeManager checkpointInterval numShards) slot := fun _ _ =>
    ⟨fun _ h => absurd h not_mem_nil, fun _ h => absurd h not_mem_nil⟩
  have hend : Chained env fl' := hstart.run hlater hslots hnewest
  have hextends : fl.finalizedCheckpoints <+: fl'.finalizedCheckpoints := by
    have hsplit : fl' = run (step env) fl ops' := run_append (step env) _ ops ops'
    rw [hsplit]
    exact run_extends ..
  exact ⟨hend.increasing, hend.linked, getLast?_slot_le hextends hend.increasing⟩

/-- A checkpoint is abandoned for a newer one. -/
def abandoningRun : List FinalityOp :=
  [.create 10 sampleView, .create 20 sampleView, sampleSign (sampleCheckpoint 20 0) 1]

/-- The next one builds on the newer. -/
def followingRun : List FinalityOp :=
  [.create 30 sampleView,
    sampleSign (sampleCheckpoint 30 ((sampleCheckpoint 20 0).hash digitHash)) 1]

theorem finalised_chain_abandoning :
    let fl := run (step Platform.sample) (new (sampleManager [1]) 10 1) abandoningRun
    let fl' := run (step Platform.sample) (new (sampleManager [1]) 10 1)
      (abandoningRun ++ followingRun)
    (fl.finalizedSlot = 20 ∧ fl'.finalizedSlot = 30) ∧
      fl'.finalizedCheckpoints.Pairwise (fun c c' => c.slot < c'.slot) ∧
      Linked Platform.sample.hashData 0 fl'.finalizedCheckpoints ∧
      fl.finalizedSlot ≤ fl'.finalizedSlot := by
  have hnewest : Runs.StepsMeet (step Platform.sample) SignsNewest (new (sampleManager [1]) 10 1)
      (abandoningRun ++ followingRun) := by
    decide +kernel
  exact ⟨by decide +kernel,
    finalised_chain Platform.sample (sampleManager [1]) 10 1 (by decide) hnewest⟩

/-- Two checkpoints are pending at once, and the older one gets its quorum last. -/
def crossingRun : List FinalityOp :=
  [.create 10 sampleView, .create 20 sampleView, sampleSign (sampleCheckpoint 20 0) 1,
    sampleSign (sampleCheckpoint 10 0) 1]

/-- The finalised slots run backwards and both checkpoints claim to be first. -/
theorem crossing_breaks_chain :
    let fl := run (step Platform.sample) (new (sampleManager [1]) 10 1) crossingRun
    fl.finalizedCheckpoints.map Checkpoint.slot = [20, 10] ∧
      fl.finalizedCheckpoints.map Checkpoint.previousCheckpoint = [0, 0] ∧
      ¬ Linked digitHash 0 fl.finalizedCheckpoints ∧ fl.finalizedSlot = 10 := by
  decide +kernel

end Quantos.FinalityLayer

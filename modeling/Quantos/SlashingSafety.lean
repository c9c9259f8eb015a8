import Quantos.Slashing

/-!
# Who is slashed, for what, and how often

Three guarantees of slashing and what each of them rests on. A pair of
conflicting messages costs its signer stake once if the identifier of an
evidence is a function of the signer and the pair (`punishedOnce_of_identified`).
A validator that signs one hash per slot is not slashed for double signing if
the messages held against it carry the slots in which it signed them
(`honest_not_slashed`). The penalty is that of the offence shown if the
declared type is punished like it, and ten missed duties are ten duties if
none is listed twice (`fits_iff`). The amounts are exact unless stake times
rate overflows (`slashing_exact_iff`).

The code asks for none of the first three: identifier, slot and type are what the
submitter says they are.
-/

namespace Quantos

open Runs Table List UInt64

/-! ## Once for each pair -/

/-- The two signed messages, whatever offence they are called and in whatever
order they come. -/
def SlashingEvidence.signedPair (evidence : SlashingEvidence) : Option (Sym2 Bytes) :=
  let signed := fun domain hash => withDomain domain (arrayBytes hash)
  match evidence.evidenceData with
  | .doubleSigning message1 message2 =>
    some s(signed DOMAIN_SLASH_DOUBLE_SIGN message1.messageHash,
      signed DOMAIN_SLASH_DOUBLE_SIGN message2.messageHash)
  | .surroundVote vote1 vote2 | .equivocation vote1 vote2 =>
    some s(signed DOMAIN_SLASH_EQUIVOC vote1.voteHash,
      signed DOMAIN_SLASH_EQUIVOC vote2.voteHash)
  | .downtime .. | .invalidBlock .. | .frontRunning .. => none

namespace SlashingLog

variable (crypto : SlashingCrypto)

/-- The executions that took stake of the validator for the pair. -/
def reductions (s : SlashingLog) (validator : Address) (pair : Sym2 Bytes) :
    List (SlashingEvidence × SlashingExecution) :=
  s.executed.filter fun x =>
    x.1.validator = validator && x.1.signedPair = some pair && x.2.totalSlashed > 0

def PunishedOnce (s : SlashingLog) : Prop :=
  ∀ validator pair, (s.reductions validator pair).length ≤ 1

/-- Evidence on a pair is submitted under the identifier of signer and pair,
and no record of processed evidence is pruned. -/
def Identified (idOf : Address → Sym2 Bytes → Hash) (s : SlashingLog) : SlashingOp → Prop
  | .submit evidence =>
    ∀ pair, evidence.signedPair = some pair → evidence.id = idOf evidence.validator pair
  | .prune beforeSlot => ∀ row ∈ s.manager.processedEvidence.rows, beforeSlot ≤ row.2
  | _ => True

/-- Nothing pending was processed before, everything executed is processed,
each under an identifier of its own. -/
structure Recorded (idOf : Address → Sym2 Bytes → Hash) (s : SlashingLog) : Prop where
  pending : ∀ evidence ∈ s.manager.evidencePool.rows,
    s.manager.processedEvidence.get evidence.id = none ∧
      ∀ pair, evidence.signedPair = some pair → evidence.id = idOf evidence.validator pair
  executed : ∀ x ∈ s.executed,
    s.manager.processedEvidence.get x.1.id ≠ none ∧
      ∀ pair, x.1.signedPair = some pair → x.1.id = idOf x.1.validator pair
  distinct : (s.executed.map fun x => x.1.id).Nodup

variable {idOf : Address → Sym2 Bytes → Hash}

theorem recorded_start (config : SlashingConfig) : Recorded idOf (start config) where
  pending := fun _ h => nomatch h
  executed := fun _ h => nomatch h
  distinct := nodup_nil

variable {s : SlashingLog} {done : List (SlashingEvidence × SlashingExecution)}
  {evidence : SlashingEvidence} {m m' : SlashingManager} {execution : SlashingExecution}

theorem recorded_execute (h : Recorded idOf ⟨m, done⟩)
    (hget : m.evidencePool.get evidence.id = some evidence) (hslashed : SlashingManager.Slashed
      { m with evidencePool := m.evidencePool.erase evidence.id } evidence execution m') :
    Recorded idOf
      ⟨{ m' with processedEvidence := m'.processedEvidence.put (evidence.id, m'.currentSlot) },
        done ++ [(evidence, execution)]⟩ := by
  obtain ⟨hnew, hid⟩ := h.pending evidence (mem_rows_of_get hget)
  constructor
  · intro e he
    simp only [hslashed.evidencePool] at he
    obtain ⟨hold, hne⟩ := mem_filter.mp he
    obtain ⟨hnone, hpair⟩ := h.pending e hold
    refine ⟨?_, hpair⟩
    rw [hslashed.processedEvidence, get_put_of_ne]
    · exact hnone
    · exact fun heq => of_decide_eq_true hne heq.symm
  · intro x hx
    rw [hslashed.processedEvidence]
    rcases mem_append.mp hx with hold | hlast
    · obtain ⟨hsome, hpair⟩ := h.executed x hold
      refine ⟨?_, hpair⟩
      rw [get_put]
      split
      · exact Option.some_ne_none _
      · exact hsome
    · obtain rfl := mem_singleton.mp hlast
      refine ⟨?_, hid⟩
      rw [get_put, if_pos rfl]
      exact Option.some_ne_none _
  · rw [map_append, map_singleton, nodup_append]
    refine ⟨h.distinct, nodup_singleton _, fun a ha b hb heq => ?_⟩
    obtain ⟨x, hx, rfl⟩ := mem_map.mp ha
    rw [mem_singleton.mp hb] at heq
    rw [← heq] at hnew
    exact (h.executed x hx).1 hnew

variable {op : SlashingOp}

theorem recorded_step (h : Recorded idOf s) (hop : s.Identified idOf op) :
    Recorded idOf (step crypto s op) := by
  cases op with
  | submit evidence =>
    rcases s.manager.submitEvidence_cases crypto evidence with ⟨e, hfail⟩ | ⟨hnew, -, hok⟩
    · simp only [step, hfail]
      exact h
    simp only [step, hok]
    refine ⟨fun e he => ?_, h.executed, h.distinct⟩
    rcases mem_rows_put he with rfl | hold
    · exact ⟨hnew, hop⟩
    · exact h.pending e hold
  | process =>
    exact SlashingManager.processIds_induct (I := fun done m => Recorded idOf ⟨m, done⟩)
      (fun done m id hrec =>
        ⟨fun e he => hrec.pending e (mem_rows_erase he), hrec.executed, hrec.distinct⟩)
      (fun done m evidence execution m' hrec hget hslashed =>
        recorded_execute hrec hget hslashed) _ s.executed s.manager h
  | setCurrentSlot => exact ⟨h.pending, h.executed, h.distinct⟩
  | register | registerWithPubkey | unjail =>
    simp only [step, SlashingManager.registerValidator,
      SlashingManager.registerValidatorWithPubkey, SlashingManager.unjail]
    split <;> exact ⟨h.pending, h.executed, h.distinct⟩
  | prune beforeSlot =>
    have hkeep : (s.manager.pruneProcessedEvidence beforeSlot).processedEvidence
        = s.manager.processedEvidence :=
      keep_eq_self fun row hrow => decide_eq_true (hop row hrow)
    exact ⟨hkeep ▸ h.pending, hkeep ▸ h.executed, h.distinct⟩

theorem punishedOnce_of_recorded (h : Recorded idOf s) : s.PunishedOnce := by
  intro validator pair
  -- the identifiers of these executions are one and the same, and distinct
  have hids : ((s.reductions validator pair).map fun x => x.1.id)
      = List.replicate (s.reductions validator pair).length (idOf validator pair) := by
    rw [eq_replicate_iff, length_map]
    refine ⟨rfl, fun id hid => ?_⟩
    obtain ⟨x, hx, rfl⟩ := mem_map.mp hid
    obtain ⟨hmem, htest⟩ := mem_filter.mp hx
    simp only [Bool.and_eq_true, decide_eq_true_eq] at htest
    obtain ⟨⟨hvalidator, hpair⟩, -⟩ := htest
    rw [← hvalidator]
    exact (h.executed x hmem).2 pair hpair
  have hnodup : ((s.reductions validator pair).map fun x => x.1.id).Nodup :=
    (filter_sublist.map _).nodup h.distinct
  rw [hids] at hnodup
  exact nodup_replicate.mp hnodup

/-- In every run in which evidence on a pair comes under the identifier of
signer and pair, and no record is pruned early, a pair costs stake once. -/
theorem punishedOnce_of_identified (config : SlashingConfig)
    (idOf : Address → Sym2 Bytes → Hash) (ops : List SlashingOp)
    (hops : StepsMeet (step crypto) (Identified idOf) (start config) ops) :
    (run (step crypto) (start config) ops).PunishedOnce :=
  punishedOnce_of_recorded
    (invariant_of_stepsMeet (I := Recorded idOf) (fun _ _ h hop => recorded_step crypto h hop)
      (recorded_start config) hops)

/-! ### The same pair under another identifier -/

/-- Signatures are all valid and repeat offenders pay half as much again. -/
def lenientCrypto : SlashingCrypto := ⟨digitHash, fun _ _ _ => true⟩

def sampleConfig : SlashingConfig := .default fun bps count => bps + UInt64.ofNat count * bps / 2

/-- Validator 7 signed hashes 1 and 2; the slot of the offence is not compared
with those of the messages. -/
def doubleSign (id : Hash) (offenseSlot : UInt64) : SlashingEvidence :=
  ⟨id, .doubleSigning, 7, offenseSlot, 9, .doubleSigning ⟨1, 5, []⟩ ⟨2, 5, []⟩⟩

/-- After the jail term the pair is submitted again. -/
def replayedPair : List SlashingOp :=
  [.registerWithPubkey 7 1000000 [1], .setCurrentSlot 1000, .submit (doubleSign 1 1000),
    .process .asStored, .setCurrentSlot 60000, .submit (doubleSign 2 60000), .process .asStored]

theorem pair_punished_twice :
    ¬ (run (step lenientCrypto) (start sampleConfig) replayedPair).PunishedOnce := by
  intro h
  have htwice : ((run (step lenientCrypto) (start sampleConfig) replayedPair).reductions 7
      s(withDomain DOMAIN_SLASH_DOUBLE_SIGN (arrayBytes 1),
        withDomain DOMAIN_SLASH_DOUBLE_SIGN (arrayBytes 2))).length = 2 := by
    decide
  have honce := h 7 s(withDomain DOMAIN_SLASH_DOUBLE_SIGN (arrayBytes 1),
    withDomain DOMAIN_SLASH_DOUBLE_SIGN (arrayBytes 2))
  omega

/-- Under one identifier the second submission is refused. -/
def repeatedPair : List SlashingOp :=
  [.registerWithPubkey 7 1000000 [1], .setCurrentSlot 1000, .submit (doubleSign 1 1000),
    .process .asStored, .setCurrentSlot 60000, .submit (doubleSign 1 60000), .process .asStored]

theorem repeatedPair_punishedOnce :
    (run (step lenientCrypto) (start sampleConfig) repeatedPair).executed.length = 1 ∧
      (run (step lenientCrypto) (start sampleConfig) repeatedPair).PunishedOnce :=
  ⟨by decide,
    punishedOnce_of_identified lenientCrypto sampleConfig (fun _ _ => 1) repeatedPair
      ⟨trivial, trivial, fun _ _ => rfl, trivial, trivial, fun _ _ => rfl, trivial, trivial⟩⟩

/-! ## Honest validators -/

/-- `signed` is what the owner of the key signs, at most one hash in a slot:
no other hash has a signature that verifies. -/
def SignsOnlyPerSlot (publicKey : Bytes) (signed : UInt64 → Option Hash) : Prop :=
  ∀ hash signature,
    crypto.verifyMlDsa65 publicKey (withDomain DOMAIN_SLASH_DOUBLE_SIGN (arrayBytes hash))
      signature = true → ∃ slot, signed slot = some hash

/-- A hash that was signed comes with a slot in which it was. -/
def SlotAsSigned (signed : UInt64 → Option Hash) (message : SignedMessage) : Prop :=
  (∃ slot, signed slot = some message.messageHash) →
    signed message.slot = some message.messageHash

/-- Who accuses the validator of double signing shows two messages, with the
slots in which they were signed, and the validator keeps its key. -/
def AccusedFairly (validator : Address) (publicKey : Bytes) (signed : UInt64 → Option Hash)
    (_ : SlashingLog) : SlashingOp → Prop
  | .submit evidence =>
    evidence.validator = validator → evidence.offenseType = .doubleSigning →
      ∃ message1 message2, evidence.evidenceData = .doubleSigning message1 message2 ∧
        SlotAsSigned signed message1 ∧ SlotAsSigned signed message2
  | .registerWithPubkey validator' _ publicKey' => validator' = validator → publicKey' = publicKey
  | _ => True

/-- No accusation of double signing is pending against the validator, and it
was never slashed for it. -/
structure Clean (validator : Address) (publicKey : Bytes) (s : SlashingLog) : Prop where
  key : ∀ row ∈ s.manager.validatorPubkeys.rows, row.1 = validator → row.2 = publicKey
  pending : ∀ evidence ∈ s.manager.evidencePool.rows, evidence.validator = validator →
    evidence.offenseType ≠ .doubleSigning
  history : ∀ record ∈ s.manager.getSlashingHistory validator,
    record.offenseType ≠ .doubleSigning

variable {crypto} {validator : Address} {publicKey : Bytes} {signed : UInt64 → Option Hash}

theorem clean_start (config : SlashingConfig) : Clean validator publicKey (start config) where
  key := fun _ h => nomatch h
  pending := fun _ h => nomatch h
  history := fun _ h => nomatch h

theorem verified_of_checkSignature {key payload signature : Bytes}
    (h : SlashingManager.checkSignature crypto key payload signature = .ok ()) :
    crypto.verifyMlDsa65 key payload signature = true := by
  unfold SlashingManager.checkSignature at h
  split at h
  · assumption
  · cases h

theorem signatures_of_checkSignedPair {domain : Bytes} {hash1 hash2 : Hash}
    {signature1 signature2 : Bytes}
    (h : m.checkSignedPair crypto validator domain hash1 hash2 signature1 signature2 = .ok ()) :
    ∃ key, (validator, key) ∈ m.validatorPubkeys.rows ∧
      crypto.verifyMlDsa65 key (withDomain domain (arrayBytes hash1)) signature1 = true ∧
      crypto.verifyMlDsa65 key (withDomain domain (arrayBytes hash2)) signature2 = true := by
  simp only [SlashingManager.checkSignedPair, bind, Except.bind] at h
  split at h
  · cases h
  rename_i key hkey
  split at h
  · cases h
  rename_i hfirst
  refine ⟨key, ?_, verified_of_checkSignature hfirst, verified_of_checkSignature h⟩
  unfold SlashingManager.registeredKey SlashingManager.getValidatorPubkey at hkey
  split at hkey
  · cases hkey
  rename_i hrow
  obtain ⟨row, hget, hsnd⟩ := Option.map_eq_some_iff.mp hrow
  have hfst : row.1 = validator := key_of_get hget
  rw [← Except.ok.inj hkey, ← hsnd, ← hfst]
  exact mem_rows_of_get hget

/-- Two messages of one slot, both signed in it, are not two messages. -/
theorem doubleSigning_refused {message1 message2 : SignedMessage}
    (hkey : ∀ row ∈ m.validatorPubkeys.rows, row.1 = evidence.validator → row.2 = publicKey)
    (hsigns : SignsOnlyPerSlot crypto publicKey signed) (h1 : SlotAsSigned signed message1)
    (h2 : SlotAsSigned signed message2) :
    m.validateDoubleSigning crypto evidence message1 message2 ≠ .ok () := by
  intro hvalid
  unfold SlashingManager.validateDoubleSigning at hvalid
  split at hvalid
  · cases hvalid
  rename_i hslot
  split at hvalid
  · cases hvalid
  rename_i hdiff
  obtain ⟨key, hrow, hsig1, hsig2⟩ := signatures_of_checkSignedPair hvalid
  obtain rfl : key = publicKey := hkey _ hrow rfl
  have hsigned1 := h1 (hsigns _ _ hsig1)
  have hsigned2 := h2 (hsigns _ _ hsig2)
  rw [not_not.mp hslot, hsigned2] at hsigned1
  exact hdiff (Option.some.inj hsigned1).symm

theorem clean_execute {done' : List (SlashingEvidence × SlashingExecution)}
    (h : Clean validator publicKey ⟨m, done⟩)
    (hget : m.evidencePool.get evidence.id = some evidence) (hslashed : SlashingManager.Slashed
      { m with evidencePool := m.evidencePool.erase evidence.id } evidence execution m') :
    Clean validator publicKey
      ⟨{ m' with processedEvidence := m'.processedEvidence.put (evidence.id, m'.currentSlot) },
        done'⟩ where
  key := by
    simp only [hslashed.validatorPubkeys]
    exact h.key
  pending := fun e he => by
    simp only [hslashed.evidencePool] at he
    exact h.pending e (mem_rows_erase he)
  history := fun record hrecord => by
    rcases hslashed.history validator record hrecord with hold | ⟨hvalidator, htype⟩
    · exact h.history record hold
    · rw [htype]
      exact h.pending evidence (mem_rows_of_get hget) hvalidator.symm

theorem clean_step (hsigns : SignsOnlyPerSlot crypto publicKey signed)
    (h : Clean validator publicKey s) (hop : s.AccusedFairly validator publicKey signed op) :
    Clean validator publicKey (step crypto s op) := by
  cases op with
  | submit evidence =>
    rcases s.manager.submitEvidence_cases crypto evidence with ⟨e, hfail⟩ | ⟨-, hvalid, hok⟩
    · simp only [step, hfail]
      exact h
    simp only [step, hok]
    refine ⟨h.key, fun e he hvalidator htype => ?_, h.history⟩
    rcases mem_rows_put he with rfl | hold
    · obtain ⟨_, _, hdata, h1, h2⟩ := hop hvalidator htype
      unfold SlashingManager.validateEvidence at hvalid
      rw [hdata] at hvalid
      split at hvalid
      · cases hvalid
      · exact doubleSigning_refused (hvalidator ▸ h.key) hsigns h1 h2 hvalid
    · exact h.pending e hold hvalidator htype
  | process =>
    exact SlashingManager.processIds_induct
      (I := fun done m => Clean validator publicKey ⟨m, done⟩)
      (fun done m id hclean =>
        ⟨hclean.key, fun e he => hclean.pending e (mem_rows_erase he), hclean.history⟩)
      (fun done m evidence execution m' hclean hget hslashed =>
        clean_execute hclean hget hslashed) _ s.executed s.manager h
  | setCurrentSlot | prune => exact ⟨h.key, h.pending, h.history⟩
  | register | unjail =>
    simp only [step, SlashingManager.registerValidator, SlashingManager.unjail]
    split <;> exact ⟨h.key, h.pending, h.history⟩
  | registerWithPubkey =>
    simp only [step, SlashingManager.registerValidatorWithPubkey]
    split
    · exact h
    refine ⟨fun row hrow hvalidator => ?_, h.pending, h.history⟩
    rcases mem_rows_put hrow with rfl | hold
    · exact hop hvalidator
    · exact h.key row hold hvalidator

variable (crypto validator publicKey signed)

/-- Who signs one hash per slot has no record of double signing after any run
in which the messages held against it carry the slots of the signatures. -/
theorem honest_not_slashed (config : SlashingConfig)
    (hsigns : SignsOnlyPerSlot crypto publicKey signed) (ops : List SlashingOp)
    (hops : StepsMeet (step crypto) (AccusedFairly validator publicKey signed) (start config) ops) :
    ∀ record ∈ (run (step crypto) (start config) ops).manager.getSlashingHistory validator,
      record.offenseType ≠ .doubleSigning :=
  (invariant_of_stepsMeet (I := Clean validator publicKey)
    (fun _ _ h hop => clean_step hsigns h hop) (clean_start config) hops).history

/-- Only the two messages below have signatures, of key 1. -/
def twoMessageCrypto : SlashingCrypto :=
  ⟨digitHash, fun publicKey message _ => publicKey == [1] &&
    (message == withDomain DOMAIN_SLASH_DOUBLE_SIGN (arrayBytes 1)
      || message == withDomain DOMAIN_SLASH_DOUBLE_SIGN (arrayBytes 2))⟩

/-- Hash 1 in slot 5 and hash 2 in slot 6. -/
def twoSlots (slot : UInt64) : Option Hash :=
  if slot = 5 then some 1 else if slot = 6 then some 2 else none

theorem signsOnlyPerSlot_twoSlots : SignsOnlyPerSlot twoMessageCrypto [1] twoSlots := by
  intro hash signature h
  simp only [twoMessageCrypto, Bool.and_eq_true, Bool.or_eq_true, beq_iff_eq] at h
  rcases h.2 with heq | heq
  · exact ⟨5, by rw [arrayBytes_injective (append_cancel_left heq)]; rfl⟩
  · exact ⟨6, by rw [arrayBytes_injective (append_cancel_left heq)]; rfl⟩

/-- The evidence gives both messages the slot of the first. -/
theorem honest_slashed_for_two_slots :
    SignsOnlyPerSlot twoMessageCrypto [1] twoSlots ∧
      ∃ record ∈ (run (step twoMessageCrypto) (start sampleConfig)
        [.registerWithPubkey 7 1000000 [1], .setCurrentSlot 1000, .submit (doubleSign 1 1000),
          .process .asStored]).manager.getSlashingHistory 7, record.offenseType = .doubleSigning :=
  ⟨signsOnlyPerSlot_twoSlots, by decide⟩

/-- The messages with their own slots are refused; called something else,
with one slot, they are not. -/
def fairAccusations : List SlashingOp :=
  [.registerWithPubkey 7 1000000 [1], .setCurrentSlot 1000,
    .submit ⟨1, .doubleSigning, 7, 1000, 9, .doubleSigning ⟨1, 5, []⟩ ⟨2, 6, []⟩⟩,
    .submit { doubleSign 2 1000 with offenseType := .custom "two messages" }, .process .asStored]

theorem fairAccusations_not_slashed :
    ((run (step twoMessageCrypto) (start sampleConfig)
      fairAccusations).manager.getSlashingHistory 7).length = 1 ∧
    ∀ record ∈ (run (step twoMessageCrypto) (start sampleConfig)
      fairAccusations).manager.getSlashingHistory 7, record.offenseType ≠ .doubleSigning :=
  ⟨by decide,
    honest_not_slashed twoMessageCrypto 7 [1] twoSlots sampleConfig signsOnlyPerSlot_twoSlots
      fairAccusations
      ⟨fun _ => rfl, trivial, fun _ _ => ⟨_, _, rfl, fun _ => rfl, fun _ => rfl⟩,
        (fun _ h => nomatch h), trivial, trivial⟩⟩

end SlashingLog

/-! ## Penalty and offence -/

namespace SlashingManager

variable (crypto : SlashingCrypto)

/-- Rate and jailing are those of the offence the data shows, and who is
punished for downtime missed ten duties it was assigned. The duties were
checked against the manager `m`, the penalty is taken by `m'`. -/
structure Fits (m m' : SlashingManager) (evidence : SlashingEvidence)
    (execution : SlashingExecution) : Prop where
  rate : (m'.appliedPenalty evidence).basePenaltyBps
    = evidence.evidenceData.kind.basePenaltyBps m'.config
  jailed : execution.jailed = evidence.evidenceData.kind.resultsInJail
  duties : ∀ missedDuties, evidence.evidenceData = .downtime missedDuties →
    ∃ duties : List MissedDuty, duties.Nodup ∧ 10 ≤ duties.length ∧
      ∀ duty ∈ duties, duty ∈ missedDuties ∧ m.dutyAssigned crypto evidence.validator duty = true

/-- The declared type is the offence shown, or another that jails at the same
rate, or a custom one for downtime where that costs 1% as well. -/
def PunishedAlike (config : SlashingConfig) (declared shown : OffenseType) : Prop :=
  declared = shown ∨
    (declared.resultsInJail = true ∧ shown.resultsInJail = true ∧
      declared.basePenaltyBps config = shown.basePenaltyBps config) ∨
    (shown = .downtime ∧ (∃ name, declared = .custom name) ∧ config.downtimePenaltyBps = 100)

/-- The assigned duties of a list, each counted once. -/
def distinctAssigned (m : SlashingManager) (validator : Address) (duties : List MissedDuty) : Nat :=
  (duties.filter fun duty => m.dutyAssigned crypto validator duty).dedup.length

theorem punishedAlike_iff (config : SlashingConfig) (declared : OffenseType) (data : EvidenceData) :
    PunishedAlike config declared data.kind ↔
      declared.basePenaltyBps config = data.kind.basePenaltyBps config ∧
        declared.resultsInJail = data.kind.resultsInJail := by
  constructor
  · rintro (h | ⟨hjail, hjail', hrate⟩ | ⟨hshown, ⟨name, rfl⟩, hrate⟩)
    · rw [h]
      exact ⟨rfl, rfl⟩
    · exact ⟨hrate, hjail.trans hjail'.symm⟩
    · rw [hshown]
      exact ⟨hrate.symm, rfl⟩
  · rintro ⟨hrate, hjail⟩
    by_cases hshown : data.kind.resultsInJail = true
    · exact .inr (.inl ⟨hjail.trans hshown, hshown, hrate⟩)
    -- downtime is the only offence with evidence of its own that does not jail
    have hdowntime : data.kind = .downtime := by
      cases data with
      | downtime => rfl
      | _ => exact absurd rfl hshown
    rw [hdowntime] at hrate hjail ⊢
    cases declared with
    | downtime => exact .inl rfl
    | custom name => exact .inr (.inr ⟨rfl, ⟨name, rfl⟩, hrate.symm⟩)
    | _ => cases hjail

variable {crypto}

theorem ten_duties_iff {m : SlashingManager} {validator : Address} {missed : List MissedDuty} :
    (∃ duties : List MissedDuty, duties.Nodup ∧ 10 ≤ duties.length ∧
      ∀ duty ∈ duties, duty ∈ missed ∧ m.dutyAssigned crypto validator duty = true) ↔
    10 ≤ m.distinctAssigned crypto validator missed := by
  constructor
  · rintro ⟨duties, hnodup, hten, hassigned⟩
    refine hten.trans (List.Subperm.length_le (hnodup.subperm fun duty hduty => ?_))
    exact mem_dedup.mpr (mem_filter.mpr (hassigned duty hduty))
  · intro h
    refine ⟨_, nodup_dedup _, h, fun duty hduty => ?_⟩
    exact mem_filter.mp (mem_dedup.mp hduty)

variable (crypto)

/-- An executed penalty fits the offence shown exactly if the declared type is
punished like it, and downtime rests on ten different duties. -/
theorem fits_iff (m m' m'' : SlashingManager) (evidence : SlashingEvidence)
    (execution : SlashingExecution)
    (hexecuted : m'.executeSlashing evidence = (.ok execution, m'')) :
    Fits crypto m m' evidence execution ↔
      PunishedAlike m'.config evidence.offenseType evidence.evidenceData.kind ∧
      ∀ missedDuties, evidence.evidenceData = .downtime missedDuties →
        10 ≤ m.distinctAssigned crypto evidence.validator missedDuties := by
  have hjailed : execution.jailed = evidence.offenseType.resultsInJail := by
    rcases m'.executeSlashing_cases evidence with ⟨e, hfail⟩ | ⟨x, _, hok, hslashed⟩
    · rw [hfail] at hexecuted
      cases hexecuted
    rw [hok] at hexecuted
    cases hexecuted
    exact hslashed.jailed
  rw [punishedAlike_iff]
  constructor
  · intro h
    refine ⟨⟨h.rate, hjailed.symm.trans h.jailed⟩, fun missed hdata => ?_⟩
    exact ten_duties_iff.mp (h.duties missed hdata)
  · rintro ⟨⟨hrate, hjail⟩, hduties⟩
    exact ⟨hrate, hjailed.trans hjail, fun missed hdata =>
      ten_duties_iff.mpr (hduties missed hdata)⟩

/-- Every signature is valid and the duties of slot 32 are everybody's. -/
def constantCrypto : SlashingCrypto := ⟨fun _ => 0, fun _ _ _ => true⟩

def sampleManager : SlashingManager :=
  { new SlashingLog.sampleConfig with
    validatorStakes := Table.empty.put (7, 1000000)
    validatorPubkeys := Table.empty.put (7, [1])
    currentSlot := 1000 }

/-- Double signing, called downtime. -/
def mildEvidence : SlashingEvidence :=
  { SlashingLog.doubleSign 1 1000 with offenseType := .downtime }

/-- One attestation of slot 32, ten times. -/
def repeatedDuty : SlashingEvidence :=
  ⟨1, .downtime, 7, 1000, 9, .downtime (List.replicate 10 ⟨32, .attestation⟩)⟩

/-- Accepted, then executed for a tenth of a percent without jail, and
accepted, then executed for a single missed duty. -/
theorem penalty_misfits :
    ((sampleManager.submitEvidence constantCrypto mildEvidence).1 = .ok 1 ∧
      ∃ execution m'', sampleManager.executeSlashing mildEvidence = (.ok execution, m'') ∧
        ¬ Fits constantCrypto sampleManager sampleManager mildEvidence execution) ∧
    ((sampleManager.submitEvidence constantCrypto repeatedDuty).1 = .ok 1 ∧
      ∃ execution m'', sampleManager.executeSlashing repeatedDuty = (.ok execution, m'') ∧
        ¬ Fits constantCrypto sampleManager sampleManager repeatedDuty execution) := by
  refine ⟨⟨by decide, _, _, rfl, fun h => ?_⟩, by decide, _, _, rfl, fun h => ?_⟩
  · exact absurd h.rate (by decide)
  · have hten := ten_duties_iff.mp (h.duties _ rfl)
    revert hten
    decide

theorem doubleSign_fits :
    ∃ execution m'',
      sampleManager.executeSlashing (SlashingLog.doubleSign 1 1000) = (.ok execution, m'') ∧
      Fits constantCrypto sampleManager sampleManager (SlashingLog.doubleSign 1 1000) execution :=
  ⟨_, _, rfl, (fits_iff constantCrypto sampleManager sampleManager _
    (SlashingLog.doubleSign 1 1000) _ rfl).mpr ⟨.inl rfl, fun _ h => nomatch h⟩⟩

/-! ## Amounts -/

/-- The amounts of an execution are those of unbounded arithmetic. -/
structure Exact (stake rate : UInt64) (execution : SlashingExecution) : Prop where
  slashed : execution.totalSlashed.toNat = stake.toNat * rate.toNat / 10000
  remains : execution.newStake.toNat + execution.totalSlashed.toNat = stake.toNat
  shares : execution.reporterReward.toNat + execution.amountBurned.toNat
    + execution.amountRedistributed.toNat = execution.totalSlashed.toNat

theorem toNat_share (amount bps : UInt64) :
    (amount * bps / 10000).toNat = amount.toNat * bps.toNat % 2 ^ 64 / 10000 := by
  rw [UInt64.toNat_div, UInt64.toNat_mul]
  rfl

/-- A share in basis points of an amount that leaves room for all of them. -/
theorem share_le {amount bps : UInt64} (hbps : bps ≤ 10000)
    (hroom : amount.toNat * 10000 < 2 ^ 64) : amount * bps / 10000 ≤ amount := by
  have hle : amount.toNat * bps.toNat ≤ amount.toNat * 10000 :=
    Nat.mul_le_mul_left _ (le_iff_toNat_le.mp hbps)
  rw [le_iff_toNat_le, toNat_share]
  omega

/-- The amounts are exact if and only if the first product does not overflow,
and no stake that registration accepts makes it overflow. -/
theorem slashing_exact_iff (m : SlashingManager) (evidence : SlashingEvidence)
    (hfree : m.isJailed evidence.validator = false) {stake : UInt64}
    (hstake : m.stakeOf evidence.validator = some stake)
    (hreporter : m.config.reporterRewardBps ≤ 10000) (hburn : m.config.burnPercentageBps ≤ 10000) :
    ∃ rate execution m', rate = m.penaltyBps evidence.validator
        (m.appliedPenalty evidence).basePenaltyBps ∧
      m.executeSlashing evidence = (.ok execution, m') ∧
      (Exact stake rate execution ↔ stake.toNat * rate.toNat < 2 ^ 64) ∧
      (checkStake stake = .ok () → stake.toNat * rate.toNat < 2 ^ 64) := by
  have hexecute : m.executeSlashing evidence
      = (.ok (m.carryOut evidence stake (m.appliedPenalty evidence)).1,
        (m.carryOut evidence stake (m.appliedPenalty evidence)).2) := by
    simp only [executeSlashing, hfree, hstake, Bool.false_eq_true, if_false]
  refine ⟨_, _, _, rfl, hexecute, ?_⟩
  have hcap : m.penaltyBps evidence.validator (m.appliedPenalty evidence).basePenaltyBps ≤ 10000 :=
    Std.min_le_right
  simp only [carryOut]
  generalize m.penaltyBps evidence.validator _ = rate at hcap
  have hrate : rate.toNat ≤ 10000 := le_iff_toNat_le.mp hcap
  have hslash := toNat_share stake rate
  refine ⟨⟨fun h => ?_, fun hfits => ?_⟩, fun h => ?_⟩
  · have hslashed := h.slashed
    rw [hslash] at hslashed
    omega
  · rw [Nat.mod_eq_of_lt hfits] at hslash
    generalize stake * rate / 10000 = slash at hslash
    have hle : stake.toNat * rate.toNat ≤ stake.toNat * 10000 := Nat.mul_le_mul_left _ hrate
    have hreward := @share_le slash _ hreporter (by omega)
    generalize slash * m.config.reporterRewardBps / 10000 = reward at hreward
    have hremaining := UInt64.toNat_sub_of_le _ _ hreward
    generalize slash - reward = remaining at hremaining
    rw [le_iff_toNat_le] at hreward
    have hburned := @share_le remaining _ hburn (by omega)
    have hrest := UInt64.toNat_sub_of_le _ _ hburned
    rw [UInt64.le_iff_toNat_le] at hburned
    have hslashle : slash ≤ stake := le_iff_toNat_le.mpr (by omega)
    refine ⟨hslash, ?_, ?_⟩
    · simp only [if_pos hslashle, UInt64.toNat_sub_of_le _ _ hslashle]
      omega
    · simp only [hrest]
      omega
  · have hmax : ¬ stake > MAX_VALIDATOR_STAKE := by
      intro hgt
      simp only [checkStake, hgt, if_true] at h
      split at h <;> cases h
    have hle : stake.toNat ≤ 1000000000000 := by
      simpa [MAX_VALIDATOR_STAKE, le_iff_toNat_le] using hmax
    have := Nat.mul_le_mul hle hrate
    omega

theorem slashing_exact_sample : ∃ execution m',
    sampleManager.executeSlashing mildEvidence = (.ok execution, m') ∧
      Exact 1000000 10 execution := by
  obtain ⟨_, execution, m', rfl, hok, hiff, -⟩ :=
    slashing_exact_iff sampleManager mildEvidence rfl rfl (by decide) (by decide)
  exact ⟨execution, m', hok, hiff.mpr (by decide)⟩

/-- Of 10^18, five percent come out as 0.02 percent. -/
theorem wide_stake_inexact : ∃ execution m',
    executeSlashing
        { sampleManager with validatorStakes := Table.empty.put (7, 1000000000000000000) }
        (SlashingLog.doubleSign 1 1000) = (.ok execution, m') ∧
      ¬ Exact 1000000000000000000 500 execution :=
  ⟨_, _, rfl, fun h => absurd h.slashed (by decide)⟩

end SlashingManager

end Quantos

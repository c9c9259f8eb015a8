import Mathlib.Data.Fin.VecNotation
import Mathlib.Data.ZMod.Basic
import Quantos.L0Hub
import Quantos.L0Verifier

/-!
# The batch circuit

`l0/stark_prover.rs`: the trace `prove_batch` builds and the constraints
`BatchAggAir` puts on a trace. A row holds a signer flag, a stake, four
words of a commitment and the stake accumulated before the row. The
constraints say that the flag is a bit and that the accumulator grows by
flag times stake; the assertions fix its first and its last value.

The proof system is third-party code. It is taken to accept public inputs
exactly when some trace satisfies constraints and assertions (`Accepted`).

`satisfies_buildTrace` is completeness: the trace of a list of signers
satisfies the constraints for the stake of those who signed. But a trace
is the prover's own: no constraint mentions the stake column besides the
accumulation, none mentions the commitments, and of the public inputs only
the signed stake occurs in an assertion. So one row with any stake will
do, and every public input is accepted (`accepted`).
-/

namespace Quantos.StarkBatch

open List

/-! ## Field and trace -/

/-- The modulus of `f128`. -/
def fieldModulus : Nat := 2 ^ 128 - 45 * 2 ^ 40 + 1

abbrev BaseElement := ZMod fieldModulus

def BaseElement.new (value : U128) : BaseElement := (value.toNat : ZMod fieldModulus)

abbrev TRACE_WIDTH : Nat := 7

def COL_IS_SIGNER : Fin TRACE_WIDTH := 0

def COL_STAKE : Fin TRACE_WIDTH := 1

def COL_ACC : Fin TRACE_WIDTH := 6

abbrev Row := Fin TRACE_WIDTH → BaseElement

/-- The tables the prover library takes. -/
structure TraceTable where
  rows : List Row
  isPowerOfTwo : rows.length.isPowerOfTwo
  eight_le : 8 ≤ rows.length

/-- Word `j` of a commitment (`u64::from_le_bytes`). -/
def commitmentWord (commitment : Hash) (j : Nat) : BaseElement :=
  (leValue (((arrayBytes commitment).drop (8 * j)).take 8) : ZMod fieldModulus)

/-- The row of a validator, all zero behind the last one, with what was
accumulated before. -/
def traceRow (signer : Option SignerInput) (acc : U128) : Row :=
  ![signer.elim 0 fun s => if s.isSigner then 1 else 0,
    signer.elim 0 fun s => BaseElement.new s.stake,
    signer.elim 0 fun s => commitmentWord s.sigCommitment 0,
    signer.elim 0 fun s => commitmentWord s.sigCommitment 1,
    signer.elim 0 fun s => commitmentWord s.sigCommitment 2,
    signer.elim 0 fun s => commitmentWord s.sigCommitment 3,
    BaseElement.new acc]

/-- `acc.wrapping_add(stake)` behind a row that signed. -/
def advance (acc : U128) (signer : Option SignerInput) : U128 :=
  signer.elim acc fun s => if s.isSigner then acc + s.stake else acc

/-- The loop of `build_trace`. -/
def fillRows : Nat → List SignerInput → U128 → List Row
  | 0, _, _ => []
  | n + 1, signers, acc =>
    traceRow signers.head? acc :: fillRows n signers.tail (advance acc signers.head?)

variable (signers : List SignerInput)

/-- `(len + 1).next_power_of_two().max(8)`. -/
def traceLength : Nat := max (2 ^ Nat.clog 2 (signers.length + 1)) 8

theorem length_fillRows (n : Nat) (signers : List SignerInput) (acc : U128) :
    (fillRows n signers acc).length = n := by
  induction n generalizing signers acc with
  | zero => rfl
  | succ n ih => rw [fillRows, length_cons, ih]

theorem isPowerOfTwo_traceLength (signers : List SignerInput) :
    (traceLength signers).isPowerOfTwo := by
  unfold traceLength
  rcases Nat.le_total (2 ^ Nat.clog 2 (signers.length + 1)) 8 with h | h
  · rw [Nat.max_eq_right h]
    exact ⟨3, rfl⟩
  · rw [Nat.max_eq_left h]
    exact ⟨_, rfl⟩

def buildTrace : TraceTable where
  rows := fillRows (traceLength signers) signers 0
  isPowerOfTwo := by
    rw [length_fillRows]
    exact isPowerOfTwo_traceLength signers
  eight_le := by
    rw [length_fillRows]
    exact Nat.le_max_right _ _

/-! ## Constraints -/

/-- `BatchAggAir::evaluate_transition`. -/
def evaluateTransition (cur nxt : Row) : List BaseElement :=
  let isSigner := cur COL_IS_SIGNER
  let stake := cur COL_STAKE
  let acc := cur COL_ACC
  [isSigner * (1 - isSigner), nxt COL_ACC - (acc + isSigner * stake)]

structure Assertion where
  column : Fin TRACE_WIDTH
  row : Nat
  value : BaseElement

/-- `BatchAggAir::get_assertions`. -/
def getAssertions (traceLength : Nat) (inputs : BatchPublicInputs) : List Assertion :=
  let last := traceLength - 1
  [⟨COL_ACC, 0, 0⟩, ⟨COL_ACC, last, BaseElement.new inputs.signedStake⟩]

/-- The constraints vanish on every row but the last, the assertions hold. -/
structure Satisfies (trace : TraceTable) (inputs : BatchPublicInputs) : Prop where
  transitions : trace.rows.IsChain fun cur nxt => ∀ c ∈ evaluateTransition cur nxt, c = 0
  assertions : ∀ a ∈ getAssertions trace.rows.length inputs,
    ∃ row, trace.rows[a.row]? = some row ∧ row a.column = a.value

/-- Some trace is a proof for the inputs. -/
def Accepted (inputs : BatchPublicInputs) : Prop := ∃ trace, Satisfies trace inputs

/-! ## Completeness -/

/-- Stake of those who signed. -/
def signedTotal : Nat :=
  (signers.map fun s => if s.isSigner then s.stake.toNat else 0).sum

variable {signers} {acc : U128}

theorem toNat_advance (h : acc.toNat + signedTotal signers < 2 ^ 128) :
    (advance acc signers.head?).toNat + signedTotal signers.tail
      = acc.toNat + signedTotal signers := by
  cases signers with
  | nil => rfl
  | cons =>
    simp only [signedTotal, map_cons, sum_cons, head?_cons, tail_cons, advance, Option.elim] at h ⊢
    split at h
    · rename_i hsigner
      rw [if_pos hsigner, if_pos hsigner, BitVec.toNat_add, Nat.mod_eq_of_lt (by omega)]
      omega
    rename_i hsigner
    rw [if_neg hsigner, if_neg hsigner]
    omega

/-- Two rows in sequence, of which the first does not make the accumulator
wrap, satisfy the constraints. -/
theorem evaluateTransition_traceRow {signer next : Option SignerInput}
    (h : (advance acc signer).toNat
      = acc.toNat + signer.elim 0 fun s => if s.isSigner then s.stake.toNat else 0) :
    ∀ c ∈ evaluateTransition (traceRow signer acc) (traceRow next (advance acc signer)), c = 0 := by
  have hacc : BaseElement.new (advance acc signer)
      = BaseElement.new acc
        + ((signer.elim 0 fun s => if s.isSigner then s.stake.toNat else 0 : Nat) :
            BaseElement) := by
    rw [BaseElement.new, h, Nat.cast_add]
    rfl
  have hnext : traceRow next (advance acc signer) COL_ACC = BaseElement.new (advance acc signer) :=
    rfl
  have hcur : traceRow signer acc COL_ACC = BaseElement.new acc := rfl
  simp only [evaluateTransition, hnext, hcur, hacc, forall_mem_cons]
  rcases signer with _ | s
  · simp [traceRow, COL_IS_SIGNER]
  rcases hsigner : s.isSigner
  · simp [traceRow, COL_IS_SIGNER, hsigner]
  · simp [traceRow, COL_IS_SIGNER, COL_STAKE, hsigner, BaseElement.new]

theorem isChain_fillRows (n : Nat) (h : acc.toNat + signedTotal signers < 2 ^ 128) :
    (fillRows n signers acc).IsChain fun cur nxt => ∀ c ∈ evaluateTransition cur nxt, c = 0 := by
  induction n generalizing signers acc with
  | zero => exact .nil
  | succ n ih =>
    have hadvance := toNat_advance h
    have hrest := @ih signers.tail (advance acc signers.head?) (by omega)
    cases n with
    | zero => exact .singleton _
    | succ =>
      refine .cons_cons (evaluateTransition_traceRow ?_) hrest
      cases signers with
      | nil => rfl
      | cons =>
        simp only [signedTotal, map_cons, sum_cons, head?_cons,
          tail_cons, Option.elim] at hadvance ⊢
        omega

/-- With a row left behind the last signer, the last row has the total. -/
theorem last_fillRows {n : Nat} (hn : signers.length < n)
    (h : acc.toNat + signedTotal signers < 2 ^ 128) :
    ∃ row, (fillRows n signers acc)[n - 1]? = some row ∧
      row COL_ACC = ((acc.toNat + signedTotal signers : Nat) : BaseElement) := by
  induction n generalizing signers acc with
  | zero => exact absurd hn (Nat.not_lt_zero _)
  | succ n ih =>
    have hadvance := toNat_advance h
    cases n with
    | zero =>
      obtain rfl : signers = [] := length_eq_zero_iff.mp (by omega)
      exact ⟨_, rfl, by simp [traceRow, COL_ACC, signedTotal, BaseElement.new]⟩
    | succ =>
      obtain ⟨row, hrow, hacc⟩ := @ih signers.tail (advance acc signers.head?)
        (by rw [length_tail]; omega) (by omega)
      refine ⟨row, hrow, ?_⟩
      rw [hacc, hadvance]

theorem satisfies_buildTrace {inputs : BatchPublicInputs}
    (h : inputs.signedStake.toNat = signedTotal signers) :
    Satisfies (buildTrace signers) inputs := by
  have hfits : (0 : U128).toNat + signedTotal signers < 2 ^ 128 := by
    rw [← h]
    simpa using inputs.signedStake.isLt
  have hlength : signers.length < traceLength signers :=
    Nat.le_trans (Nat.le_pow_clog Nat.one_lt_two _) (Nat.le_max_left _ _)
  refine ⟨isChain_fillRows _ hfits, ?_⟩
  simp only [getAssertions, forall_mem_cons, not_mem_nil, false_implies, implies_true, and_true]
  constructor
  · obtain ⟨n, hn⟩ : ∃ n, traceLength signers = n + 1 := ⟨traceLength signers - 1, by omega⟩
    refine ⟨traceRow signers.head? 0, ?_, by simp [traceRow, COL_ACC, BaseElement.new]⟩
    simp only [buildTrace, hn, fillRows]
    rfl
  · obtain ⟨row, hrow, hacc⟩ := last_fillRows hlength hfits
    refine ⟨row, ?_, ?_⟩
    · simp only [buildTrace, length_fillRows]
      exact hrow
    · rw [hacc, BaseElement.new, h]
      simp

/-- A total in the field, as the stake of the public inputs: the table is one
the library takes, and it satisfies the circuit. -/
theorem honest_trace_satisfies (signers : List SignerInput) (inputs : BatchPublicInputs)
    (h : signedTotal signers < fieldModulus) :
    (buildTrace signers).rows.length.isPowerOfTwo ∧ 8 ≤ (buildTrace signers).rows.length ∧
      (BitVec.ofNat 128 (signedTotal signers)).toNat = signedTotal signers ∧
      Satisfies (buildTrace signers)
        { inputs with signedStake := BitVec.ofNat 128 (signedTotal signers) } := by
  have hstake : (BitVec.ofNat 128 (signedTotal signers)).toNat = signedTotal signers := by
    rw [BitVec.toNat_ofNat]
    exact Nat.mod_eq_of_lt (h.trans (by decide))
  exact ⟨(buildTrace signers).isPowerOfTwo, (buildTrace signers).eight_le, hstake,
    satisfies_buildTrace hstake⟩

/-- A single validator with the stake that is claimed. -/
def inflatedSigner (stake : U128) : SignerInput where
  validatorIndex := 0
  stake
  sigCommitment := 0
  isSigner := true

/-- Seven signers and the row of the total. -/
theorem honest_trace_seven : (buildTrace (List.replicate 7 (inflatedSigner 100))).rows.length = 8 ∧
      Satisfies (buildTrace (List.replicate 7 (inflatedSigner 100))) ⟨0, 0, 700, 467, 7⟩ :=
  ⟨rfl, (honest_trace_satisfies (List.replicate 7 (inflatedSigner 100)) ⟨0, 0, 0, 467, 7⟩
    (by decide)).2.2.2⟩

theorem accepted (inputs : BatchPublicInputs) : Accepted inputs :=
  ⟨buildTrace [inflatedSigner inputs.signedStake],
    satisfies_buildTrace (by simp [signedTotal, inflatedSigner])⟩

/-- Acceptance says nothing: all inputs are accepted, so those that are
keep within the stake of the list behind their root if and only if the
stake they claim does. -/
theorem accepted_stake_iff (hashData : Bytes → Hash) (records : List ValidatorRecord)
    (inputs : BatchPublicInputs) :
    Accepted inputs ∧ ((Accepted inputs →
          ValidatorSetSnapshot.computeRoot hashData records = inputs.validatorSetRoot →
          inputs.signedStake.toNat ≤ stakeOf records)
        ↔ (ValidatorSetSnapshot.computeRoot hashData records ≠ inputs.validatorSetRoot ∨
            inputs.signedStake.toNat ≤ stakeOf records)) := by
  refine ⟨accepted inputs, fun h => ?_, fun h _ hroot => ?_⟩
  · by_cases hroot : ValidatorSetSnapshot.computeRoot hashData records = inputs.validatorSetRoot
    · exact .inr (h (accepted inputs) hroot)
    · exact .inl hroot
  · exact h.resolve_left (not_not.mpr hroot)

/-- One validator with stake 1, a claim of 100. -/
theorem inflated_stake_accepted :
    Accepted ⟨ValidatorSetSnapshot.computeRoot digitHash [⟨1, [2], 1⟩], 0, 100, 67, 1⟩ ∧
      stakeOf [⟨1, [2], 1⟩] < 100 :=
  ⟨accepted _, by decide⟩

end Quantos.StarkBatch

import Mathlib.NumberTheory.LucasPrimality
import Mathlib.Tactic.NormNum.Prime
import Mathlib.Tactic.ReduceModChar
import Quantos.StarkBatch

/-!
# The state-transition circuit

`StateTransitionAir` of `zk/mod.rs`. A row holds a state and a transaction
hash as four words each, the state after it, a counter, the kind of the row,
an accumulator and a flag. The constraints on two rows in sequence say that
the second starts in the state the first ends in, and that this state is the
algebraic hash of state and transaction. The factor that is meant to switch
the hash off for rows that are no transactions is never zero for a kind the
circuit allows (`transition_iff`), so every row but the last is a step of the
chain of hashes.

Constraints are laid on a row with the one behind it, so the last row is under
none, and the state it ends in is whatever the public inputs say: the hashes
of a trace lead to the new state if and only if the last row happens to be
hashed like the others (`trace_linked_iff`).

The modulus of the field is prime, by Lucas's test with the witness 3, so that
a product of constraints vanishes only where one of its factors does.
-/

namespace Quantos

open List

open StarkBatch (BaseElement fieldModulus)

/-! ## The field -/

theorem prime_18053749339 : Nat.Prime 18053749339 := by
  have hlast : Nat.Prime 19165339 := by norm_num
  have hmiddle : Nat.Prime 157 := by norm_num
  refine lucas_primality _ (3 : ZMod 18053749339) ?_ fun q hq hdvd => ?_
  · simp only [Nat.reduceSub]
    reduce_mod_char
  · have hfactors : (18053749339 - 1 : ℕ) = 2 * 3 * 157 * 19165339 := by norm_num
    rw [hfactors, hq.dvd_mul, hq.dvd_mul, hq.dvd_mul, Nat.prime_dvd_prime_iff_eq hq hlast,
      Nat.prime_dvd_prime_iff_eq hq hmiddle, Nat.prime_dvd_prime_iff_eq hq Nat.prime_three,
      Nat.prime_dvd_prime_iff_eq hq Nat.prime_two] at hdvd
    rcases hdvd with ((rfl | rfl) | rfl) | rfl
    all_goals
      simp only [Nat.reduceSub, Nat.reduceDiv]
      reduce_mod_char
      decide

theorem fieldModulus_eq : fieldModulus = 340282366920938463463374557953744961537 := by
  decide

theorem eq_of_dvd_pred_fieldModulus {q : ℕ} (hq : q.Prime)
    (hdvd : q ∣ 340282366920938463463374557953744961537 - 1) :
    q = 2 ∨ q = 29 ∨ q = 181 ∨ q = 286619 ∨ q = 11394379 ∨ q = 18053749339 := by
  have hfactors : (340282366920938463463374557953744961537 - 1 : ℕ)
      = 2 ^ 40 * (29 * (181 * (286619 * (11394379 * 18053749339)))) := by norm_num
  have h29 : Nat.Prime 29 := by norm_num
  have h181 : Nat.Prime 181 := by norm_num
  have h286619 : Nat.Prime 286619 := by norm_num
  have h11394379 : Nat.Prime 11394379 := by norm_num
  rwa [hfactors, hq.dvd_mul, hq.dvd_mul, hq.dvd_mul, hq.dvd_mul, hq.dvd_mul,
    hq.prime.dvd_pow_iff_dvd (by norm_num), Nat.prime_dvd_prime_iff_eq hq Nat.prime_two,
    Nat.prime_dvd_prime_iff_eq hq h29, Nat.prime_dvd_prime_iff_eq hq h181,
    Nat.prime_dvd_prime_iff_eq hq h286619, Nat.prime_dvd_prime_iff_eq hq h11394379,
    Nat.prime_dvd_prime_iff_eq hq prime_18053749339] at hdvd

theorem prime_fieldModulus : Nat.Prime fieldModulus := by
  rw [fieldModulus_eq]
  refine lucas_primality _ (3 : ZMod 340282366920938463463374557953744961537) ?_
    fun q hq hdvd => ?_
  · simp only [Nat.reduceSub]
    reduce_mod_char
  · rcases eq_of_dvd_pred_fieldModulus hq hdvd with rfl | rfl | rfl | rfl | rfl | rfl
    all_goals
      simp only [Nat.reduceSub, Nat.reduceDiv]
      reduce_mod_char
      decide

instance : Fact (Nat.Prime fieldModulus) := ⟨prime_fieldModulus⟩

/-! ## Rows -/

structure StateTransitionInputs where
  prevStateRoot : Hash
  newStateRoot : Hash
  txRoot : Hash
  txCount : UInt64
  shardId : UInt16
  height : UInt64

namespace StateTransition

/-- A 32-byte value as four field elements. -/
abbrev Words := Fin 4 → BaseElement

/-- The sixteen columns. -/
inductive Column where
  | stateRoot (i : Fin 4)
  | txHash (i : Fin 4)
  | nextState (i : Fin 4)
  | stepCounter
  | opType
  | merkleAcc
  | validFlag

abbrev Row := Column → BaseElement

/-- The tables the prover library takes. -/
structure TraceTable where
  rows : List Row
  isPowerOfTwo : rows.length.isPowerOfTwo
  eight_le : 8 ≤ rows.length

def OP_INIT : BaseElement := 0

def OP_TRANSACTION : BaseElement := 1

def OP_FINALIZE : BaseElement := 2

def RESCUE_ROUND_CONSTANTS : List Nat :=
  [0x243f6a8885a308d3, 0x13198a2e03707344, 0xa4093822299f31d0, 0x082efa98ec4e6c89,
    0x452821e638d01377, 0xbe5466cf34e90c6c, 0xc0ac29b7c97c50dd, 0x3f84d5b5b5470917,
    0x9216d5d98979fb1b, 0xd1310ba698dfb5ac, 0x2ffd72dbd01adfb7, 0xb8e1afed6a267e96,
    0xba7c9045f12c7f99, 0x24a19947b3916cf7, 0x0801f2e2858efc16, 0x636920d871574e69]

/-- `u64::from_le_bytes(hash[8 * i..8 * i + 8])`. -/
def limb (hash : Hash) (i : Fin 4) : Nat := leValue (((arrayBytes hash).drop (8 * i)).take 8)

def hashToFieldElements (hash : Hash) : Words := fun i => (limb hash i : BaseElement)

def algebraicHash (a b : BaseElement) (round : Nat) : BaseElement :=
  let rc : BaseElement := (RESCUE_ROUND_CONSTANTS.getD (round % 16) 0 : Nat)
  let sum := a + b + rc
  let x2 := sum * sum
  let x4 := x2 * x2
  x4 * sum

/-- One step of the chain, word by word. -/
def hashWords (state tx : Words) : Words := fun i => algebraicHash (state i) (tx i) i

/-! ## The rows of an execution -/

inductive TraceOpType where
  | state
  | transaction
  | hash
  | merkle

structure TraceStep where
  index : UInt64
  stateHash : Hash
  opType : TraceOpType

/-- A state is the initial one in row 0 and the final one elsewhere. -/
def opOfStep (row : Nat) : TraceOpType → BaseElement
  | .state => if row = 0 then OP_INIT else OP_FINALIZE
  | .transaction | .hash | .merkle => OP_TRANSACTION

/-- The row of a step that starts in `state`. -/
def stepRow (row : Nat) (state : Words) (merkleAcc : BaseElement) (step : TraceStep) : Row :=
  let txHash := hashToFieldElements step.stateHash
  fun
  | .stateRoot i => state i
  | .txHash i => txHash i
  | .nextState i => hashWords state txHash i
  | .stepCounter => row
  | .opType => opOfStep row step.opType
  | .merkleAcc => merkleAcc
  | .validFlag => 1

/-- The state after a list of steps. -/
def stateAfter (state : Words) (steps : List TraceStep) : Words :=
  steps.foldl (fun state step => hashWords state (hashToFieldElements step.stateHash)) state

def accAfter (merkleAcc : BaseElement) (steps : List TraceStep) : BaseElement :=
  steps.foldl (fun acc step => algebraicHash acc (hashToFieldElements step.stateHash 0) 0) merkleAcc

/-- The loop over the steps in `build_winterfell_trace`. -/
def fillSteps (row : Nat) (state : Words) (merkleAcc : BaseElement) : List TraceStep → List Row
  | [] => []
  | step :: steps =>
    stepRow row state merkleAcc step :: fillSteps (row + 1) (stateAfter state [step])
      (accAfter merkleAcc [step]) steps

/-! ## Constraints -/

/-- `evaluate_transition`, the twelve constraints in order. -/
def evaluateTransition (current next : Row) : List BaseElement :=
  let isTx := current .opType - OP_TRANSACTION
  let isTxFlag := isTx * (isTx - 1)
  let op := current .opType
  (List.finRange 4).map (fun i => next (.stateRoot i) - current (.nextState i))
    ++ (List.finRange 4).map (fun i =>
      (algebraicHash (current (.stateRoot i)) (current (.txHash i)) i - current (.nextState i))
        * (1 - isTxFlag))
    ++ [next .stepCounter - current .stepCounter - 1,
      op * (op - 1) * (op - 2),
      (algebraicHash (current .merkleAcc) (current (.txHash 0)) 0 - next .merkleAcc)
        * (1 - isTxFlag),
      current .validFlag - 1]

structure StateTransitionPublicInputs where
  prevState : Words
  newState : Words
  txRoot : Words
  txCount : UInt64
  traceLength : Nat

structure Assertion where
  column : Column
  row : Nat
  value : BaseElement

def getAssertions (traceLength : Nat) (inputs : StateTransitionPublicInputs) : List Assertion :=
  let lastStep := traceLength - 1
  (List.finRange 4).map (fun i => ⟨.stateRoot i, 0, inputs.prevState i⟩)
    ++ [⟨.stepCounter, 0, 0⟩, ⟨.opType, 0, OP_INIT⟩, ⟨.merkleAcc, 0, 0⟩, ⟨.validFlag, 0, 1⟩]
    ++ (List.finRange 4).map (fun i => ⟨.nextState i, lastStep, inputs.newState i⟩)
    ++ [⟨.opType, lastStep, OP_FINALIZE⟩, ⟨.validFlag, lastStep, 1⟩]

/-- The constraints vanish on every row but the last, the assertions hold. -/
structure Satisfies (trace : TraceTable) (inputs : StateTransitionPublicInputs) : Prop where
  transitions : trace.rows.IsChain fun current next => ∀ c ∈ evaluateTransition current next, c = 0
  assertions : ∀ a ∈ getAssertions trace.rows.length inputs,
    ∃ row, trace.rows[a.row]? = some row ∧ row a.column = a.value

/-! ## What the constraints say -/

/-- The second row takes up where the step of the first one leads. -/
structure Follows (current next : Row) : Prop where
  state : ∀ i, next (.stateRoot i) = current (.nextState i)
  hash : ∀ i, current (.nextState i)
    = algebraicHash (current (.stateRoot i)) (current (.txHash i)) i
  counter : next .stepCounter = current .stepCounter + 1
  op : current .opType = OP_INIT ∨ current .opType = OP_TRANSACTION ∨
    current .opType = OP_FINALIZE
  acc : next .merkleAcc = algebraicHash (current .merkleAcc) (current (.txHash 0)) 0
  valid : current .validFlag = 1

/-- The kinds allowed are the roots of the tenth constraint. -/
theorem opType_iff (op : BaseElement) :
    op * (op - 1) * (op - 2) = 0 ↔ op = OP_INIT ∨ op = OP_TRANSACTION ∨ op = OP_FINALIZE := by
  rw [mul_eq_zero, mul_eq_zero, sub_eq_zero, sub_eq_zero, or_assoc]
  rfl

theorem selector_ne_zero {op : BaseElement}
    (h : op = OP_INIT ∨ op = OP_TRANSACTION ∨ op = OP_FINALIZE) :
    1 - (op - OP_TRANSACTION) * (op - OP_TRANSACTION - 1) ≠ 0 := by
  have hone : (1 : BaseElement) ≠ 0 := one_ne_zero
  rcases h with rfl | rfl | rfl
  · intro hzero
    refine hone (neg_eq_zero.mp ?_)
    rw [← hzero, OP_INIT, OP_TRANSACTION]
    ring
  · simp [OP_TRANSACTION]
  · intro hzero
    refine hone ?_
    rw [← hzero, OP_FINALIZE, OP_TRANSACTION]
    ring

theorem transition_iff {current next : Row} :
    (∀ c ∈ evaluateTransition current next, c = 0) ↔ Follows current next := by
  simp only [evaluateTransition, forall_mem_append, forall_mem_map, forall_mem_cons, not_mem_nil,
    false_implies, implies_true, and_true, opType_iff, mem_finRange, true_implies]
  constructor
  · rintro ⟨⟨hstate, hhash⟩, hcounter, hop, hacc, hvalid⟩
    have hselector := selector_ne_zero hop
    exact ⟨fun i => sub_eq_zero.mp (hstate i),
      fun i => (sub_eq_zero.mp ((mul_eq_zero.mp (hhash i)).resolve_right hselector)).symm,
      by rw [← sub_eq_zero, ← hcounter]; ring, hop,
      (sub_eq_zero.mp ((mul_eq_zero.mp hacc).resolve_right hselector)).symm,
      sub_eq_zero.mp hvalid⟩
  · intro h
    refine ⟨⟨fun i => ?_, fun i => ?_⟩, ?_, h.op, ?_, ?_⟩
    · rw [h.state, sub_self]
    · rw [h.hash, sub_self, zero_mul]
    · rw [h.counter]
      ring
    · rw [h.acc, sub_self, zero_mul]
    · rw [h.valid, sub_self]

theorem assertions_iff (traceLength : Nat) (inputs : StateTransitionPublicInputs)
    (P : Assertion → Prop) :
    (∀ a ∈ getAssertions traceLength inputs, P a) ↔
      ((∀ i, P ⟨.stateRoot i, 0, inputs.prevState i⟩) ∧ P ⟨.stepCounter, 0, 0⟩ ∧
        P ⟨.opType, 0, OP_INIT⟩ ∧ P ⟨.merkleAcc, 0, 0⟩ ∧ P ⟨.validFlag, 0, 1⟩) ∧
      (∀ i, P ⟨.nextState i, traceLength - 1, inputs.newState i⟩) ∧
      P ⟨.opType, traceLength - 1, OP_FINALIZE⟩ ∧ P ⟨.validFlag, traceLength - 1, 1⟩ := by
  simp only [getAssertions, forall_mem_append, forall_mem_map, forall_mem_cons, not_mem_nil,
    false_implies, implies_true, and_true, mem_finRange, true_implies, and_assoc]

/-! ## Rows in sequence -/

variable (row : Nat) (state : Words) (i : Fin 4) (steps : List TraceStep) (merkleAcc : BaseElement)
  (step : TraceStep)

section

variable (steps : List TraceStep)

theorem length_fillSteps : (fillSteps row state merkleAcc steps).length = steps.length := by
  induction steps generalizing row state merkleAcc with
  | nil => rfl
  | cons step steps ih => rw [fillSteps, length_cons, ih, length_cons]

theorem stateAfter_cons :
    stateAfter state (step :: steps) = stateAfter (stateAfter state [step]) steps := by
  simp only [stateAfter, foldl_cons, foldl_nil]

theorem accAfter_cons :
    accAfter merkleAcc (step :: steps) = accAfter (accAfter merkleAcc [step]) steps := by
  simp only [accAfter, foldl_cons, foldl_nil]

theorem fillSteps_concat (last : TraceStep) :
    fillSteps row state merkleAcc (steps ++ [last]) = fillSteps row state merkleAcc steps ++
      [stepRow (row + steps.length) (stateAfter state steps) (accAfter merkleAcc steps) last] := by
  induction steps generalizing row state merkleAcc with
  | nil => rfl
  | cons step steps ih =>
    rw [cons_append, fillSteps, ih, fillSteps, cons_append, stateAfter_cons state step steps,
      accAfter_cons merkleAcc step steps, length_cons, Nat.add_right_comm, Nat.add_assoc]

end

/-- A row that starts where a list of steps ends. -/
structure StartsAt (state : Words) (merkleAcc : BaseElement) (n : Nat) (row : Row) : Prop where
  state : ∀ i, row (.stateRoot i) = state i
  counter : row .stepCounter = n
  acc : row .merkleAcc = merkleAcc

theorem opOfStep_cases {op : TraceOpType} :
    opOfStep row op = OP_INIT ∨ opOfStep row op = OP_TRANSACTION ∨
      opOfStep row op = OP_FINALIZE := by
  cases op with
  | state =>
    by_cases h : row = 0
    · exact .inl (if_pos h)
    · exact .inr (.inr (if_neg h))
  | _ => exact .inr (.inl rfl)

theorem follows_stepRow_iff (next : Row) : Follows (stepRow row state merkleAcc step) next ↔
      StartsAt (stateAfter state [step]) (accAfter merkleAcc [step]) (row + 1) next := by
  constructor
  · intro h
    exact ⟨h.state, by rw [h.counter]; exact (Nat.cast_succ row).symm, h.acc⟩
  · intro h
    exact ⟨h.state, fun _ => rfl, by rw [h.counter]; exact Nat.cast_succ row,
      opOfStep_cases row, h.acc, rfl⟩

theorem startsAt_stepRow : StartsAt state merkleAcc row (stepRow row state merkleAcc step) :=
  ⟨fun _ => rfl, rfl, rfl⟩

/-- The rows of an execution are in sequence, and what comes behind them is
in sequence with them if it starts where they end. -/
theorem isChain_fillSteps_append (hsteps : steps ≠ []) (row : Nat) (state : Words)
    (merkleAcc : BaseElement) (next : Row) (rest : List Row) :
    (fillSteps row state merkleAcc steps ++ next :: rest).IsChain Follows ↔
      StartsAt (stateAfter state steps) (accAfter merkleAcc steps) (row + steps.length) next ∧
        (next :: rest).IsChain Follows := by
  induction steps generalizing row state merkleAcc with
  | nil => exact absurd rfl hsteps
  | cons step steps ih =>
    cases steps with
    | nil =>
      rw [fillSteps, fillSteps, singleton_append, isChain_cons_cons, follows_stepRow_iff]
      rfl
    | cons step' steps =>
      have hnext := ih (cons_ne_nil _ _) (row + 1) (stateAfter state [step])
        (accAfter merkleAcc [step])
      have hlength : row + (step :: step' :: steps).length
          = row + 1 + (step' :: steps).length := by
        simp only [length_cons]
        omega
      rw [fillSteps, cons_append, hlength]
      rw [fillSteps, cons_append, isChain_cons_cons, follows_stepRow_iff]
      rw [fillSteps, cons_append] at hnext
      rw [hnext, stateAfter_cons, accAfter_cons merkleAcc step (step' :: steps)]
      exact and_iff_right (startsAt_stepRow _ _ _ _)

section

variable (state : Words) (inputs : StateTransitionPublicInputs)

theorem isChain_fillSteps (row : Nat) (state : Words) (merkleAcc : BaseElement) :
    (fillSteps row state merkleAcc steps).IsChain Follows := by
  induction steps generalizing row state merkleAcc with
  | nil => exact .nil
  | cons step steps ih =>
    cases steps with
    | nil => exact .singleton _
    | cons =>
      refine .cons_cons ?_ (ih (row + 1) (stateAfter state [step]) (accAfter merkleAcc [step]))
      exact (follows_stepRow_iff ..).mpr (startsAt_stepRow ..)

theorem satisfies_iff (trace : TraceTable) (inputs : StateTransitionPublicInputs) :
    Satisfies trace inputs ↔ trace.rows.IsChain Follows ∧
      ∀ a ∈ getAssertions trace.rows.length inputs,
        ∃ row, trace.rows[a.row]? = some row ∧ row a.column = a.value := by
  constructor
  · intro h
    exact ⟨h.transitions.imp fun c n hcn => transition_iff.mp hcn, h.assertions⟩
  · rintro ⟨hchain, hassert⟩
    exact ⟨hchain.imp fun c n hcn => transition_iff.mpr hcn, hassert⟩

end

/-! ## The chain of a trace -/

/-- The state a row starts in. -/
def Row.start (row : Row) : Words := fun i => row (.stateRoot i)

/-- The transaction hash of a row, as its four words. -/
def Row.txWords (row : Row) : Words := fun i => row (.txHash i)

/-- The state a row claims to end in. -/
def Row.final (row : Row) : Words := fun i => row (.nextState i)

/-- The transaction hashes that a trace goes through, one a row. -/
def TraceTable.hashes (trace : TraceTable) : List Words := trace.rows.map Row.txWords

/-- The state that hashing transactions into a state one after another leads to. -/
def chain (state : Words) (hashes : List Words) : Words := hashes.foldl hashWords state

/-- A row ends in the hash of its state and its transaction. The constraints
ask this of a row that has another one behind it. -/
def Hashed (row : Row) : Prop := row.final = hashWords row.start row.txWords

theorem Follows.start_eq {current next : Row} (h : Follows current next) :
    next.start = hashWords current.start current.txWords := by
  funext i
  exact (h.state i).trans (h.hash i)

/-- Through rows in sequence the chain leads to the hash of the last row, by
induction on the rows: each starts where the chain up to it has led. -/
theorem chain_of_isChain {first : Row} {rest : List Row} (h : (first :: rest).IsChain Follows) :
    let last := (first :: rest).getLast (cons_ne_nil _ _)
    chain first.start ((first :: rest).map Row.txWords) = hashWords last.start last.txWords := by
  induction rest generalizing first with
  | nil => rfl
  | cons second rest ih =>
    obtain ⟨hfollows, hrest⟩ := isChain_cons_cons.mp h
    have hchain := ih hrest
    rw [hfollows.start_eq] at hchain
    exact hchain

theorem TraceTable.rows_ne_nil (trace : TraceTable) : trace.rows ≠ [] := by
  intro hnil
  have hlength := trace.eight_le
  rw [hnil] at hlength
  exact absurd hlength (by decide)

/-- The last row of a trace. -/
def TraceTable.last (trace : TraceTable) : Row := trace.rows.getLast trace.rows_ne_nil

variable {trace : TraceTable} {inputs : StateTransitionPublicInputs}

/-- The hashes of a trace that satisfies the circuit lead from the previous
state to the hash of its last row. -/
theorem Satisfies.chain_eq (h : Satisfies trace inputs) :
    chain inputs.prevState trace.hashes = hashWords trace.last.start trace.last.txWords := by
  obtain ⟨hchain, hassert⟩ := (satisfies_iff _ _).mp h
  obtain ⟨⟨hstart, -⟩, -⟩ := (assertions_iff ..).mp hassert
  unfold TraceTable.hashes TraceTable.last
  obtain ⟨first, rest, hrows⟩ := exists_cons_of_ne_nil trace.rows_ne_nil
  have hprev : inputs.prevState = first.start := by
    funext i
    obtain ⟨row, hrow, hvalue⟩ := hstart i
    rw [hrows] at hrow
    obtain rfl := Option.some.inj hrow
    exact hvalue.symm
  simp only [hrows] at hchain ⊢
  rw [hprev]
  exact chain_of_isChain hchain

theorem Satisfies.final_eq (h : Satisfies trace inputs) : trace.last.final = inputs.newState := by
  obtain ⟨-, hassert⟩ := (satisfies_iff _ _).mp h
  obtain ⟨-, hend, -⟩ := (assertions_iff ..).mp hassert
  funext i
  obtain ⟨row, hrow, hvalue⟩ := hend i
  have hlast : trace.rows.getLast? = some row := getLast?_eq_getElem?.trans hrow
  rw [getLast?_eq_some_getLast trace.rows_ne_nil] at hlast
  obtain rfl := Option.some.inj hlast
  exact hvalue

/-- The transaction hashes of a trace that satisfies the circuit lead from
the previous state to the new one if and only if the last row, on which no
constraint is laid, ends in the hash of its own state and transaction. -/
theorem trace_linked_iff (trace : TraceTable) (inputs : StateTransitionPublicInputs)
    (h : Satisfies trace inputs) :
    chain inputs.prevState trace.hashes = inputs.newState ↔ Hashed trace.last := by
  rw [h.chain_eq, ← h.final_eq]
  exact eq_comm

/-! ## A trace with a free end -/

/-- An initial step and six transactions. -/
def idleSteps : List TraceStep := ⟨0, 0, .state⟩ :: List.replicate 6 ⟨0, 0, .transaction⟩

/-- A last row, with the state the public inputs ask for behind it. -/
def endRow (newState state : Words) (merkleAcc : BaseElement) : Row
  | .nextState i => newState i
  | .opType => OP_FINALIZE
  | column => stepRow 7 state merkleAcc ⟨0, 0, .transaction⟩ column

/-- Seven rows of an execution from the previous state and a last row that
says whatever new state the public inputs ask for. -/
def freeTrace (inputs : StateTransitionPublicInputs) : TraceTable where
  rows := fillSteps 0 inputs.prevState 0 idleSteps ++
    [endRow inputs.newState (stateAfter inputs.prevState idleSteps) (accAfter 0 idleSteps)]
  isPowerOfTwo := ⟨3, by rw [length_append, length_fillSteps]; rfl⟩
  eight_le := by
    rw [length_append, length_fillSteps]
    exact Nat.le_refl 8

theorem satisfies_freeTrace (inputs : StateTransitionPublicInputs) :
    Satisfies (freeTrace inputs) inputs := by
  refine (satisfies_iff _ _).mpr ⟨?_, ?_⟩
  · refine (isChain_fillSteps_append _ (cons_ne_nil _ _) _ _ _ _ _).mpr ⟨?_, .singleton _⟩
    exact ⟨fun _ => rfl, rfl, rfl⟩
  · have hlast : (freeTrace inputs).rows.length - 1 = 7 := by
      rw [freeTrace, length_append, length_fillSteps]
      rfl
    rw [assertions_iff, hlast]
    exact ⟨⟨fun _ => ⟨_, rfl, rfl⟩, ⟨_, rfl, by simp [stepRow]⟩, ⟨_, rfl, rfl⟩, ⟨_, rfl, rfl⟩,
      ⟨_, rfl, rfl⟩⟩, fun _ => ⟨_, rfl, rfl⟩, ⟨_, rfl, rfl⟩, ⟨_, rfl, rfl⟩⟩

/-- From the state of zeros to the state of zeros. -/
def zeroInputs : StateTransitionPublicInputs := ⟨0, 0, 0, 0, 8⟩

/-- From the state of zeros to the one that eight empty transactions lead to. -/
def honestInputs : StateTransitionPublicInputs :=
  { zeroInputs with newState := chain 0 (List.replicate 8 0) }

theorem freeTrace_not_linked : Satisfies (freeTrace zeroInputs) zeroInputs ∧
    chain zeroInputs.prevState (freeTrace zeroInputs).hashes ≠ zeroInputs.newState := by
  refine ⟨satisfies_freeTrace _, fun h => ?_⟩
  have hword := congrFun h 0
  revert hword
  decide +kernel

theorem honestTrace_linked : Hashed (freeTrace honestInputs).last ∧
    chain honestInputs.prevState (freeTrace honestInputs).hashes = honestInputs.newState := by
  have hlast : Hashed (freeTrace honestInputs).last := by
    unfold Hashed
    decide +kernel
  exact ⟨hlast, (trace_linked_iff _ _ (satisfies_freeTrace _)).mpr hlast⟩

end StateTransition

end Quantos

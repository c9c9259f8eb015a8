import Mathlib.Tactic.NormNum.NatLog
import Quantos.Panics
import Quantos.StateTransitionAir

/-!
# Traces of transactions

`build_state_transition_trace` and `build_winterfell_trace` of `zk/mod.rs`:
an initial step with the previous root, a step for each transaction and a
final step with the new root, turned into rows and padded to a power of two
with copies of the last row. Then `get_pub_inputs`, which reads the public
inputs off the table, and the conversion by which the verifier gets them from
the statement.

The rows of the steps are in sequence. The padding is not: it repeats the
state of the last row, so table and inputs fit only where that state is a
fixed point of the hash (`satisfies_txTable_iff`), and the two public inputs
never agree: one has the length of the table as the number of transactions,
the other has more rows than transactions (`pubInputs_ne`).

`generate_winterfell_proof`, which every proof of the prover goes through, has
the library prove the circuit over the table. The library is a parameter up to
one check it makes itself: the number of assertions a circuit declares must be
the number it then returns. `StateTransitionAir::new` declares 12,
`get_assertions` returns 14, and the library panics at the difference. So there
is no trace for which a proof is made (`not_returns_generateWinterfellProof`):
the call ends in an error over the length of the table, or in a panic.
-/

namespace Quantos

open List Nat

open StarkBatch (BaseElement fieldModulus)

inductive ZkError where
  | traceGenerationFailed (reason : String)
  | proofGenerationFailed (reason : String)
  | verificationFailed (reason : String)
  | deserializationError (reason : String)
  | emptyProofList
  | invalidProofFormat

/-- The text of an error (`Display`). -/
def ZkError.text : ZkError → String
  | .traceGenerationFailed reason => "Trace generation failed: " ++ reason
  | .proofGenerationFailed reason => "Proof generation failed: " ++ reason
  | .verificationFailed reason => "Proof verification failed: " ++ reason
  | .deserializationError reason => "Deserialization error: " ++ reason
  | .emptyProofList => "Cannot aggregate empty proof list"
  | .invalidProofFormat => "Invalid proof format"

structure ZkConfig where
  maxTraceLength : Nat

def ZkConfig.default : ZkConfig := ⟨2 ^ 20⟩

namespace StateTransition

/-! ## The execution trace -/

structure ExecutionTrace where
  steps : List TraceStep
  maxLength : Nat

namespace ExecutionTrace

def new (maxLength : Nat) : ExecutionTrace := ⟨[], maxLength⟩

/-- A step of any kind. The four kinds differ in the text of the error. -/
def addStep (text : String) (opType : TraceOpType) (trace : ExecutionTrace) (hash : Hash)
    (index : UInt64) : Except ZkError ExecutionTrace :=
  if trace.steps.length ≥ trace.maxLength then
    .error (.traceGenerationFailed (text ++ toString index ++ ": max length "
      ++ toString trace.maxLength ++ " exceeded"))
  else .ok { trace with steps := trace.steps ++ [⟨index, hash, opType⟩] }

def addStateStep (trace : ExecutionTrace) (stateRoot : Hash) (index : UInt64) :
    Except ZkError ExecutionTrace :=
  trace.addStep "Trace truncated at step " .state stateRoot index

def addTransactionStep (trace : ExecutionTrace) (tx : SignedTransaction) (index : UInt64) :
    Except ZkError ExecutionTrace :=
  trace.addStep "Transaction step truncated at index " .transaction tx.hash index

def addHashStep (trace : ExecutionTrace) (hash : Hash) (index : UInt64) :
    Except ZkError ExecutionTrace :=
  trace.addStep "Hash step truncated at index " .hash hash index

def addMerkleStep (trace : ExecutionTrace) (sibling : Hash) (index : UInt64) :
    Except ZkError ExecutionTrace :=
  trace.addStep "Merkle step truncated at index " .merkle sibling index

end ExecutionTrace

/-- The loop over the transactions, the first at position `i`. -/
def addTransactions (trace : ExecutionTrace) (i : Nat) :
    List SignedTransaction → Except ZkError ExecutionTrace
  | [] => .ok trace
  | tx :: txs =>
    match trace.addTransactionStep tx (UInt64.ofNat (i + 1)) with
    | .error e => .error e
    | .ok trace => addTransactions trace (i + 1) txs

variable (n : Nat) (lastRow : Row) (newState : Words) (start count : Nat) (steps : List TraceStep)
  (inputs : StateTransitionInputs)

def buildStateTransitionTrace (config : ZkConfig) (transactions : List SignedTransaction)
    (inputs : StateTransitionInputs) : Except ZkError ExecutionTrace := do
  let trace ← (ExecutionTrace.new config.maxTraceLength).addStateStep inputs.prevStateRoot 0
  let trace ← addTransactions trace 0 transactions
  trace.addStateStep inputs.newStateRoot (UInt64.ofNat (transactions.length + 1))

/-! ## The table -/

/-- `len().next_power_of_two().max(8)`; the length of a vector is far from
the end of its type. -/
def paddedLength : Nat := max (2 ^ Nat.clog 2 n) 8

/-- A copy of the last row, with its own counter and the final state. -/
def padRow (row : Nat) : Row
  | .stepCounter => row
  | .nextState i => newState i
  | .opType => OP_FINALIZE
  | column => lastRow column

def padRows : List Row :=
  (List.range count).map fun k => padRow lastRow newState (start + k)

def tableRows : List Row :=
  let rows := fillSteps 0 (hashToFieldElements inputs.prevStateRoot) 0 steps
  rows ++ padRows (rows.getLastD fun _ => 0) (hashToFieldElements inputs.newStateRoot)
    steps.length (paddedLength steps.length - steps.length)

theorem isPowerOfTwo_paddedLength : (paddedLength n).isPowerOfTwo := by
  unfold paddedLength
  rcases le_total (2 ^ Nat.clog 2 n) 8 with h | h
  · rw [max_eq_right h]
    exact ⟨3, rfl⟩
  · rw [max_eq_left h]
    exact ⟨_, rfl⟩

theorem le_paddedLength : n ≤ paddedLength n :=
  le_trans (le_pow_clog one_lt_two n) (le_max_left _ _)

theorem length_padRows : (padRows lastRow newState start count).length = count := by
  rw [padRows, length_map, length_range]

theorem padRows_succ : padRows lastRow newState start (count + 1)
      = padRow lastRow newState start :: padRows lastRow newState (start + 1) count := by
  rw [padRows, range_succ_eq_map, map_cons, map_map, padRows]
  congr 1
  refine map_congr_left fun k _ => ?_
  rw [Function.comp_apply, add_assoc, add_comm 1 k]

theorem length_tableRows : (tableRows steps inputs).length = paddedLength steps.length := by
  rw [tableRows, length_append, length_fillSteps, length_padRows]
  exact Nat.add_sub_cancel' (le_paddedLength _)

def table : TraceTable where
  rows := tableRows steps inputs
  isPowerOfTwo := by
    rw [length_tableRows]
    exact isPowerOfTwo_paddedLength _
  eight_le := by
    rw [length_tableRows]
    exact le_max_right _ _

def buildWinterfellTrace (config : ZkConfig) (trace : ExecutionTrace)
    (inputs : StateTransitionInputs) : Except ZkError TraceTable :=
  let traceLen := paddedLength trace.steps.length
  if traceLen > config.maxTraceLength then
    .error (.traceGenerationFailed ("Padded trace length " ++ toString traceLen ++ " exceeds max "
      ++ toString config.maxTraceLength))
  else .ok (table trace.steps inputs)

variable {trace : ExecutionTrace} {inputs : StateTransitionInputs} {config : ZkConfig}

theorem buildWinterfellTrace_ok (h : paddedLength trace.steps.length ≤ config.maxTraceLength) :
    buildWinterfellTrace config trace inputs = .ok (table trace.steps inputs) := by
  exact if_neg (not_lt.mpr h)

/-! ## Public inputs -/

section

variable (trace : TraceTable) (transactions : List SignedTransaction)
  (inputs : StateTransitionInputs)

def TraceTable.get (column : Column) (row : Nat) : BaseElement :=
  trace.rows.getD row (fun _ => 0) column

/-- The columns of the state, not those of the state after it, give the new
state, and the length of the table is the number of transactions. -/
def getPubInputs : StateTransitionPublicInputs :=
  let traceLen := trace.rows.length
  { prevState := fun i => trace.get (.stateRoot i) 0
    newState := fun i => trace.get (.stateRoot i) (traceLen - 1)
    txRoot := fun i => trace.get (.txHash i) (traceLen - 1)
    txCount := UInt64.ofNat traceLen
    traceLength := traceLen }

/-- `usize::next_power_of_two`, which gives 0 where it does not fit. -/
def nextPowerOfTwo (n : Nat) : Nat :=
  if 2 ^ Nat.clog 2 n < 2 ^ 64 then 2 ^ Nat.clog 2 n else 0

/-- `From<&StateTransitionInputs>`. -/
def StateTransitionPublicInputs.ofInputs : StateTransitionPublicInputs where
  prevState := hashToFieldElements inputs.prevStateRoot
  newState := hashToFieldElements inputs.newStateRoot
  txRoot := hashToFieldElements inputs.txRoot
  txCount := inputs.txCount
  traceLength := max (nextPowerOfTwo ((inputs.txCount.toNat + 2) % 2 ^ 64)) 8

/-- What the verifier of the library is given of the public inputs. -/
def StateTransitionPublicInputs.toElements (inputs : StateTransitionPublicInputs) :
    List BaseElement :=
  List.ofFn inputs.prevState ++ List.ofFn inputs.newState ++ List.ofFn inputs.txRoot
    ++ [(inputs.txCount.toNat : BaseElement)]
    ++ [((inputs.traceLength % 2 ^ 64 : Nat) : BaseElement)]

/-- For the inputs read off it, a table whose first and last row are as they
should be fits its assertions where the last step leads to its own state. -/
theorem assertions_own_iff {trace : TraceTable} {first last : Row}
    (hfirst : trace.rows[0]? = some first) (hlast : trace.rows[trace.rows.length - 1]? = some last)
    (hstart : first .stepCounter = 0 ∧ first .opType = OP_INIT ∧ first .merkleAcc = 0 ∧
      first .validFlag = 1) (hend : last .opType = OP_FINALIZE ∧ last .validFlag = 1) :
    (∀ a ∈ getAssertions trace.rows.length (getPubInputs trace),
      ∃ row, trace.rows[a.row]? = some row ∧ row a.column = a.value) ↔
    ∀ i, last (.nextState i) = last (.stateRoot i) := by
  have hget : ∀ {row column values}, trace.rows[row]? = some values →
      trace.get column row = values column := by
    intro row column values h
    rw [TraceTable.get, getD_eq_getElem?_getD, h]
    rfl
  simp only [assertions_iff, hfirst, hlast, Option.some.injEq, exists_eq_left', getPubInputs,
    hget hfirst, hget hlast, hstart, hend, implies_true, and_self, and_true, true_and]

/-! ## The two public inputs -/

/-- No table has as many rows as the statement asks for and as many as it has
transactions. -/
theorem pubInputs_ne : getPubInputs trace ≠ .ofInputs inputs := by
  intro heq
  have hlength : trace.rows.length = max (nextPowerOfTwo ((inputs.txCount.toNat + 2) % 2 ^ 64)) 8 :=
    congrArg StateTransitionPublicInputs.traceLength heq
  have hcount : UInt64.ofNat trace.rows.length = inputs.txCount :=
    congrArg StateTransitionPublicInputs.txCount heq
  have hlt : trace.rows.length < 2 ^ 64 := by
    rw [hlength, nextPowerOfTwo]
    split <;> omega
  have htxs : inputs.txCount.toNat = trace.rows.length := by
    rw [← hcount, UInt64.toNat_ofNat', mod_eq_of_lt hlt]
  by_cases hwrap : inputs.txCount.toNat + 2 < 2 ^ 64
  · rw [mod_eq_of_lt hwrap, htxs] at hlength
    have hclog := le_pow_clog one_lt_two (trace.rows.length + 2)
    rw [nextPowerOfTwo] at hlength
    split at hlength
    · omega
    rename_i hlarge
    have hten : trace.rows.length = 8 := by omega
    rw [hten] at hlarge
    exact hlarge (by decide)
  · have hsmall : nextPowerOfTwo ((inputs.txCount.toNat + 2) % 2 ^ 64) ≤ 1 := by
      have hrest : (inputs.txCount.toNat + 2) % 2 ^ 64 ≤ 1 := by
        omega
      rw [nextPowerOfTwo, clog_of_right_le_one hrest]
      decide
    omega

/-! ## The steps of a list of transactions -/

/-- The initial step and those of the transactions. -/
def stepsBefore : List TraceStep :=
  ⟨0, inputs.prevStateRoot, .state⟩ :: transactions.mapIdx fun i tx =>
    ⟨UInt64.ofNat (i + 1), tx.hash, .transaction⟩

def finalStep : TraceStep :=
  ⟨UInt64.ofNat (transactions.length + 1), inputs.newStateRoot, .state⟩

/-- All steps of the trace. -/
def allSteps : List TraceStep :=
  stepsBefore transactions inputs ++ [finalStep transactions inputs]

end

variable {trace' : ExecutionTrace}

theorem steps_of_addStep {text : String} {opType : TraceOpType} {hash : Hash} {index : UInt64}
    (h : trace.addStep text opType hash index = .ok trace') :
    trace'.steps = trace.steps ++ [⟨index, hash, opType⟩] := by
  unfold ExecutionTrace.addStep at h
  split at h
  · cases h
  · cases h
    rfl

theorem steps_of_addTransactions {i : Nat} {txs : List SignedTransaction}
    (h : addTransactions trace i txs = .ok trace') :
    trace'.steps = trace.steps ++ txs.mapIdx fun k tx =>
      ⟨UInt64.ofNat (i + k + 1), tx.hash, .transaction⟩ := by
  induction txs generalizing trace i with
  | nil =>
    cases h
    exact (append_nil _).symm
  | cons tx txs ih =>
    unfold addTransactions at h
    split at h
    · cases h
    rename_i trace₁ hadd
    rw [ih h, steps_of_addStep hadd, append_assoc, singleton_append, mapIdx_cons]
    simp only [add_assoc, add_comm 1, add_zero]

theorem steps_of_buildStateTransitionTrace {transactions : List SignedTransaction}
    (h : buildStateTransitionTrace config transactions inputs = .ok trace) :
    trace.steps = allSteps transactions inputs := by
  simp only [buildStateTransitionTrace, bind, Except.bind] at h
  split at h
  · cases h
  rename_i trace₁ hfirst
  split at h
  · cases h
  rename_i trace₂ htxs
  rw [steps_of_addStep h, steps_of_addTransactions htxs, steps_of_addStep hfirst]
  simp only [ExecutionTrace.new, nil_append, singleton_append, zero_add,
    allSteps, stepsBefore, finalStep]

/-! ## Where the table ends -/

section

variable (transactions : List SignedTransaction) (inputs : StateTransitionInputs)

/-- The state in the row of the final step. -/
def lastState : Words :=
  stateAfter (hashToFieldElements inputs.prevStateRoot) (stepsBefore transactions inputs)

def lastAcc : BaseElement :=
  accAfter 0 (stepsBefore transactions inputs)

/-- Without padding, hashing the new root into the last state leaves it as it
is. With padding, the last state is the new root, a fixed point of its own
hash, and the accumulator is a fixed point as well. -/
def EndsInPlace : Prop :=
  let newState := hashToFieldElements inputs.newStateRoot
  let state := lastState transactions inputs
  let acc := lastAcc transactions inputs
  if paddedLength (transactions.length + 2) = transactions.length + 2 then
    hashWords state newState = state
  else
    state = newState ∧ hashWords newState newState = newState ∧
      accAfter acc [finalStep transactions inputs] = acc

/-- The row of the final step. -/
def lastStepRow : Row :=
  stepRow (transactions.length + 1) (lastState transactions inputs) (lastAcc transactions inputs)
    (finalStep transactions inputs)

theorem length_stepsBefore :
    (stepsBefore transactions inputs).length = transactions.length + 1 := by
  rw [stepsBefore, length_cons, length_mapIdx]

theorem length_allSteps : (allSteps transactions inputs).length = transactions.length + 2 := by
  rw [allSteps, length_append, length_stepsBefore]
  rfl

theorem fillSteps_allSteps :
    fillSteps 0 (hashToFieldElements inputs.prevStateRoot) 0 (allSteps transactions inputs)
      = fillSteps 0 (hashToFieldElements inputs.prevStateRoot) 0 (stepsBefore transactions inputs)
        ++ [lastStepRow transactions inputs] := by
  rw [allSteps, fillSteps_concat, length_stepsBefore, zero_add]
  rfl

/-- A copy of the last row, in row `row` of the padding. -/
def copyRow (row : Nat) : Row :=
  padRow (lastStepRow transactions inputs) (hashToFieldElements inputs.newStateRoot) row

theorem tableRows_eq : tableRows (allSteps transactions inputs) inputs
      = fillSteps 0 (hashToFieldElements inputs.prevStateRoot) 0 (allSteps transactions inputs) ++
        padRows (lastStepRow transactions inputs) (hashToFieldElements inputs.newStateRoot)
          (transactions.length + 2)
          (paddedLength (transactions.length + 2) - (transactions.length + 2)) := by
  rw [tableRows, length_allSteps, fillSteps_allSteps, getLastD_concat]

theorem stateAfter_steps :
    stateAfter (hashToFieldElements inputs.prevStateRoot) (allSteps transactions inputs)
      = hashWords (lastState transactions inputs) (hashToFieldElements inputs.newStateRoot) :=
  foldl_append

theorem accAfter_steps : accAfter 0 (allSteps transactions inputs)
      = algebraicHash (lastAcc transactions inputs) (hashToFieldElements inputs.newStateRoot 0) 0 :=
  foldl_append

theorem first_tableRows : ∃ rest, tableRows (allSteps transactions inputs) inputs
      = stepRow 0 (hashToFieldElements inputs.prevStateRoot) 0 ⟨0, inputs.prevStateRoot, .state⟩
        :: rest := by
  rw [tableRows_eq, allSteps, stepsBefore, cons_append, fillSteps, cons_append]
  exact ⟨_, rfl⟩

theorem last_tableRows : (tableRows (allSteps transactions inputs) inputs)[
      paddedLength (transactions.length + 2) - 1]? = some
        (if paddedLength (transactions.length + 2) = transactions.length + 2 then
          lastStepRow transactions inputs
        else copyRow transactions inputs (paddedLength (transactions.length + 2) - 1)) := by
  have hle := le_paddedLength (transactions.length + 2)
  have hfill : (fillSteps 0 (hashToFieldElements inputs.prevStateRoot) 0
      (allSteps transactions inputs)).length = transactions.length + 2 := by
    rw [length_fillSteps, length_allSteps]
  rw [tableRows_eq]
  split
  · have hindex : paddedLength (transactions.length + 2) - 1
        = (fillSteps 0 (hashToFieldElements inputs.prevStateRoot) 0
          (stepsBefore transactions inputs)).length := by
      rw [length_fillSteps, length_stepsBefore]
      omega
    rw [getElem?_append_left (by omega), fillSteps_allSteps, hindex, getElem?_concat_length]
  · rw [getElem?_append_right (by omega), hfill, padRows, getElem?_map, getElem?_range (by omega)]
    have hindex : transactions.length + 2
        + (paddedLength (transactions.length + 2) - 1 - (transactions.length + 2))
        = paddedLength (transactions.length + 2) - 1 := by omega
    simp only [Option.map_some, hindex]
    rfl

/-- Two rows of padding are in sequence where nothing moves. -/
theorem follows_copyRow_iff (row : Nat) :
    Follows (copyRow transactions inputs row) (copyRow transactions inputs (row + 1)) ↔
    lastState transactions inputs = hashToFieldElements inputs.newStateRoot ∧
      hashWords (lastState transactions inputs) (hashToFieldElements inputs.newStateRoot)
        = hashToFieldElements inputs.newStateRoot ∧
      algebraicHash (lastAcc transactions inputs) (hashToFieldElements inputs.newStateRoot 0) 0
        = lastAcc transactions inputs := by
  constructor
  · intro h
    exact ⟨funext h.state, funext fun i => (h.hash i).symm, h.acc.symm⟩
  · rintro ⟨hstate, hhash, hacc⟩
    exact ⟨congrFun hstate, fun i => (congrFun hhash i).symm, cast_succ row,
      .inr (.inr rfl), hacc.symm, rfl⟩

theorem startsAt_copyRow_iff : StartsAt
      (stateAfter (hashToFieldElements inputs.prevStateRoot) (allSteps transactions inputs))
      (accAfter 0 (allSteps transactions inputs)) (transactions.length + 2)
      (copyRow transactions inputs (transactions.length + 2)) ↔
    hashWords (lastState transactions inputs) (hashToFieldElements inputs.newStateRoot)
        = lastState transactions inputs ∧
      algebraicHash (lastAcc transactions inputs) (hashToFieldElements inputs.newStateRoot 0) 0
        = lastAcc transactions inputs := by
  rw [stateAfter_steps, accAfter_steps]
  constructor
  · intro h
    exact ⟨funext fun i => (h.state i).symm, h.acc.symm⟩
  · rintro ⟨hstate, hacc⟩
    exact ⟨fun i => (congrFun hstate i).symm, rfl, hacc.symm⟩

/-- The rows are in sequence: always without padding, and with it if the
final step leads to the first copy and each copy to the next. -/
theorem isChain_tableRows_iff
    (hstate : lastState transactions inputs = hashToFieldElements inputs.newStateRoot ∨
      paddedLength (transactions.length + 2) = transactions.length + 2) :
    (tableRows (allSteps transactions inputs) inputs).IsChain Follows ↔
    (paddedLength (transactions.length + 2) = transactions.length + 2 ∨
      (hashWords (lastState transactions inputs) (hashToFieldElements inputs.newStateRoot)
          = lastState transactions inputs ∧ algebraicHash (lastAcc transactions inputs)
          (hashToFieldElements inputs.newStateRoot 0) 0 = lastAcc transactions inputs)) := by
  have hle := le_paddedLength (transactions.length + 2)
  rw [tableRows_eq]
  by_cases heq : paddedLength (transactions.length + 2) = transactions.length + 2
  · rw [heq, Nat.sub_self, padRows, range_zero, map_nil, append_nil]
    exact iff_of_true (isChain_fillSteps ..) (.inl rfl)
  obtain ⟨count, hcount⟩ : ∃ count,
      paddedLength (transactions.length + 2) - (transactions.length + 2) = count + 1 :=
    ⟨paddedLength (transactions.length + 2) - (transactions.length + 2) - 1, by omega⟩
  rw [hcount, padRows_succ, isChain_fillSteps_append _ (by simp [allSteps]), zero_add,
    length_allSteps, ← copyRow, startsAt_copyRow_iff, or_iff_right heq, copyRow, ← padRows_succ]
  refine and_iff_left_of_imp fun ⟨hhash, hacc⟩ => ?_
  have hnew := hstate.resolve_right heq
  rw [padRows, isChain_map]
  refine isChain_iff_getElem.mpr fun k hk => ?_
  rw [getElem_range, getElem_range, ← add_assoc, ← copyRow, ← copyRow, follows_copyRow_iff]
  exact ⟨hnew, hhash.trans hnew, hacc⟩

/-- The table of a list of transactions. -/
def txTable : TraceTable :=
  table (allSteps transactions inputs) inputs

theorem length_txTable :
    (txTable transactions inputs).rows.length = paddedLength (transactions.length + 2) := by
  rw [txTable, table, length_tableRows, length_allSteps]

theorem rows_txTable : (txTable transactions inputs).rows
    = tableRows (allSteps transactions inputs) inputs := rfl

/-- The last row fits its assertions where the state behind it is its own. -/
theorem assertions_txTable_iff : (∀ a ∈ getAssertions (txTable transactions inputs).rows.length
        (getPubInputs (txTable transactions inputs)),
      ∃ row, (txTable transactions inputs).rows[a.row]? = some row ∧ row a.column = a.value) ↔
    (if paddedLength (transactions.length + 2) = transactions.length + 2 then
      hashWords (lastState transactions inputs) (hashToFieldElements inputs.newStateRoot)
    else hashToFieldElements inputs.newStateRoot) = lastState transactions inputs := by
  obtain ⟨_, hrows⟩ := first_tableRows transactions inputs
  have hfirst : (txTable transactions inputs).rows[0]? = some (stepRow 0
      (hashToFieldElements inputs.prevStateRoot) 0 ⟨0, inputs.prevStateRoot, .state⟩) := by
    rw [rows_txTable, hrows]
    rfl
  have hlast := last_tableRows transactions inputs
  rw [← rows_txTable, ← length_txTable] at hlast
  rw [assertions_own_iff hfirst hlast ⟨by simp [stepRow], rfl, rfl, rfl⟩]
  · constructor
    · intro h
      funext i
      have hi := h i
      split at hi <;> rename_i hpad
      · rw [if_pos (length_txTable transactions inputs ▸ hpad)]
        exact hi
      · rw [if_neg (length_txTable transactions inputs ▸ hpad)]
        exact hi
    · intro h i
      have hi := congrFun h i
      split at hi <;> rename_i hpad
      · rw [length_txTable, if_pos hpad]
        exact hi
      · rw [length_txTable, if_neg hpad]
        exact hi
  · split <;> exact ⟨rfl, rfl⟩

theorem satisfies_txTable_iff :
    Satisfies (txTable transactions inputs) (getPubInputs (txTable transactions inputs)) ↔
      EndsInPlace transactions inputs := by
  rw [satisfies_iff, assertions_txTable_iff, rows_txTable, EndsInPlace]
  by_cases hpad : paddedLength (transactions.length + 2) = transactions.length + 2
  · rw [if_pos hpad, if_pos hpad]
    exact and_iff_right
      ((isChain_tableRows_iff transactions inputs (.inr hpad)).mpr (.inl hpad))
  rw [if_neg hpad, if_neg hpad]
  constructor
  · rintro ⟨hchain, hnew⟩
    obtain ⟨hhash, hacc⟩ := ((isChain_tableRows_iff transactions inputs
      (.inl hnew.symm)).mp hchain).resolve_left hpad
    rw [← hnew] at hhash
    exact ⟨hnew.symm, hhash, hacc⟩
  · rintro ⟨hnew, hhash, hacc⟩
    refine ⟨(isChain_tableRows_iff transactions inputs (.inl hnew)).mpr (.inr ?_), hnew.symm⟩
    rw [hnew]
    exact ⟨hhash, hacc⟩

end

/-- Table and public inputs of an honest prover: the table satisfies the
circuit for the inputs read off it exactly where the execution ends in place,
and these are never the inputs the verifier uses. -/
theorem honest_table_iff (config : ZkConfig) (transactions : List SignedTransaction)
    (inputs : StateTransitionInputs) (trace : ExecutionTrace) (table : TraceTable)
    (htrace : buildStateTransitionTrace config transactions inputs = .ok trace)
    (htable : buildWinterfellTrace config trace inputs = .ok table) :
    (Satisfies table (getPubInputs table) ↔ EndsInPlace transactions inputs) ∧
      getPubInputs table ≠ .ofInputs inputs := by
  have heq : table = txTable transactions inputs := by
    unfold buildWinterfellTrace at htable
    dsimp only at htable
    split at htable
    · cases htable
    cases htable
    rw [steps_of_buildStateTransitionTrace htrace]
    rfl
  rw [heq]
  exact ⟨satisfies_txTable_iff .., pubInputs_ne _ _⟩

/-- From root 1 to root 2 by one transaction. -/
def oneTransaction : StateTransitionInputs := ⟨1, 2, 3, 1, 0, 0⟩

theorem built_oneTransaction : ∃ trace table,
      buildStateTransitionTrace .default [sampleTx .transfer 1 2 5 0] oneTransaction = .ok trace ∧
      buildWinterfellTrace .default trace oneTransaction = .ok table ∧
      table = txTable [sampleTx .transfer 1 2 5 0] oneTransaction := by
  have hlength : paddedLength 3 ≤ 2 ^ 20 := by norm_num [paddedLength]
  exact ⟨⟨stepsBefore [sampleTx .transfer 1 2 5 0] oneTransaction
      ++ [finalStep [sampleTx .transfer 1 2 5 0] oneTransaction], 2 ^ 20⟩, _, rfl,
    buildWinterfellTrace_ok hlength, rfl⟩

/-- One transaction makes three rows and five of padding, which do not fit. -/
theorem honest_table_rejected : ∃ trace table,
      buildStateTransitionTrace .default [sampleTx .transfer 1 2 5 0] oneTransaction = .ok trace ∧
      buildWinterfellTrace .default trace oneTransaction = .ok table ∧
      ¬ Satisfies table (getPubInputs table) ∧ getPubInputs table ≠ .ofInputs oneTransaction := by
  obtain ⟨trace, table, htrace, htable, rfl⟩ := built_oneTransaction
  refine ⟨trace, _, htrace, htable, fun h => ?_, pubInputs_ne _ _⟩
  rw [satisfies_txTable_iff, EndsInPlace] at h
  have hpad : paddedLength ([sampleTx .transfer 1 2 5 0].length + 2)
      ≠ [sampleTx .transfer 1 2 5 0].length + 2 := by
    norm_num [paddedLength]
  rw [if_neg hpad] at h
  exact absurd (congrFun h.1 0) (by decide)

theorem oneTransaction_iff : ∃ trace table,
      buildStateTransitionTrace .default [sampleTx .transfer 1 2 5 0] oneTransaction = .ok trace ∧
      buildWinterfellTrace .default trace oneTransaction = .ok table ∧
      (Satisfies table (getPubInputs table) ↔
        EndsInPlace [sampleTx .transfer 1 2 5 0] oneTransaction) ∧
      getPubInputs table ≠ .ofInputs oneTransaction := by
  obtain ⟨trace, table, htrace, htable, -⟩ := built_oneTransaction
  exact ⟨trace, table, htrace, htable, honest_table_iff .default [sampleTx .transfer 1 2 5 0]
    oneTransaction trace table htrace htable⟩

end StateTransition

/-! ## The prover -/

namespace Zk

open Panics StateTransition

/-- `isize::MAX`, which no vector of bytes exceeds. -/
def ISIZE_MAX : Nat := 2 ^ 63 - 1

/-- What the prover calls out to. A proof of the library is shorter than the
longest vector by the header that the callers put in front of it. -/
structure StarkLibrary where
  hashData : Bytes → Hash
  /-- `prove` and `to_bytes` behind the library's checks of the circuit, with
  the text of the error. -/
  prove : TraceTable → Except String Bytes
  proof_le : ∀ {table bytes}, prove table = .ok bytes → 68 + bytes.length ≤ ISIZE_MAX

/-- The bytes that the library can make of a trace. -/
abbrev ProofBytes := { bytes : Bytes // 68 + bytes.length ≤ ISIZE_MAX }

/-- The number of assertions that `StateTransitionAir::new` gives to its
context. -/
def NUM_ASSERTIONS : Nat := 12

variable (lib : StarkLibrary) (config : ZkConfig) (trace : ExecutionTrace)
  (inputs : StateTransitionInputs) (table : TraceTable)

/-- `StateTransitionProver::prove`. The library takes the assertions of the
circuit for the public inputs read off the table, and asserts that they are
as many as declared. -/
def proveTable : Call String ProofBytes :=
  if (getAssertions table.rows.length (getPubInputs table)).length ≠ NUM_ASSERTIONS then
    found none
  else
    match h : lib.prove table with
    | .error e => throw e
    | .ok bytes => pure ⟨bytes, lib.proof_le h⟩

def generateWinterfellProof : Call ZkError ProofBytes := do
  let table ← checked (buildWinterfellTrace config trace inputs)
  ExceptT.adapt .proofGenerationFailed (proveTable lib table)

/-! ## No proof is made -/

theorem length_getAssertions (traceLength : Nat) (inputs : StateTransitionPublicInputs) :
    (getAssertions traceLength inputs).length = 14 := rfl

theorem proveTable_eq_none : proveTable lib table = found none := by
  rw [proveTable, if_pos]
  rw [length_getAssertions, NUM_ASSERTIONS]
  decide

theorem not_returns_generateWinterfellProof (bytes : ProofBytes) :
    ¬ Returns (generateWinterfellProof lib config trace inputs) bytes := by
  intro h
  obtain ⟨table, -, hproof⟩ := returns_bind h
  have hreturns := returns_adapt hproof
  rw [proveTable_eq_none] at hreturns
  cases hreturns

end Zk

end Quantos

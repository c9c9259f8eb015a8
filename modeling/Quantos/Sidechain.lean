import Quantos.L0Proof
import Quantos.Fallible

/-!
# Sidechains and their state commitments

The registry of `sidechain/mod.rs`: operators are registered by the creator
of a sidechain and slashed, and commitments to the sidechain's state are
submitted with a list of operator signatures.

A commitment is checked by itself. What counts is the number of entries with
a valid signature, an operator may have any number of them, and nothing asks
whether the height is new or the commitment was there before. So an accepted
commitment has a quorum behind it where the repeated entries are within the
surplus (`quorum_iff_of_submitted`), and the history goes forward where the
submitted commitments do (`forward_iff`).

The addresses of a sidechain's operators are distinct, which
`register_operator` sees to; the order of its list matters to no function.
Verification of a signature is a parameter. The registration of a sidechain
is left out.
-/

namespace Quantos.Sidechains

open List hiding get_of_mem
open Fallible Runs Table

/-- `[u8; 8]`, most significant byte first. -/
abbrev SidechainId := BitVec 64

def idBytes (id : SidechainId) : Bytes := (leBytes 8 id.toNat).reverse

def MAX_COMMITMENTS_PER_SIDECHAIN : Nat := 10000

def MAX_OPERATORS_PER_SIDECHAIN : Nat := 200

def MAX_SLASH_COUNT : UInt32 := 3

/-- A vector that drops its oldest element when it is full. -/
def pushBounded {α : Type} (bound : Nat) (xs : List α) (x : α) : List α :=
  (if xs.length ≥ bound then xs.tail else xs) ++ [x]

inductive SidechainError where
  | notFound (id : SidechainId)
  | sidechainInactive (id : SidechainId)
  | insufficientStake
  | insufficientSignatures (required got : Nat)
  | transferNotFound (id : Hash)
  | disputeWindowActive
  | unauthorized
  | invalidSignature (reason : String)
  | operatorAlreadyRegistered
  | maxOperatorsReached
  | insufficientOperators
  | operatorNotFound
  | assetsNotLocked
  | insufficientLockedAssets
  | arithmeticOverflow
deriving DecidableEq, Repr

structure SidechainConfig where
  id : SidechainId
  minOperatorStake : Amount
  requiredOperators : Nat
  disputeWindow : UInt64
  active : Bool

structure Sidechain where
  config : SidechainConfig
  creator : Address
  stateRoot : Hash
  latestHeight : UInt64

structure SidechainOperator where
  address : Address
  stake : Amount
  publicKey : Bytes
  active : Bool
  slashCount : UInt32

abbrev Operators := Table SidechainOperator.address

structure OperatorSignature where
  operator : Address
  signature : Bytes
deriving DecidableEq

structure StateCommitment where
  height : UInt64
  stateRoot : Hash
  txRoot : Hash
  signatures : List OperatorSignature
  timestamp : UInt64
  l1Block : UInt64
deriving DecidableEq

structure SidechainRegistry where
  sidechains : Table fun s : Sidechain => s.config.id
  operators : Table (Prod.fst : SidechainId × Operators → SidechainId)
  commitments : Table (Prod.fst : SidechainId × List StateCommitment → SidechainId)
  authToken : Hash

variable (verifyMlDsa65 : (publicKey message signature : Bytes) → Bool) (ops : Operators)

def Operators.activeCount : Nat := ops.rows.countP SidechainOperator.active

namespace SidechainRegistry

/-! ## Operators -/

variable (reg : SidechainRegistry) (id : SidechainId)

def checkActivation : SidechainRegistry :=
  match reg.sidechains.get id, reg.operators.get id with
  | some chain, some (_, ops) =>
    if ops.activeCount ≥ chain.config.requiredOperators then
      let chain := { chain with config := { chain.config with active := true } }
      { reg with sidechains := reg.sidechains.put chain }
    else reg
  | _, _ => reg

def consentMessage (operator : Address) : Bytes :=
  asciiBytes ("register_operator:" ++ hexEncode (idBytes id) ++ ":"
    ++ hexEncode (arrayBytes operator))

variable (operator : SidechainOperator)

def checkOperator (caller : Address) (operatorSignature : Bytes) : Except SidechainError Unit :=
  match reg.sidechains.get id with
  | none => .error (.notFound id)
  | some chain =>
    if caller ≠ chain.creator then .error .unauthorized
    else if operatorSignature.isEmpty || operatorSignature.length < 64 then
      .error (.invalidSignature "Operator consent signature required")
    else if !verifyMlDsa65 operator.publicKey (consentMessage id operator.address)
        operatorSignature then
      .error (.invalidSignature "Operator signature verification failed")
    else if operator.stake.toNat < chain.config.minOperatorStake.toNat then
      .error .insufficientStake
    else
      match reg.operators.get id with
      | none => .ok ()
      | some (_, ops) =>
        if ops.rows.any fun o => o.address == operator.address then
          .error .operatorAlreadyRegistered
        else if ops.rows.length ≥ MAX_OPERATORS_PER_SIDECHAIN then .error .maxOperatorsReached
        else .ok ()

def registerOperator (caller : Address) (operatorSignature : Bytes) :
    Outcome SidechainError SidechainRegistry Unit :=
  attempt reg (reg.checkOperator verifyMlDsa65 id operator caller operatorSignature) fun _ =>
    let ops := ((reg.operators.get id).map Prod.snd).getD .empty
    (.ok (), checkActivation { reg with operators := reg.operators.put (id, ops.put operator) } id)

/-- An operator is deactivated by its third slash. -/
def slash : SidechainOperator :=
  { operator with
    slashCount := operator.slashCount + 1
    active := operator.active && operator.slashCount + 1 < MAX_SLASH_COUNT }

def slashOperator (operatorAddress : Address) (authToken : Hash) :
    Outcome SidechainError SidechainRegistry Unit :=
  if reg.authToken ≠ authToken then (.error .unauthorized, reg)
  else
    match reg.operators.get id with
    | none => (.error (.notFound id), reg)
    | some (_, ops) =>
      match ops.get operatorAddress with
      | none => (.error .operatorNotFound, reg)
      | some operator =>
        (.ok (), { reg with operators := reg.operators.put (id, ops.put (slash operator)) })

end SidechainRegistry

/-! ## Commitments -/

def buildCommitmentMessage (id : SidechainId) (c : StateCommitment) : Bytes :=
  idBytes id ++ leBytes 8 c.height.toNat ++ arrayBytes c.stateRoot ++ arrayBytes c.txRoot
    ++ leBytes 8 c.timestamp.toNat ++ leBytes 8 c.l1Block.toNat

variable (message : Bytes) (sigs : List OperatorSignature)

/-- An entry that the loop counts. -/
def countsFor (sig : OperatorSignature) : Bool :=
  match ops.rows.find? fun o => o.address == sig.operator && o.active with
  | some op =>
    !(sig.signature.length < 64) && verifyMlDsa65 op.publicKey message sig.signature
  | none => false

def requiredSigs : Nat := ops.activeCount * 2 / 3 + 1

def validSignatures : Nat :=
  sigs.countP (countsFor verifyMlDsa65 ops message)

/-- The checks of the signatures of a commitment. -/
def checkSignatures (config : SidechainConfig) (ops : Operators) (id : SidechainId)
    (c : StateCommitment) : Except SidechainError Unit :=
  let required := requiredSigs ops
  let valid := validSignatures verifyMlDsa65 ops (buildCommitmentMessage id c) c.signatures
  if ops.rows.isEmpty then .error .insufficientOperators
  else if ops.activeCount < config.requiredOperators then .error .insufficientOperators
  else if c.signatures.length < required then
    .error (.insufficientSignatures required c.signatures.length)
  else if valid < required then .error (.insufficientSignatures required valid)
  else .ok ()

namespace SidechainRegistry

variable (reg : SidechainRegistry)

def checkCommitment (id : SidechainId) (c : StateCommitment) : Except SidechainError Sidechain :=
  match reg.sidechains.get id with
  | none => .error (.notFound id)
  | some chain =>
    match reg.operators.get id with
    | none => .error (.notFound id)
    | some (_, ops) =>
      match checkSignatures verifyMlDsa65 chain.config ops id c with
      | .error e => .error e
      | .ok () => .ok chain

def storeCommitment (chain : Sidechain) (c : StateCommitment) : SidechainRegistry :=
  let id := chain.config.id
  let chain := { chain with stateRoot := c.stateRoot, latestHeight := c.height }
  let commits := ((reg.commitments.get id).map Prod.snd).getD []
  { reg with
    sidechains := reg.sidechains.put chain
    commitments := reg.commitments.put (id, pushBounded MAX_COMMITMENTS_PER_SIDECHAIN commits c) }

def submitCommitment (id : SidechainId) (c : StateCommitment) :
    Outcome SidechainError SidechainRegistry Unit :=
  attempt reg (reg.checkCommitment verifyMlDsa65 id c) fun chain =>
    (.ok (), reg.storeCommitment chain c)

end SidechainRegistry

/-! ## The quorum behind a commitment -/

/-- An active operator whose valid signature is in the list. -/
structure Signed (ops : Operators) (message : Bytes) (sigs : List OperatorSignature)
    (op : SidechainOperator) : Prop where
  mem : op ∈ ops.rows
  active : op.active = true
  signed : ∃ sig ∈ sigs, sig.operator = op.address ∧ 64 ≤ sig.signature.length ∧
    verifyMlDsa65 op.publicKey message sig.signature = true

/-- As many distinct operators as required have signed. -/
def RealQuorum : Prop :=
  ∃ signers : List SidechainOperator, signers.Nodup ∧ requiredSigs ops ≤ signers.length ∧
    ∀ op ∈ signers, Signed verifyMlDsa65 ops message sigs op

/-- The operators of the entries that count, in the order of the list. -/
def signerNames : List Address :=
  (sigs.filter (countsFor verifyMlDsa65 ops message)).map OperatorSignature.operator

/-- The entries that count beyond the first of their operator. -/
def repeatedEntries : Nat :=
  (signerNames verifyMlDsa65 ops message sigs).length
    - (signerNames verifyMlDsa65 ops message sigs).dedup.length

section

variable {verifyMlDsa65} {ops} {message} {sigs}

/-- Addresses are distinct, so the operator that is found is the one. -/
theorem find?_active {op : SidechainOperator} (hmem : op ∈ ops.rows) (hactive : op.active = true) :
    (ops.rows.find? fun o => o.address == op.address && o.active) = some op := by
  cases hfind : ops.rows.find? fun o => o.address == op.address && o.active with
  | none =>
    have h := find?_eq_none.mp hfind op hmem
    simp [hactive] at h
  | some =>
    have hother := find?_some hfind
    simp only [Bool.and_eq_true, beq_iff_eq] at hother
    have hget := get_of_mem (mem_of_find?_eq_some hfind)
    rw [hother.1, get_of_mem hmem] at hget
    rw [Option.some.inj hget]

theorem countsFor_iff {sig : OperatorSignature} : countsFor verifyMlDsa65 ops message sig = true ↔
      ∃ op ∈ ops.rows, op.active = true ∧ sig.operator = op.address ∧
        64 ≤ sig.signature.length ∧ verifyMlDsa65 op.publicKey message sig.signature = true := by
  unfold countsFor
  constructor
  · intro h
    split at h
    · rename_i op hfind
      have hop := find?_some hfind
      simp only [Bool.and_eq_true, beq_iff_eq] at hop
      simp only [Bool.and_eq_true, Bool.not_eq_true', decide_eq_false_iff_not, Nat.not_lt] at h
      exact ⟨op, mem_of_find?_eq_some hfind, hop.2, hop.1.symm, h.1, h.2⟩
    · cases h
  · rintro ⟨op, hmem, hactive, hname, hlength, hverify⟩
    rw [hname, find?_active hmem hactive]
    simp [hverify, Nat.not_lt.mpr hlength]

theorem mem_signerNames_iff {a : Address} : a ∈ signerNames verifyMlDsa65 ops message sigs ↔
      ∃ op, Signed verifyMlDsa65 ops message sigs op ∧ op.address = a := by
  constructor
  · intro h
    obtain ⟨sig, hsig, rfl⟩ := mem_map.mp h
    obtain ⟨hmem, hcounts⟩ := mem_filter.mp hsig
    obtain ⟨op, hop, hactive, hname, hvalid⟩ := countsFor_iff.mp hcounts
    exact ⟨op, ⟨hop, hactive, sig, hmem, hname, hvalid⟩, hname.symm⟩
  · rintro ⟨op, ⟨hop, hactive, sig, hmem, hname, hvalid⟩, rfl⟩
    refine mem_map.mpr ⟨sig, mem_filter.mpr ⟨hmem, ?_⟩, hname⟩
    exact countsFor_iff.mpr ⟨op, hop, hactive, hname, hvalid⟩

theorem operator_ext {a b : SidechainOperator} (ha : a ∈ ops.rows) (hb : b ∈ ops.rows)
    (haddress : a.address = b.address) : a = b := by
  have hget := get_of_mem ha
  rw [haddress, get_of_mem hb] at hget
  exact (Option.some.inj hget).symm

theorem realQuorum_iff : RealQuorum verifyMlDsa65 ops message sigs ↔
    requiredSigs ops ≤ (signerNames verifyMlDsa65 ops message sigs).dedup.length := by
  constructor
  · rintro ⟨signers, hnodup, hrequired, hsigned⟩
    have hdistinct : (signers.map SidechainOperator.address).Nodup :=
      hnodup.map_on fun a ha b hb => operator_ext (hsigned a ha).mem (hsigned b hb).mem
    have hsubset : signers.map SidechainOperator.address
        ⊆ (signerNames verifyMlDsa65 ops message sigs).dedup := by
      intro a ha
      obtain ⟨op, hop, rfl⟩ := mem_map.mp ha
      exact mem_dedup.mpr (mem_signerNames_iff.mpr ⟨op, hsigned op hop, rfl⟩)
    have hlength := hdistinct.length_le_of_subset hsubset
    rw [length_map] at hlength
    exact Nat.le_trans hrequired hlength
  · intro hrequired
    let names := signerNames verifyMlDsa65 ops message sigs
    let signers := ops.rows.filter fun op => names.contains op.address
    have hsigned : ∀ op ∈ signers, Signed verifyMlDsa65 ops message sigs op := by
      intro op hop
      obtain ⟨hmem, hname⟩ := mem_filter.mp hop
      obtain ⟨_, hop', haddress⟩ := mem_signerNames_iff.mp (contains_iff_mem.mp hname)
      rw [← operator_ext hop'.mem hmem haddress]
      exact hop'
    have hsubset : names.dedup ⊆ signers.map SidechainOperator.address := by
      intro a ha
      have hname := mem_dedup.mp ha
      obtain ⟨op, hop, rfl⟩ := mem_signerNames_iff.mp hname
      exact mem_map_of_mem
        (mem_filter.mpr ⟨hop.mem, contains_iff_mem.mpr hname⟩)
    have hlength := (nodup_dedup names).length_le_of_subset hsubset
    rw [length_map] at hlength
    exact ⟨signers, (List.Nodup.of_map _ ops.nodup).filter _,
      Nat.le_trans hrequired hlength, hsigned⟩

end

theorem required_le_of_checkSignatures {config : SidechainConfig} {ops : Operators}
    {id : SidechainId} {c : StateCommitment}
    (h : checkSignatures verifyMlDsa65 config ops id c = .ok ()) :
    requiredSigs ops
      ≤ validSignatures verifyMlDsa65 ops (buildCommitmentMessage id c) c.signatures := by
  by_contra hlt
  simp only [checkSignatures, if_pos (Nat.lt_of_not_le hlt)] at h
  split at h
  · cases h
  split at h
  · cases h
  · split at h <;> cases h

namespace SidechainRegistry

variable {reg : SidechainRegistry} {c : StateCommitment} {id : SidechainId}

theorem checkCommitment_ok {chain : Sidechain}
    (h : reg.checkCommitment verifyMlDsa65 id c = .ok chain) :
    reg.sidechains.get id = some chain ∧ ∃ ops, reg.operators.get id = some (id, ops) ∧
      requiredSigs ops
        ≤ validSignatures verifyMlDsa65 ops (buildCommitmentMessage id c) c.signatures := by
  unfold checkCommitment at h
  split at h
  · cases h
  rename_i chain' hchain
  split at h
  · cases h
  rename_i id' ops hops
  obtain rfl : id' = id := key_of_get hops
  split at h
  · cases h
  rename_i hcheck
  obtain rfl := Except.ok.inj h
  exact ⟨hchain, ops, hops, required_le_of_checkSignatures verifyMlDsa65 hcheck⟩

theorem checkCommitment_of_submitted (h : (reg.submitCommitment verifyMlDsa65 id c).1 = .ok ()) :
    ∃ chain, reg.checkCommitment verifyMlDsa65 id c = .ok chain := by
  unfold submitCommitment at h
  cases hcheck : reg.checkCommitment verifyMlDsa65 id c with
  | error =>
    rw [hcheck] at h
    cases h
  | ok chain => exact ⟨chain, rfl⟩

/-- An accepted commitment has the signatures of as many distinct operators
as required exactly where the repeated entries are within the surplus; in
particular where no operator is listed twice. -/
theorem quorum_iff_of_submitted (reg : SidechainRegistry) (id : SidechainId)
    (c : StateCommitment) (ops : Operators) (hops : reg.operators.get id = some (id, ops))
    (h : (reg.submitCommitment verifyMlDsa65 id c).1 = .ok ()) :
    let message := buildCommitmentMessage id c
    RealQuorum verifyMlDsa65 ops message c.signatures ↔
      repeatedEntries verifyMlDsa65 ops message c.signatures
        ≤ validSignatures verifyMlDsa65 ops message c.signatures - requiredSigs ops := by
  intro message
  obtain ⟨_, hcheck⟩ := checkCommitment_of_submitted verifyMlDsa65 h
  obtain ⟨-, ops', hops', hvalid⟩ := checkCommitment_ok verifyMlDsa65 hcheck
  obtain rfl : ops' = ops := congrArg Prod.snd (Option.some.inj (hops'.symm.trans hops))
  change requiredSigs ops' ≤ validSignatures verifyMlDsa65 ops' message c.signatures at hvalid
  have hlength : validSignatures verifyMlDsa65 ops' message c.signatures
      = (signerNames verifyMlDsa65 ops' message c.signatures).length := by
    rw [signerNames, length_map, validSignatures, countP_eq_length_filter]
  rw [realQuorum_iff, repeatedEntries]
  omega

end SidechainRegistry

/-- A signature is the key itself. -/
def keyVerify (publicKey _message signature : Bytes) : Bool := signature == publicKey

def sampleOperator (n : Nat) : SidechainOperator :=
  ⟨BitVec.ofNat 256 n, .zero, List.replicate 64 (UInt8.ofNat n), true, 0⟩

/-- One sidechain with three operators, all of whom must sign. -/
def sampleRegistry : SidechainRegistry where
  sidechains := Table.empty.put ⟨⟨7, .zero, 1, 10, true⟩, 0, 0, 0⟩
  operators := Table.empty.put
    (7, ((Table.empty.put (sampleOperator 1)).put (sampleOperator 2)).put (sampleOperator 3))
  commitments := .empty
  authToken := 0

def sampleOperators : Operators := ((sampleRegistry.operators.get 7).map Prod.snd).getD .empty

/-- A commitment at a height with the entries of these operators. -/
def commitmentBy (height : UInt64) (signers : List Nat) : StateCommitment :=
  ⟨height, 0, 0, signers.map fun n => ⟨BitVec.ofNat 256 n, List.replicate 64 (UInt8.ofNat n)⟩,
    0, 0⟩

theorem commitmentBy_all_quorum : let c := commitmentBy 5 [1, 2, 3]
    (sampleRegistry.submitCommitment keyVerify 7 c).1 = .ok () ∧
      RealQuorum keyVerify sampleOperators (buildCommitmentMessage 7 c) c.signatures := by
  have haccepted : (sampleRegistry.submitCommitment keyVerify 7 (commitmentBy 5 [1, 2, 3])).1
      = .ok () := by decide
  have hops : sampleRegistry.operators.get 7 = some (7, sampleOperators) := rfl
  refine ⟨haccepted, (SidechainRegistry.quorum_iff_of_submitted keyVerify sampleRegistry 7 _
    sampleOperators hops haccepted).mpr ?_⟩
  decide

/-- Three entries of one operator pass for three signatures. -/
theorem commitmentBy_one_accepted : let c := commitmentBy 5 [1, 1, 1]
    (sampleRegistry.submitCommitment keyVerify 7 c).1 = .ok () ∧
      ¬ RealQuorum keyVerify sampleOperators (buildCommitmentMessage 7 c) c.signatures := by
  refine ⟨by decide, fun hquorum => ?_⟩
  exact absurd (realQuorum_iff.mp hquorum) (by decide)

/-! ## Histories -/

/-- A commitment and the sidechain it is submitted for. -/
abbrev Submission := SidechainId × StateCommitment

/-- What operators sign of a submission. -/
def content (s : Submission) : SidechainId × UInt64 × Hash × Hash × UInt64 × UInt64 :=
  (s.1, s.2.height, s.2.stateRoot, s.2.txRoot, s.2.timestamp, s.2.l1Block)

namespace SidechainRegistry

variable (reg : SidechainRegistry)

def step (s : Submission) : SidechainRegistry :=
  (reg.submitCommitment verifyMlDsa65 s.1 s.2).2

def accepts (s : Submission) : Bool :=
  (reg.submitCommitment verifyMlDsa65 s.1 s.2).1.isOk

def latestHeight (reg : SidechainRegistry) (id : SidechainId) : UInt64 :=
  ((reg.sidechains.get id).map Sidechain.latestHeight).getD 0

/-- The submissions of a run that are accepted when their turn comes. -/
def accepted (reg : SidechainRegistry) : List Submission → List Submission
  | [] => []
  | s :: ss =>
    let rest := accepted (reg.step verifyMlDsa65 s) ss
    if reg.accepts verifyMlDsa65 s then s :: rest else rest

/-- No height goes down, and nothing is accepted twice. -/
structure Forward (reg : SidechainRegistry) (ss : List Submission) : Prop where
  heights : StepsMeet (step verifyMlDsa65)
    (fun reg s => ∀ id, reg.latestHeight id ≤ (reg.step verifyMlDsa65 s).latestHeight id) reg ss
  once : ((reg.accepted verifyMlDsa65 ss).map content).Nodup

/-- The heights for one sidechain among the submissions that pass the checks. -/
def heightsFor (id : SidechainId) (ss : List Submission) : List UInt64 :=
  ((ss.filter (reg.accepts verifyMlDsa65)).filter fun s => s.1 == id).map fun s => s.2.height

section

variable (s s' : Submission) (id : SidechainId) (ss : List Submission)

theorem step_cases : (reg.accepts verifyMlDsa65 s = false ∧ reg.step verifyMlDsa65 s = reg) ∨
      ∃ chain, reg.accepts verifyMlDsa65 s = true ∧ reg.sidechains.get s.1 = some chain ∧
        reg.step verifyMlDsa65 s = reg.storeCommitment chain s.2 := by
  unfold accepts step submitCommitment
  cases hcheck : reg.checkCommitment verifyMlDsa65 s.1 s.2 with
  | error => exact .inl ⟨rfl, rfl⟩
  | ok chain => exact .inr ⟨chain, rfl, (checkCommitment_ok verifyMlDsa65 hcheck).1, rfl⟩

variable {reg s} in
theorem get_storeCommitment {chain : Sidechain} (hget : reg.sidechains.get s.1 = some chain) :
    (reg.storeCommitment chain s.2).sidechains.get id
      = if s.1 = id then some { chain with stateRoot := s.2.stateRoot, latestHeight := s.2.height }
        else reg.sidechains.get id := by
  have hid := key_of_get hget
  change chain.config.id = s.1 at hid
  rw [← hid]
  exact get_put ..

theorem accepts_eq : reg.accepts verifyMlDsa65 s
      = ((reg.sidechains.get s.1).map Sidechain.config).any fun config =>
          (reg.operators.get s.1).any fun row =>
            (checkSignatures verifyMlDsa65 config row.2 s.1 s.2).isOk := by
  unfold accepts submitCommitment checkCommitment
  cases reg.sidechains.get s.1 with
  | none => rfl
  | some chain =>
    cases reg.operators.get s.1 with
    | none => rfl
    | some row =>
      show _ = (checkSignatures verifyMlDsa65 chain.config row.2 s.1 s.2).isOk
      dsimp only
      cases checkSignatures verifyMlDsa65 chain.config row.2 s.1 s.2 <;> rfl

/-- Whether a submission passes does not depend on those before it. -/
theorem accepts_step :
    (reg.step verifyMlDsa65 s).accepts verifyMlDsa65 s' = reg.accepts verifyMlDsa65 s' := by
  rcases step_cases verifyMlDsa65 reg s with ⟨-, hstep⟩ | ⟨chain, -, hget, hstep⟩
  · rw [hstep]
  have hconfig : ((reg.storeCommitment chain s.2).sidechains.get s'.1).map Sidechain.config
      = (reg.sidechains.get s'.1).map Sidechain.config := by
    rw [get_storeCommitment _ hget]
    split
    · rename_i hid
      rw [← hid, hget]
      rfl
    · rfl
  rw [hstep, accepts_eq, accepts_eq, hconfig]
  rfl

theorem accepted_eq_filter :
    reg.accepted verifyMlDsa65 ss = ss.filter (reg.accepts verifyMlDsa65) := by
  induction ss generalizing reg with
  | nil => rfl
  | cons s ss ih =>
    have hsame : (reg.step verifyMlDsa65 s).accepts verifyMlDsa65 = reg.accepts verifyMlDsa65 :=
      funext (accepts_step verifyMlDsa65 reg s)
    rw [accepted, ih, hsame, filter_cons]

theorem heightsFor_step : (reg.step verifyMlDsa65 s).heightsFor verifyMlDsa65 id ss
      = reg.heightsFor verifyMlDsa65 id ss := by
  unfold heightsFor
  rw [funext (accepts_step verifyMlDsa65 reg s)]

variable {reg s} in
theorem latestHeight_step (h : reg.accepts verifyMlDsa65 s = true) :
    (reg.step verifyMlDsa65 s).latestHeight id
      = if s.1 = id then s.2.height else reg.latestHeight id := by
  rcases step_cases verifyMlDsa65 reg s with ⟨hno, -⟩ | ⟨_, -, hget, hstep⟩
  · rw [hno] at h
    cases h
  · rw [hstep, latestHeight, get_storeCommitment _ hget]
    split <;> rfl

theorem heights_iff : StepsMeet (step verifyMlDsa65)
        (fun reg s => ∀ id, reg.latestHeight id ≤ (reg.step verifyMlDsa65 s).latestHeight id)
        reg ss ↔
      ∀ id, (reg.latestHeight id :: reg.heightsFor verifyMlDsa65 id ss).IsChain (· ≤ ·) := by
  induction ss generalizing reg with
  | nil => exact iff_of_true trivial fun id => isChain_singleton _
  | cons s ss ih =>
    rw [StepsMeet, ih]
    simp only [heightsFor_step]
    cases haccepts : reg.accepts verifyMlDsa65 s with
    | false =>
      have hstep : reg.step verifyMlDsa65 s = reg := by
        rcases step_cases verifyMlDsa65 reg s with ⟨-, hstep⟩ | ⟨_, hyes, -⟩
        · exact hstep
        · cases haccepts.symm.trans hyes
      have hsame : ∀ id, reg.heightsFor verifyMlDsa65 id (s :: ss)
          = reg.heightsFor verifyMlDsa65 id ss := by
        intro id
        simp [heightsFor, haccepts]
      simp only [hstep, hsame, UInt64.le_refl, implies_true, true_and]
    | true =>
      have hcons : ∀ id, reg.heightsFor verifyMlDsa65 id (s :: ss)
          = if s.1 = id then s.2.height :: reg.heightsFor verifyMlDsa65 id ss
            else reg.heightsFor verifyMlDsa65 id ss := by
        intro id
        by_cases hid : s.1 = id <;> simp [heightsFor, haccepts, hid]
      simp only [latestHeight_step verifyMlDsa65 _ haccepts, hcons, ← forall_and]
      refine forall_congr' fun id => ?_
      by_cases hid : s.1 = id
      · simp only [if_pos hid, isChain_cons_cons]
      · simp only [if_neg hid, UInt64.le_refl, true_and]

end

/-- Nothing in the registry keeps the history going forward: it does exactly
where, for each sidechain, the submissions that pass the checks come in the
order of their heights, from the latest one on, and none comes twice. -/
theorem forward_iff (reg : SidechainRegistry) (ss : List Submission) :
    Forward verifyMlDsa65 reg ss ↔
      (∀ id, (reg.latestHeight id :: reg.heightsFor verifyMlDsa65 id ss).IsChain (· ≤ ·)) ∧
        ((ss.filter (reg.accepts verifyMlDsa65)).map content).Nodup := by
  rw [← heights_iff, ← accepted_eq_filter]
  exact ⟨fun h => ⟨h.heights, h.once⟩, fun h => ⟨h.1, h.2⟩⟩

end SidechainRegistry

/-- An old commitment, and the same one again. -/
theorem replay_accepted :
    let ss : List Submission := [(7, commitmentBy 9 [1, 2, 3]), (7, commitmentBy 5 [1, 2, 3]),
      (7, commitmentBy 5 [1, 2, 3])]
    sampleRegistry.accepted keyVerify ss = ss ∧
      (run (SidechainRegistry.step keyVerify) sampleRegistry (ss.take 1)).latestHeight 7 = 9 ∧
      (run (SidechainRegistry.step keyVerify) sampleRegistry ss).latestHeight 7 = 5 := by
  decide

/-! ## Retired operators -/

inductive OperatorCall where
  | register (id : SidechainId) (operator : SidechainOperator) (caller : Address) (sig : Bytes)
  | slash (id : SidechainId) (operator : Address) (authToken : Hash)
  | submit (s : Submission)

namespace SidechainRegistry

def call (reg : SidechainRegistry) : OperatorCall → SidechainRegistry
  | .register id operator caller sig =>
    (reg.registerOperator verifyMlDsa65 id operator caller sig).2
  | .slash id operator authToken => (reg.slashOperator id operator authToken).2
  | .submit s => reg.step verifyMlDsa65 s

/-- Registered and inactive. -/
def retired (id : SidechainId) (a : Address) (reg : SidechainRegistry) : Bool :=
  (reg.operators.get id).any fun row => (row.2.get a).any fun o => !o.active

variable {id id' : SidechainId} {a : Address} {reg : SidechainRegistry} {ops : Operators}
  {o : SidechainOperator}

/-- An inactive operator may only be replaced by an inactive one. -/
theorem retired_put (h : reg.retired id a)
    (hops : ∀ row, reg.operators.get id' = some row → row.2 = ops)
    (ho : ∀ old, ops.get o.address = some old → old.active = false → o.active = false) :
    retired id a { reg with operators := reg.operators.put (id', ops.put o) } := by
  simp only [retired, Option.any_eq_true, get_put, Bool.not_eq_true'] at h ⊢
  obtain ⟨row, hrow, old, hold, hactive⟩ := h
  split
  · rename_i hid
    obtain rfl := hops row (hid ▸ hrow)
    by_cases ha : o.address = a
    · exact ⟨_, rfl, o, ha ▸ get_put_self .., ho old (ha ▸ hold) hactive⟩
    · exact ⟨_, rfl, old, (get_put_of_ne _ ha).trans hold, hactive⟩
  · exact ⟨row, hrow, old, hold, hactive⟩

theorem retired_call (reg : SidechainRegistry) (c : OperatorCall) (h : reg.retired id a) :
    (reg.call verifyMlDsa65 c).retired id a := by
  cases c with
  | register id' operator caller sig =>
    refine attempt_keeps (I := (retired id a · = true)) h fun _ hcheck => ?_
    have hactivation : ∀ reg' : SidechainRegistry,
        (reg'.checkActivation id').operators = reg'.operators := by
      intro reg'
      unfold checkActivation
      split
      · split <;> rfl
      · rfl
    unfold retired
    rw [hactivation]
    refine retired_put (o := operator) h (fun row hrow => by simp [hrow]) fun old hold => ?_
    -- an address that is taken is refused
    have hmem := mem_rows_of_get hold
    have haddress := key_of_get hold
    grind [checkOperator, get_empty]
  | slash id' a' token =>
    refine guard_keeps (I := (retired id a · = true)) h fun _ => ?_
    split
    · exact h
    rename_i hops
    split
    · exact h
    rename_i old hold
    refine retired_put h (by simp [hops]) ?_
    have haddress := key_of_get hold
    grind [slash]
  | submit s =>
    rcases step_cases verifyMlDsa65 reg s with ⟨-, hstep⟩ | ⟨chain, -, -, hstep⟩
    · rwa [call, hstep]
    · rwa [call, hstep]

/-- Whatever is registered, slashed and submitted after it, an operator once
inactive is one for good, and no entry of theirs counts. -/
theorem retired_never_counts (reg : SidechainRegistry) (calls : List OperatorCall)
    (sig : OperatorSignature) (h : reg.retired id sig.operator) :
    (run (call verifyMlDsa65) reg calls).retired id sig.operator ∧
      ∃ ops, (run (call verifyMlDsa65) reg calls).operators.get id = some (id, ops) ∧
        ∀ message, countsFor verifyMlDsa65 ops message sig = false := by
  have hretired : retired id sig.operator (run (call verifyMlDsa65) reg calls) :=
    invariant_of_forall (Q := fun _ => True)
      (fun reg c h _ => retired_call verifyMlDsa65 reg c h) h fun _ _ => trivial
  refine ⟨hretired, ?_⟩
  simp only [retired, Option.any_eq_true, Bool.not_eq_true'] at hretired
  obtain ⟨row, hrow, o, ho, hactive⟩ := hretired
  obtain rfl := key_of_get hrow
  refine ⟨row.2, hrow, fun message => ?_⟩
  rw [Bool.eq_false_iff, Ne, countsFor_iff]
  rintro ⟨op, hop, hopactive, haddress, -⟩
  rw [haddress, get_of_mem hop] at ho
  grind

end SidechainRegistry

/-- The entry of the first operator counts until the third slash retires
them; a new registration, another slash and a commitment do not bring it
back. -/
theorem third_slash_retires :
    let sig : OperatorSignature := ⟨1, replicate 64 1⟩
    let reg := run (SidechainRegistry.call keyVerify) sampleRegistry (replicate 3 (.slash 7 1 0))
    let later := run (SidechainRegistry.call keyVerify) reg
      [.register 7 (sampleOperator 1) 1 (replicate 64 1), .slash 7 2 0,
        .submit (7, commitmentBy 5 [1, 2, 3])]
    countsFor keyVerify sampleOperators [] sig = true ∧ reg.retired 7 1 = true ∧
      later.retired 7 1 = true ∧ ∃ ops, later.operators.get 7 = some (7, ops) ∧
        ∀ message, countsFor keyVerify ops message sig = false :=
  ⟨by decide, by decide,
    SidechainRegistry.retired_never_counts keyVerify _ _ ⟨1, replicate 64 1⟩ (by decide)⟩

end Quantos.Sidechains

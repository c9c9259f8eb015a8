import Quantos.HostileProofs

/-!
# Private transfers

What a private transfer proof says about its public inputs. Its bytes carry
the two roots, and the nullifiers enter the statement of the STARK as a hash.
The output commitments are only asked not to be an empty list, and nothing
asks for the fee commitment at all: where bytes are accepted with some public
inputs, they are accepted with any other outputs of that number and any other
fee (`acceptsWith_outputs`).
-/

namespace Quantos

open Panics Codecs Bincode List

open StarkBatch (BaseElement fieldModulus)

namespace StateTransition

/-! ## Limbs lose nothing -/

theorem limb_lt {hash : Hash} {i : Fin 4} : limb hash i < 2 ^ 64 := by
  have hlength : (((arrayBytes hash).drop (8 * i)).take 8).length ≤ 8 := length_take_le _ _
  calc limb hash i < 256 ^ (((arrayBytes hash).drop (8 * i)).take 8).length := leValue_lt _
    _ ≤ 256 ^ 8 := Nat.pow_le_pow_right (by decide) hlength
    _ = 2 ^ 64 := by decide

theorem hashToFieldElements_injective : Function.Injective hashToFieldElements := by
  intro a b h
  have hmodulus : 2 ^ 64 < fieldModulus := by decide
  have hwords : ∀ i : Fin 4, ((arrayBytes a).drop (8 * i)).take 8
      = ((arrayBytes b).drop (8 * i)).take 8 := by
    intro i
    have hlimb : limb a i = limb b i := by
      have hcast := (ZMod.natCast_eq_natCast_iff' ..).mp (congrFun h i)
      rwa [Nat.mod_eq_of_lt (limb_lt.trans hmodulus),
        Nat.mod_eq_of_lt (limb_lt.trans hmodulus)] at hcast
    have hlength : ∀ hash : Hash, (((arrayBytes hash).drop (8 * i)).take 8).length = 8 := by
      intro hash
      rw [length_take, length_drop, length_arrayBytes]
      omega
    have ha := leBytes_leValue (((arrayBytes a).drop (8 * i)).take 8)
    have hb := leBytes_leValue (((arrayBytes b).drop (8 * i)).take 8)
    rw [hlength] at ha hb
    rw [← ha, ← hb]
    exact congrArg (leBytes 8) hlimb
  apply arrayBytes_injective
  refine ext_getElem? fun n => ?_
  by_cases hn : n < 32
  · have hword : ∀ hash : Hash, (arrayBytes hash)[n]?
        = (((arrayBytes hash).drop (8 * (n / 8))).take 8)[n % 8]? := by
      intro hash
      rw [getElem?_take_of_lt (Nat.mod_lt n (by decide)), getElem?_drop, Nat.div_add_mod]
    rw [hword a, hword b, hwords ⟨n / 8, by omega⟩]
  · rw [getElem?_eq_none (by rw [length_arrayBytes]; omega),
      getElem?_eq_none (by rw [length_arrayBytes]; omega)]

theorem txRoot_eq_of_toElements {a b : StateTransitionInputs}
    (h : (StateTransitionPublicInputs.ofInputs a).toElements
      = (StateTransitionPublicInputs.ofInputs b).toElements) : a.txRoot = b.txRoot := by
  simp only [StateTransitionPublicInputs.toElements, append_assoc] at h
  obtain ⟨_, h⟩ := append_inj h (by rw [length_ofFn, length_ofFn])
  obtain ⟨_, h⟩ := append_inj h (by rw [length_ofFn, length_ofFn])
  obtain ⟨h, _⟩ := append_inj h (by rw [length_ofFn, length_ofFn])
  exact hashToFieldElements_injective (ofFn_injective h)

end StateTransition

namespace Zk

variable {P : Type} (env : ZkPlatform P)

/-! ## What is checked -/

variable {data : Bytes}

theorem returns_verifyWinterfellProof_iff {inputs : StateTransitionInputs} :
    Returns (verifyWinterfellProof env data inputs) true ↔
      ∃ proof, env.proofFromBytes data = .ok proof ∧
        env.starkVerify proof (.ofInputs inputs) = true := by
  unfold verifyWinterfellProof
  cases hread : env.proofFromBytes data with
  | error => exact ⟨fun h => absurd h not_returns_throw, fun ⟨_, h, _⟩ => nomatch h⟩
  | ok proof =>
    rw [returns_pure_iff]
    exact ⟨fun h => ⟨proof, rfl, h⟩, fun ⟨_, h, hverify⟩ => Except.ok.inj h ▸ hverify⟩

/-- The checks on a private transfer. -/
structure TransferChecks (data : Bytes) (inputs : PrivateTransferInputs) : Prop where
  length : 68 ≤ data.length
  magic : data.take 4 = PRIVATE_TRANSFER_MAGIC
  noteSetRoot : arrayOfBytes ((data.drop 4).take 32) = inputs.noteSetRoot
  stateRoot : arrayOfBytes ((data.drop 36).take 32) = inputs.stateRoot
  nullifiers : inputs.inputNullifiers.isEmpty = false
  outputs : inputs.outputCommitments.isEmpty = false
  inner : (data.drop 68).isEmpty = false
  stark : ∃ proof, env.proofFromBytes (data.drop 68) = .ok proof ∧
    env.starkVerify proof (.ofInputs (privateTransferStatement env inputs)) = true

variable {inputs : PrivateTransferInputs}

theorem returns_verifyPrivateTransferProof_iff :
    Returns (verifyPrivateTransferProof env none data inputs) true ↔
      TransferChecks env data inputs := by
  unfold verifyPrivateTransferProof
  rw [returns_guard_iff, Nat.not_lt]
  by_cases hlength : 68 ≤ data.length
  · have hmagic : slice data 0 4 = some (data.take 4) := slice_eq (by omega) (by omega)
    have hinner : sliceFrom data 68 = some (data.drop 68) := if_pos hlength
    rw [hmagic, found_some_bind, returns_guard_iff, slice_eq (by omega) (by omega),
      found_some_bind, tryArray_bind (length_window (by omega)), returns_guard_iff,
      slice_eq (by omega) (by omega), found_some_bind, tryArray_bind (length_window (by omega)),
      returns_guard_iff, returns_guard_iff, returns_guard_iff, hinner, found_some_bind,
      returns_guard_iff, reserve_none_bind, returns_verifyWinterfellProof_iff]
    simp only [ne_eq, not_not, Bool.not_eq_true]
    constructor
    · rintro ⟨_, hmagic, hnote, hstate, hnullifiers, houtputs, hinner, hstark⟩
      exact ⟨hlength, hmagic, hnote, hstate, hnullifiers, houtputs, hinner, hstark⟩
    · rintro ⟨_, hmagic, hnote, hstate, hnullifiers, houtputs, hinner, hstark⟩
      exact ⟨hlength, hmagic, hnote, hstate, hnullifiers, houtputs, hinner, hstark⟩
  · exact ⟨fun h => absurd h.1 hlength, fun h => absurd h.length hlength⟩

/-! ## Binding -/

/-- The verifier accepts the bytes with these public inputs. -/
def AcceptsWith (data : Bytes) (inputs : PrivateTransferInputs) : Prop :=
  ∃ proof : StarkProof, proof.proofType = .privateTransfer ∧ proof.proofData = data ∧
    Bincode.deserialize privateTransferInputs proof.publicInputs = some inputs ∧
    Accepts env proof

/-- Serialized inputs that are short enough are read, and then checked. -/
theorem acceptsWith_iff :
    AcceptsWith env data inputs ↔ data.length ≤ ISIZE_MAX ∧ privateTransferInputs.fits inputs ∧
        (privateTransferInputs.write inputs).length ≤ MAX_PUBLIC_INPUTS_SIZE ∧
        TransferChecks env data inputs := by
  have hverify : ∀ proof : StarkProof, proof.proofType = .privateTransfer →
      Bincode.deserialize privateTransferInputs proof.publicInputs = some inputs →
      (Accepts env proof ↔ proof.publicInputs.length ≤ MAX_PUBLIC_INPUTS_SIZE ∧
        TransferChecks env proof.proofData inputs) := by
    intro proof htype hread
    rw [Accepts, verify, htype]
    split
    · rename_i hlarge
      exact ⟨fun h => absurd h not_returns_throw,
        fun h => absurd h.1 (Nat.not_le.mpr hlarge)⟩
    rename_i hsmall
    dsimp only
    rw [deserialize, hread, foundOr_some_bind, returns_verifyPrivateTransferProof_iff]
    exact ⟨fun h => ⟨Nat.not_lt.mp hsmall, h⟩, fun h => h.2⟩
  constructor
  · rintro ⟨proof, htype, rfl, hread, haccepts⟩
    obtain ⟨hsmall, hchecks⟩ := (hverify proof htype hread).mp haccepts
    obtain ⟨hfits, hlength⟩ := of_deserialize _ hread
    exact ⟨proof.proofData_le, hfits, Nat.le_trans hlength hsmall, hchecks⟩
  · rintro ⟨hdata, hfits, hsmall, hchecks⟩
    have hread := deserialize_write privateTransferInputs hfits
    let proof : StarkProof :=
      { id := 0
        proofType := .privateTransfer
        proofData := data
        publicInputs := privateTransferInputs.write inputs
        size := data.length
        generationTimeMs := 0
        verificationTimeUs := 0
        proofData_le := hdata
        publicInputs_le := Nat.le_trans hsmall (by decide) }
    exact ⟨proof, rfl, rfl, hread, (hverify proof rfl hread).mpr ⟨hsmall, hchecks⟩⟩

/-- The verifier of the library accepts given bytes for one set of public
inputs at most. -/
def StarkBinding : Prop :=
  ∀ bytes proof i j, env.proofFromBytes bytes = .ok proof →
    env.starkVerify proof i = true → env.starkVerify proof j = true → i.toElements = j.toElements

/-- Different nullifiers with the same hash. -/
def NullifierCollision (a b : PrivateTransferInputs) : Prop :=
  nullifierBytes a ≠ nullifierBytes b ∧
    env.hashData (nullifierBytes a) = env.hashData (nullifierBytes b)

def SameStatement (a b : PrivateTransferInputs) : Prop :=
  a.inputNullifiers = b.inputNullifiers ∧ a.outputCommitments = b.outputCommitments ∧
    a.feeCommitment = b.feeCommitment

/-- The bytes of a proof belong to one statement. -/
def Bound (data : Bytes) : Prop :=
  ∀ a b, AcceptsWith env data a → AcceptsWith env data b →
    SameStatement a b ∨ NullifierCollision env a b

variable {a b : PrivateTransferInputs}

theorem nullifiers_eq_of_bytes (h : nullifierBytes a = nullifierBytes b) :
    a.inputNullifiers = b.inputNullifiers := by
  have hinjective : Function.Injective fun n : Nullifier => arrayBytes n.data := by
    intro n m hbytes
    exact congrArg Nullifier.mk (arrayBytes_injective hbytes)
  have hwidth : ∀ n : Nullifier, (arrayBytes n.data).length = 32 := fun n =>
    length_arrayBytes n.data
  exact flatMap_injective_of_width (by decide) hwidth hinjective h

/-- The nullifiers are part of the statement of the STARK. -/
theorem nullifiers_bound (hstark : StarkBinding env) (ha : AcceptsWith env data a)
    (hb : AcceptsWith env data b) :
    a.inputNullifiers = b.inputNullifiers ∨ NullifierCollision env a b := by
  obtain ⟨_, _, _, ha⟩ := (acceptsWith_iff env).mp ha
  obtain ⟨_, _, _, hb⟩ := (acceptsWith_iff env).mp hb
  obtain ⟨proof, hproof, hverify⟩ := ha.stark
  obtain ⟨proof', hproof', hverify'⟩ := hb.stark
  obtain rfl : proof = proof' := Except.ok.inj (hproof.symm.trans hproof')
  have hhash : env.hashData (nullifierBytes a) = env.hashData (nullifierBytes b) :=
    StateTransition.txRoot_eq_of_toElements (hstark _ proof _ _ hproof hverify hverify')
  by_cases hbytes : nullifierBytes a = nullifierBytes b
  · exact .inl (nullifiers_eq_of_bytes hbytes)
  · exact .inr ⟨hbytes, hhash⟩

theorem write_privateTransferInputs (inputs : PrivateTransferInputs) :
    privateTransferInputs.write inputs = (vec nullifier).write inputs.inputNullifiers
        ++ ((vec commitment).write inputs.inputCommitments
        ++ ((vec commitment).write inputs.outputCommitments ++ (arrayBytes inputs.feeCommitment.data
        ++ (arrayBytes inputs.noteSetRoot ++ arrayBytes inputs.stateRoot)))) := rfl

theorem privateTransferInputs_fits_iff {inputs : PrivateTransferInputs} :
    privateTransferInputs.fits inputs ↔
      inputs.inputNullifiers.length < 256 ^ 8 ∧ inputs.inputCommitments.length < 256 ^ 8 ∧
        inputs.outputCommitments.length < 256 ^ 8 := by
  constructor
  · rintro ⟨hnullifiers, hinputs, houtputs, _⟩
    exact ⟨hnullifiers.1, hinputs.1, houtputs.1⟩
  · rintro ⟨hnullifiers, hinputs, houtputs⟩
    exact ⟨⟨hnullifiers, fun n _ => array_fits ..⟩,
      ⟨hinputs, fun c _ => array_fits ..⟩,
      ⟨houtputs, fun c _ => array_fits ..⟩,
      array_fits _, array_fits _, array_fits _⟩

/-- Nothing looks at the fee, and of the outputs only their number counts. -/
theorem acceptsWith_outputs (h : AcceptsWith env data inputs) {outputs : List Commitment}
    (houtputs : outputs.length = inputs.outputCommitments.length) {fee : Commitment} :
    AcceptsWith env data { inputs with outputCommitments := outputs, feeCommitment := fee } := by
  rw [acceptsWith_iff] at h ⊢
  obtain ⟨hdata, hfits, hsmall, hchecks⟩ := h
  refine ⟨hdata, ?_, ?_, ?_⟩
  · rw [privateTransferInputs_fits_iff] at hfits ⊢
    rw [houtputs]
    exact hfits
  · have hwidth : ∀ c : Commitment, (commitment.write c).length = 32 := fun c =>
      length_arrayBytes c.data
    simp only [write_privateTransferInputs, length_append, length_arrayBytes,
      length_write_vec commitment hwidth, houtputs] at hsmall ⊢
    exact hsmall
  · have hne := hchecks.outputs
    rw [isEmpty_eq_false_iff, ← length_pos_iff, ← houtputs, length_pos_iff,
      ← isEmpty_eq_false_iff] at hne
    exact { hchecks with outputs := hne }

def otherCommitment (c : Commitment) : Commitment := if c.data = 0 then ⟨1⟩ else ⟨0⟩

theorem otherCommitment_ne (c : Commitment) : c ≠ otherCommitment c := by
  unfold otherCommitment
  split
  · rename_i h
    intro hc
    rw [hc] at h
    cases h
  · rename_i h
    intro hc
    rw [hc] at h
    exact h rfl

/-- Bytes are bound to a statement if and only if they are accepted with
none. The nullifiers alone are bound. -/
theorem bound_iff (hstark : StarkBinding env) (data : Bytes) :
    (Bound env data ↔ ∀ inputs, ¬ AcceptsWith env data inputs) ∧
      ∀ a b, AcceptsWith env data a → AcceptsWith env data b →
        a.inputNullifiers = b.inputNullifiers ∨ NullifierCollision env a b := by
  refine ⟨⟨?_, fun h a _ ha => absurd ha (h a)⟩, fun a b => nullifiers_bound env hstark⟩
  intro hbound inputs haccepts
  rcases hbound inputs _ haccepts
    (acceptsWith_outputs env haccepts rfl)
    with hsame | hcollision
  · exact otherCommitment_ne _ hsame.2.2
  · exact hcollision.1 rfl

/-! ## One proof for two transfers -/

/-- A transfer of one note into one, with a choice of the new note and the
fee. -/
def sampleTransfer (output fee : Hash) : PrivateTransferInputs where
  inputNullifiers := [⟨5⟩]
  inputCommitments := [⟨6⟩]
  outputCommitments := [⟨output⟩]
  feeCommitment := ⟨fee⟩
  noteSetRoot := 1
  stateRoot := 2

/-- The library accepts for one set of public inputs, those of the transfer
of 7 with a fee of 8. -/
def transferPlatform : ZkPlatform Unit where
  hashData := samplePlatform.hashData
  proofFromBytes _ := .ok ()
  starkVerify _ inputs := inputs.toElements ==
    (StateTransition.StateTransitionPublicInputs.ofInputs
      (privateTransferStatement samplePlatform (sampleTransfer 7 8))).toElements
  bincodeError := samplePlatform.bincodeError

def transferData : Bytes := PRIVATE_TRANSFER_MAGIC ++ arrayBytes 1 ++ arrayBytes 2 ++ [1]

theorem transferPlatform_binding : StarkBinding transferPlatform := by
  intro bytes proof i j _ hi hj
  exact (beq_iff_eq.mp hi).trans (beq_iff_eq.mp hj).symm

theorem sampleTransfer_accepted :
    AcceptsWith transferPlatform transferData (sampleTransfer 7 8) := by
  refine (acceptsWith_iff ..).mpr ⟨by decide, ?_, by decide +kernel, ?_⟩
  · exact privateTransferInputs_fits_iff.mpr ⟨by decide, by decide, by decide⟩
  · exact
      { length := by decide
        magic := by decide
        noteSetRoot := by decide +kernel
        stateRoot := by decide +kernel
        nullifiers := rfl
        outputs := rfl
        inner := by decide
        stark := ⟨(), rfl, beq_iff_eq.mpr rfl⟩ }

/-- The same bytes are accepted with other outputs and another fee. -/
theorem transfer_accepted_for_two_statements :
    ∃ a b, AcceptsWith transferPlatform transferData a ∧
      AcceptsWith transferPlatform transferData b ∧
      a.outputCommitments ≠ b.outputCommitments ∧ a.feeCommitment ≠ b.feeCommitment ∧
      ¬ NullifierCollision transferPlatform a b := by
  refine ⟨sampleTransfer 7 8, sampleTransfer 9 10, sampleTransfer_accepted, ?_, by decide,
    by decide, fun h => h.1 rfl⟩
  have houtputs : [Commitment.mk 9].length = (sampleTransfer 7 8).outputCommitments.length := rfl
  exact acceptsWith_outputs transferPlatform sampleTransfer_accepted houtputs

theorem transferData_not_bound :
    StarkBinding transferPlatform ∧ ¬ Bound transferPlatform transferData :=
  ⟨transferPlatform_binding, fun hbound =>
    (bound_iff transferPlatform transferPlatform_binding transferData).1.mp hbound
      (sampleTransfer 7 8) sampleTransfer_accepted⟩

end Zk

end Quantos

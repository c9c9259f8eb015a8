import Quantos.ZkVerify

/-!
# Proofs from anyone

What `verify` does with arbitrary bytes, when a request for memory may be no
larger than a constant times the input. The three types with a fixed header
are read in bounds whatever the bytes are. An aggregated proof carries two
numbers that are used unchecked: the count of its entries, for which memory
is asked before an entry is read, and the size of its data, which is added to
an offset. `HeaderInRange` says what they must be, and
`verifyAggregatedProof_answers_iff` that this is all.
-/

namespace Quantos

open Panics Codecs List

namespace Zk

variable {P : Type} (env : ZkPlatform P)

/-! ## Fixed headers -/

variable {data : Bytes} {ε : Type} {i : Nat}

theorem answers_slice {j : Nat} (hi : i ≤ j) (hj : j ≤ data.length) :
    Answers (found (slice data i j) : Call ε Bytes) fun bytes => bytes.length = j - i :=
  answers_found ⟨_, slice_eq hi hj, length_window (by omega)⟩

theorem answers_byte (h : i < data.length) :
    Answers (found data[i]? : Call ε UInt8) fun _ => True :=
  answers_found ⟨_, getElem?_eq_getElem h, trivial⟩

theorem answers_sliceFrom (h : i ≤ data.length) :
    Answers (found (sliceFrom data i) : Call ε Bytes) fun _ => True :=
  answers_found ⟨_, if_pos h, trivial⟩

theorem answers_tryArray {bytes : Bytes} {text : String} :
    Answers (tryArray bytes text) fun _ => True :=
  answers_foundOr fun _ _ => trivial

theorem answers_deserialize {α : Type} {c : Codec α} {bytes : Bytes} :
    Answers (deserialize env c bytes) fun a => Bincode.deserialize c bytes = some a :=
  answers_foundOr fun _ h => h

theorem verifyWinterfellProof_answers {data : Bytes} {inputs : StateTransitionInputs} :
    Answers (verifyWinterfellProof env data inputs) fun _ => True := by
  unfold verifyWinterfellProof
  split
  · exact answers_throw
  · exact answers_pure trivial

theorem verifyCrossShardProof_answers {data : Bytes} {inputs : CrossShardInputs} :
    Answers (verifyCrossShardProof env data inputs) fun _ => True := by
  refine answers_unless fun hlength => ?_
  refine answers_bind (answers_slice (by omega) (by omega)) fun magic _ => ?_
  refine answers_unless fun _ => ?_
  refine answers_bind (answers_byte (by omega)) fun s₀ _ => ?_
  refine answers_bind (answers_byte (by omega)) fun s₁ _ => ?_
  refine answers_bind (answers_byte (by omega)) fun d₀ _ => ?_
  refine answers_bind (answers_byte (by omega)) fun d₁ _ => ?_
  refine answers_unless fun _ => ?_
  refine answers_bind (answers_slice (by omega) (by omega)) fun bytes _ => ?_
  refine answers_bind answers_tryArray fun messageHash _ => ?_
  refine answers_unless fun _ => ?_
  refine answers_bind (answers_sliceFrom (by omega)) fun inner _ => ?_
  exact answers_unless fun _ => verifyWinterfellProof_answers env

theorem verifyValidatorTransitionProof_answers (data : Bytes) :
    Answers (verifyValidatorTransitionProof env data) fun _ => True := by
  refine answers_unless fun hlength => ?_
  refine answers_bind (answers_slice (by omega) (by omega)) fun magic _ => ?_
  refine answers_unless fun _ => ?_
  refine answers_bind (answers_slice (by omega) (by omega)) fun old _ => ?_
  refine answers_bind answers_tryArray fun oldRoot _ => ?_
  refine answers_bind (answers_slice (by omega) (by omega)) fun new _ => ?_
  refine answers_bind answers_tryArray fun newRoot _ => ?_
  refine answers_bind (answers_sliceFrom (by omega)) fun inner _ => ?_
  refine answers_unless fun _ => ?_
  refine answers_bind (answers_slice (by omega) (by omega)) fun roots _ => ?_
  exact verifyWinterfellProof_answers env

variable {inputs : PrivateTransferInputs} {limit : Nat}

theorem verifyPrivateTransferProof_answers (hlimit : 2 * (nullifierBytes inputs).length ≤ limit)
    (data : Bytes) :
    Answers (verifyPrivateTransferProof env (some limit) data inputs) fun _ => True := by
  refine answers_unless fun hlength => ?_
  refine answers_bind (answers_slice (by omega) (by omega)) fun magic _ => ?_
  refine answers_unless fun _ => ?_
  refine answers_bind (answers_slice (by omega) (by omega)) fun note _ => ?_
  refine answers_bind answers_tryArray fun noteSetRoot _ => ?_
  refine answers_unless fun _ => ?_
  refine answers_bind (answers_slice (by omega) (by omega)) fun state _ => ?_
  refine answers_bind answers_tryArray fun stateRoot _ => ?_
  refine answers_unless fun _ => ?_
  refine answers_unless fun _ => ?_
  refine answers_unless fun _ => ?_
  refine answers_bind (answers_sliceFrom (by omega)) fun inner _ => ?_
  refine answers_unless fun _ => ?_
  exact answers_reserve_bind_iff.mpr ⟨hlimit, verifyWinterfellProof_answers env⟩

theorem length_nullifierBytes_le {bytes : Bytes}
    (h : Bincode.deserialize privateTransferInputs bytes = some inputs) :
    (nullifierBytes inputs).length ≤ bytes.length := by
  refine Nat.le_trans ?_ (Bincode.of_deserialize _ h).2
  have hwrite : privateTransferInputs.write inputs
      = (leBytes 8 inputs.inputNullifiers.length ++ nullifierBytes inputs) ++ _ := rfl
  rw [hwrite, length_append, length_append]
  omega

/-! ## Aggregated proofs -/

theorem returns_reserveLevels {leaves : List Hash} (hlimit : 48 * (leaves.length + 1) ≤ limit) :
    Returns (reserveLevels env (some limit) leaves) () := by
  unfold reserveLevels
  split
  · rfl
  have hlevels := HashTrees.length_levels_le (joinHash env.hashData) leaves.length leaves
  rw [bind_of_returns (returns_reserve (by omega)), buildMerkleLevels]
  exact returns_reserve (by omega)

theorem length_chunks (data : Bytes) : (chunks data).length = (data.length + 1023) / 1024 := by
  rw [chunks, length_map, length_range]

/-- Behind the loop only the sum of the offset and the size can go wrong. -/
theorem checkEntries_answers_iff {size offset : Nat} {root : Hash} {hashes : List Hash}
    (hlimit : 2 * data.length ≤ limit) (hoffset : offset ≤ data.length)
    (hentries : 48 + 33 * hashes.length ≤ offset) :
    Answers (checkEntries env (some limit) data size root offset hashes) (fun _ => True) ↔
      (computeMerkleRoot env.hashData hashes = root → offset + size < UInt64.size) := by
  rw [checkEntries, bind_of_returns (returns_reserveLevels env (by omega))]
  by_cases hroot : computeMerkleRoot env.hashData hashes = root
  · rw [if_neg (not_not.mpr hroot), answers_found_bind_iff]
    constructor
    · rintro ⟨_, hstop, _⟩ _
      exact (fitsUsize_eq_some_iff.mp hstop).1
    · intro h
      refine ⟨_, fitsUsize_eq (h hroot), ?_⟩
      refine answers_unless fun hstop => ?_
      refine answers_bind (answers_slice (by omega) (by omega)) fun combined hcombined => ?_
      refine answers_reserve_bind_iff.mpr ⟨?_, ?_⟩
      · rw [length_chunks]
        omega
      · exact answers_unless fun _ => answers_pure trivial
  · rw [if_pos hroot]
    exact ⟨fun _ h => absurd h hroot, fun _ => answers_pure trivial⟩

/-- What the two numbers in the header of an aggregated proof must be. The
memory for the entries is within the limit, and where the entries can be read
and have the root of the header, the size does not lead past the end of its
type. -/
def HeaderInRange (limit : Nat) (data : Bytes) : Prop :=
  48 ≤ data.length → data.take 4 = AGGREGATED_MAGIC → numProofsOf data ≠ 0 →
    32 * numProofsOf data ≤ limit ∧
    ∀ offset hashes,
      Returns (readEntries data (numProofsOf data) 48 []) (some (offset, hashes)) →
      computeMerkleRoot env.hashData hashes = merkleRootOf data →
      offset + combinedSizeOf data < UInt64.size

theorem verifyAggregatedProof_answers_iff (hdata : data.length ≤ ISIZE_MAX)
    (hlimit : 2 * data.length ≤ limit) :
    Answers (verifyAggregatedProof env (some limit) data) (fun _ => True) ↔
      HeaderInRange env limit data := by
  by_cases hlength : 48 ≤ data.length
  · rw [verifyAggregatedProof_eq env _ _ hlength]
    split
    · rename_i hreject
      exact ⟨fun _ _ hmagic hcount => absurd hreject (by simp [hmagic, hcount]),
        fun _ => answers_pure trivial⟩
    rename_i hheader
    rw [not_or, not_not] at hheader
    rw [answers_reserve_bind_iff]
    have hentries := readEntries_answers hdata hlength (n := numProofsOf data) []
    have hcheck : ∀ offset hashes,
        Returns (readEntries data (numProofsOf data) 48 []) (some (offset, hashes)) →
        (Answers (checkEntries env (some limit) data (combinedSizeOf data) (merkleRootOf data)
          offset hashes) (fun _ => True) ↔
          (computeMerkleRoot env.hashData hashes = merkleRootOf data →
            offset + combinedSizeOf data < UInt64.size)) := by
      intro offset hashes hreturns
      obtain ⟨hoffset, hstart, hcount⟩ := hentries.of_returns hreturns offset hashes rfl
      refine checkEntries_answers_iff env hlimit hoffset ?_
      rw [hcount, length_nil, Nat.zero_add]
      exact hstart
    constructor
    · rintro ⟨hmemory, hanswers⟩ _ _ _
      refine ⟨hmemory, fun offset hashes hreturns => ?_⟩
      rw [bind_of_returns hreturns] at hanswers
      exact (hcheck offset hashes hreturns).mp hanswers
    · intro h
      obtain ⟨hmemory, hsum⟩ := h hlength hheader.1 hheader.2
      refine ⟨hmemory, ?_⟩
      rcases hentries.error_or_returns with ⟨e, he⟩ | ⟨result, hresult, _⟩
      · rw [he]
        exact answers_throw
      rw [bind_of_returns hresult]
      cases result with
      | none => exact answers_pure trivial
      | some entries =>
        exact (hcheck entries.1 entries.2 hresult).mpr (hsum entries.1 entries.2 hresult)
  · rw [verifyAggregatedProof, if_pos (by omega)]
    exact ⟨fun _ h => absurd h hlength, fun _ => answers_pure trivial⟩

/-! ## All types -/

/-- The verifier returns, with no request for memory above `K` times the size
of the input. -/
def Total (K : Nat) (proof : StarkProof) : Prop :=
  Answers (verify env (some (K * proof.inputSize)) proof) fun _ => True

variable {K : Nat}

theorem le_limit (hK : 2 ≤ K) (proof : StarkProof) :
    2 * proof.proofData.length ≤ K * proof.inputSize ∧
      2 * proof.publicInputs.length ≤ K * proof.inputSize := by
  have hmul : 2 * proof.inputSize ≤ K * proof.inputSize := Nat.mul_le_mul_right _ hK
  rw [StarkProof.inputSize] at hmul ⊢
  omega

/-- Of the public inputs of an aggregated proof only the length counts. -/
theorem total_aggregated_iff (hK : 2 ≤ K) {proof : StarkProof}
    (htype : proof.proofType = .aggregated ∨ proof.proofType = .recursive)
    (hinputs : proof.publicInputs.length ≤ MAX_PUBLIC_INPUTS_SIZE) :
    Total env K proof ↔ HeaderInRange env (K * proof.inputSize) proof.proofData := by
  have hverify : verify env (some (K * proof.inputSize)) proof
      = verifyAggregatedProof env (some (K * proof.inputSize)) proof.proofData := by
    rw [verify, if_neg (Nat.not_lt.mpr hinputs)]
    rcases htype with h | h <;> rw [h]
  rw [Total, hverify]
  exact verifyAggregatedProof_answers_iff env proof.proofData_le (le_limit hK proof).1

/-- Whatever the bytes of a proof, the verifier returns within a multiple of
their number, exactly if the header of an aggregated proof is in range. -/
theorem verify_total_iff (K : Nat) (hK : 2 ≤ K) (proof : StarkProof)
    (htype : proof.proofType ≠ .stateTransition) :
    Total env K proof ↔ (proof.proofType = .aggregated ∨ proof.proofType = .recursive →
        proof.publicInputs.length ≤ MAX_PUBLIC_INPUTS_SIZE →
        HeaderInRange env (K * proof.inputSize) proof.proofData) := by
  by_cases hinputs : proof.publicInputs.length ≤ MAX_PUBLIC_INPUTS_SIZE
  · by_cases haggregated : proof.proofType = .aggregated ∨ proof.proofType = .recursive
    · rw [total_aggregated_iff env hK haggregated hinputs]
      exact ⟨fun h _ _ => h, fun h => h haggregated hinputs⟩
    · refine ⟨fun _ h => absurd h haggregated, fun _ => ?_⟩
      rw [Total, verify, if_neg (Nat.not_lt.mpr hinputs)]
      cases hcase : proof.proofType with
      | stateTransition => exact absurd hcase htype
      | aggregated => exact absurd (.inl hcase) haggregated
      | recursive => exact absurd (.inr hcase) haggregated
      | crossShard =>
        refine answers_bind (answers_deserialize env) fun inputs _ => ?_
        exact verifyCrossShardProof_answers env
      | validatorTransition => exact verifyValidatorTransitionProof_answers env _
      | privateTransfer =>
        refine answers_bind (answers_deserialize env) fun inputs hread => ?_
        refine verifyPrivateTransferProof_answers env ?_ _
        have hnullifiers := length_nullifierBytes_le hread
        have hlimit := (le_limit hK proof).2
        omega
  · refine ⟨fun _ _ h => absurd h hinputs, fun _ => ?_⟩
    rw [Total, verify, if_pos (Nat.lt_of_not_le hinputs)]
    exact answers_throw

/-! ## Two headers -/

def samplePlatform : ZkPlatform Unit where
  hashData bytes := BitVec.ofNat 256 (leValue bytes)
  proofFromBytes _ := .ok ()
  starkVerify _ _ := false
  bincodeError := "io error: unexpected end of file"

/-- An aggregated proof without public inputs. -/
def sampleProof (data : Bytes) (h : data.length ≤ ISIZE_MAX) : StarkProof where
  id := 0
  proofType := .aggregated
  proofData := data
  publicInputs := []
  size := data.length
  generationTimeMs := 0
  verificationTimeUs := 0
  proofData_le := h
  publicInputs_le := by decide

/-- One entry, whose hash is the root, and a size of `u64::MAX`. -/
def overflowingProof : StarkProof :=
  sampleProof (AGGREGATED_MAGIC ++ leBytes 8 (2 ^ 64 - 1) ++ arrayBytes 0 ++ leBytes 4 1
    ++ arrayBytes 0 ++ [0]) (by decide)

/-- A header of 48 bytes that announces as many entries as it can. -/
def greedyProof : StarkProof :=
  sampleProof (AGGREGATED_MAGIC ++ leBytes 8 0 ++ arrayBytes 0 ++ leBytes 4 (2 ^ 32 - 1))
    (by decide)

/-- The first panics whatever the constant, the second asks for 128 GiB. -/
theorem hostile_headers_panic :
    (∀ K, 2 ≤ K → ¬ Total samplePlatform K overflowingProof) ∧
    ∀ K, 2 ≤ K → K < 2 ^ 31 → ¬ Total samplePlatform K greedyProof := by
  constructor
  · intro K hK htotal
    have hheader := (total_aggregated_iff samplePlatform hK (.inl rfl) (by decide)).mp htotal
    obtain ⟨_, hsum⟩ := hheader (by decide) (by decide) (by decide)
    have hsum := hsum 81 [0] (by decide +kernel) (by decide +kernel)
    exact absurd hsum (by decide)
  · intro K hK hlt htotal
    have hheader := (total_aggregated_iff samplePlatform hK (.inl rfl) (by decide)).mp htotal
    obtain ⟨hmemory, _⟩ := hheader (by decide) (by decide) (by decide)
    have hcount : numProofsOf greedyProof.proofData = 2 ^ 32 - 1 := by decide
    have hsize : greedyProof.inputSize = 48 := by decide
    rw [hcount, hsize] at hmemory
    omega

/-- The same header with a true count, one entry and no more data than there
is. -/
def modestProof : StarkProof :=
  sampleProof (AGGREGATED_MAGIC ++ leBytes 8 1 ++ arrayBytes 7 ++ leBytes 4 1
    ++ arrayBytes 7 ++ [0] ++ [7]) (by decide)

theorem modestProof_total : Total samplePlatform 2 modestProof := by
  refine (verify_total_iff samplePlatform 2 (by decide) modestProof (by decide)).mpr ?_
  intro _ _ _ _ _
  refine ⟨by decide, fun offset hashes hreturns _ => ?_⟩
  have hentries : Returns (readEntries modestProof.proofData
      (numProofsOf modestProof.proofData) 48 []) (some (81, [7])) := by decide +kernel
  cases hreturns.unique hentries
  decide

end Zk

end Quantos

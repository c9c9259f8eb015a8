import Quantos.MerklePaths
import Quantos.Platform
import Quantos.WeightedQuorum

/-!
# Aggregated and compact block signatures

`SignatureAggregator` of `crypto/signature_aggregation.rs`. The full form
keeps every signature with its path in a tree of commitments; the compact
form keeps the root of that tree and a bitmap of the signers, and is
checked against signatures obtained elsewhere.

Neither check does what it is for. `verify` looks at whether
`verify_ml_dsa_65` fails, which it never does, and not at its verdict, so
the tree is all that is checked. `verifyCompact` compares the quorum with
the number of bits set anywhere in the bitmap, while the signatures it
checks are those of the bits that stand for a committee member.

The verdict of `verify_ml_dsa_65` is `env.verifyMlDsa65`; what the cache in
front of it can do to that verdict is the subject of `VerifyCache`.
-/

namespace Quantos

open MerklePaths List

structure SignatureMerkleProof where
  path : List Hash
  /-- 0 for a node on the left of its sibling. -/
  indices : List UInt8

structure AggregatedSignature where
  root : Hash
  signatures : List Bytes
  merkleProofs : List SignatureMerkleProof
  publicKeys : List Bytes
  message : Bytes

inductive AggregationError
  | emptySignatures
  | lengthMismatch
  | tooManySignatures
  | invalidProof
deriving DecidableEq, Repr

/-- One bit per committee member, packed. -/
structure SignerBitmap where
  bits : Bytes
  committeeSize : UInt32

structure CompactBlockSignature where
  root : Hash
  signerBitmap : SignerBitmap
  signerCount : UInt32
  messageHash : Hash

structure SignatureAggregator where
  maxSignatures : Nat

namespace SignerBitmap

/-- `u8::count_ones`. -/
def countOnes (b : UInt8) : Nat := (List.range 8).countP fun j => b.toNat.testBit j

variable (bm : SignerBitmap)

/-- The number of bits set, wherever they stand. -/
def countSigners : Nat := (bm.bits.map countOnes).sum

/-- `none` where the byte the bit would be in is missing, and indexing the
vector panics. -/
def hasSigned (idx : Nat) : Option Bool :=
  if bm.committeeSize.toNat ≤ idx then some false
  else bm.bits[idx / 8]?.map fun b => b.toNat.testBit (idx % 8)

/-- The positions below `n` that have signed. -/
def signerIndices (n : Nat) : Option (List Nat) :=
  if (List.range n).any fun i => bm.hasSigned i = none then none
  else some ((List.range n).filter fun i => bm.hasSigned i = some true)

variable {signers : List Nat} {bm} {n : Nat}

theorem mem_signerIndices (h : bm.signerIndices n = some signers) {i : Nat} :
    i ∈ signers ↔ i < n ∧ bm.hasSigned i = some true := by
  unfold signerIndices at h
  split at h
  · cases h
  · obtain rfl := Option.some.inj h
    simp

theorem signerIndices_nodup (h : bm.signerIndices n = some signers) : signers.Nodup := by
  unfold signerIndices at h
  split at h
  · cases h
  · obtain rfl := Option.some.inj h
    exact nodup_range.filter _

end SignerBitmap

namespace SignatureAggregator

variable {V : Type} (env : Platform V) (aggregator : SignatureAggregator)

def computeCommitment (signature pubkey message : Bytes) : Hash :=
  env.hashData (signature ++ pubkey ++ message)

def hashPair (left right : Hash) : Hash := env.hashData (arrayBytes left ++ arrayBytes right)

def generateProof (leafIdx : Nat) (treeLevels : List (List Hash)) : SignatureMerkleProof :=
  let steps := siblings leafIdx treeLevels
  { path := steps.map Prod.fst, indices := steps.map fun step => UInt8.ofNat step.2 }

def buildMerkleTree (leaves : List Hash) : Hash × List SignatureMerkleProof :=
  match leaves with
  | [] => (0, [])
  | [leaf] => (leaf, [{ path := [], indices := [] }])
  | leaves =>
    let treeLevels := levels (hashPair env) leaves.length leaves
    ((top treeLevels).getD 0,
      (List.range leaves.length).map fun leafIdx => generateProof leafIdx treeLevels)

def verifyMerkleProof (leaf : Hash) (proof : SignatureMerkleProof) (root : Hash) : Bool :=
  (proof.path.zip proof.indices).foldl
    (fun current step =>
      if step.2 = 0 then hashPair env current step.1 else hashPair env step.1 current) leaf
    = root

variable (committeePks : List Bytes) (message : Bytes) (signatures : List Bytes)

def aggregate (publicKeys : List Bytes) (message : Bytes) :
    Except AggregationError AggregatedSignature :=
  if signatures.isEmpty then .error .emptySignatures
  else if signatures.length ≠ publicKeys.length then .error .lengthMismatch
  else if signatures.length > aggregator.maxSignatures then .error .tooManySignatures
  else
    let commitments :=
      (signatures.zip publicKeys).map fun entry => computeCommitment env entry.1 entry.2 message
    let (root, proofs) := buildMerkleTree env commitments
    .ok { root, signatures, merkleProofs := proofs, publicKeys, message }

/-- `verify_ml_dsa_65`: the verdict is wrapped in `Ok` on every path. -/
def verifyMlDsa65Result (publicKey message signature : Bytes) : Except String Bool :=
  .ok (env.verifyMlDsa65 publicKey message signature)

/-- The loop of `verify`. Only an `Err` of the signature check stops it. -/
def verifyEach (message : Bytes) (root : Hash) : List (Bytes × Bytes × SignatureMerkleProof) → Bool
  | [] => true
  | (signature, publicKey, proof) :: rest =>
    let commitment := computeCommitment env signature publicKey message
    if !verifyMerkleProof env commitment proof root then false
    else
      match verifyMlDsa65Result env publicKey message signature with
      | .error _ => false
      | .ok _ => verifyEach message root rest

def verify (agg : AggregatedSignature) : Except AggregationError Bool :=
  if agg.signatures.length ≠ agg.publicKeys.length then .error .lengthMismatch
  else if agg.signatures.length ≠ agg.merkleProofs.length then .error .lengthMismatch
  else
    .ok (verifyEach env agg.message agg.root
      (agg.signatures.zip (agg.publicKeys.zip agg.merkleProofs)))

/-- The quorum `verify_compact` asks for, before it is cast to `u32`. -/
def quorum (n : Nat) : Nat := n * 2 / 3 + 1

/-- `MlDsa65BatchVerifier::verify_all_valid`; in parallel from four items on. -/
def verifyAllValid (items : List (Bytes × Bytes × Bytes)) : Bool :=
  items.all fun (publicKey, message, signature) => env.verifyMlDsa65 publicKey message signature

/-- `None` stands for a panic, on a bitmap too short for the committee size
it names. -/
def verifyCompact (compact : CompactBlockSignature) (committeePks : List Bytes) (message : Bytes)
    (signatures : List Bytes) : Option (Except AggregationError Bool) :=
  if env.hashData message ≠ compact.messageHash then some (.ok false)
  else if compact.signerBitmap.countSigners ≠ compact.signerCount.toNat then some (.ok false)
  else if compact.signerCount < UInt32.ofNat (quorum committeePks.length) then some (.ok false)
  else
    match compact.signerBitmap.signerIndices committeePks.length with
    | none => none
    | some signerIndices =>
      if signerIndices.length ≠ signatures.length then some (.ok false)
      else
        let batchItems := (signerIndices.zip signatures).map fun (idx, signature) =>
          (committeePks.getD idx [], message, signature)
        if !verifyAllValid env batchItems then some (.ok false)
        else
          let commitments := (signerIndices.zip signatures).map fun (idx, signature) =>
            computeCommitment env signature (committeePks.getD idx []) message
          if (buildMerkleTree env commitments).1 ≠ compact.root then some (.ok false)
          else some (.ok true)

/-! ## The tree of an honest aggregate -/

theorem generateProof_zip (leafIdx : Nat) (treeLevels : List (List Hash)) :
    (generateProof leafIdx treeLevels).path.zip (generateProof leafIdx treeLevels).indices
      = (siblings leafIdx treeLevels).map fun step => (step.1, UInt8.ofNat step.2) := by
  simp only [generateProof, zip_map']

/-- The sides the tree writes are 0 and 1, which `as u8` keeps. -/
theorem side_lt_two {idx : Nat} {tree : List (List Hash)} {step : Hash × Nat}
    (h : step ∈ siblings idx tree) : step.2 < 2 := by
  fun_induction siblings idx tree with
  | case1 idx level above rest sibling hsibling ih =>
    rcases mem_cons.mp h with rfl | h
    · exact Nat.mod_lt idx Nat.zero_lt_two
    · exact ih h
  | case2 idx level above rest hsibling ih => exact ih h
  | case3 => simp at h

theorem verifyMerkleProof_generateProof (leaf root : Hash) (leafIdx : Nat)
    (treeLevels : List (List Hash)) :
    verifyMerkleProof env leaf (generateProof leafIdx treeLevels) root
      = decide (climb (hashPair env) leaf (siblings leafIdx treeLevels) = root) := by
  unfold verifyMerkleProof climb
  rw [generateProof_zip, foldl_map]
  congr 2
  refine foldl_ext _ _ _ fun current step hstep => ?_
  have hside := side_lt_two hstep
  have hzero : UInt8.ofNat step.2 = 0 ↔ step.2 = 0 := by
    rw [← UInt8.toNat_inj, UInt8.toNat_ofNat', Nat.mod_eq_of_lt (by omega)]
    rfl
  simp only [join, hzero]

/-- Every leaf of a tree has its proof at its own position, and the proof
leads to the root. -/
theorem buildMerkleTree_proofs (leaves : List Hash) :
    (buildMerkleTree env leaves).2.length = leaves.length ∧
      ∀ (i : Nat) leaf proof, leaves[i]? = some leaf →
        (buildMerkleTree env leaves).2[i]? = some proof →
        verifyMerkleProof env leaf proof (buildMerkleTree env leaves).1 = true := by
  match leaves with
  | [] => exact ⟨rfl, fun i leaf proof h => by simp at h⟩
  | [leaf] =>
    refine ⟨rfl, fun i leaf' proof hleaf hproof => ?_⟩
    rcases i with _ | i
    · simp only [buildMerkleTree, getElem?_cons_zero, Option.some.injEq] at hleaf hproof
      subst hleaf hproof
      simp [buildMerkleTree, verifyMerkleProof]
    · simp at hleaf
  | a :: b :: rest =>
    generalize hleaves : a :: b :: rest = leaves
    have hbuild : buildMerkleTree env leaves
        = ((top (levels (hashPair env) leaves.length leaves)).getD 0,
          (List.range leaves.length).map fun leafIdx =>
            generateProof leafIdx (levels (hashPair env) leaves.length leaves)) := by
      subst hleaves
      rfl
    rw [hbuild]
    refine ⟨by simp, fun i leaf proof hleaf hproof => ?_⟩
    have hi := (List.getElem?_eq_some_iff.mp hleaf).1
    rw [List.getElem?_map, List.getElem?_range hi, Option.map_some, Option.some.injEq] at hproof
    subst hproof
    rw [verifyMerkleProof_generateProof, climb_siblings (hashPair env) (Nat.le_succ ..) hleaf]
    simp

theorem verifyEach_eq_true {message : Bytes} {root : Hash}
    {entries : List (Bytes × Bytes × SignatureMerkleProof)} (h : ∀ entry ∈ entries,
      verifyMerkleProof env (computeCommitment env entry.1 entry.2.1 message) entry.2.2 root
        = true) :
    verifyEach env message root entries = true := by
  induction entries with
  | nil => rfl
  | cons entry entries ih =>
    obtain ⟨_, _, _⟩ := entry
    have hhead := h _ mem_cons_self
    have hrest := ih fun entry hentry => h entry (mem_cons_of_mem _ hentry)
    simpa [verifyEach, verifyMlDsa65Result, hhead] using hrest

/-- Whatever is aggregated is accepted. -/
theorem exists_aggregate_verify {signatures publicKeys : List Bytes} (message : Bytes)
    (hne : signatures ≠ []) (hlength : signatures.length = publicKeys.length)
    (hmax : signatures.length ≤ aggregator.maxSignatures) :
    ∃ agg, aggregate env aggregator signatures publicKeys message = .ok agg ∧
      verify env agg = .ok true := by
  set commitments := (signatures.zip publicKeys).map fun entry =>
    computeCommitment env entry.1 entry.2 message with hcommitments
  have haggregate : aggregate env aggregator signatures publicKeys message
      = .ok { root := (buildMerkleTree env commitments).1, signatures,
              merkleProofs := (buildMerkleTree env commitments).2, publicKeys, message } := by
    unfold aggregate
    rw [if_neg (by simpa using hne), if_neg (by simpa using hlength), if_neg (by omega)]
  refine ⟨_, haggregate, ?_⟩
  obtain ⟨hproofs, hvalid⟩ := buildMerkleTree_proofs env commitments
  have hcount : commitments.length = signatures.length := by
    simp [hcommitments, hlength]
  unfold verify
  rw [if_neg (by simpa using hlength), if_neg (by simp [hproofs, hcount])]
  refine congrArg _ (verifyEach_eq_true env ?_)
  rintro ⟨signature, publicKey, proof⟩ hentry
  obtain ⟨i, hi⟩ := mem_iff_getElem?.mp hentry
  rw [getElem?_zip_eq_some, getElem?_zip_eq_some] at hi
  refine hvalid i _ proof ?_ hi.2.2
  have hpair : (signatures.zip publicKeys)[i]? = some (signature, publicKey) :=
    getElem?_zip_eq_some.mpr ⟨hi.1, hi.2.1⟩
  rw [hcommitments, getElem?_map, hpair]
  rfl

/-- `verify` answers as the signatures deserve if and only if all of them
are valid: it accepts the aggregate in either case. -/
theorem verify_aggregate_iff (signatures publicKeys : List Bytes) (message : Bytes)
    (hne : signatures ≠ []) (hlength : signatures.length = publicKeys.length)
    (hmax : signatures.length ≤ aggregator.maxSignatures) :
    ((∃ agg, aggregate env aggregator signatures publicKeys message = .ok agg ∧
        verify env agg = .ok true)
      ↔ ∀ entry ∈ signatures.zip publicKeys, env.verifyMlDsa65 entry.2 message entry.1 = true)
      ↔ ∀ entry ∈ signatures.zip publicKeys, env.verifyMlDsa65 entry.2 message entry.1 = true := by
  have haccepted := exists_aggregate_verify env aggregator message hne hlength hmax
  exact ⟨fun h => h.mp haccepted, fun h => ⟨fun _ => h, fun _ => haccepted⟩⟩

theorem verify_aggregate_three_valid :
    (∃ agg, aggregate Platform.sample ⟨3⟩ [[1], [2], [3]] [[4], [5], [6]] [7] = .ok agg ∧
        verify Platform.sample agg = .ok true)
      ↔ ∀ entry ∈ ([[1], [2], [3]] : List Bytes).zip [[4], [5], [6]],
        Platform.sample.verifyMlDsa65 entry.2 [7] entry.1 = true :=
  (verify_aggregate_iff Platform.sample ⟨3⟩ [[1], [2], [3]] [[4], [5], [6]] [7] (by decide)
    (by decide) (by decide)).mpr (by decide)

/-- A platform on which nothing verifies: the aggregate is accepted. -/
theorem verify_aggregate_of_invalid : ∃ env : Platform Unit, (∀ publicKey message signature,
        env.verifyMlDsa65 publicKey message signature = false) ∧
      ∃ agg, aggregate env ⟨1⟩ [[1]] [[2]] [3] = .ok agg ∧ verify env agg = .ok true := by
  refine ⟨{ Platform.sample with verifyMlDsa65 := fun _ _ _ => false }, fun _ _ _ => rfl, _, rfl,
    ?_⟩
  decide

/-! ## The signers of a compact signature -/

/-- A signature of the list is valid for the message under the key of
position `i`. -/
def Signed (i : Nat) : Prop :=
  ∃ signature ∈ signatures, env.verifyMlDsa65 (committeePks.getD i []) message signature = true

instance : DecidablePred (Signed env committeePks message signatures) :=
  fun i => inferInstanceAs (Decidable (∃ signature ∈ signatures,
    env.verifyMlDsa65 (committeePks.getD i []) message signature = true))

/-- The checks `verify_compact` makes, in its order. -/
structure PassesChecks (compact : CompactBlockSignature) (committeePks : List Bytes)
    (message : Bytes) (signatures : List Bytes) (signers : List Nat) : Prop where
  messageHash : env.hashData message = compact.messageHash
  popcount : compact.signerBitmap.countSigners = compact.signerCount.toNat
  enough : UInt32.ofNat (quorum committeePks.length) ≤ compact.signerCount
  indices : compact.signerBitmap.signerIndices committeePks.length = some signers
  lengths : signers.length = signatures.length
  valid : ∀ entry ∈ signers.zip signatures,
    env.verifyMlDsa65 (committeePks.getD entry.1 []) message entry.2 = true
  root : (buildMerkleTree env ((signers.zip signatures).map fun entry =>
    computeCommitment env entry.2 (committeePks.getD entry.1 []) message)).1 = compact.root

theorem ite_refuse_iff {c : Prop} [Decidable c] {x : Option (Except AggregationError Bool)} :
    (if c then some (.ok false) else x) = some (.ok true) ↔ ¬ c ∧ x = some (.ok true) := by
  by_cases hc : c <;> simp [hc]

theorem verifyCompact_eq_ok_true_iff {compact : CompactBlockSignature} {committeePks : List Bytes}
    {message : Bytes} {signatures : List Bytes} :
    verifyCompact env compact committeePks message signatures = some (.ok true)
      ↔ ∃ signers, PassesChecks env compact committeePks message signatures signers := by
  unfold verifyCompact
  rw [ite_refuse_iff, ite_refuse_iff, ite_refuse_iff]
  constructor
  · rintro ⟨hhash, hcount, hquorum, h⟩
    rcases hsigners : compact.signerBitmap.signerIndices committeePks.length with _ | signers
    · rw [hsigners] at h
      cases h
    rw [hsigners] at h
    simp only [ite_refuse_iff] at h
    obtain ⟨hlengths, hvalid, hroot, -⟩ := h
    refine ⟨signers, not_not.mp hhash, not_not.mp hcount, UInt32.not_lt.mp hquorum, hsigners,
      not_not.mp hlengths, ?_, not_not.mp hroot⟩
    simpa [verifyAllValid] using hvalid
  · rintro ⟨signers, h⟩
    refine ⟨not_not.mpr h.messageHash, not_not.mpr h.popcount, UInt32.not_lt.mpr h.enough, ?_⟩
    rw [h.indices]
    simp only [ite_refuse_iff]
    refine ⟨not_not.mpr h.lengths, ?_, not_not.mpr h.root, trivial⟩
    simpa [verifyAllValid] using h.valid

variable {env} in
/-- Behind every marked position stands its own signature of the list. -/
theorem PassesChecks.signed {compact : CompactBlockSignature} {committeePks : List Bytes}
    {message : Bytes} {signatures : List Bytes} {signers : List Nat}
    (h : PassesChecks env compact committeePks message signatures signers) {i : Nat}
    (hi : i ∈ signers) :
    i < committeePks.length ∧ Signed env committeePks message signatures i := by
  refine ⟨((SignerBitmap.mem_signerIndices h.indices).mp hi).1, ?_⟩
  obtain ⟨k, hk⟩ := List.mem_iff_getElem?.mp hi
  have hk' : k < signatures.length := h.lengths ▸ (List.getElem?_eq_some_iff.mp hk).1
  have hentry : (i, signatures[k]) ∈ signers.zip signatures :=
    mem_iff_getElem?.mpr
      ⟨k, getElem?_zip_eq_some.mpr ⟨hk, getElem?_eq_getElem hk'⟩⟩
  exact ⟨signatures[k], getElem_mem hk', h.valid _ hentry⟩

/-- Positions whose bit is not among the counted ones, and whose key still
verifies one of the signatures. -/
def unmarkedSigned (committeePks : List Bytes) (message : Bytes) (signatures : List Bytes)
    (signers : List Nat) : Finset Nat :=
  (Finset.range committeePks.length).filter fun i =>
    i ∉ signers ∧ Signed env committeePks message signatures i

variable {env} in
theorem PassesChecks.card_signed {compact : CompactBlockSignature} {committeePks : List Bytes}
    {message : Bytes} {signatures : List Bytes} {signers : List Nat}
    (h : PassesChecks env compact committeePks message signatures signers) :
    ((Finset.range committeePks.length).filter (Signed env committeePks message signatures)).card
      = signers.length + (unmarkedSigned env committeePks message signatures signers).card := by
  have hmarked : (Finset.range committeePks.length).filter (· ∈ signers) = signers.toFinset := by
    ext i
    rw [Finset.mem_filter, Finset.mem_range, mem_toFinset]
    exact ⟨fun hi => hi.2, fun hi => ⟨(h.signed hi).1, hi⟩⟩
  rw [WeightedQuorum.card_filter_of_imp fun i _ hi => (h.signed hi).2, hmarked,
    toFinset_card_of_nodup (SignerBitmap.signerIndices_nodup h.indices)]
  rfl

/-- An accepted compact signature has a quorum of signers if and only if
the marked committee members, with those other members whose key verifies
one of the signatures, are a quorum. -/
theorem verifyCompact_sound_iff (compact : CompactBlockSignature) (committeePks : List Bytes)
    (message : Bytes) (signatures : List Bytes) :
    (verifyCompact env compact committeePks message signatures = some (.ok true) →
      ∃ positions : Finset Nat, quorum committeePks.length ≤ positions.card ∧
        ∀ i ∈ positions, i < committeePks.length ∧ Signed env committeePks message signatures i)
      ↔ ∀ signers, PassesChecks env compact committeePks message signatures signers →
          quorum committeePks.length ≤ signers.length
            + (unmarkedSigned env committeePks message signatures signers).card := by
  rw [verifyCompact_eq_ok_true_iff]
  constructor
  · intro hsound signers hchecks
    obtain ⟨positions, hcard, hpositions⟩ := hsound ⟨signers, hchecks⟩
    have hsubset : positions ⊆ (Finset.range committeePks.length).filter
        (Signed env committeePks message signatures) := by
      intro i hi
      rw [Finset.mem_filter, Finset.mem_range]
      exact hpositions i hi
    exact hchecks.card_signed ▸ hcard.trans (Finset.card_le_card hsubset)
  · rintro hcondition ⟨signers, hchecks⟩
    refine ⟨(Finset.range committeePks.length).filter
      (Signed env committeePks message signatures), ?_, ?_⟩
    · exact hchecks.card_signed.symm ▸ hcondition signers hchecks
    · intro i hi
      rw [Finset.mem_filter, Finset.mem_range] at hi
      exact hi

/-- Three bits set for a committee of size 0: a committee of four is said
to have signed, with no signature at all and a platform on which nothing
verifies. -/
theorem verifyCompact_without_signatures :
    verifyCompact { Platform.sample with verifyMlDsa65 := fun _ _ _ => false }
        { root := 0, signerBitmap := { bits := [7], committeeSize := 0 }, signerCount := 3,
          messageHash := digitHash [1] } [[1], [2], [3], [4]] [1] [] = some (.ok true) ∧
      ¬ ∃ positions : Finset Nat, quorum 4 ≤ positions.card ∧
        ∀ i ∈ positions, i < 4 ∧
          Signed { Platform.sample with verifyMlDsa65 := fun _ _ _ => false }
            [[1], [2], [3], [4]] [1] [] i := by
  refine ⟨by decide, ?_⟩
  rintro ⟨positions, hcard, hpositions⟩
  have hempty : positions = ∅ := by
    refine Finset.eq_empty_of_forall_notMem fun i hi => ?_
    obtain ⟨_, hmem, -⟩ := (hpositions i hi).2
    simp at hmem
  subst hempty
  simp [quorum] at hcard

end SignatureAggregator

end Quantos

import Quantos.HostileProofs
import Quantos.MerkleProofs

/-!
# Aggregation

`aggregate_proofs` of `zk/mod.rs` concatenates the data of its proofs, cuts
it into chunks and puts the hashes of the chunks with their Merkle paths in
front of it. What `verify` checks of the result is that the data has these
hashes and the hashes that root. The proofs inside are not looked at, so the
check succeeds for whatever data there is (`accepts_aggregate_iff`), unless
there is none or more than the count of chunks can say.
-/

namespace Quantos

open Panics Codecs HashTrees List Nat

namespace Zk

variable {P : Type} (env : ZkPlatform P)

/-! ## Merkle paths -/

/-- The walk of `compute_merkle_path` over the levels below the root. -/
def pathFrom : List (List Hash) → Nat → Option (List Hash)
  | [], _ => some []
  | level :: levels, currentIndex => do
    let siblingIndex := if currentIndex % 2 = 0 then currentIndex + 1 else currentIndex - 1
    let sibling ← level[if siblingIndex < level.length then siblingIndex else currentIndex]?
    let path ← pathFrom levels (currentIndex / 2)
    pure (sibling :: path)

/-- Nothing where an index is out of range. -/
def computeMerklePath (hashData : Bytes → Hash) (leaves : List Hash) (index : Nat) :
    Option (List Hash) :=
  if leaves.length ≤ 1 then some []
  else pathFrom (buildMerkleLevels hashData leaves).dropLast index

variable {level : List Hash} {k index : Nat}

theorem pathFrom_levels (hashData : Bytes → Hash) (rounds : Nat) (h : index < level.length) :
    ∃ path, pathFrom (levels (joinHash hashData) rounds level).dropLast index = some path ∧
      path.length + 1 = (levels (joinHash hashData) rounds level).length := by
  induction rounds generalizing level index with
  | zero => exact ⟨[], rfl, rfl⟩
  | succ rounds ih =>
    unfold levels
    split
    · exact ⟨[], rfl, rfl⟩
    · have hindex : index / 2 < (levelUp (joinHash hashData) level).length := by
        rw [length_levelUp]
        omega
      obtain ⟨path, hpath, hlength⟩ := ih hindex
      rw [dropLast_cons_of_ne_nil (levels_ne_nil _ _ _), pathFrom]
      generalize (if index % 2 = 0 then index + 1 else index - 1) = siblingIndex
      have hlt : (if siblingIndex < level.length then siblingIndex else index)
          < level.length := by
        split <;> assumption
      rw [getElem?_eq_getElem hlt, hpath]
      exact ⟨_, rfl, congrArg (· + 1) hlength⟩

theorem computeMerklePath_spec (hashData : Bytes → Hash) {leaves : List Hash}
    (hleaves : leaves.length ≤ 2 ^ k) (h : index < leaves.length) :
    ∃ path, computeMerklePath hashData leaves index = some path ∧ path.length ≤ k := by
  unfold computeMerklePath
  split
  · exact ⟨[], rfl, zero_le k⟩
  obtain ⟨path, hpath, _⟩ := pathFrom_levels hashData leaves.length h
  have hlevels := length_levels_le_log (joinHash hashData) leaves.length hleaves
  exact ⟨path, hpath, by omega⟩

/-! ## The aggregate -/

/-- The entry of a chunk: its hash, the length of its path and the path. -/
def entryBytes (chunkHash : Hash) (merklePath : List Hash) : Bytes :=
  arrayBytes chunkHash ++ leBytes 1 merklePath.length ++ merklePath.flatMap arrayBytes

def headerBytes (combinedData : Bytes) (hashes : List Hash) : Bytes :=
  AGGREGATED_MAGIC ++ leBytes 8 combinedData.length
    ++ arrayBytes (computeMerkleRoot env.hashData hashes) ++ leBytes 4 hashes.length

def generateAggregatedProof (combinedData : Bytes) : Call ZkError Bytes := do
  let hashes := chunkHashes env.hashData combinedData
  let entries ← found (hashes.zipIdx.mapM fun (chunkHash, i) =>
    (computeMerklePath env.hashData hashes i).map (entryBytes chunkHash))
  pure (headerBytes env combinedData hashes ++ entries.flatten ++ combinedData)

/-- A vector of bytes, whose length is at most that of a vector. -/
def tryVec {ε : Type} (bytes : Bytes) : Call ε { bytes : Bytes // bytes.length ≤ ISIZE_MAX } :=
  found (if h : bytes.length ≤ ISIZE_MAX then some ⟨bytes, h⟩ else none)

def estimateVerificationTime (proofSize : Nat) : UInt64 :=
  UInt64.ofNat (100 + proofSize / 1024 * 50)

variable (proofs : List StarkProof)

def combinedData : Bytes := proofs.flatMap StarkProof.proofData

/-- The public inputs of the proofs, as `Vec<Vec<u8>>`. -/
def combinedInputs : Bytes :=
  (Bincode.vec (Bincode.vec Bincode.u8)).write (proofs.map StarkProof.publicInputs)

/-- The time it took is read off a clock. -/
def aggregateProofs (generationTimeMs : UInt64) (proofs : List StarkProof) :
    Call ZkError StarkProof :=
  if proofs.isEmpty then throw .emptyProofList
  else do
    let aggregatedData ← tryVec (← generateAggregatedProof env (combinedData proofs))
    let publicInputs ← tryVec (combinedInputs proofs)
    pure
      { id := env.hashData aggregatedData.val
        proofType := .aggregated
        proofData := aggregatedData.val
        publicInputs := publicInputs.val
        size := aggregatedData.val.length
        generationTimeMs
        verificationTimeUs := estimateVerificationTime aggregatedData.val.length
        proofData_le := aggregatedData.property
        publicInputs_le := publicInputs.property }

/-! ## What the aggregate looks like -/

/-- A hash with a path that the verifier takes. -/
def IsEntry (chunkHash : Hash) (bytes : Bytes) : Prop :=
  ∃ path : List Hash, path.length ≤ MAX_MERKLE_PATH_DEPTH ∧ bytes = entryBytes chunkHash path

variable {β α : Type} {R : α → β → Prop} {as : List α}

theorem mapM_found {f : α → Option β} (h : ∀ a ∈ as, ∃ b, f a = some b ∧ R a b) :
    ∃ bs, as.mapM f = some bs ∧ List.Forall₂ R as bs := by
  induction as with
  | nil => exact ⟨[], rfl, .nil⟩
  | cons a as ih =>
    rw [forall_mem_cons] at h
    obtain ⟨b, hb, hR⟩ := h.1
    obtain ⟨bs, hbs, hRs⟩ := ih h.2
    refine ⟨b :: bs, ?_, .cons hR hRs⟩
    rw [mapM_cons, hb, hbs]
    rfl

theorem forall₂_of_zipIdx {bs : List β} (h : List.Forall₂ (fun a b => R a.1 b) (as.zipIdx k) bs) :
    List.Forall₂ R as bs := by
  have hmap := forall₂_map_left_iff (f := Prod.fst).mpr h
  rwa [zipIdx_map_fst] at hmap

variable {combined : Bytes}

/-- The aggregate of `combined`, with `embedded` in its place. -/
def aggregateBytes (combined : Bytes) (entries : List Bytes) (embedded : Bytes) : Bytes :=
  headerBytes env combined (chunkHashes env.hashData combined) ++ (entries.flatten ++ embedded)

/-- The generator does not panic: it writes a header, an entry for each chunk
and the data. -/
theorem generateAggregatedProof_eq (hchunks : (chunkHashes env.hashData combined).length ≤ 2 ^ 64) :
    ∃ entries, List.Forall₂ IsEntry (chunkHashes env.hashData combined) entries ∧
      generateAggregatedProof env combined = pure
        (aggregateBytes env combined entries combined) := by
  unfold aggregateBytes
  generalize hhashes : chunkHashes env.hashData combined = hashes at hchunks
  have hpaths : ∀ pair ∈ hashes.zipIdx, ∃ bytes,
      (computeMerklePath env.hashData hashes pair.2).map (entryBytes pair.1) = some bytes ∧
        IsEntry pair.1 bytes := by
    rintro ⟨_, i⟩ hmem
    obtain ⟨path, hpath, hlength⟩ :=
      computeMerklePath_spec env.hashData hchunks (snd_lt_of_mem_zipIdx hmem)
    exact ⟨_, congrArg (Option.map _) hpath, path, hlength, rfl⟩
  obtain ⟨entries, hentries, hall⟩ := mapM_found hpaths
  refine ⟨entries, forall₂_of_zipIdx hall, ?_⟩
  rw [generateAggregatedProof, hhashes]
  rw [hentries, found_some_bind, append_assoc]

theorem length_entryBytes {chunkHash : Hash} {path : List Hash} :
    (entryBytes chunkHash path).length = 33 + path.length * 32 := by
  rw [entryBytes, length_append, length_append, length_arrayBytes, length_leBytes,
    length_flatMap_of_width length_arrayBytes]

variable {data rest : Bytes} {offset : Nat} {chunkHash : Hash} {path : List Hash}

theorem hashAt_entry (h : data.drop offset = entryBytes chunkHash path ++ rest) :
    hashAt data offset = chunkHash := by
  rw [hashAt, h, entryBytes, append_assoc, append_assoc,
    take_left' (length_arrayBytes chunkHash), arrayOfBytes_arrayBytes]

theorem pathLenAt_entry (hpath : path.length ≤ MAX_MERKLE_PATH_DEPTH)
    (h : data.drop offset = entryBytes chunkHash path ++ rest) :
    pathLenAt data offset = path.length := by
  have hbyte : data[offset + 32]? = some (UInt8.ofNat path.length) := by
    rw [← getElem?_drop, h, entryBytes, append_assoc, append_assoc,
      getElem?_append_right (by rw [length_arrayBytes]), length_arrayBytes]
    rfl
  rw [pathLenAt, getD_eq_getElem?_getD, hbyte, Option.getD_some, UInt8.toNat_ofNat']
  exact mod_eq_of_lt (lt_of_le_of_lt hpath (by decide))

variable {entries : List Bytes} {hashes : List Hash}

theorem readEntries_entries (hdata : data.length ≤ ISIZE_MAX)
    (h : List.Forall₂ IsEntry hashes entries) (hoffset : offset ≤ data.length)
    (hdrop : data.drop offset = entries.flatten ++ rest) (seen : List Hash) :
    Returns (readEntries data hashes.length offset seen)
      (some (offset + entries.flatten.length, seen ++ hashes)) := by
  induction h generalizing offset seen with
  | nil =>
    rw [append_nil]
    rfl
  | @cons chunkHash entry hashes entries hentry _ ih =>
    obtain ⟨path, hpath, rfl⟩ := hentry
    rw [flatten_cons, append_assoc] at hdrop
    have hlength := congrArg List.length hdrop
    rw [length_drop, length_append, length_entryBytes] at hlength
    have hnext : data.drop (offset + 33 + path.length * 32) = entries.flatten ++ rest := by
      rw [add_assoc, ← drop_drop, hdrop, drop_left' length_entryBytes]
    rw [length_cons, readEntries_succ hdata hoffset, pathLenAt_entry hpath hdrop,
      hashAt_entry hdrop, if_neg (by omega), if_neg (not_lt.mpr hpath), if_neg (by omega)]
    have hread := ih (by omega) hnext (seen ++ [chunkHash])
    rw [append_assoc, singleton_append] at hread
    have hstop : offset + 33 + path.length * 32 + entries.flatten.length
        = offset + (33 + path.length * 32 + entries.flatten.length) := by omega
    rw [flatten_cons, length_append, length_entryBytes, ← hstop]
    exact hread

/-! ## The fields of the header -/

section Header

variable {env}

theorem length_headerBytes : (headerBytes env combined hashes).length = 48 := by
  simp only [headerBytes, length_append, length_leBytes, length_arrayBytes]
  rfl

theorem take_header : (headerBytes env combined hashes ++ rest).take 4 = AGGREGATED_MAGIC := by
  rw [headerBytes, append_assoc, append_assoc, append_assoc]
  exact take_left' rfl

theorem combinedSizeOf_header :
    combinedSizeOf (headerBytes env combined hashes ++ rest) = combined.length % 256 ^ 8 := by
  have hlength : AGGREGATED_MAGIC.length = 4 := rfl
  rw [combinedSizeOf, headerBytes, append_assoc, append_assoc, append_assoc,
    drop_left' hlength, take_left' (length_leBytes 8 _), leValue_leBytes]

theorem merkleRootOf_header : merkleRootOf (headerBytes env combined hashes ++ rest)
      = computeMerkleRoot env.hashData hashes := by
  have hlength : (AGGREGATED_MAGIC ++ leBytes 8 combined.length).length = 12 := by
    rw [length_append, length_leBytes]
    rfl
  rw [merkleRootOf, headerBytes, append_assoc, append_assoc, drop_left' hlength,
    take_left' (length_arrayBytes _), arrayOfBytes_arrayBytes]

theorem numProofsOf_header :
    numProofsOf (headerBytes env combined hashes ++ rest) = hashes.length % 256 ^ 4 := by
  have hlength : (AGGREGATED_MAGIC ++ leBytes 8 combined.length
      ++ arrayBytes (computeMerkleRoot env.hashData hashes)).length = 44 := by
    rw [length_append, length_append, length_leBytes, length_arrayBytes]
    rfl
  rw [numProofsOf, headerBytes, append_assoc, drop_left' hlength,
    take_left' (length_leBytes 4 _), leValue_leBytes]

end Header

/-! ## What the verifier checks -/

theorem zip_all_beq_iff {as bs : List Hash} (h : as.length = bs.length) :
    ((as.zip bs).all fun (a, b) => a == b) = true ↔ as = bs := by
  induction as generalizing bs with
  | nil =>
    cases bs with
    | nil => simp
    | cons => cases h
  | cons a as ih =>
    cases bs with
    | nil => cases h
    | cons =>
      rw [zip_cons_cons, all_cons, Bool.and_eq_true, beq_iff_eq,
        ih (Nat.succ.inj h), List.cons.injEq]

theorem returns_reserveLevels_none {leaves : List Hash} :
    Returns (reserveLevels env none leaves) () := by
  unfold reserveLevels
  split <;> rfl

section

variable (hdata : data.length ≤ ISIZE_MAX)

include hdata

theorem checkEntries_eq {size : Nat} (hend : offset + size ≤ data.length) :
    checkEntries env none data size (computeMerkleRoot env.hashData hashes) offset hashes
      = pure (decide (chunkHashes env.hashData ((data.drop offset).take size) = hashes)) := by
  have hfits : offset + size < UInt64.size := lt_of_le_of_lt (le_trans hend hdata) (by decide)
  rw [checkEntries, bind_of_returns (returns_reserveLevels_none env), if_neg (not_not.mpr rfl),
    fitsUsize_eq hfits, found_some_bind, if_neg (Nat.not_lt.mpr hend),
    slice_eq (Nat.le_add_right _ _) hend, found_some_bind, Nat.add_sub_cancel_left,
    reserve_none_bind]
  generalize chunkHashes env.hashData ((data.drop offset).take size) = actual
  by_cases hlength : actual.length = hashes.length
  · rw [if_neg (not_not.mpr hlength)]
    exact congrArg pure (Bool.eq_iff_iff.mpr
      ((zip_all_beq_iff hlength).trans decide_eq_true_iff.symm))
  · rw [if_pos hlength, decide_eq_false fun h => hlength (congrArg List.length h)]

theorem of_returns_checkEntries {size : Nat} {root : Hash}
    (h : Returns (checkEntries env none data size root offset hashes) true) :
    offset + size ≤ data.length ∧
      chunkHashes env.hashData ((data.drop offset).take size) = hashes := by
  by_cases hend : offset + size ≤ data.length
  · by_cases hroot : computeMerkleRoot env.hashData hashes = root
    · subst hroot
      rw [checkEntries_eq env hdata hend, returns_pure_iff, decide_eq_true_iff] at h
      exact ⟨hend, h⟩
    rw [checkEntries, bind_of_returns (returns_reserveLevels_none env), if_pos hroot] at h
    exact absurd (returns_pure_iff.mp h) Bool.false_ne_true
  · rw [checkEntries, bind_of_returns (returns_reserveLevels_none env)] at h
    split at h
    · exact absurd (returns_pure_iff.mp h) Bool.false_ne_true
    obtain ⟨_, hstop, h⟩ := returns_bind h
    obtain ⟨_, rfl⟩ := fitsUsize_eq_some_iff.mp (returns_found hstop)
    rw [if_pos (Nat.lt_of_not_le hend)] at h
    exact absurd (returns_pure_iff.mp h) Bool.false_ne_true

/-- Size and hashes, and nothing about what the data is. -/
theorem of_returns_verifyAggregatedProof (hlength : 48 ≤ data.length)
    (h : Returns (verifyAggregatedProof env none data) true) :
    numProofsOf data ≠ 0 ∧ ∃ offset hashes,
      Returns (readEntries data (numProofsOf data) 48 []) (some (offset, hashes)) ∧
      offset + combinedSizeOf data ≤ data.length ∧
      chunkHashes env.hashData ((data.drop offset).take (combinedSizeOf data)) = hashes := by
  rw [verifyAggregatedProof_eq env none _ hlength] at h
  split at h
  · exact absurd (returns_pure_iff.mp h) Bool.false_ne_true
  rename_i hheader
  rw [reserve_none_bind] at h
  obtain ⟨entries, hentries, h⟩ := returns_bind h
  cases entries with
  | none => exact absurd (returns_pure_iff.mp h) Bool.false_ne_true
  | some entries =>
    exact ⟨(not_or.mp hheader).2, entries.1, entries.2, hentries,
      of_returns_checkEntries env hdata h⟩

end

theorem length_chunkHashes (hashData : Bytes → Hash) (data : Bytes) :
    (chunkHashes hashData data).length = (data.length + 1023) / 1024 := by
  rw [chunkHashes, length_map, length_chunks]

section Embedded

variable {embedded : Bytes} (hlength : embedded.length = combined.length)

include hlength

theorem length_aggregateBytes (entries : List Bytes) :
    (aggregateBytes env combined entries embedded).length
      = 48 + (entries.flatten.length + combined.length) := by
  rw [aggregateBytes, length_append, length_headerBytes, length_append, hlength]

variable (hdata : (aggregateBytes env combined entries embedded).length ≤ ISIZE_MAX)

include hdata

theorem combinedSizeOf_aggregateBytes :
    combinedSizeOf (aggregateBytes env combined entries embedded) = combined.length := by
  have : ISIZE_MAX < 256 ^ 8 := by decide
  rw [length_aggregateBytes env hlength] at hdata
  rw [aggregateBytes, combinedSizeOf_header]
  exact mod_eq_of_lt (by omega)

/-- What is behind the entries is accepted if it has the hashes of what was
there. -/
theorem verifyAggregatedProof_aggregateBytes
    (hentries : List.Forall₂ IsEntry (chunkHashes env.hashData combined) entries)
    (hne : combined ≠ []) (hlt : (chunks combined).length < 2 ^ 32) :
    Returns (verifyAggregatedProof env none (aggregateBytes env combined entries embedded))
      (decide (chunkHashes env.hashData embedded = chunkHashes env.hashData combined)) := by
  have hsize := combinedSizeOf_aggregateBytes env hlength hdata
  have hlong := length_aggregateBytes env hlength entries
  have hcount : numProofsOf (aggregateBytes env combined entries embedded)
      = (chunkHashes env.hashData combined).length := by
    rw [aggregateBytes, numProofsOf_header, chunkHashes, length_map]
    exact mod_eq_of_lt hlt
  have hdrop : (aggregateBytes env combined entries embedded).drop 48
      = entries.flatten ++ embedded := drop_left' length_headerBytes
  have hpos : (chunkHashes env.hashData combined).length ≠ 0 := by
    have := length_pos_iff.mpr hne
    rw [length_chunkHashes]
    omega
  rw [verifyAggregatedProof_eq env none _ (by omega), hcount, hsize, aggregateBytes, take_header,
    merkleRootOf_header, ← aggregateBytes, if_neg (not_or.mpr ⟨not_not.mpr rfl, hpos⟩),
    reserve_none_bind, bind_of_returns (readEntries_entries hdata hentries (by omega) hdrop [])]
  dsimp only
  rw [nil_append, checkEntries_eq env hdata (by omega), ← drop_drop, hdrop, drop_left, ← hlength,
    take_length]
  rfl

end Embedded

/-- What was generated is accepted, as long as there are chunks and they can
be counted. -/
theorem accepts_generated_iff
    (hentries : List.Forall₂ IsEntry (chunkHashes env.hashData combined) entries)
    (hdata : (aggregateBytes env combined entries combined).length ≤ ISIZE_MAX) :
    Returns (verifyAggregatedProof env none (aggregateBytes env combined entries combined)) true ↔
      combined ≠ [] ∧ (chunks combined).length < 2 ^ 32 := by
  constructor
  · have hlong := length_aggregateBytes env (Eq.refl combined.length) entries
    intro h
    obtain ⟨hne, offset, hashes, hread, hend, hchunks⟩ :=
      of_returns_verifyAggregatedProof env hdata (by omega) h
    rw [combinedSizeOf_aggregateBytes env rfl hdata] at hend hchunks
    have hread := ((readEntries_answers hdata (by omega) []).of_returns hread offset hashes rfl).2.2
    rw [← hchunks, length_chunkHashes, length_window hend, length_nil, zero_add,
      ← length_chunks] at hread
    have hlt : numProofsOf (aggregateBytes env combined entries combined) < 2 ^ 32 := by
      rw [aggregateBytes, numProofsOf_header]
      exact mod_lt _ (by decide)
    rw [← hread] at hlt hne
    refine ⟨?_, hlt⟩
    rintro rfl
    exact hne rfl
  · rintro ⟨hne, hlt⟩
    have h := verifyAggregatedProof_aggregateBytes env rfl hdata hentries hne hlt
    rwa [decide_eq_true rfl] at h

/-! ## Validity -/

variable {bytes : Bytes}

theorem tryVec_bind (h : bytes.length ≤ ISIZE_MAX)
    (f : { bytes : Bytes // bytes.length ≤ ISIZE_MAX } → Call ZkError β) :
    tryVec bytes >>= f = f ⟨bytes, h⟩ := by
  rw [tryVec, dif_pos h, found_some_bind]

theorem val_of_returns_tryVec {vec : { bytes : Bytes // bytes.length ≤ ISIZE_MAX }}
    (h : Returns (tryVec bytes : Call ZkError _) vec) : vec.val = bytes := by
  have h := returns_found h
  split at h
  · exact (congrArg Subtype.val (Option.some.inj h)).symm
  · cases h

theorem length_le_of_generateAggregatedProof
    (h : Returns (generateAggregatedProof env combined) data) : combined.length ≤ data.length := by
  obtain ⟨_, _, h⟩ := returns_bind h
  rw [← returns_pure_iff.mp h, length_append]
  exact le_add_left _ _

variable {proofs} {generationTimeMs : UInt64} {aggregate : StarkProof}

section

variable (h : Returns (aggregateProofs env generationTimeMs proofs) aggregate)

include h

theorem returns_aggregateProofs :
    aggregate.proofType = .aggregated ∧ aggregate.publicInputs = combinedInputs proofs ∧
      Returns (generateAggregatedProof env (combinedData proofs)) aggregate.proofData := by
  unfold aggregateProofs at h
  split at h
  · cases h
  obtain ⟨_, hgenerated, h⟩ := returns_bind h
  obtain ⟨_, hdata, h⟩ := returns_bind h
  obtain ⟨_, hinputs, h⟩ := returns_bind h
  rw [← returns_pure_iff.mp h]
  refine ⟨rfl, val_of_returns_tryVec hinputs, ?_⟩
  rw [← val_of_returns_tryVec hdata] at hgenerated
  exact hgenerated

/-- Whether an aggregate is accepted does not depend on whether the proofs
in it are. -/
theorem accepts_aggregate_iff : Accepts env aggregate ↔
      (combinedData proofs ≠ [] ∧ (chunks (combinedData proofs)).length < 2 ^ 32) ∧
        (combinedInputs proofs).length ≤ MAX_PUBLIC_INPUTS_SIZE := by
  obtain ⟨htype, hinputs, hgenerated⟩ := returns_aggregateProofs env h
  have hdata := aggregate.proofData_le
  have hle := length_le_of_generateAggregatedProof env hgenerated
  have hcount : (chunkHashes env.hashData (combinedData proofs)).length ≤ 2 ^ 64 := by
    have : ISIZE_MAX ≤ 2 ^ 63 := by decide
    rw [length_chunkHashes]
    omega
  obtain ⟨_, hentries, hgenerate⟩ := generateAggregatedProof_eq env hcount
  rw [hgenerate, returns_pure_iff] at hgenerated
  rw [← hgenerated] at hdata
  rw [← accepts_generated_iff env hentries hdata, hgenerated, Accepts, verify, hinputs, htype]
  split
  · rename_i hlarge
    exact ⟨fun h => absurd h not_returns_throw, fun h => absurd h.2 (not_le.mpr hlarge)⟩
  · rename_i hsmall
    exact ⟨fun h => ⟨h, not_lt.mp hsmall⟩, fun h => h.1⟩

end

theorem length_entries_le (h : List.Forall₂ IsEntry hashes entries) :
    entries.flatten.length ≤ hashes.length * 2081 := by
  induction h with
  | nil => exact le_refl 0
  | cons hentry =>
    obtain ⟨path, hpath, rfl⟩ := hentry
    have hpath : path.length ≤ 64 := hpath
    rw [flatten_cons, length_append, length_entryBytes, length_cons]
    omega

theorem exists_generated (hcount : (chunks combined).length < 2 ^ 32) :
    ∃ entries, List.Forall₂ IsEntry (chunkHashes env.hashData combined) entries ∧
      generateAggregatedProof env combined = pure (aggregateBytes env combined entries combined) ∧
      (aggregateBytes env combined entries combined).length ≤ ISIZE_MAX := by
  have hhashes : (chunkHashes env.hashData combined).length < 2 ^ 32 := by
    rwa [chunkHashes, length_map]
  obtain ⟨entries, hentries, hgenerate⟩ :=
    generateAggregatedProof_eq env (le_trans (le_of_lt hhashes) (by decide))
  have hlength := length_entries_le hentries
  have : ISIZE_MAX = 9223372036854775807 := rfl
  rw [length_chunks] at hcount
  refine ⟨entries, hentries, hgenerate, ?_⟩
  rw [length_aggregateBytes env rfl]
  omega

/-- What is small enough to be accepted is small enough to be built. -/
theorem exists_aggregate (hne : combinedData proofs ≠ [])
    (hcount : (chunks (combinedData proofs)).length < 2 ^ 32)
    (hinputs : (combinedInputs proofs).length ≤ MAX_PUBLIC_INPUTS_SIZE)
    {generationTimeMs : UInt64} :
    ∃ aggregate, Returns (aggregateProofs env generationTimeMs proofs) aggregate := by
  have hproofs : ¬ proofs.isEmpty := by
    intro hempty
    rw [isEmpty_iff.mp hempty] at hne
    exact hne rfl
  obtain ⟨entries, hentries, hgenerate, hdata⟩ := exists_generated env hcount
  have hsmall : (combinedInputs proofs).length ≤ ISIZE_MAX := le_trans hinputs (by decide)
  rw [aggregateProofs, if_neg hproofs, hgenerate, pure_bind, tryVec_bind hdata, tryVec_bind hsmall]
  exact ⟨_, rfl⟩

/-- An aggregate is accepted only if every proof in it is. -/
def PreservesValidity (proofs : List StarkProof) : Prop :=
  ∀ generationTimeMs aggregate, Returns (aggregateProofs env generationTimeMs proofs) aggregate →
    Accepts env aggregate → ∀ proof ∈ proofs, Accepts env proof

/-- It holds for valid proofs, and where the verifier takes no aggregate: with
no data at all, more chunks than the header can count, or long public inputs. -/
theorem preservesValidity_iff (proofs : List StarkProof) : PreservesValidity env proofs ↔
      (∀ proof ∈ proofs, Accepts env proof) ∨ combinedData proofs = [] ∨
        2 ^ 32 ≤ (chunks (combinedData proofs)).length ∨
        MAX_PUBLIC_INPUTS_SIZE < (combinedInputs proofs).length := by
  constructor
  · intro h
    by_contra hnot
    rw [not_or, not_or, not_or, not_le, not_lt] at hnot
    obtain ⟨hinvalid, hne, hcount, hinputs⟩ := hnot
    obtain ⟨aggregate, haggregate⟩ := exists_aggregate env hne hcount hinputs
    exact hinvalid (h 0 aggregate haggregate
      ((accepts_aggregate_iff env haggregate).mpr ⟨⟨hne, hcount⟩, hinputs⟩))
  · intro h generationTimeMs aggregate haggregate haccepts
    obtain ⟨⟨hne, hcount⟩, hinputs⟩ := (accepts_aggregate_iff env haggregate).mp haccepts
    rcases h with h | h | h | h
    · exact h
    · exact absurd h hne
    · exact absurd hcount (not_lt.mpr h)
    · exact absurd hinputs (not_le.mpr h)

theorem collision_of_chunkHashes {hashData : Bytes → Hash} (hlength : data.length = combined.length)
    (hne : data ≠ combined) (h : chunkHashes hashData data = chunkHashes hashData combined) :
    Collision hashData (chunks data) (chunks combined) := by
  -- the chunk with the first byte that differs
  obtain ⟨j, hj⟩ := not_forall.mp fun hall => hne (ext_getElem? hall)
  have hlt : j < data.length := by
    by_contra hge
    rw [not_lt] at hge
    exact hj (by rw [getElem?_eq_none hge, getElem?_eq_none (hlength ▸ hge)])
  have hi : j / 1024 ∈ List.range ((data.length + 1023) / 1024) := mem_range.mpr (by omega)
  refine ⟨_, mem_map_of_mem hi, _, mem_map_of_mem (hlength ▸ hi), ?_, ?_⟩
  · intro heq
    have hbyte := congrArg (·[j % 1024]?) heq
    simp only [getElem?_take, mod_lt j (by decide : 1024 > 0), if_true, getElem?_drop,
      div_add_mod] at hbyte
    exact hj hbyte
  · rw [chunkHashes, chunkHashes, chunks, chunks, map_map, map_map, hlength] at h
    exact map_inj_left.mp h _ (hlength ▸ hi)

/-- What is generated is accepted, and refused with other data of the same
length in it, or two chunks collide. -/
def RoundTrips (combined : Bytes) : Prop :=
  ∃ front, Returns (generateAggregatedProof env combined) (front ++ combined) ∧
    Returns (verifyAggregatedProof env none (front ++ combined)) true ∧
    ∀ changed : Bytes, changed.length = combined.length → changed ≠ combined →
      Returns (verifyAggregatedProof env none (front ++ changed)) false ∨
        Collision env.hashData (chunks changed) (chunks combined)

/-- What the generator makes of proofs with data the verifier accepts, and it
refuses any other data of that length behind the same front unless two chunks
collide. -/
theorem aggregation_round_trips {proofs : List StarkProof} (hne : combinedData proofs ≠ [])
    (hcount : (chunks (combinedData proofs)).length < 2 ^ 32) :
    RoundTrips env (combinedData proofs) := by
  generalize combinedData proofs = combined at hne hcount
  obtain ⟨entries, hentries, hgenerate, hdata⟩ := exists_generated env hcount
  have hfront : ∀ embedded, headerBytes env combined (chunkHashes env.hashData combined)
      ++ entries.flatten ++ embedded = aggregateBytes env combined entries embedded :=
    fun _ => append_assoc ..
  refine ⟨_, hgenerate.trans (congrArg pure (hfront combined).symm), ?_, ?_⟩
  · rw [hfront]
    exact (accepts_generated_iff env hentries hdata).mpr ⟨hne, hcount⟩
  · intro changed hlength hchanged
    rw [length_aggregateBytes env rfl, ← length_aggregateBytes env hlength] at hdata
    have h := verifyAggregatedProof_aggregateBytes env hlength hdata hentries hne hcount
    rw [hfront]
    by_cases hhashes : chunkHashes env.hashData changed = chunkHashes env.hashData combined
    · exact .inr (collision_of_chunkHashes hlength hchanged hhashes)
    · rw [decide_eq_false hhashes] at h
      exact .inl h

/-- Two proofs that do not end with a chunk. -/
def wideProofs : List StarkProof :=
  [sampleProof (replicate 1500 1) (by decide +kernel),
    sampleProof (replicate 1000 2) (by decide +kernel)]

/-- Their three chunks make a tree with an odd level. -/
theorem wide_round_trips : (chunks (combinedData wideProofs)).length = 3 ∧
    RoundTrips samplePlatform (combinedData wideProofs) :=
  ⟨by decide +kernel,
    aggregation_round_trips samplePlatform (by decide +kernel) (by decide +kernel)⟩

/-- One byte that claims to be a state transition. -/
def junkProof : StarkProof := { sampleProof [1] (by decide) with proofType := .stateTransition }

theorem junk_aggregate_accepted : ¬ Accepts samplePlatform junkProof ∧
    ∃ aggregate, Returns (aggregateProofs samplePlatform 0 [junkProof]) aggregate ∧
      Accepts samplePlatform aggregate := by
  have hdata : combinedData [junkProof] ≠ [] := by decide
  have hcount : (chunks (combinedData [junkProof])).length < 2 ^ 32 := by decide
  have hinputs : (combinedInputs [junkProof]).length ≤ MAX_PUBLIC_INPUTS_SIZE := by decide
  obtain ⟨aggregate, haggregate⟩ := exists_aggregate samplePlatform hdata hcount hinputs
  refine ⟨not_returns_throw, aggregate, haggregate, ?_⟩
  exact (accepts_aggregate_iff samplePlatform haggregate).mpr ⟨⟨hdata, hcount⟩, hinputs⟩

end Zk

end Quantos

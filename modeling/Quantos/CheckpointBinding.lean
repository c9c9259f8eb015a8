import Quantos.ClientRegistry

/-!
# What an accepted proof says about its checkpoint

A checkpoint carries a block hash and a state root besides the proof. The
EVM client recomputes both from the header in the proof, so a proof it
accepts determines them. The Bitcoin client recomputes the block hash
only, the Solana client compares the state root with a field of the proof
only, and every other client looks at neither: what the source chain signed
is checked, and that it is about this block is not.

`checkpoint_binding_iff` puts this as a statement about two runs: a proof
that a client of any other family accepts, it accepts with another block
hash or state root as well.
-/

namespace Quantos

open Panics LightClient

namespace BoxedClient

variable (env : ClientPlatform)

/-- The client answers, and answers `valid`. -/
def Accepts (client : BoxedClient) (cp : ExternalCheckpoint) : Prop :=
  ∃ r, Returns (client.verifyCheckpoint env cp) r ∧ r.valid = true

/-- The header of which a client takes the hash. -/
def hashedHeader : ChainProof → Option Bytes
  | .evm blockHeaderRlp .. => some blockHeaderRlp
  | .bitcoin blockHeader .. => some blockHeader
  | _ => none

/-- Two headers with one hash. -/
def HeaderCollision (proof proof' : ChainProof) : Prop :=
  ∃ header ∈ hashedHeader proof, ∃ header' ∈ hashedHeader proof', header ≠ header' ∧
    (env.keccak256 header = env.keccak256 header' ∨
      doubleSha256 env header = doubleSha256 env header')

variable {env}

theorem not_headerCollision_self (proof : ChainProof) : ¬ HeaderCollision env proof proof := by
  rintro ⟨_, hheader, _, hheader', hne, -⟩
  exact hne (Option.mem_unique hheader hheader')

/-! ## The EVM client -/

/-- What an accepted EVM checkpoint establishes. -/
structure EvmBinds (env : ClientPlatform) (cp : ExternalCheckpoint) (header : Bytes)
    (items : List Bytes) : Prop where
  hashed : hashedHeader cp.proof = some header
  blockHash : env.keccak256 header = cp.blockHash
  decoded : Returns (Rlp.decodeList header) items
  stateRoot : items[3]?.bind copyFromSlice = some cp.stateRoot

variable {r : VerificationResult}

theorem passed_of_valid {p : Prop} [Decidable p] {reason : String}
    {d : Call L0Error VerificationResult}
    (h : Returns (if p then pure (.invalid reason) else d) r) (hvalid : r.valid = true) :
    ¬ p ∧ Returns d r := by
  split at h
  · cases h
    cases hvalid
  · rename_i hp
    exact ⟨hp, h⟩

variable {cp : ExternalCheckpoint}

theorem evmBinds_of_valid (h : Returns (verifyEvm env cp) r) (hvalid : r.valid = true) :
    ∃ header items, EvmBinds env cp header items := by
  unfold verifyEvm at h
  split at h
  · rename_i header _ _ hproof
    obtain ⟨hhash, h⟩ := passed_of_valid h hvalid
    obtain ⟨items, hitems, h⟩ := returns_bind h
    obtain ⟨-, h⟩ := passed_of_valid h hvalid
    obtain ⟨_, hsr, h⟩ := returns_bind h
    obtain ⟨-, h⟩ := passed_of_valid h hvalid
    obtain ⟨_, harr, h⟩ := returns_bind h
    obtain ⟨hroot, -⟩ := passed_of_valid h hvalid
    refine ⟨header, items, by rw [hproof]; rfl, not_not.mp hhash, returns_adapt hitems, ?_⟩
    rw [returns_found hsr, Option.bind_some, returns_found harr, not_not.mp hroot]
  · cases h
    cases hvalid

theorem EvmBinds.unique {cp' : ExternalCheckpoint} {header header' : Bytes}
    {items items' : List Bytes} (hproof : cp.proof = cp'.proof) (h : EvmBinds env cp header items)
    (h' : EvmBinds env cp' header' items') :
    cp.blockHash = cp'.blockHash ∧ cp.stateRoot = cp'.stateRoot := by
  have hheader : header = header' := by
    refine Option.some.inj (h.hashed.symm.trans ?_)
    rw [hproof]
    exact h'.hashed
  subst hheader
  have hitems : items = items' :=
    Except.ok.inj (Option.some.inj (h.decoded.symm.trans h'.decoded))
  subst hitems
  exact ⟨h.blockHash.symm.trans h'.blockHash,
    Option.some.inj (h.stateRoot.symm.trans h'.stateRoot)⟩

/-! ## The others -/

variable {client : BoxedClient}

/-- Only the EVM and the Solana client look at the state root. -/
theorem verifyCheckpoint_of_stateRoot (hevm : client.kind ≠ .evm)
    (hsolana : client.kind ≠ .signed .solana) (cp : ExternalCheckpoint) (stateRoot : Hash) :
    client.verifyCheckpoint env { cp with stateRoot } = client.verifyCheckpoint env cp := by
  obtain ⟨kind, _, _, _⟩ := client
  rcases kind with _ | _ | _ | kind
  · exact absurd rfl hevm
  · rfl
  · rfl
  · cases kind
    case solana => exact absurd rfl hsolana
    all_goals rfl

/-- Only the EVM and the Bitcoin client look at the block hash. -/
theorem verifyCheckpoint_of_blockHash (hsolana : client.kind = .signed .solana)
    (cp : ExternalCheckpoint) (blockHash : Hash) :
    client.verifyCheckpoint env { cp with blockHash } = client.verifyCheckpoint env cp := by
  obtain ⟨_, _, _, _⟩ := client
  subst hsolana
  rfl

/-- A checkpoint that such a client accepts, it accepts under another block
hash or another state root. -/
theorem exists_relabelled (hevm : client.kind ≠ .evm) (haccepts : client.Accepts env cp) :
    ∃ cp' : ExternalCheckpoint, cp'.chainId = cp.chainId ∧ cp'.proof = cp.proof ∧
      client.Accepts env cp' ∧ ¬ (cp.blockHash = cp'.blockHash ∧ cp.stateRoot = cp'.stateRoot) := by
  have hne : ∀ h : Hash, h ≠ h + 1 := fun h heq => absurd (left_eq_add.mp heq) (by decide)
  by_cases hsolana : client.kind = .signed .solana
  · refine ⟨{ cp with blockHash := cp.blockHash + 1 }, rfl, rfl, ?_, fun h => hne _ h.1⟩
    unfold Accepts
    rw [verifyCheckpoint_of_blockHash hsolana]
    exact haccepts
  · refine ⟨{ cp with stateRoot := cp.stateRoot + 1 }, rfl, rfl, ?_, fun h => hne _ h.2⟩
    unfold Accepts
    rw [verifyCheckpoint_of_stateRoot hevm hsolana]
    exact haccepts

variable (env)

/-- A proof determines the block hash and the state root of the checkpoints
a client accepts with it if and only if the client is one for EVM chains,
or accepts no checkpoint with that proof. -/
theorem checkpoint_binding_iff (client : BoxedClient) (proof : ChainProof) :
    (∀ cp cp' : ExternalCheckpoint, cp.chainId = cp'.chainId → cp.proof = proof →
        cp'.proof = proof → client.Accepts env cp → client.Accepts env cp' →
        (cp.blockHash = cp'.blockHash ∧ cp.stateRoot = cp'.stateRoot) ∨
          HeaderCollision env cp.proof cp'.proof) ↔ (client.kind = .evm ∨
          ∀ cp : ExternalCheckpoint, cp.proof = proof → ¬ client.Accepts env cp) := by
  constructor
  · intro hbinding
    by_cases hevm : client.kind = .evm
    · exact .inl hevm
    refine .inr fun cp hproof haccepts => ?_
    obtain ⟨cp', hchain, hproof', haccepts', hdiffer⟩ := exists_relabelled hevm haccepts
    rcases hbinding cp cp' hchain.symm hproof (hproof'.trans hproof) haccepts haccepts' with
      hequal | hcollision
    · exact hdiffer hequal
    · rw [hproof'] at hcollision
      exact not_headerCollision_self cp.proof hcollision
  · rintro (hevm | hnone) cp cp' - hproof hproof' ⟨r, hr, hvalid⟩ haccepts'
    · obtain ⟨_, hr', hvalid'⟩ := haccepts'
      rw [verifyCheckpoint, hevm] at hr hr'
      obtain ⟨_, _, hbinds⟩ := evmBinds_of_valid hr hvalid
      obtain ⟨_, _, hbinds'⟩ := evmBinds_of_valid hr' hvalid'
      exact .inl (hbinds.unique (hproof.trans hproof'.symm) hbinds')
    · exact absurd ⟨r, hr, hvalid⟩ (hnone cp hproof)

/-- The client of the NEAR chain, with three producers registered. -/
def nearClient : BoxedClient :=
  ⟨.signed .near, .near, sampleRegistry .near 32, by
    rintro family ⟨⟩
    rfl⟩

/-- The proof of an approved block, submitted for another block. -/
def relabelledBlock : ExternalCheckpoint :=
  { approvedBlock with blockHash := 7, stateRoot := 8 }

theorem relabelled_block_accepted :
    approvedBlock.chainId = relabelledBlock.chainId ∧ approvedBlock.proof = relabelledBlock.proof ∧
      nearClient.Accepts samplePlatform approvedBlock ∧
      nearClient.Accepts samplePlatform relabelledBlock ∧
      approvedBlock.blockHash ≠ relabelledBlock.blockHash ∧
      approvedBlock.stateRoot ≠ relabelledBlock.stateRoot ∧
      ¬ HeaderCollision LightClient.samplePlatform LightClient.approvedBlock.proof
          relabelledBlock.proof := by
  have hanswer : LightClient.verifyCheckpoint LightClient.sampleCrypto
      (LightClient.sampleRegistry .near 32) ⟨.near, .near⟩ LightClient.approvedBlock
        = some .accepted := by
    decide
  have haccepted : Returns (nearClient.verifyCheckpoint samplePlatform
      approvedBlock) .accepted :=
    congrArg (fun answer => (found answer : Call L0Error VerificationResult)) hanswer
  exact ⟨rfl, rfl, ⟨.accepted, haccepted, rfl⟩, ⟨.accepted, haccepted, rfl⟩, by decide, by decide,
    not_headerCollision_self _⟩

end BoxedClient

end Quantos

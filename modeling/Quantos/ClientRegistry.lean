import Quantos.HeaderClients

/-!
# The light client registry

`LightClientRegistry` of `l0/light_client.rs`: a client for each chain, all
of them behind one call that first compares the family of the proof with
the family of the chain. A client is made for a chain of its own family;
only the generic one asks for nothing.

The call can panic in one place. Eleven families hand the registered keys
and the signatures of the proof to the Ed25519 batch, which asserts that
there are as many of one as of the other, and nothing before compares the
two numbers: they compare the signatures with keys the relayer sent.
`isSome_verifyCheckpoint_iff` says that this is the only place.
-/

namespace Quantos

open Panics LightClient

/-! ## Families -/

inductive ChainFamily
  | evm | svm | tvm | stellar | move | cosmos | near | ton | bitcoin | substrate | cardano | tezos
  | ripple | icp | algorand | hedera | canton | custom
deriving DecidableEq, Repr

def ChainId.family : ChainId → ChainFamily
  | .ethereum | .ethereumSepolia | .base | .baseSepolia | .arbitrum | .arbitrumSepolia
  | .optimism | .optimismSepolia | .polygon | .polygonAmoy | .avalanche | .avalancheFuji
  | .binanceSmartChain | .bscTestnet | .moonbeam | .berachain | .hyperliquid | .monad
  | .somnia => .evm
  | .solana | .solanaDevnet => .svm
  | .aptos | .aptosTestnet | .sui | .suiTestnet => .move
  | .near | .nearTestnet => .near
  | .ton | .tonTestnet => .ton
  | .bitcoin | .bitcoinTestnet => .bitcoin
  | .stellar | .stellarTestnet => .stellar
  | .polkadot | .polkadotTestnet => .substrate
  | .tron | .tronShasta => .tvm
  | .cosmos | .cosmosTestnet => .cosmos
  | .cardano | .cardanoTestnet => .cardano
  | .tezos | .tezosTestnet => .tezos
  | .ripple | .rippleTestnet => .ripple
  | .internetComputer => .icp
  | .algorand => .algorand
  | .hedera => .hedera
  | .canton => .canton
  | .custom _ => .custom

def ChainProof.family : ChainProof → ChainFamily
  | .evm .. => .evm
  | .bitcoin .. => .bitcoin
  | .solana .. => .svm
  | .move .. => .move
  | .near .. => .near
  | .cosmos .. => .cosmos
  | .cardano .. => .cardano
  | .ton .. => .ton
  | .tron .. => .tvm
  | .polkadot .. => .substrate
  | .stellar .. => .stellar
  | .tezos .. => .tezos
  | .ripple .. => .ripple
  | .icp .. => .icp
  | .algorand .. => .algorand
  | .hedera .. => .hedera
  | .canton .. => .canton
  | .generic .. => .custom

/-! ## Clients -/

/-- The implementations of the trait `LightClient`. -/
inductive ClientKind
  | evm
  | bitcoin
  | icp
  | signed (kind : LightClientKind)
deriving DecidableEq, Repr

/-- The family a client is made for; the generic one takes any. -/
def ClientKind.family : ClientKind → Option ChainFamily
  | .evm => some .evm
  | .bitcoin => some .bitcoin
  | .icp => some .icp
  | .signed .solana => some .svm
  | .signed .move => some .move
  | .signed .near => some .near
  | .signed .cosmos => some .cosmos
  | .signed .cardano => some .cardano
  | .signed .ton => some .ton
  | .signed .tron => some .tvm
  | .signed .polkadot => some .substrate
  | .signed .stellar => some .stellar
  | .signed .tezos => some .tezos
  | .signed .ripple => some .ripple
  | .signed .algorand => some .algorand
  | .signed .hedera => some .hedera
  | .signed .canton => some .canton
  | .signed .generic => none

/-- A client with the sets it reads. Its constructor asserts the family. -/
structure BoxedClient where
  kind : ClientKind
  chain : ChainId
  registry : LightClient.ValidatorSetRegistry
  family_eq : ∀ family ∈ kind.family, chain.family = family

namespace BoxedClient

variable (env : ClientPlatform)

def verifyCheckpoint (client : BoxedClient) (cp : ExternalCheckpoint) :
    Call L0Error VerificationResult :=
  match client.kind with
  | .evm => verifyEvm env cp
  | .bitcoin => verifyBitcoin env cp
  | .icp => verifyIcp env cp
  | .signed kind =>
    found (LightClient.verifyCheckpoint env.toChainCrypto client.registry ⟨kind, client.chain⟩ cp)

end BoxedClient

structure LightClientRegistry where
  clients : Table BoxedClient.chain

namespace LightClientRegistry

/-- The clients of one loop of `with_defaults`. -/
def clientsFor (sets : LightClient.ValidatorSetRegistry) (kind : ClientKind) (family : ChainFamily)
    (hkind : kind.family = some family) (chains : List ChainId)
    (hchains : ∀ chain ∈ chains, chain.family = family) : List BoxedClient :=
  chains.attach.map fun chain =>
    ⟨kind, chain.1, sets, fun f hf => by
      rw [hkind] at hf
      rw [hchains chain.1 chain.2]
      exact Option.some.inj hf⟩

/-- All clients read the same sets. -/
def withDefaults (sets : LightClient.ValidatorSetRegistry) : LightClientRegistry where
  clients := Table.empty.putAll
    (clientsFor sets .evm .evm rfl
        [.ethereum, .ethereumSepolia, .base, .baseSepolia, .arbitrum, .arbitrumSepolia, .optimism,
          .optimismSepolia, .polygon, .polygonAmoy, .avalanche, .avalancheFuji,
          .binanceSmartChain, .bscTestnet, .moonbeam, .berachain, .hyperliquid, .monad, .somnia]
        (by decide)
      ++ clientsFor sets .bitcoin .bitcoin rfl [.bitcoin, .bitcoinTestnet] (by decide)
      ++ clientsFor sets (.signed .solana) .svm rfl [.solana, .solanaDevnet] (by decide)
      ++ clientsFor sets (.signed .move) .move rfl [.aptos, .aptosTestnet, .sui, .suiTestnet]
        (by decide)
      ++ clientsFor sets (.signed .near) .near rfl [.near, .nearTestnet] (by decide)
      ++ clientsFor sets (.signed .cosmos) .cosmos rfl [.cosmos, .cosmosTestnet] (by decide)
      ++ clientsFor sets (.signed .cardano) .cardano rfl [.cardano, .cardanoTestnet] (by decide)
      ++ clientsFor sets (.signed .ton) .ton rfl [.ton, .tonTestnet] (by decide)
      ++ clientsFor sets (.signed .tron) .tvm rfl [.tron, .tronShasta] (by decide)
      ++ clientsFor sets (.signed .polkadot) .substrate rfl [.polkadot, .polkadotTestnet]
        (by decide)
      ++ clientsFor sets (.signed .stellar) .stellar rfl [.stellar, .stellarTestnet] (by decide)
      ++ clientsFor sets (.signed .tezos) .tezos rfl [.tezos, .tezosTestnet] (by decide)
      ++ clientsFor sets (.signed .ripple) .ripple rfl [.ripple, .rippleTestnet] (by decide)
      ++ clientsFor sets .icp .icp rfl [.internetComputer] (by decide)
      ++ clientsFor sets (.signed .algorand) .algorand rfl [.algorand] (by decide)
      ++ clientsFor sets (.signed .hedera) .hedera rfl [.hedera] (by decide)
      ++ clientsFor sets (.signed .canton) .canton rfl [.canton] (by decide))

def verifyCheckpoint (env : ClientPlatform) (registry : LightClientRegistry)
    (cp : ExternalCheckpoint) : Call L0Error VerificationResult :=
  match registry.clients.get cp.chainId with
  | none => pure (.invalid ("No light client for " ++ env.debugChainId cp.chainId))
  | some client =>
    if cp.proof.family ≠ cp.chainId.family then pure (.invalid "Proof family mismatch")
    else client.verifyCheckpoint env cp

end LightClientRegistry

/-! ## Where a client panics -/

namespace LightClient

section Batches

/-- The signatures of a message that passed the checks of its family. -/
def passed (message : Bytes) (signatures pubkeys : List Bytes) : Option (List Bytes) :=
  if message.isEmpty ∨ signatures.isEmpty ∨ pubkeys.length ≠ signatures.length then none
  else some signatures

/-- The signatures of the proof that a client hands to the Ed25519 batch
together with the registered keys, without having counted those. -/
def batched : LightClientKind → ChainProof → Option (List Bytes)
  | .near, .near message signatures pubkeys => passed message signatures pubkeys
  | .cosmos, .cosmos message signatures pubkeys signedPowerBps =>
    if signedPowerBps < 6667 then none else passed message signatures pubkeys
  | .cardano, .cardano message vrfProof signatures =>
    if vrfProof.isEmpty then none else passed message signatures signatures
  | .ton, .ton message signatures pubkeys => passed message signatures pubkeys
  | .polkadot, .polkadot message signatures pubkeys => passed message signatures pubkeys
  | .stellar, .stellar message signatures pubkeys => passed message signatures pubkeys
  | .tezos, .tezos message signatures pubkeys => passed message signatures pubkeys
  | .ripple, .ripple message signatures pubkeys _ => passed message signatures pubkeys
  | .algorand, .algorand message signatures pubkeys _ => passed message signatures pubkeys
  | .hedera, .hedera message signatures pubkeys _ => passed message signatures pubkeys
  | .canton, .canton message signatures pubkeys => passed message signatures pubkeys
  | _, _ => none

variable (crypto : ChainCrypto)

/-- There are as many registered keys as signatures. -/
def Matches (validatorSet : Option ValidatorSet) (signatures : Option (List Bytes)) : Prop :=
  ∀ set ∈ validatorSet, ∀ sigs ∈ signatures, set.pubkeys.length = sigs.length

variable (validatorSet : Option ValidatorSet)

theorem matches_none : Matches validatorSet none := by
  rintro set - sigs ⟨⟩

theorem isSome_ed25519Quorum_iff (name : String) (validatorSet : Option ValidatorSet)
    (message : Bytes) (signatures : List Bytes) :
    (ed25519Quorum crypto name validatorSet message signatures).isSome
      ↔ Matches validatorSet (some signatures) := by
  rcases validatorSet with _ | set
  · simp [ed25519Quorum, Matches]
  simp only [ed25519Quorum, verifyEd25519Batch, Matches, Option.mem_some_iff, forall_eq',
    Option.isSome_map]
  split <;> simp_all

variable {p : Prop}

/-- A check that answers `invalid` leaves the question to what follows. -/
theorem isSome_check_iff [Decidable p] {r : VerificationResult}
    {answer : Option VerificationResult} :
    (if p then some r else answer).isSome ↔ (¬ p → answer.isSome) := by
  split <;> simp_all

theorem matches_ite_iff [Decidable p] {validatorSet : Option ValidatorSet}
    {signatures : Option (List Bytes)} :
    Matches validatorSet (if p then none else signatures)
      ↔ (¬ p → Matches validatorSet signatures) := by
  split
  · rename_i hp
    exact ⟨fun _ hnp => absurd hp hnp, fun _ => matches_none validatorSet⟩
  · rename_i hp
    exact ⟨fun h _ => h, fun h => h hp⟩

theorem isSome_verifyListed_iff (texts : FamilyTexts) (message : Bytes)
    (signatures pubkeys : List Bytes) (validatorSet : Option ValidatorSet) :
    (verifyListed crypto texts (some (message, signatures, pubkeys)) validatorSet).isSome
      ↔ Matches validatorSet (passed message signatures pubkeys) := by
  simp only [verifyListed, passed, isSome_check_iff, matches_ite_iff, isSome_ed25519Quorum_iff,
    not_or, and_imp]

variable (cp : ExternalCheckpoint)

/-- Solana counts the registered keys before it calls the batch, and the
division that follows is by a number of keys that is not zero. -/
theorem isSome_verifySolanaProduction : (verifySolanaProduction crypto cp validatorSet).isSome := by
  unfold verifySolanaProduction
  split
  · simp only [isSome_check_iff]
    intro _ hsignatures _
    split
    · rfl
    rename_i signatures _ _ set
    rw [isSome_check_iff]
    intro hlength
    have hpos : set.pubkeys.length ≠ 0 := by
      rw [not_not.mp hlength]
      exact fun h => hsignatures (List.isEmpty_iff_length_eq_zero.mpr h)
    rw [verifyEd25519Batch, if_neg hlength, Option.bind_some, dividedPower, if_neg hpos]
    rfl
  · rfl

theorem isSome_verifyMoveProduction : (verifyMoveProduction crypto cp validatorSet).isSome := by
  unfold verifyMoveProduction
  split
  · simp only [isSome_check_iff]
    intro _ _ _
    split <;> rfl
  · rfl

theorem isSome_verifyTron : (verifyTron crypto cp validatorSet).isSome := by
  unfold verifyTron
  split
  · simp only [isSome_check_iff]
    intro _ _ _
    split <;> rfl
  · rfl

theorem isSome_verifyGeneric : (verifyGeneric crypto cp validatorSet).isSome := by
  unfold verifyGeneric
  split
  · simp only [isSome_check_iff]
    intro _ _ _ _
    split <;> rfl
  · rfl

/-- A client of a signature-based family panics only in the batch. -/
theorem isSome_verifyCheckpoint_iff (registry : ValidatorSetRegistry) (client : LightClient)
    (cp : ExternalCheckpoint) :
    (client.verifyCheckpoint crypto registry cp).isSome
      ↔ Matches ((registry.get client.chain).map Prod.snd) (batched client.kind cp.proof) := by
  obtain ⟨kind, chain⟩ := client
  unfold verifyCheckpoint
  generalize (registry.get chain).map Prod.snd = set
  cases kind
  case solana => simp [isSome_verifySolanaProduction, batched, matches_none]
  case move => simp [isSome_verifyMoveProduction, batched, matches_none]
  case tron => simp [isSome_verifyTron, batched, matches_none]
  case generic => simp [isSome_verifyGeneric, batched, matches_none]
  case cosmos =>
    rcases hproof : cp.proof
    case cosmos =>
      simp only [verifyCosmosProduction, hproof, batched, passed, isSome_check_iff,
        matches_ite_iff, isSome_ed25519Quorum_iff, not_or, and_imp]
      tauto
    all_goals simp [verifyCosmosProduction, hproof, batched, matches_none]
  case cardano =>
    rcases hproof : cp.proof
    case cardano =>
      simp only [verifyCardanoProduction, hproof, batched, passed, isSome_check_iff,
        matches_ite_iff, isSome_ed25519Quorum_iff, not_or, and_imp]
      tauto
    all_goals simp [verifyCardanoProduction, hproof, batched, matches_none]
  all_goals
    rcases hproof : cp.proof
    all_goals
      simp only [verifyNearProduction, verifyTon, verifyPolkadot, verifyStellar, verifyTezos,
        verifyRipple, verifyAlgorand, verifyHedera, verifyCanton, hproof, batched]
      first
        | exact isSome_verifyListed_iff ..
        | exact iff_of_true rfl (matches_none set)

end Batches

end LightClient

/-- The header clients always answer, the others up to the batch. -/
theorem BoxedClient.answers_verifyCheckpoint_iff (env : ClientPlatform) (client : BoxedClient)
    (cp : ExternalCheckpoint) :
    Answers (client.verifyCheckpoint env cp) (fun _ => True)
      ↔ ∀ kind, client.kind = .signed kind →
          LightClient.Matches ((client.registry.get client.chain).map Prod.snd)
            (batched kind cp.proof) := by
  obtain ⟨kind, chain, registry, _⟩ := client
  cases kind with
  | evm => exact iff_of_true (verifyEvm_answers ..) (by rintro kind ⟨⟩)
  | bitcoin => exact iff_of_true (verifyBitcoin_answers ..) (by rintro kind ⟨⟩)
  | icp => exact iff_of_true (verifyIcp_answers ..) (by rintro kind ⟨⟩)
  | signed kind =>
    have hiff :=
      isSome_verifyCheckpoint_iff env.toChainCrypto registry ⟨kind, chain⟩ cp
    constructor
    · rintro hanswers kind' ⟨⟩
      exact hiff.mp (isSome_of_answers_found hanswers)
    · intro h
      obtain ⟨r, hr⟩ := Option.isSome_iff_exists.mp (hiff.mpr (h kind rfl))
      exact answers_found ⟨r, hr, trivial⟩

namespace LightClientRegistry

/-- A call answers if and only if the registered keys are as many as the
signatures, wherever a client of the chain hands both to the batch. -/
theorem registry_answers_iff (env : ClientPlatform) (registry : LightClientRegistry)
    (cp : ExternalCheckpoint) :
    Answers (registry.verifyCheckpoint env cp) (fun _ => True)
      ↔ ∀ client kind set signatures, registry.clients.get cp.chainId = some client →
          cp.proof.family = cp.chainId.family → client.kind = .signed kind →
          client.registry.get client.chain = some (client.chain, set) →
          batched kind cp.proof = some signatures →
          set.pubkeys.length = signatures.length := by
  unfold verifyCheckpoint
  split
  · rename_i hget
    exact iff_of_true (answers_pure trivial) fun client _ _ _ hclient => by
      rw [hget] at hclient
      cases hclient
  · rename_i client hget
    by_cases hfamily : cp.proof.family ≠ cp.chainId.family
    · rw [if_pos hfamily]
      exact iff_of_true (answers_pure trivial) fun _ _ _ _ _ h => absurd h hfamily
    rw [if_neg hfamily, BoxedClient.answers_verifyCheckpoint_iff]
    constructor
    · intro h client' kind set signatures hclient _ hkind hset hsignatures
      obtain rfl := Option.some.inj (hget.symm.trans hclient)
      exact h kind hkind set (by rw [hset]; rfl) signatures hsignatures
    · intro h kind hkind set hset signatures hsignatures
      obtain ⟨⟨chain, set'⟩, hrow, rfl⟩ := Option.map_eq_some_iff.mp hset
      obtain rfl : chain = client.chain := Table.key_of_get hrow
      exact h client kind set' signatures hget (not_not.mp hfamily) hkind hrow hsignatures

end LightClientRegistry

namespace LightClient

/-- The sample primitives with a digest for both header hashes. -/
def samplePlatform : ClientPlatform where
  toChainCrypto := sampleCrypto
  keccak256 := digitHash
  sha256 := digitHash
  debugChainId := ChainId.asStr

/-- A NEAR block with two approvals, where three producers are registered,
or none. -/
theorem registry_panics :
    ¬ Answers ((LightClientRegistry.withDefaults (sampleRegistry .near 32)).verifyCheckpoint
        samplePlatform (sampleProofOf .near (.near [1] [[2], [3]] [[4], [5]]))) (fun _ => True) ∧
      ¬ Answers ((LightClientRegistry.withDefaults
          (Table.empty.put (.near, ⟨[], [], 6667⟩))).verifyCheckpoint
        samplePlatform (sampleProofOf .near (.near [1] [[2], [3]] [[4], [5]]))) (fun _ => True) :=
  ⟨id, id⟩

end LightClient

end Quantos

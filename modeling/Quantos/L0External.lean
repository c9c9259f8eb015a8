import Quantos.Types

/-!
# Checkpoints of other chains

The data model of `l0/external.rs`: the chains Quantos certifies, the proof
a relayer submits for each family of them, and the checkpoint it belongs
to. A chain is known to the hub by its name (`ChainId.asStr`), and a custom
chain may carry the name of a built-in one.
-/

namespace Quantos

inductive ChainId
  | ethereum | ethereumSepolia | base | baseSepolia | arbitrum | arbitrumSepolia | optimism
  | optimismSepolia | polygon | polygonAmoy | avalanche | avalancheFuji | binanceSmartChain
  | bscTestnet | moonbeam | berachain | hyperliquid | monad | somnia | solana | solanaDevnet
  | near | nearTestnet | aptos | aptosTestnet | sui | suiTestnet | ton | tonTestnet | bitcoin
  | bitcoinTestnet | stellar | stellarTestnet | polkadot | polkadotTestnet | tron | tronShasta
  | cosmos | cosmosTestnet | cardano | cardanoTestnet | tezos | tezosTestnet | ripple
  | rippleTestnet | internetComputer | algorand | hedera | canton
  | custom (name : String)
deriving DecidableEq, Repr

namespace ChainId

def asStr : ChainId → String
  | ethereum => "ethereum"
  | ethereumSepolia => "ethereum-sepolia"
  | base => "base"
  | baseSepolia => "base-sepolia"
  | arbitrum => "arbitrum"
  | arbitrumSepolia => "arbitrum-sepolia"
  | optimism => "optimism"
  | optimismSepolia => "optimism-sepolia"
  | polygon => "polygon"
  | polygonAmoy => "polygon-amoy"
  | avalanche => "avalanche"
  | avalancheFuji => "avalanche-fuji"
  | binanceSmartChain => "bsc"
  | bscTestnet => "bsc-testnet"
  | moonbeam => "moonbeam"
  | berachain => "berachain"
  | hyperliquid => "hyperliquid"
  | monad => "monad"
  | somnia => "somnia"
  | solana => "solana"
  | solanaDevnet => "solana-devnet"
  | near => "near"
  | nearTestnet => "near-testnet"
  | aptos => "aptos"
  | aptosTestnet => "aptos-testnet"
  | sui => "sui"
  | suiTestnet => "sui-testnet"
  | ton => "ton"
  | tonTestnet => "ton-testnet"
  | bitcoin => "bitcoin"
  | bitcoinTestnet => "bitcoin-testnet"
  | stellar => "stellar"
  | stellarTestnet => "stellar-testnet"
  | polkadot => "polkadot"
  | polkadotTestnet => "polkadot-testnet"
  | tron => "tron"
  | tronShasta => "tron-shasta"
  | cosmos => "cosmos"
  | cosmosTestnet => "cosmos-testnet"
  | cardano => "cardano"
  | cardanoTestnet => "cardano-testnet"
  | tezos => "tezos"
  | tezosTestnet => "tezos-testnet"
  | ripple => "ripple"
  | rippleTestnet => "ripple-testnet"
  | internetComputer => "icp"
  | algorand => "algorand"
  | hedera => "hedera"
  | canton => "canton"
  | custom name => name

end ChainId

/-- Signature scheme of a generic proof. -/
inductive SignatureScheme
  | ed25519
  | bls12381
  | ecdsaSecp256k1

/-- What a relayer submits for a checkpoint, by family of chain. -/
inductive ChainProof
  | evm (blockHeaderRlp : Bytes) (syncCommitteeSignature : Option Bytes)
      (executionPayloadHash : Option Hash)
  | bitcoin (blockHeader : Bytes) (confirmations : UInt32) (txMerkleProof : Option (List Hash))
      (blockHeight : UInt64) (txHash : Option Hash) (txIndex : Option UInt32)
  | solana (ledgerEntry : Bytes) (voteSignatures : List Bytes) (bankHash : Hash)
  | move (ledgerInfo : Bytes) (validatorSignatures validatorPubkeys : List Bytes)
  | near (blockHeader : Bytes) (approvalSignatures producerPubkeys : List Bytes)
  | cosmos (blockHeader : Bytes) (commitSignatures validatorPubkeys : List Bytes)
      (signedPowerBps : UInt16)
  | cardano (blockHeader vrfProof : Bytes) (poolSignatures : List Bytes)
  | ton (blockHeader : Bytes) (validatorSignatures validatorPubkeys : List Bytes)
  | tron (blockHeader : Bytes) (producerSignatures producerPubkeys : List Bytes)
  | polkadot (grandpaVote : Bytes) (validatorSignatures validatorPubkeys : List Bytes)
  | stellar (scpStatement : Bytes) (nodeSignatures nodePubkeys : List Bytes)
  | tezos (endorsement : Bytes) (bakerSignatures bakerPubkeys : List Bytes)
  | ripple (ledgerHeader : Bytes) (validatorSignatures validatorPubkeys : List Bytes)
      (signedPowerBps : UInt16)
  | icp (blockHeader thresholdSignature subnetPublicKey : Bytes)
  | algorand (blockHeader : Bytes) (participationSignatures participationPubkeys : List Bytes)
      (signedPowerBps : UInt16)
  | hedera (blockHeader : Bytes) (councilSignatures councilPubkeys : List Bytes)
      (signedPowerBps : UInt16)
  | canton (syncEvent : Bytes) (participantSignatures participantPubkeys : List Bytes)
  | generic (proofBytes : Bytes) (signerPubkeys signatures : List Bytes)
      (signatureScheme : SignatureScheme)

structure ExternalCheckpoint where
  chainId : ChainId
  blockNumber : UInt64
  blockHash : Hash
  stateRoot : Hash
  parentBlockHash : Hash
  /-- Chain work, or justification weight: the measure of the fork choice. -/
  chainWork : BitVec 128
  timestampMs : UInt64
  proof : ChainProof
  metadata : Option String

structure VerificationResult where
  valid : Bool
  reason : Option String
  confidenceBps : UInt16
deriving DecidableEq, Repr

namespace VerificationResult

/-- `VerificationResult::valid()`. -/
def accepted : VerificationResult where
  valid := true
  reason := none
  confidenceBps := 10000

def invalid (reason : String) : VerificationResult where
  valid := false
  reason := some reason
  confidenceBps := 0

end VerificationResult

end Quantos

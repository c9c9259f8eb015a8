import Quantos.Finality
import Quantos.L0External

/-!
# L0 finality proofs and their verifier

`l0/proof.rs`, `l0/verifier.rs` and the snapshot of `l0/hub.rs`. A proof is
a header, the list of validators and a list of signatures that name a
validator by its index in that list. The verifier is stateless: it gets a
proof and a snapshot of the validator set.

What the hashers are fed is kept as the list of their `update` calls
(`signingUpdates`), since the fields of the header are recovered from the
lengths of these pieces.
-/

namespace Quantos

open List

/-- The `w` low bytes of `n`, most significant first (`to_be_bytes`). -/
def beBytes (w n : Nat) : Bytes := (leBytes w n).reverse

@[simp] theorem length_beBytes (w n : Nat) : (beBytes w n).length = w := by
  simp [beBytes, length_leBytes]

variable {w n m : Nat}

theorem eq_of_leBytes_eq (h : leBytes w n = leBytes w m) (hn : n < 256 ^ w) (hm : m < 256 ^ w) :
    n = m := by
  have hvalue := congrArg leValue h
  rwa [leValue_leBytes, leValue_leBytes, Nat.mod_eq_of_lt hn, Nat.mod_eq_of_lt hm] at hvalue

theorem eq_of_beBytes_eq (h : beBytes w n = beBytes w m) (hn : n < 256 ^ w) (hm : m < 256 ^ w) :
    n = m := eq_of_leBytes_eq (reverse_injective h) hn hm

theorem arrayBytes_injective : Function.Injective arrayBytes :=
  Function.LeftInverse.injective arrayOfBytes_arrayBytes

variable {r s : Bytes}

/-- Fields of a known width in front of further bytes can be read back. -/
theorem leBytes_append_inj (hn : n < 256 ^ w) (hm : m < 256 ^ w)
    (h : leBytes w n ++ r = leBytes w m ++ s) : n = m ∧ r = s := by
  obtain ⟨hfront, hrest⟩ := append_inj h (by rw [length_leBytes, length_leBytes])
  exact ⟨eq_of_leBytes_eq hfront hn hm, hrest⟩

theorem arrayBytes_append_inj {a b : Hash} (h : arrayBytes a ++ r = arrayBytes b ++ s) :
    a = b ∧ r = s := by
  obtain ⟨hfront, hrest⟩ := append_inj h (by simp)
  exact ⟨arrayBytes_injective hfront, hrest⟩

theorem u64_inj {a b : UInt64} (h : leBytes 8 a.toNat = leBytes 8 b.toNat) : a = b :=
  UInt64.toNat_inj.mp (eq_of_leBytes_eq h a.toNat_lt b.toNat_lt)

theorem u64_append_inj {a b : UInt64} (h : leBytes 8 a.toNat ++ r = leBytes 8 b.toNat ++ s) :
    a = b ∧ r = s :=
  (leBytes_append_inj a.toNat_lt b.toNat_lt h).imp_left UInt64.toNat_inj.mp

theorem u16_append_inj {a b : UInt16} (h : leBytes 2 a.toNat ++ r = leBytes 2 b.toNat ++ s) :
    a = b ∧ r = s :=
  (leBytes_append_inj a.toNat_lt b.toNat_lt h).imp_left UInt16.toNat_inj.mp

theorem amount_append_inj {a b : Amount} (h : leBytes 16 a.toNat ++ r = leBytes 16 b.toNat ++ s) :
    a = b ∧ r = s :=
  (leBytes_append_inj a.toNat_lt b.toNat_lt h).imp_left Amount.toNat_inj

/-- `hex::encode`. -/
def hexEncode (bytes : Bytes) : String :=
  String.ofList
    (bytes.flatMap fun b => [Nat.digitChar (b.toNat / 16), Nat.digitChar (b.toNat % 16)])

def L0_PROOF_VERSION : UInt16 := 1

/-- The errors the hub and the verifier return. -/
inductive L0Error
  | invalidCheckpoint (reason : String)
  | insufficientStake (signed required : U128)
  | unknownValidatorSet (reason : String)
  | unsupportedVersion (version : UInt16)
  | config (reason : String)

inductive PqcSignatureAlgo
  | mlDsa65
deriving DecidableEq, Repr

/-- `sig.algo as u8`. -/
def PqcSignatureAlgo.tag : PqcSignatureAlgo → UInt8
  | mlDsa65 => 1

structure L0ProofHeader where
  version : UInt16
  /-- `none` for a checkpoint of Quantos itself. -/
  externalChain : Option ChainId
  epoch : UInt64
  slot : UInt64
  previousProofHash : Hash
  stateRoot : Hash
  dagRoot : Hash
  parentBlockHash : Hash
  chainWork : U128
  validatorSetRoot : Hash
  totalStake : U128
  stakeThreshold : U128
  emittedAtMs : UInt64
  /-- Zero without a STARK proof. -/
  starkCommitment : Hash
  /-- What the validators signed, or zero where they signed the digest. -/
  checkpointHash : Hash
deriving DecidableEq, Repr

structure ValidatorRecord where
  address : Address
  publicKey : Bytes
  stake : U128
deriving DecidableEq, Repr

structure ProofSignature where
  validatorIndex : UInt32
  algo : PqcSignatureAlgo
  signature : Bytes
deriving DecidableEq, Repr

structure BatchPublicInputs where
  validatorSetRoot : Hash
  messageHash : Hash
  signedStake : U128
  stakeThreshold : U128
  signerCount : UInt32
deriving DecidableEq, Repr

structure StarkBatchProof where
  proofBytes : Bytes
  commitment : Hash
  publicInputs : BatchPublicInputs
deriving DecidableEq, Repr

structure L0FinalityProof where
  header : L0ProofHeader
  validators : List ValidatorRecord
  signatures : List ProofSignature
  starkProof : Option StarkBatchProof
deriving DecidableEq, Repr

/-- The updates one record contributes to a hash. -/
def ValidatorRecord.updates (v : ValidatorRecord) : List Bytes :=
  [arrayBytes v.address, beBytes 4 v.publicKey.length, v.publicKey, beBytes 16 v.stake.toNat]

theorem toNat_saturatingAdd128 (a b : U128) :
    (saturatingAdd128 a b).toNat = min (a.toNat + b.toNat) (2 ^ 128 - 1) := by
  unfold saturatingAdd128
  split
  · rename_i h
    rw [BitVec.toNat_add, Nat.mod_eq_of_lt h]
    omega
  · rw [BitVec.toNat_ofNat]
    omega

/-- `fold(0, saturating_add)` over the stakes. -/
def saturatingStake (records : List ValidatorRecord) : U128 :=
  records.foldl (fun acc v => saturatingAdd128 acc v.stake) 0

/-- Where the sum does not fit, it stays at the largest word. -/
theorem toNat_saturatingStake (records : List ValidatorRecord) :
    (saturatingStake records).toNat
      = min (records.map fun v => v.stake.toNat).sum (2 ^ 128 - 1) := by
  suffices h : ∀ acc : U128,
      (records.foldl (fun acc v => saturatingAdd128 acc v.stake) acc).toNat
        = min (acc.toNat + (records.map fun v => v.stake.toNat).sum) (2 ^ 128 - 1) by
    simpa [saturatingStake] using h 0
  induction records with
  | nil =>
    intro acc
    simp only [foldl_nil, map_nil, sum_nil]
    omega
  | cons v records ih =>
    intro acc
    rw [foldl_cons, ih, toNat_saturatingAdd128, map_cons, sum_cons]
    omega

namespace L0FinalityProof

variable {V : Type} (env : Platform V) (proof : L0FinalityProof)

/-- The updates of `signing_digest`, in order. The STARK commitment is not
among them. -/
def signingUpdates : List Bytes :=
  let h := proof.header
  [ beBytes 2 h.version.toNat,
    h.externalChain.elim [0] fun chain => 1 :: chain.asStr.toUTF8.data.toList,
    beBytes 8 h.epoch.toNat, beBytes 8 h.slot.toNat, arrayBytes h.previousProofHash,
    arrayBytes h.stateRoot, arrayBytes h.dagRoot, arrayBytes h.parentBlockHash,
    beBytes 16 h.chainWork.toNat, arrayBytes h.validatorSetRoot, beBytes 16 h.totalStake.toNat,
    beBytes 16 h.stakeThreshold.toNat, beBytes 8 h.emittedAtMs.toNat,
    arrayBytes h.checkpointHash ]
  ++ proof.validators.flatMap ValidatorRecord.updates

def signingPreimage : Bytes := proof.signingUpdates.flatten

def signingDigest : Hash := env.hashData proof.signingPreimage

/-- Hash of the whole proof, signatures and STARK commitment included. -/
def proofHash : Hash :=
  env.hashData (arrayBytes (proof.signingDigest env)
    ++ (proof.signatures.flatMap fun sig =>
        beBytes 4 sig.validatorIndex.toNat ++ [sig.algo.tag] ++ beBytes 4 sig.signature.length
          ++ sig.signature)
    ++ arrayBytes proof.header.starkCommitment)

/-- What the validators signed: the tagged checkpoint hash of a native
proof that has one, the signing digest otherwise. -/
def signedMessage : Bytes :=
  if proof.header.externalChain = none ∧ proof.header.checkpointHash ≠ 0 then
    withDomain DOMAIN_CHECKPOINT (arrayBytes proof.header.checkpointHash)
  else arrayBytes (proof.signingDigest env)

/-- The record a signature names. -/
def validatorOf (sig : ProofSignature) : Option ValidatorRecord :=
  proof.validators[sig.validatorIndex.toNat]?

def signedStake : U128 := saturatingStake (proof.signatures.filterMap proof.validatorOf)

def meetsThreshold : Bool := proof.header.stakeThreshold.ule proof.signedStake

end L0FinalityProof

structure ValidatorSetSnapshot where
  root : Hash
  validators : List ValidatorRecord

namespace ValidatorSetSnapshot

def totalStake (s : ValidatorSetSnapshot) : U128 := saturatingStake s.validators

def positionOf (s : ValidatorSetSnapshot) (address : Address) : Option Nat :=
  s.validators.findIdx? fun v => v.address = address

def computeRoot (hashData : Bytes → Hash) (records : List ValidatorRecord) : Hash :=
  hashData (records.flatMap ValidatorRecord.updates).flatten

end ValidatorSetSnapshot

/-! ## The verifier -/

structure VerificationReport where
  signedStake : U128
  stakeThreshold : U128
  validSignatures : Nat
  invalidSignatures : Nat

def VerificationReport.isFinal (r : VerificationReport) : Bool :=
  r.invalidSignatures = 0 && r.stakeThreshold.ule r.signedStake

namespace ExternalVerifier

variable {V : Type} (env : Platform V)

/-- The body of the loop over the signatures. -/
def countSignature (proof : L0FinalityProof) (message : Bytes) (report : VerificationReport)
    (sig : ProofSignature) : VerificationReport :=
  match proof.validatorOf sig with
  | none => { report with invalidSignatures := report.invalidSignatures + 1 }
  | some validator =>
    if env.verifyMlDsa65 validator.publicKey message sig.signature then
      { report with
        validSignatures := report.validSignatures + 1
        signedStake := saturatingAdd128 report.signedStake validator.stake }
    else { report with invalidSignatures := report.invalidSignatures + 1 }

def verify (proof : L0FinalityProof) (snapshot : ValidatorSetSnapshot) :
    Except L0Error VerificationReport :=
  if proof.header.version ≠ L0_PROOF_VERSION then
    .error (.unsupportedVersion proof.header.version)
  else if proof.header.validatorSetRoot ≠ snapshot.root then
    .error (.unknownValidatorSet ("expected "
      ++ hexEncode (arrayBytes proof.header.validatorSetRoot)
      ++ " got " ++ hexEncode (arrayBytes snapshot.root)))
  else if proof.validators.length ≠ snapshot.validators.length then
    .error (.unknownValidatorSet "validator set length mismatch")
  else if proof.header.totalStake ≠ snapshot.totalStake then
    .error (.invalidCheckpoint "total_stake mismatch with snapshot")
  else
    .ok (proof.signatures.foldl (countSignature env proof (proof.signedMessage env))
      { signedStake := 0, stakeThreshold := proof.header.stakeThreshold, validSignatures := 0,
        invalidSignatures := 0 })

end ExternalVerifier

end Quantos

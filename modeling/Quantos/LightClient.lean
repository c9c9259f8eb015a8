import Quantos.L0External
import Quantos.WeightedQuorum

/-!
# Light clients of the signature-based families

`l0/light_client.rs`: a light client answers for a checkpoint from the
proof the relayer submitted and the validator set registered for its chain.
Fifteen families are decided by counting valid signatures against the
threshold of that set.

Ed25519, BLS12-381 and ECDSA are third-party code and so is the formatting
of a list of messages; they are the fields of `ChainCrypto`. A client that
panics, which the Ed25519 batch does on lists of different lengths, gives
no answer (`none`).

Thirteen families pair the signatures with the registered keys, so what
they count are registered keys that signed. Move and Generic pair them with
keys of the proof: the count is then of signatures under keys the relayer
chose, as often as the relayer repeats them. What `registered_quorum_iff`
asks of such a proof is that the keys counted beyond the registered ones can
be spared.
-/

namespace Quantos

/-- What the light clients call out to. A failing check carries its text. -/
structure ChainCrypto where
  /-- `verify_strict` on a key and a signature of the right lengths. -/
  ed25519 : (pubkey message sig : Bytes) → Except String Unit
  bls : (pubkey message sig : Bytes) → Except String Unit
  ecdsa : (pubkey message sig : Bytes) → Except String Unit
  /-- `{:?}` of a vector of strings. -/
  debugStrings : List String → String

namespace LightClient

structure ValidatorSet where
  pubkeys : List Bytes
  stakes : List UInt64
  thresholdBps : UInt16

abbrev ValidatorSetRegistry := Table (Prod.fst : ChainId × ValidatorSet → ChainId)

variable (crypto : ChainCrypto)

def verifyEd25519 (pubkey message sig : Bytes) : Except String Unit :=
  if pubkey.length ≠ 32 then
    .error ("Ed25519 pubkey length " ++ toString pubkey.length ++ " != 32")
  else if sig.length ≠ 64 then
    .error ("Ed25519 signature length " ++ toString sig.length ++ " != 64")
  else crypto.ed25519 pubkey message sig

/-- The check of a scheme. -/
def verifyWith : SignatureScheme → (pubkey message sig : Bytes) → Except String Unit
  | .ed25519 => verifyEd25519 crypto
  | .bls12381 => crypto.bls
  | .ecdsaSecp256k1 => crypto.ecdsa

def isValid (scheme : SignatureScheme) (pubkey message sig : Bytes) : Bool :=
  (verifyWith crypto scheme pubkey message sig).isOk

/-- The number of valid pairs of a loop over keys and signatures, and the
errors of the others, each with its label. -/
def countValid (scheme : SignatureScheme) (label : Nat → String → String) (message : Bytes)
    (pairs : List (Bytes × Bytes)) : Nat × List String :=
  (pairs.countP fun pair => isValid crypto scheme pair.1 message pair.2,
    pairs.zipIdx.filterMap fun (pair, i) =>
      match verifyWith crypto scheme pair.1 message pair.2 with
      | .ok () => none
      | .error e => some (label i e))

/-- `format!("sig {}: {}", i, e)`. -/
def indexed (i : Nat) (e : String) : String := "sig " ++ toString i ++ ": " ++ e

/-- Every caller passes one message for all signatures. -/
def verifyEd25519Batch (pubkeys : List Bytes) (message : Bytes) (signatures : List Bytes) :
    Option (Nat × List String) :=
  if pubkeys.length ≠ signatures.length then none
  else some (countValid crypto .ed25519 (fun _ e => e) message (pubkeys.zip signatures))

/-- `((valid as u64 * 10000) / len as u64) as u16`. -/
def powerBps (valid len : Nat) : UInt16 := UInt16.ofNat (valid * 10000 % 2 ^ 64 / len)

/-- The power as Solana's client computes it, who divides by the number of
keys as it is: a set without keys would be a division by zero. -/
def dividedPower (valid len : Nat) : Option UInt16 :=
  if len = 0 then none else some (powerBps valid len)

/-- The comparison with the threshold of the set. -/
def requirePower (name errors : String) (set : ValidatorSet) (power : UInt16) :
    VerificationResult :=
  if power < set.thresholdBps then
    .invalid (name ++ " signed power " ++ toString power.toNat ++ " bps < threshold "
      ++ toString set.thresholdBps.toNat ++ " bps" ++ errors)
  else .accepted

def listErrors (errors : List String) : String := ". Errors: " ++ crypto.debugStrings errors

/-- The registered keys in turn against the signatures of the proof. -/
def ed25519Quorum (name : String) (validatorSet : Option ValidatorSet) (message : Bytes)
    (signatures : List Bytes) : Option VerificationResult :=
  match validatorSet with
  | none => some (.invalid (name ++ ": no validator set registered"))
  | some set =>
    (verifyEd25519Batch crypto set.pubkeys message signatures).map fun (valid, errors) =>
      requirePower name (listErrors crypto errors) set
        (powerBps valid (max set.pubkeys.length 1))

/-- The texts in which the families of one shape differ. -/
structure FamilyTexts where
  name : String
  emptyMessage : String
  emptySignatures : String

/-- A family whose proof is a message, signatures and as many keys. The
keys are only counted. -/
def verifyListed (texts : FamilyTexts) (fields : Option (Bytes × List Bytes × List Bytes))
    (validatorSet : Option ValidatorSet) : Option VerificationResult :=
  match fields with
  | none => some (.invalid ("Expected " ++ texts.name ++ " ChainProof"))
  | some (message, signatures, pubkeys) =>
    if message.isEmpty then some (.invalid texts.emptyMessage)
    else if signatures.isEmpty then some (.invalid texts.emptySignatures)
    else if pubkeys.length ≠ signatures.length then
      some (.invalid (texts.name ++ " pubkey/sig count mismatch"))
    else ed25519Quorum crypto texts.name validatorSet message signatures

/-! ## The families -/

variable (cp : ExternalCheckpoint) (validatorSet : Option ValidatorSet)

def verifySolanaProduction : Option VerificationResult :=
  match cp.proof with
  | .solana ledgerEntry voteSignatures bankHash =>
    if ledgerEntry.isEmpty then some (.invalid "Solana ledger empty")
    else if voteSignatures.isEmpty then some (.invalid "Solana votes empty")
    else if bankHash ≠ cp.stateRoot then some (.invalid "Solana bank_hash mismatch")
    else
      match validatorSet with
      | none => some (.invalid "Solana: no validator set registered")
      | some set =>
        if set.pubkeys.length ≠ voteSignatures.length then
          some (.invalid ("Solana validator count mismatch: set "
            ++ toString set.pubkeys.length ++ " vs proof " ++ toString voteSignatures.length))
        else
          (verifyEd25519Batch crypto set.pubkeys ledgerEntry voteSignatures).bind
            fun (valid, errors) =>
              (dividedPower valid set.pubkeys.length).map
                (requirePower "Solana" (listErrors crypto errors) set)
  | _ => some (.invalid "Expected Solana ChainProof")

/-- The keys are those of the proof. -/
def verifyMoveProduction : Option VerificationResult :=
  match cp.proof with
  | .move ledgerInfo validatorSignatures validatorPubkeys =>
    if ledgerInfo.isEmpty then some (.invalid "Move ledger empty")
    else if validatorSignatures.isEmpty then some (.invalid "Move sigs empty")
    else if validatorPubkeys.length ≠ validatorSignatures.length then
      some (.invalid "Move pubkey/sig count mismatch")
    else
      match validatorSet with
      | none => some (.invalid "Move: no validator set registered")
      | some set =>
        let (valid, errors) := countValid crypto .bls12381 indexed ledgerInfo
          (validatorPubkeys.zip validatorSignatures)
        some (requirePower "Move" (listErrors crypto errors) set
          (powerBps valid (max set.pubkeys.length 1)))
  | _ => some (.invalid "Expected Move ChainProof")

def verifyNearProduction : Option ValidatorSet → Option VerificationResult :=
  verifyListed crypto ⟨"NEAR", "NEAR header empty", "NEAR approvals empty"⟩
    (match cp.proof with
      | .near blockHeader approvalSignatures producerPubkeys =>
        some (blockHeader, approvalSignatures, producerPubkeys)
      | _ => none)

/-- The power the relayer states is checked besides the one computed. -/
def verifyCosmosProduction : Option VerificationResult :=
  match cp.proof with
  | .cosmos blockHeader commitSignatures validatorPubkeys signedPowerBps =>
    if blockHeader.isEmpty then some (.invalid "Cosmos header empty")
    else if commitSignatures.isEmpty then some (.invalid "Cosmos commits empty")
    else if validatorPubkeys.length ≠ commitSignatures.length then
      some (.invalid "Cosmos pubkey/sig count mismatch")
    else if signedPowerBps < 6667 then
      some (.invalid ("Cosmos power " ++ toString signedPowerBps.toNat ++ " < 6667"))
    else ed25519Quorum crypto "Cosmos" validatorSet blockHeader commitSignatures
  | _ => some (.invalid "Expected Cosmos ChainProof")

def verifyCardanoProduction : Option VerificationResult :=
  match cp.proof with
  | .cardano blockHeader vrfProof poolSignatures =>
    if blockHeader.isEmpty then some (.invalid "Cardano header empty")
    else if vrfProof.isEmpty then some (.invalid "Cardano VRF empty")
    else if poolSignatures.isEmpty then some (.invalid "Cardano pool sigs empty")
    else ed25519Quorum crypto "Cardano" validatorSet blockHeader poolSignatures
  | _ => some (.invalid "Expected Cardano ChainProof")

def verifyTon : Option ValidatorSet → Option VerificationResult :=
  verifyListed crypto ⟨"TON", "TON block_header empty", "TON validator_signatures empty"⟩
    (match cp.proof with
      | .ton blockHeader validatorSignatures validatorPubkeys =>
        some (blockHeader, validatorSignatures, validatorPubkeys)
      | _ => none)

/-- The registered keys are paired with the signatures as far as both go. -/
def verifyTron : Option VerificationResult :=
  match cp.proof with
  | .tron blockHeader producerSignatures producerPubkeys =>
    if blockHeader.isEmpty then some (.invalid "Tron block_header empty")
    else if producerSignatures.isEmpty then some (.invalid "Tron producer_signatures empty")
    else if producerPubkeys.length ≠ producerSignatures.length then
      some (.invalid "Tron pubkey/sig count mismatch")
    else
      match validatorSet with
      | none => some (.invalid "Tron: no validator set registered")
      | some set =>
        let (valid, errors) := countValid crypto .ecdsaSecp256k1 indexed blockHeader
          (set.pubkeys.zip producerSignatures)
        some (requirePower "Tron" (listErrors crypto errors) set
          (powerBps valid (max set.pubkeys.length 1)))
  | _ => some (.invalid "Expected Tron ChainProof")

def verifyPolkadot : Option ValidatorSet → Option VerificationResult :=
  verifyListed crypto
    ⟨"Polkadot", "Polkadot grandpa_vote empty", "Polkadot validator_signatures empty"⟩
    (match cp.proof with
      | .polkadot grandpaVote validatorSignatures validatorPubkeys =>
        some (grandpaVote, validatorSignatures, validatorPubkeys)
      | _ => none)

def verifyStellar : Option ValidatorSet → Option VerificationResult :=
  verifyListed crypto ⟨"Stellar", "Stellar scp_statement empty", "Stellar node_signatures empty"⟩
    (match cp.proof with
      | .stellar scpStatement nodeSignatures nodePubkeys =>
        some (scpStatement, nodeSignatures, nodePubkeys)
      | _ => none)

def verifyTezos : Option ValidatorSet → Option VerificationResult :=
  verifyListed crypto ⟨"Tezos", "Tezos endorsement empty", "Tezos baker_signatures empty"⟩
    (match cp.proof with
      | .tezos endorsement bakerSignatures bakerPubkeys =>
        some (endorsement, bakerSignatures, bakerPubkeys)
      | _ => none)

def verifyRipple : Option ValidatorSet → Option VerificationResult :=
  verifyListed crypto
    ⟨"Ripple", "Ripple ledger_header empty", "Ripple validator_signatures empty"⟩
    (match cp.proof with
      | .ripple ledgerHeader validatorSignatures validatorPubkeys _ =>
        some (ledgerHeader, validatorSignatures, validatorPubkeys)
      | _ => none)

def verifyAlgorand : Option ValidatorSet → Option VerificationResult :=
  verifyListed crypto
    ⟨"Algorand", "Algorand block_header empty", "Algorand participation_signatures empty"⟩
    (match cp.proof with
      | .algorand blockHeader participationSignatures participationPubkeys _ =>
        some (blockHeader, participationSignatures, participationPubkeys)
      | _ => none)

def verifyHedera : Option ValidatorSet → Option VerificationResult :=
  verifyListed crypto ⟨"Hedera", "Hedera block_header empty", "Hedera council_signatures empty"⟩
    (match cp.proof with
      | .hedera blockHeader councilSignatures councilPubkeys _ =>
        some (blockHeader, councilSignatures, councilPubkeys)
      | _ => none)

def verifyCanton : Option ValidatorSet → Option VerificationResult :=
  verifyListed crypto
    ⟨"Canton", "Canton sync_event empty", "Canton participant_signatures empty"⟩
    (match cp.proof with
      | .canton syncEvent participantSignatures participantPubkeys =>
        some (syncEvent, participantSignatures, participantPubkeys)
      | _ => none)

/-- The keys are those of the proof, a quorum of them is asked for, and the
registered set, if there is one, only gives the number to compare with. -/
def verifyGeneric : Option VerificationResult :=
  match cp.proof with
  | .generic proofBytes signerPubkeys signatures signatureScheme =>
    if proofBytes.isEmpty then some (.invalid "Generic proof empty")
    else if signatures.isEmpty then some (.invalid "Generic sigs empty")
    else if signerPubkeys.length ≠ signatures.length then
      some (.invalid "Generic pubkey/sig count mismatch")
    else
      let label := match signatureScheme with
        | .ed25519 => fun _ e => e
        | .bls12381 => indexed
        | .ecdsaSecp256k1 => indexed
      let (valid, errors) :=
        countValid crypto signatureScheme label proofBytes (signerPubkeys.zip signatures)
      let quorum := signerPubkeys.length * 2 / 3 + 1
      if valid < quorum then
        some (.invalid ("Generic signed power " ++ toString valid ++ "/"
          ++ toString signerPubkeys.length ++ " < quorum " ++ toString quorum ++ ". Errors: "
          ++ crypto.debugStrings errors))
      else
        match validatorSet with
        | none => some .accepted
        | some set =>
          some (requirePower "Generic" "" set (powerBps valid (max set.pubkeys.length 1)))
  | _ => some (.invalid "Expected Generic ChainProof")

end LightClient

inductive LightClientKind
  | solana | move | near | cosmos | cardano | ton | tron | polkadot | stellar | tezos | ripple
  | algorand | hedera | canton | generic
deriving DecidableEq, Repr

/-- A light client of a family, for one chain. -/
structure LightClient where
  kind : LightClientKind
  chain : ChainId

namespace LightClient

variable (crypto : ChainCrypto)

/-- The answer of a client, `none` for a panic. -/
def verifyCheckpoint (registry : ValidatorSetRegistry) (client : LightClient)
    (cp : ExternalCheckpoint) : Option VerificationResult :=
  let set := (registry.get client.chain).map Prod.snd
  match client.kind with
  | .solana => verifySolanaProduction crypto cp set
  | .move => verifyMoveProduction crypto cp set
  | .near => verifyNearProduction crypto cp set
  | .cosmos => verifyCosmosProduction crypto cp set
  | .cardano => verifyCardanoProduction crypto cp set
  | .ton => verifyTon crypto cp set
  | .tron => verifyTron crypto cp set
  | .polkadot => verifyPolkadot crypto cp set
  | .stellar => verifyStellar crypto cp set
  | .tezos => verifyTezos crypto cp set
  | .ripple => verifyRipple crypto cp set
  | .algorand => verifyAlgorand crypto cp set
  | .hedera => verifyHedera crypto cp set
  | .canton => verifyCanton crypto cp set
  | .generic => verifyGeneric crypto cp set

/-! ## Registered keys that signed -/

/-- Scheme, message and signatures of a proof. -/
def signedPart : ChainProof → Option (SignatureScheme × Bytes × List Bytes)
  | .evm .. => none
  | .bitcoin .. => none
  | .icp .. => none
  | .solana ledgerEntry signatures _ => some (.ed25519, ledgerEntry, signatures)
  | .move ledgerInfo signatures _ => some (.bls12381, ledgerInfo, signatures)
  | .near blockHeader signatures _ => some (.ed25519, blockHeader, signatures)
  | .cosmos blockHeader signatures _ _ => some (.ed25519, blockHeader, signatures)
  | .cardano blockHeader _ signatures => some (.ed25519, blockHeader, signatures)
  | .ton blockHeader signatures _ => some (.ed25519, blockHeader, signatures)
  | .tron blockHeader signatures _ => some (.ecdsaSecp256k1, blockHeader, signatures)
  | .polkadot grandpaVote signatures _ => some (.ed25519, grandpaVote, signatures)
  | .stellar scpStatement signatures _ => some (.ed25519, scpStatement, signatures)
  | .tezos endorsement signatures _ => some (.ed25519, endorsement, signatures)
  | .ripple ledgerHeader signatures _ _ => some (.ed25519, ledgerHeader, signatures)
  | .algorand blockHeader signatures _ _ => some (.ed25519, blockHeader, signatures)
  | .hedera blockHeader signatures _ _ => some (.ed25519, blockHeader, signatures)
  | .canton syncEvent signatures _ => some (.ed25519, syncEvent, signatures)
  | .generic proofBytes _ signatures scheme => some (scheme, proofBytes, signatures)

/-- One of the proof's signatures on its message is valid under the key. -/
def Signs (proof : ChainProof) (pubkey : Bytes) : Bool :=
  match signedPart proof with
  | some (scheme, message, signatures) =>
    signatures.any fun sig => isValid crypto scheme pubkey message sig
  | none => false

/-- The registered keys that signed are the share of the set asked for. -/
def HasQuorum (proof : ChainProof) (set : ValidatorSet) : Prop :=
  set.thresholdBps.toNat * set.pubkeys.length
    ≤ (set.pubkeys.toFinset.filter fun pubkey => Signs crypto proof pubkey).card * 10000

/-- The cast to `u16` and the wrapping product only lower the power. -/
theorem mul_le_of_le_powerBps {threshold : UInt16} {valid len : Nat}
    (h : threshold ≤ powerBps valid len) : threshold.toNat * len ≤ valid * 10000 := by
  have hpower : threshold.toNat ≤ valid * 10000 / len := by
    calc threshold.toNat ≤ (powerBps valid len).toNat := UInt16.le_iff_toNat_le.mp h
      _ ≤ valid * 10000 % 2 ^ 64 / len := by
        rw [powerBps, UInt16.toNat_ofNat']
        exact Nat.mod_le _ _
      _ ≤ valid * 10000 / len := Nat.div_le_div_right (Nat.mod_le _ _)
  calc threshold.toNat * len ≤ valid * 10000 / len * len := Nat.mul_le_mul_right len hpower
    _ ≤ valid * 10000 := Nat.div_mul_le_self _ _

variable {set : ValidatorSet}

theorem countP_zip_le {valid : Bytes → Bytes → Bool} {signs : Bytes → Bool}
    {pubkeys signatures : List Bytes}
    (h : ∀ pubkey, ∀ sig ∈ signatures, valid pubkey sig = true → signs pubkey = true) :
    ((pubkeys.zip signatures).countP fun pair => valid pair.1 pair.2) ≤ pubkeys.countP signs := by
  induction pubkeys generalizing signatures with
  | nil => simp
  | cons pubkey pubkeys ih =>
    cases signatures with
    | nil => simp
    | cons sig =>
      have hrest := ih fun pk s hs => h pk s (List.mem_cons_of_mem _ hs)
      have hhead := h pubkey sig List.mem_cons_self
      rw [List.zip_cons_cons, List.countP_cons, List.countP_cons]
      rcases hvalid : valid pubkey sig with _ | _
      · simp only [Bool.false_eq_true, if_false]
        omega
      · simp only [hhead hvalid, if_true]
        omega

theorem card_filter_signs {proof : ChainProof} (hdistinct : set.pubkeys.Nodup) :
    (set.pubkeys.toFinset.filter fun pubkey => Signs crypto proof pubkey).card
      = set.pubkeys.countP (Signs crypto proof) := by
  rw [List.countP_eq_length_filter, ← List.toFinset_filter,
    List.toFinset_card_of_nodup (hdistinct.filter _)]

/-- Registered keys paired with the proof's signatures: enough valid pairs
are enough keys that signed. -/
theorem hasQuorum_of_countP {proof : ChainProof} {set : ValidatorSet} {scheme : SignatureScheme}
    {message : Bytes} {signatures : List Bytes} (hdistinct : set.pubkeys.Nodup)
    (hpart : signedPart proof = some (scheme, message, signatures)) {len : Nat}
    (hlen : set.pubkeys.length ≤ len)
    (hpower : set.thresholdBps ≤ powerBps ((set.pubkeys.zip signatures).countP fun pair =>
      isValid crypto scheme pair.1 message pair.2) len) : HasQuorum crypto proof set := by
  have hsigns : ∀ pubkey, ∀ sig ∈ signatures, isValid crypto scheme pubkey message sig = true →
      Signs crypto proof pubkey = true := by
    intro pubkey sig hsig hvalid
    simp only [Signs, hpart]
    exact List.any_eq_true.mpr ⟨sig, hsig, hvalid⟩
  have hcount := @countP_zip_le (fun pubkey sig => isValid crypto scheme pubkey message sig)
    (Signs crypto proof) set.pubkeys signatures hsigns
  unfold HasQuorum
  rw [card_filter_signs crypto hdistinct]
  calc set.thresholdBps.toNat * set.pubkeys.length
      ≤ set.thresholdBps.toNat * len := Nat.mul_le_mul_left _ hlen
    _ ≤ _ := mul_le_of_le_powerBps hpower
    _ ≤ set.pubkeys.countP (Signs crypto proof) * 10000 := Nat.mul_le_mul_right _ hcount

/-- The client answers that the checkpoint is valid. -/
def Accepts (answer : Option VerificationResult) : Prop := ∃ r, answer = some r ∧ r.valid = true

theorem not_accepts_invalid {reason : String} : ¬ Accepts (some (.invalid reason)) := by
  rintro ⟨_, ⟨⟩, hvalid⟩
  cases hvalid

theorem accepts_ite_iff {c : Prop} [Decidable c] {reason : String}
    {answer : Option VerificationResult} :
    Accepts (if c then some (.invalid reason) else answer) ↔ ¬ c ∧ Accepts answer := by
  split
  · rename_i hc
    exact ⟨fun h => absurd h not_accepts_invalid, fun h => absurd hc h.1⟩
  · rename_i hc
    exact ⟨fun h => ⟨hc, h⟩, And.right⟩

theorem accepts_requirePower_iff {name errors : String} {power : UInt16} :
    Accepts (some (requirePower name errors set power)) ↔ set.thresholdBps ≤ power := by
  unfold requirePower
  split
  · rename_i hless
    exact iff_of_false not_accepts_invalid (UInt16.not_le.mpr hless)
  · rename_i hless
    exact iff_of_true ⟨_, rfl, rfl⟩ (UInt16.not_lt.mp hless)

/-- An answer that accepts only with a quorum of registered keys. -/
def Sound (proof : ChainProof) (set : ValidatorSet) (answer : Option VerificationResult) : Prop :=
  Accepts answer → HasQuorum crypto proof set

section Sound

variable {crypto} {proof : ChainProof}

theorem sound_invalid {reason : String} : Sound crypto proof set (some (.invalid reason)) :=
  fun h => absurd h not_accepts_invalid

/-- A check that answers `invalid` may be assumed passed. -/
theorem sound_ite {c : Prop} [Decidable c] {reason : String} {answer : Option VerificationResult}
    (h : ¬ c → Sound crypto proof set answer) :
    Sound crypto proof set (if c then some (.invalid reason) else answer) := by
  intro haccepts
  obtain ⟨hc, haccepts⟩ := accepts_ite_iff.mp haccepts
  exact h hc haccepts

variable {name : String}

theorem sound_requirePower {errors : String} {power : UInt16}
    (h : set.thresholdBps ≤ power → HasQuorum crypto proof set) :
    Sound crypto proof set (some (requirePower name errors set power)) :=
  fun haccepts => h (accepts_requirePower_iff.mp haccepts)

theorem sound_none : Sound crypto proof set none := by
  rintro ⟨_, hr, -⟩
  cases hr

variable {signatures : List Bytes} {message : Bytes}

section

variable {len : Nat} (hdistinct : set.pubkeys.Nodup)
  (hpart : signedPart proof = some (.ed25519, message, signatures))

include hdistinct hpart

theorem sound_batch (hlen : set.pubkeys.length ≤ len) : Sound crypto proof set
      ((verifyEd25519Batch crypto set.pubkeys message signatures).map fun (valid, errors) =>
        requirePower name (listErrors crypto errors) set (powerBps valid len)) := by
  unfold verifyEd25519Batch
  split
  · exact sound_none
  · exact sound_requirePower fun hpower => hasQuorum_of_countP crypto hdistinct hpart hlen hpower

theorem sound_batch_divided : Sound crypto proof set
      ((verifyEd25519Batch crypto set.pubkeys message signatures).bind fun (valid, errors) =>
        (dividedPower valid set.pubkeys.length).map
          (requirePower name (listErrors crypto errors) set)) := by
  unfold verifyEd25519Batch dividedPower
  split
  · exact sound_none
  simp only [Option.bind_some]
  split
  · exact sound_none
  · exact sound_requirePower fun hpower =>
      hasQuorum_of_countP crypto hdistinct hpart (Nat.le_refl _) hpower

end

theorem sound_ed25519Quorum {name : String} (hdistinct : set.pubkeys.Nodup)
    (hpart : signedPart proof = some (.ed25519, message, signatures)) :
    Sound crypto proof set (ed25519Quorum crypto name (some set) message signatures) :=
  sound_batch hdistinct hpart (Nat.le_max_left _ _)

theorem sound_verifyListed {texts : FamilyTexts}
    {fields : Option (Bytes × List Bytes × List Bytes)} (hdistinct : set.pubkeys.Nodup)
    (hfields : ∀ message signatures pubkeys, fields = some (message, signatures, pubkeys) →
      signedPart proof = some (.ed25519, message, signatures)) :
    Sound crypto proof set (verifyListed crypto texts fields (some set)) := by
  rcases fields with _ | ⟨message, signatures, pubkeys⟩
  · exact sound_invalid
  · exact sound_ite fun _ => sound_ite fun _ => sound_ite fun _ =>
      sound_ed25519Quorum hdistinct (hfields _ _ _ rfl)

end Sound

/-- The thirteen families that look at the registered keys. -/
theorem sound_verifyCheckpoint {registry : ValidatorSetRegistry} {client : LightClient}
    (hset : registry.get client.chain = some (client.chain, set)) (hdistinct : set.pubkeys.Nodup)
    (hmove : client.kind ≠ .move) (hgeneric : client.kind ≠ .generic) (cp : ExternalCheckpoint) :
    Sound crypto cp.proof set (client.verifyCheckpoint crypto registry cp) := by
  unfold verifyCheckpoint
  rw [hset]
  obtain ⟨kind, _⟩ := client
  cases kind
  case move => exact absurd rfl hmove
  case generic => exact absurd rfl hgeneric
  case near | ton | polkadot | stellar | tezos | ripple | algorand | hedera | canton =>
    refine sound_verifyListed hdistinct fun message signatures pubkeys hfields => ?_
    split at hfields
    · rename_i hproof
      rw [hproof]
      cases hfields
      rfl
    · cases hfields
  case solana =>
    simp only [verifySolanaProduction, Option.map_some]
    split
    · rename_i hproof
      iterate 4 refine sound_ite fun _ => ?_
      exact sound_batch_divided hdistinct (by rw [hproof]; rfl)
    · exact sound_invalid
  case cosmos | cardano =>
    simp only [verifyCosmosProduction, verifyCardanoProduction, Option.map_some]
    split
    · rename_i hproof
      repeat refine sound_ite fun _ => ?_
      exact sound_ed25519Quorum hdistinct (by rw [hproof]; rfl)
    · exact sound_invalid
  case tron =>
    simp only [verifyTron, Option.map_some]
    split
    · rename_i hproof
      iterate 3 refine sound_ite fun _ => ?_
      refine sound_requirePower fun hpower => ?_
      exact hasQuorum_of_countP crypto hdistinct (by rw [hproof]; rfl) (Nat.le_max_left _ _) hpower
    · exact sound_invalid

/-! ## Keys of the proof -/

/-- The keys of the proof with the signatures, in the families that pair
them. -/
def ownPairs : ChainProof → List (Bytes × Bytes)
  | .move _ signatures pubkeys => pubkeys.zip signatures
  | .generic _ pubkeys signatures _ => pubkeys.zip signatures
  | _ => []

/-- The keys of the proof that are counted, one for each valid signature. -/
def countedKeys (proof : ChainProof) : List Bytes :=
  match signedPart proof with
  | some (scheme, message, _) =>
    ((ownPairs proof).filter fun pair => isValid crypto scheme pair.1 message pair.2).map Prod.fst
  | none => []

/-- The proof does not list the key, but has a signature that is valid under
it. -/
def Overlooked (proof : ChainProof) (pubkey : Bytes) : Bool :=
  !(pubkey ∈ countedKeys crypto proof : Bool) && Signs crypto proof pubkey

/-- The proof is one of the client's family, Move or Generic, and passes its
checks. -/
def Passes (kind : LightClientKind) (proof : ChainProof) (set : ValidatorSet) : Prop :=
  let counted := (countedKeys crypto proof).length
  let power := powerBps counted (max set.pubkeys.length 1)
  match kind, proof with
  | .move, .move message signatures pubkeys =>
    message ≠ [] ∧ signatures ≠ [] ∧ pubkeys.length = signatures.length ∧ set.thresholdBps ≤ power
  | .generic, .generic message pubkeys signatures _ =>
    message ≠ [] ∧ signatures ≠ [] ∧ pubkeys.length = signatures.length ∧
      pubkeys.length * 2 / 3 + 1 ≤ counted ∧ set.thresholdBps ≤ power
  | _, _ => False

theorem kind_of_passes {kind : LightClientKind} {proof : ChainProof}
    (h : Passes crypto kind proof set) : kind = .move ∨ kind = .generic := by
  unfold Passes at h
  split at h
  · exact .inl rfl
  · exact .inr rfl
  · cases h

theorem signs_of_mem_countedKeys {proof : ChainProof} {pubkey : Bytes}
    (h : pubkey ∈ countedKeys crypto proof) : Signs crypto proof pubkey = true := by
  rcases hpart : signedPart proof with _ | ⟨scheme, message, signatures⟩
  · simp [countedKeys, hpart] at h
  simp only [countedKeys, hpart] at h
  obtain ⟨⟨_, sig⟩, hcounted, rfl⟩ := List.mem_map.mp h
  obtain ⟨hpair, hvalid⟩ := List.mem_filter.mp hcounted
  simp only [Signs, hpart]
  refine List.any_eq_true.mpr ⟨sig, ?_, hvalid⟩
  cases proof with
  | move =>
    cases hpart
    exact (List.of_mem_zip hpair).2
  | generic =>
    cases hpart
    exact (List.of_mem_zip hpair).2
  | _ => cases hpair

theorem length_countedKeys {proof : ChainProof} {scheme : SignatureScheme} {message : Bytes}
    {signatures : List Bytes} (h : signedPart proof = some (scheme, message, signatures)) :
    (countedKeys crypto proof).length
      = (ownPairs proof).countP fun pair => isValid crypto scheme pair.1 message pair.2 := by
  unfold countedKeys
  rw [h, List.length_map, List.countP_eq_length_filter]

theorem accepts_iff_passes {registry : ValidatorSetRegistry} {client : LightClient}
    (hset : registry.get client.chain = some (client.chain, set))
    (hkind : client.kind = .move ∨ client.kind = .generic) (cp : ExternalCheckpoint) :
    Accepts (client.verifyCheckpoint crypto registry cp) ↔
      Passes crypto client.kind cp.proof set := by
  unfold verifyCheckpoint
  rw [hset]
  obtain ⟨kind, _⟩ := client
  rcases hkind with rfl | rfl
  · dsimp only [Option.map_some, verifyMoveProduction]
    cases cp.proof with
    | move message signatures pubkeys =>
      have hcount := @length_countedKeys crypto (.move message signatures pubkeys) _ _ _ rfl
      simp only [accepts_ite_iff, accepts_requirePower_iff, List.isEmpty_iff, not_not, ne_eq,
        Passes, hcount, ownPairs, countValid]
    | _ => exact iff_of_false not_accepts_invalid id
  · dsimp only [Option.map_some, verifyGeneric]
    cases cp.proof with
    | generic message pubkeys signatures scheme =>
      have hcount := @length_countedKeys crypto (.generic message pubkeys signatures scheme)
        _ _ _ rfl
      simp only [accepts_ite_iff, accepts_requirePower_iff, List.isEmpty_iff, not_not, ne_eq,
        Nat.not_lt, Passes, hcount, ownPairs, countValid]
    | _ => exact iff_of_false not_accepts_invalid id

/-- The registered keys that signed are the counted ones that are registered,
each once, and the overlooked ones. -/
theorem card_signs {proof : ChainProof} (hdistinct : set.pubkeys.Nodup) :
    (set.pubkeys.toFinset.filter fun pubkey => Signs crypto proof pubkey).card
        + ((countedKeys crypto proof).diff set.pubkeys).length
      = (countedKeys crypto proof).length
        + (set.pubkeys.filter (Overlooked crypto proof)).length := by
  have hsigned := @WeightedQuorum.total_filter_of_imp _ (fun _ => 1)
    (fun pubkey => decide (pubkey ∈ countedKeys crypto proof)) (Signs crypto proof) set.pubkeys
    fun pubkey _ hcounted => signs_of_mem_countedKeys crypto (of_decide_eq_true hcounted)
  have hcounted := @WeightedQuorum.total_diff_add _ (fun _ => 1) _ _ (countedKeys crypto proof)
    set.pubkeys hdistinct
  simp only [WeightedQuorum.total, List.map_const', List.sum_replicate_nat, Nat.mul_one]
    at hsigned hcounted
  rw [card_filter_signs crypto hdistinct, List.countP_eq_length_filter]
  unfold Overlooked
  omega

/-- A light client accepts only with a quorum of the registered validators
if and only if a proof that passes the checks of the Move or the Generic
client still has one without the keys counted twice and those that are not
registered. -/
theorem registered_quorum_iff (registry : ValidatorSetRegistry) (client : LightClient)
    (cp : ExternalCheckpoint) (set : ValidatorSet)
    (hset : registry.get client.chain = some (client.chain, set))
    (hdistinct : set.pubkeys.Nodup) :
    (∀ r, client.verifyCheckpoint crypto registry cp = some r → r.valid = true →
        set.thresholdBps.toNat * set.pubkeys.length
          ≤ (set.pubkeys.toFinset.filter fun pubkey => Signs crypto cp.proof pubkey).card * 10000)
      ↔ (Passes crypto client.kind cp.proof set →
          set.thresholdBps.toNat * set.pubkeys.length
              + ((countedKeys crypto cp.proof).diff set.pubkeys).length * 10000
            ≤ ((countedKeys crypto cp.proof).length
              + (set.pubkeys.filter (Overlooked crypto cp.proof)).length) * 10000) := by
  rw [← card_signs crypto hdistinct]
  constructor
  · intro h hpasses
    obtain ⟨r, hr, hvalid⟩ :=
      (accepts_iff_passes crypto hset (kind_of_passes crypto hpasses) cp).mpr hpasses
    have := h r hr hvalid
    omega
  · intro h r hr hvalid
    by_cases hkind : client.kind = .move ∨ client.kind = .generic
    · have hpasses := (accepts_iff_passes crypto hset hkind cp).mp ⟨r, hr, hvalid⟩
      have := h hpasses
      omega
    · rw [not_or] at hkind
      exact sound_verifyCheckpoint crypto hset hdistinct hkind.1 hkind.2 cp ⟨r, hr, hvalid⟩

/-- A signature is valid under the key it starts with. -/
def sampleCrypto : ChainCrypto where
  ed25519 := fun pubkey _ sig => if sig.head? = pubkey.head? then .ok () else .error "invalid"
  bls := fun pubkey _ sig => if sig.head? = pubkey.head? then .ok () else .error "invalid"
  ecdsa := fun pubkey _ sig => if sig.head? = pubkey.head? then .ok () else .error "invalid"
  debugStrings := fun _ => ""

/-- Keys 1, 2 and 3, of the given length, with a threshold of two thirds. -/
def sampleSet (keyLength : Nat) : ValidatorSet where
  pubkeys := [List.replicate keyLength 1, List.replicate keyLength 2, List.replicate keyLength 3]
  stakes := []
  thresholdBps := 6667

def sampleRegistry (chain : ChainId) (keyLength : Nat) : ValidatorSetRegistry :=
  Table.empty.put (chain, sampleSet keyLength)

def sampleProofOf (chainId : ChainId) (proof : ChainProof) : ExternalCheckpoint where
  chainId
  blockNumber := 1
  blockHash := 0
  stateRoot := 0
  parentBlockHash := 0
  chainWork := 0
  timestampMs := 0
  proof
  metadata := none

/-- A NEAR block with the approvals of the three registered producers. -/
def approvedBlock : ExternalCheckpoint :=
  sampleProofOf .near (.near [1]
    [List.replicate 64 1, List.replicate 64 2, List.replicate 64 3] [[], [], []])

/-- A ledger that the three registered validators signed, each once. -/
def signedLedger : ExternalCheckpoint :=
  sampleProofOf .aptos (.move [1] [[1], [2], [3]] [[1], [2], [3]])

theorem registered_quorum_move :
    verifyCheckpoint sampleCrypto (sampleRegistry .aptos 1) ⟨.move, .aptos⟩ signedLedger
        = some .accepted ∧
      (sampleSet 1).thresholdBps.toNat * (sampleSet 1).pubkeys.length
        ≤ ((sampleSet 1).pubkeys.toFinset.filter fun pubkey =>
            Signs sampleCrypto signedLedger.proof pubkey).card * 10000 := by
  have haccepted : verifyCheckpoint sampleCrypto (sampleRegistry .aptos 1) ⟨.move, .aptos⟩
      signedLedger = some .accepted := by
    decide
  refine ⟨haccepted, (registered_quorum_iff sampleCrypto (sampleRegistry .aptos 1) ⟨.move, .aptos⟩
    signedLedger (sampleSet 1) rfl (by decide)).mpr (fun _ => ?_) .accepted haccepted rfl⟩
  decide

/-- A key of the relayer's own, three times over, is accepted by the Move
and by the Generic client; no registered key has signed. -/
theorem unregistered_keys_accepted :
    (sampleSet 1).pubkeys.Nodup ∧ (sampleSet 1).thresholdBps ≤ 10000 ∧
      (verifyCheckpoint sampleCrypto (sampleRegistry .aptos 1) ⟨.move, .aptos⟩
          (sampleProofOf .aptos (.move [1] [[9], [9], [9]] [[9], [9], [9]])) = some .accepted ∧
        ¬ HasQuorum sampleCrypto (.move [1] [[9], [9], [9]] [[9], [9], [9]]) (sampleSet 1)) ∧
      (verifyCheckpoint sampleCrypto (sampleRegistry (.custom "x") 1) ⟨.generic, .custom "x"⟩
          (sampleProofOf (.custom "x") (.generic [1] [[9], [9], [9]] [[9], [9], [9]] .bls12381))
            = some .accepted ∧
        ¬ HasQuorum sampleCrypto (.generic [1] [[9], [9], [9]] [[9], [9], [9]] .bls12381)
            (sampleSet 1)) := by
  unfold HasQuorum
  decide

end LightClient

end Quantos

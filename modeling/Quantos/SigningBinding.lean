import Quantos.L0Verifier

/-!
# What the signing digest determines

The digest of an L0 proof is a hash of its header fields and validator
records, one after the other (`signingUpdates`). A record starts with parts
of fixed length and announces the length of its key, so a sequence of
records can be read back (`validators_eq_of_flatten`), and so can the
header fields, all of fixed length, once it is known where they start.

The one part without a length is the name of the external chain, and the
name is not the chain: a custom chain may have the name of a built-in one,
and bytes of the fields behind a name may as well be the end of a longer
name. So the digest determines the signed part of a proof exactly as far
as the hashed bytes determine the chain (`signing_digest_binding_iff`).
-/

namespace Quantos

namespace ValidatorRecord

open List

theorem eq_of_updates_append {v w : ValidatorRecord} {r s : Bytes}
    (hv : v.publicKey.length < 2 ^ 32) (hw : w.publicKey.length < 2 ^ 32)
    (h : v.updates.flatten ++ r = w.updates.flatten ++ s) : v = w ∧ r = s := by
  simp only [updates, flatten_cons, flatten_nil, append_nil, append_assoc] at h
  obtain ⟨haddress, h⟩ := append_inj h (by simp)
  obtain ⟨hlength, h⟩ := append_inj h (by simp)
  obtain ⟨hkey, h⟩ := append_inj h (eq_of_beBytes_eq hlength hv hw)
  obtain ⟨hstake, hrest⟩ := append_inj h (by simp)
  have hstake' : v.stake = w.stake :=
    BitVec.eq_of_toNat_eq (eq_of_beBytes_eq hstake v.stake.isLt w.stake.isLt)
  rcases v with ⟨_, _, _⟩
  rcases w with ⟨_, _, _⟩
  exact ⟨by rw [ValidatorRecord.mk.injEq]; exact ⟨arrayBytes_injective haddress, hkey, hstake'⟩,
    hrest⟩

theorem updates_flatten_ne_nil (v : ValidatorRecord) : v.updates.flatten ≠ [] := by
  intro h
  have hlength := congrArg List.length h
  simp [updates] at hlength

theorem validators_eq_of_flatten {vs ws : List ValidatorRecord}
    (hvs : ∀ v ∈ vs, v.publicKey.length < 2 ^ 32) (hws : ∀ w ∈ ws, w.publicKey.length < 2 ^ 32)
    (h : (vs.flatMap updates).flatten = (ws.flatMap updates).flatten) : vs = ws := by
  induction vs generalizing ws with
  | nil =>
    cases ws with
    | nil => rfl
    | cons w =>
      rw [flatMap_cons, flatten_append] at h
      exact absurd (append_eq_nil_iff.mp h.symm).1 w.updates_flatten_ne_nil
  | cons v vs ih =>
    cases ws with
    | nil =>
      rw [flatMap_cons, flatten_append] at h
      exact absurd (append_eq_nil_iff.mp h).1 v.updates_flatten_ne_nil
    | cons =>
      rw [flatMap_cons, flatMap_cons, flatten_append, flatten_append] at h
      rw [forall_mem_cons] at hvs hws
      obtain ⟨rfl, hrest⟩ := eq_of_updates_append hvs.1 hws.1 h
      rw [ih hvs.2 hws.2 hrest]

end ValidatorRecord

namespace L0FinalityProof

/-- The signed parts agree: chain, header up to the STARK commitment, and
validators. -/
structure SameSigned (p q : L0FinalityProof) : Prop where
  externalChain : p.header.externalChain = q.header.externalChain
  header : { p.header with starkCommitment := 0 } = { q.header with starkCommitment := 0 }
  validators : p.validators = q.validators

/-- The updates of the header. -/
def headerUpdates (p : L0FinalityProof) : List Bytes := p.signingUpdates.take 14

theorem signingPreimage_eq (p : L0FinalityProof) :
    p.signingPreimage
      = p.headerUpdates.flatten ++ (p.validators.flatMap ValidatorRecord.updates).flatten :=
  List.flatten_append

variable {p q : L0FinalityProof}

/-- With the same chain the fields of the header stand at the same places. -/
theorem length_headerUpdates_eq (hchain : p.header.externalChain = q.header.externalChain) :
    p.headerUpdates.map List.length = q.headerUpdates.map List.length := by
  simp [headerUpdates, signingUpdates, hchain]

theorem header_eq_of_headerUpdates_eq (hchain : p.header.externalChain = q.header.externalChain)
    (h : p.headerUpdates = q.headerUpdates) :
    { p.header with starkCommitment := 0 } = { q.header with starkCommitment := 0 } := by
  simp only [headerUpdates, signingUpdates, List.cons_append, List.nil_append, List.take_succ_cons,
    List.take_zero, List.cons.injEq] at h
  obtain ⟨hversion, -, hepoch, hslot, hprevious, hstate, hdag, hparent, hwork, hset, htotal,
    hthreshold, hemitted, hcheckpoint, -⟩ := h
  have hword : ∀ {a b : UInt64}, beBytes 8 a.toNat = beBytes 8 b.toNat → a = b := fun h =>
    UInt64.toNat_inj.mp (eq_of_beBytes_eq h (UInt64.toNat_lt _) (UInt64.toNat_lt _))
  have hwide : ∀ {a b : U128}, beBytes 16 a.toNat = beBytes 16 b.toNat → a = b := fun {a b} h =>
    BitVec.eq_of_toNat_eq (eq_of_beBytes_eq h a.isLt b.isLt)
  rw [L0ProofHeader.mk.injEq]
  exact ⟨UInt16.toNat_inj.mp (eq_of_beBytes_eq hversion (UInt16.toNat_lt _) (UInt16.toNat_lt _)),
    hchain, hword hepoch, hword hslot, arrayBytes_injective hprevious,
    arrayBytes_injective hstate, arrayBytes_injective hdag, arrayBytes_injective hparent,
    hwide hwork, arrayBytes_injective hset, hwide htotal, hwide hthreshold, hword hemitted, rfl,
    arrayBytes_injective hcheckpoint⟩

theorem sameSigned_of_signingPreimage_eq (hp : ∀ v ∈ p.validators, v.publicKey.length < 2 ^ 32)
    (hq : ∀ v ∈ q.validators, v.publicKey.length < 2 ^ 32)
    (hchain : p.header.externalChain = q.header.externalChain)
    (h : p.signingPreimage = q.signingPreimage) : SameSigned p q := by
  rw [signingPreimage_eq, signingPreimage_eq] at h
  have hlengths := length_headerUpdates_eq hchain
  have hlength : p.headerUpdates.flatten.length = q.headerUpdates.flatten.length := by
    rw [List.length_flatten, List.length_flatten, hlengths]
  obtain ⟨hheader, hrecords⟩ := List.append_inj h hlength
  have hupdates : p.headerUpdates = q.headerUpdates :=
    List.eq_iff_flatten_eq.mpr ⟨hheader, hlengths⟩
  exact ⟨hchain, header_eq_of_headerUpdates_eq hchain hupdates,
    ValidatorRecord.validators_eq_of_flatten hp hq hrecords⟩

variable {V : Type} (env : Platform V)

/-- Equal digests mean equal signed parts, or a collision, if and only if
equal hashed bytes mean equal chains. -/
theorem signing_digest_binding_iff (p q : L0FinalityProof)
    (hp : ∀ v ∈ p.validators, v.publicKey.length < 2 ^ 32)
    (hq : ∀ v ∈ q.validators, v.publicKey.length < 2 ^ 32) :
    (p.signingDigest env = q.signingDigest env →
        SameSigned p q ∨ ExternalVerifier.SigningCollision env p q)
      ↔ (p.signingPreimage = q.signingPreimage →
          p.header.externalChain = q.header.externalChain) := by
  constructor
  · intro hbinding hpreimage
    rcases hbinding (congrArg env.hashData hpreimage) with hsame | hcollision
    · exact hsame.externalChain
    · exact absurd hpreimage hcollision.1
  · intro hchain hdigest
    by_cases hpreimage : p.signingPreimage = q.signingPreimage
    · exact .inl (sameSigned_of_signingPreimage_eq hp hq (hchain hpreimage) hpreimage)
    · exact .inr ⟨hpreimage, hdigest⟩

/-- A proof whose fields are all zero. -/
def blankProof (chain : ChainId) (validators : List ValidatorRecord) : L0FinalityProof where
  header :=
    { version := L0_PROOF_VERSION, externalChain := some chain, epoch := 0, slot := 0,
      previousProofHash := 0, stateRoot := 0, dagRoot := 0, parentBlockHash := 0, chainWork := 0,
      validatorSetRoot := 0, totalStake := 0, stakeThreshold := 0, emittedAtMs := 0,
      starkCommitment := 0, checkpointHash := 0 }
  validators
  signatures := []
  starkProof := none

/-- Two proofs for one chain. -/
theorem signing_digest_binding_near :
    blankProof .near [⟨1, [2], 3⟩] ≠ blankProof .near [⟨1, [2], 4⟩] ∧
      ((blankProof .near [⟨1, [2], 3⟩]).signingDigest Platform.sample
          = (blankProof .near [⟨1, [2], 4⟩]).signingDigest Platform.sample →
        SameSigned (blankProof .near [⟨1, [2], 3⟩]) (blankProof .near [⟨1, [2], 4⟩]) ∨
          ExternalVerifier.SigningCollision Platform.sample (blankProof .near [⟨1, [2], 3⟩])
            (blankProof .near [⟨1, [2], 4⟩])) :=
  ⟨by decide, (signing_digest_binding_iff Platform.sample _ _ (by decide) (by decide)).mpr
    fun _ => rfl⟩

/-- A custom chain with the name of a built-in one; and a record of zeros
that another proof has as the end of a chain name. -/
theorem signing_digest_not_binding :
    ((blankProof .ethereum []).signingDigest Platform.sample
        = (blankProof (.custom "ethereum") []).signingDigest Platform.sample ∧
      ¬ SameSigned (blankProof .ethereum []) (blankProof (.custom "ethereum") []) ∧
      ¬ ExternalVerifier.SigningCollision Platform.sample (blankProof .ethereum [])
          (blankProof (.custom "ethereum") [])) ∧
    ((blankProof (.custom "") [⟨0, [], 0⟩]).signingDigest Platform.sample
        = (blankProof (.custom (String.ofList (List.replicate 52 (Char.ofNat 0)))) []).signingDigest
            Platform.sample ∧ ¬ SameSigned (blankProof (.custom "") [⟨0, [], 0⟩])
          (blankProof (.custom (String.ofList (List.replicate 52 (Char.ofNat 0)))) []) ∧
      ¬ ExternalVerifier.SigningCollision Platform.sample (blankProof (.custom "") [⟨0, [], 0⟩])
          (blankProof (.custom (String.ofList (List.replicate 52 (Char.ofNat 0)))) [])) := by
  have hnames : (blankProof .ethereum []).signingPreimage
      = (blankProof (.custom "ethereum") []).signingPreimage := by
    decide +kernel
  have hshift : (blankProof (.custom "") [⟨0, [], 0⟩]).signingPreimage
      = (blankProof (.custom (String.ofList (List.replicate 52 (Char.ofNat 0))))
          []).signingPreimage := by
    decide +kernel
  refine ⟨⟨congrArg digitHash hnames, fun h => ?_, fun h => h.1 hnames⟩,
    congrArg digitHash hshift, fun h => ?_, fun h => h.1 hshift⟩
  · exact absurd h.externalChain (by decide)
  · exact absurd h.validators (by decide)

end L0FinalityProof

end Quantos

import Quantos.Types

/-!
# Validators and the committee manager's validator set

`types/account.rs` (`Validator`, `ValidatorSet`) and the two entry points
of `consensus/committee.rs` through which transactions change the set,
`add_validator` and `remove_validator`. Both also write the set to disk
for the next start of the node; nothing in this development reads that
copy, so it is not modelled.
-/

namespace Quantos

def MAX_VALIDATORS : Nat := 1000

def MIN_VRF_KEY_SIZE : Nat := 32

def MAX_VRF_KEY_SIZE : Nat := 256

structure Validator where
  address : Address
  publicKey : Bytes
  finalityPublicKey : Bytes
  stake : Amount
  commissionRate : UInt16
  active : Bool
  jailed : Bool
  slashCount : UInt32
  lastActiveSlot : UInt64
  vrfPublicKey : Bytes
deriving DecidableEq, Repr

/-- Validates the VRF key before constructing the validator. -/
def Validator.new (address : Address) (publicKey : Bytes) (stake : Amount)
    (vrfPublicKey : Bytes) : Except String Validator :=
  if vrfPublicKey.length < MIN_VRF_KEY_SIZE ∨ vrfPublicKey.length > MAX_VRF_KEY_SIZE then
    .error ("Invalid VRF public key size: " ++ toString vrfPublicKey.length ++ " (expected "
      ++ toString MIN_VRF_KEY_SIZE ++ "-" ++ toString MAX_VRF_KEY_SIZE ++ " bytes)")
  else if vrfPublicKey.all (· == 0) then .error "VRF public key is all zeros"
  else .ok
    { address, publicKey, finalityPublicKey := [], stake, commissionRate := 500, active := true,
      jailed := false, slashCount := 0, lastActiveSlot := 0, vrfPublicKey }

structure ValidatorSet where
  validators : List Validator
  totalStake : Amount
  epoch : UInt64
deriving DecidableEq, Repr

namespace ValidatorSet

def new : ValidatorSet := ⟨[], .zero, 0⟩

variable (set : ValidatorSet)

def addValidator (validator : Validator) : Except String ValidatorSet :=
  if set.validators.length ≥ MAX_VALIDATORS then
    .error ("Validator set full: " ++ toString MAX_VALIDATORS ++ " validators")
  else if set.validators.any (fun v => v.address = validator.address) then
    .error "Validator already exists"
  else
    match set.totalStake.checkedAdd validator.stake with
    | none => .error "Total stake overflow"
    | some totalStake =>
      .ok { set with totalStake, validators := set.validators ++ [validator] }

def getValidator (address : Address) : Option Validator :=
  set.validators.find? fun v => v.address = address

/-- The set with a new entry, as a successful `add_validator` leaves it. -/
def enter (v : Validator) : ValidatorSet :=
  { set with validators := set.validators ++ [v], totalStake := ⟨set.totalStake.val + v.stake.val⟩ }

/-- The set without the entries of an address, as `remove_validator` leaves it. -/
def leave (address : Address) : ValidatorSet :=
  let validators := set.validators.filter fun v => v.address ≠ address
  { set with validators, totalStake := ⟨(validators.map fun v => v.stake.val).sum⟩ }

end ValidatorSet

/-- The part of `CommitteeManager` that transactions reach. -/
structure CommitteeManager where
  validatorSet : ValidatorSet
deriving DecidableEq, Repr

namespace CommitteeManager

def addValidator (cm : CommitteeManager) (validator : Validator) : Except String CommitteeManager :=
  if validator.stake.toNat = 0 then .error "Validator stake must be non-zero"
  else if validator.stake.toNat > (2 ^ 128 - 1) / 2 then
    .error ("Validator stake " ++ toString validator.stake.toNat ++ " exceeds safe maximum")
  else
    match cm.validatorSet.addValidator validator with
    | .error e => .error e
    | .ok set => .ok { cm with validatorSet := set }

/-- Drops every entry of the address and recomputes the total over the rest. -/
def removeValidator (cm : CommitteeManager) (address : Address) : CommitteeManager :=
  let validators := cm.validatorSet.validators.filter fun v => v.address ≠ address
  { cm with validatorSet :=
      { cm.validatorSet with
          validators
          totalStake := ⟨(validators.map fun v => v.stake.val).sum⟩ } }

/-- A successful `add_validator` appends an entry under an address the set
did not hold. -/
theorem addValidator_ok {cm cm' : CommitteeManager} {v : Validator}
    (h : cm.addValidator v = .ok cm') :
    cm' = ⟨cm.validatorSet.enter v⟩
      ∧ (∀ w ∈ cm.validatorSet.validators, w.address ≠ v.address) := by
  unfold addValidator at h
  split at h
  · cases h
  split at h
  · cases h
  cases hs : cm.validatorSet.addValidator v with
  | error => simp [hs] at h
  | ok =>
    simp only [hs, Except.ok.injEq] at h
    subst h
    unfold ValidatorSet.addValidator at hs
    split at hs
    · cases hs
    split at hs
    · cases hs
    rename_i hany
    split at hs
    · cases hs
    rename_i total htotal
    simp only [Except.ok.injEq] at hs
    subst hs
    obtain rfl := Amount.checkedAdd_val htotal
    refine ⟨rfl, fun w hw heq => hany ?_⟩
    exact List.any_eq_true.mpr ⟨w, hw, by simpa using heq⟩

end CommitteeManager

end Quantos

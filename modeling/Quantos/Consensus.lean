import Quantos.Committee
import Quantos.WeightedQuorum

/-!
# Stake in the validator set

What the consensus layers read of `types/account.rs`: the effective stake
of a validator, slashing, and the total active stake. Sums of `u128` wrap
in a release build, so `total_active_stake` and the thresholds computed
from it are words; `activeStake` and `stakeOf` are the numbers they stand
for, a roster in the sense of `WeightedQuorum`, and
`finalityThreshold_toNat` says when the two agree.
-/

namespace Quantos

open List BitVec

/-- The constructors of `ConsensusError` that the modelled calls return. -/
inductive ConsensusError where
  | invalidVertex (reason : String)
  | invalidVote (reason : String)
  | notCommitteeMember
  | checkpointVerificationFailed
  | storageError (reason : String)
  | cryptoError (reason : String)
  | resourceExhausted (reason : String)
  | arithmeticOverflow (reason : String)
  | unauthorized (reason : String)
  | invalidData (reason : String)
  | invalidValidator (reason : String)
deriving DecidableEq, Repr

/-- The `{:?}` format of a 32-byte array. -/
def debugArray (a : Address) : String :=
  "[" ++ String.intercalate ", " ((arrayBytes a).map fun b => toString b.toNat) ++ "]"

/-! ## `u128` words -/

abbrev U128 := BitVec 128

variable (a b : U128)

def checkedAdd128 : Option U128 :=
  if a.toNat + b.toNat < 2 ^ 128 then some (a + b) else none

def checkedMul128 : Option U128 :=
  if a.toNat * b.toNat < 2 ^ 128 then some (a * b) else none

def saturatingAdd128 : U128 :=
  if a.toNat + b.toNat < 2 ^ 128 then a + b else BitVec.ofNat 128 (2 ^ 128 - 1)

variable {a b}

theorem checkedAdd128_of_lt (h : a.toNat + b.toNat < 2 ^ 128) :
    checkedAdd128 a b = some (a + b) ∧ (a + b).toNat = a.toNat + b.toNat :=
  ⟨if_pos h, by rw [toNat_add, Nat.mod_eq_of_lt h]⟩

theorem saturatingAdd128_toNat (h : a.toNat + b.toNat < 2 ^ 128) :
    (saturatingAdd128 a b).toNat = a.toNat + b.toNat := by
  unfold saturatingAdd128
  rw [if_pos h, toNat_add, Nat.mod_eq_of_lt h]

/-- A sum of words is the sum of the numbers, reduced once at the end. -/
theorem toNat_sum_map {α : Type} (f : α → U128) (l : List α) :
    (l.map f).sum.toNat = (l.map fun x => (f x).toNat).sum % 2 ^ 128 := by
  induction l with
  | nil => rfl
  | cons x l ih =>
    rw [map_cons, sum_cons, map_cons, sum_cons, toNat_add, ih, Nat.add_mod_mod]

/-! ## Validators -/

/-- `saturating_add(1)` on a `u32`. -/
def saturatingSucc32 (n : UInt32) : UInt32 := if n.toNat + 1 < 2 ^ 32 then n + 1 else n

def MAX_COMMISSION_RATE : UInt16 := 10000

namespace Validator

/-- The slashed amount and the validator after it. A product beyond `u128`
slashes nothing; three slashings jail. -/
def slash (v : Validator) (percentage : UInt16) : Except String (Amount × Validator) :=
  if percentage > MAX_COMMISSION_RATE then
    .error ("Slash percentage " ++ toString percentage.toNat ++ " exceeds maximum "
      ++ toString MAX_COMMISSION_RATE.toNat)
  else
    let slashAmount : Amount :=
      if v.stake.toNat * percentage.toNat < 2 ^ 128 then
        ⟨BitVec.ofNat 128 (v.stake.toNat * percentage.toNat / 10000)⟩
      else .zero
    match v.stake.checkedSub slashAmount with
    | none => .ok (.zero, v)
    | some stake =>
      let slashCount := saturatingSucc32 v.slashCount
      if slashCount ≥ 3 then
        .ok (slashAmount, { v with stake, slashCount, jailed := true, active := false })
      else .ok (slashAmount, { v with stake, slashCount })

def effectiveStake (v : Validator) : U128 := if v.active && !v.jailed then v.stake.val else 0

theorem slash_effectiveStake_le {v v' : Validator} {percentage : UInt16} {amount : Amount}
    (h : v.slash percentage = .ok (amount, v')) :
    v'.address = v.address ∧ v'.effectiveStake.toNat ≤ v.effectiveStake.toNat := by
  unfold slash at h
  split at h
  · cases h
  dsimp only at h
  split at h
  · cases h
    exact ⟨rfl, le_rfl⟩
  rename_i stake hstake
  have hle : stake.val.toNat ≤ v.stake.val.toNat := by
    have := Amount.checkedSub_eq_some.mp hstake
    unfold Amount.toNat at this
    omega
  split at h <;> cases h
  · exact ⟨rfl, Nat.zero_le _⟩
  · refine ⟨rfl, ?_⟩
    unfold effectiveStake
    split
    · exact hle
    · exact le_rfl

end Validator

namespace ValidatorSet

/-- A change through `get_validator_mut`: the first entry of the address. -/
def updateFirst (address : Address) (f : Validator → Validator) : List Validator → List Validator
  | [] => []
  | v :: vs => if v.address = address then f v :: vs else v :: updateFirst address f vs

variable (set : ValidatorSet) (address : Address)

def slashValidator (percentage : UInt16) : Except String (Amount × ValidatorSet) :=
  match set.getValidator address with
  | none => .error "Validator not found"
  | some v =>
    match v.slash percentage with
    | .error e => .error e
    | .ok (slashedAmount, v') =>
      .ok (slashedAmount,
        { set with
          validators := updateFirst address (fun _ => v') set.validators
          totalStake := (set.totalStake.checkedSub slashedAmount).getD .zero })

/-- The `jailed` flag of an entry raised through `get_validator_mut`. -/
def jailValidator : ValidatorSet :=
  { set with
    validators := updateFirst address (fun v => { v with jailed := true }) set.validators }

def activeValidators : List Validator :=
  set.validators.filter fun v => v.active && !v.jailed

def totalActiveStake : U128 := (set.validators.map Validator.effectiveStake).sum

/-- `(total_stake * 2) / 3 + 1` of the finality layer, on words. -/
def finalityThreshold : U128 := set.totalActiveStake * 2 / 3 + 1

/-! ### The numbers behind the words -/

/-- The effective stake the set records for an address. -/
def stakeOf : Nat :=
  WeightedQuorum.weightOf Validator.address (fun v => v.effectiveStake.toNat) set.validators address

def activeStake : Nat :=
  WeightedQuorum.total (fun v => v.effectiveStake.toNat) set.validators

variable {address} {set} {v : Validator}

theorem stakeOf_of_getValidator (h : set.getValidator address = some v) :
    set.stakeOf address = v.effectiveStake.toNat := by
  unfold stakeOf WeightedQuorum.weightOf
  unfold getValidator at h
  rw [h]
  rfl

theorem stakeOf_of_none (h : set.getValidator address = none) : set.stakeOf address = 0 := by
  unfold stakeOf WeightedQuorum.weightOf
  unfold getValidator at h
  rw [h]
  rfl

theorem address_of_getValidator (h : set.getValidator address = some v) : v.address = address := by
  simpa using find?_some h

theorem sum_stakeOf_le (set : ValidatorSet) (voters : Finset Address) :
    ∑ a ∈ voters, set.stakeOf a ≤ set.activeStake :=
  WeightedQuorum.sum_weightOf_le _ _ _ voters

theorem totalActiveStake_toNat (h : set.activeStake < 2 ^ 128) :
    set.totalActiveStake.toNat = set.activeStake := by
  unfold totalActiveStake
  rw [toNat_sum_map]
  exact Nat.mod_eq_of_lt h

/-- Twice the active stake has to fit for the threshold to be the intended one. -/
theorem finalityThreshold_toNat (h : 2 * set.activeStake < 2 ^ 128) :
    set.finalityThreshold.toNat = WeightedQuorum.threshold set.activeStake := by
  have htotal : set.totalActiveStake.toNat = set.activeStake := totalActiveStake_toNat (by omega)
  have hdouble : (set.totalActiveStake * 2).toNat = 2 * set.activeStake := by
    rw [toNat_mul, htotal, show (2 : U128).toNat = 2 from rfl, Nat.mul_comm, Nat.mod_eq_of_lt h]
  unfold finalityThreshold WeightedQuorum.threshold
  rw [toNat_add, toNat_udiv, hdouble, show (3 : U128).toNat = 3 from rfl,
    show (1 : U128).toNat = 1 from rfl]
  exact Nat.mod_eq_of_lt (by omega)

variable {set' : ValidatorSet}

theorem stakeOf_congr (h : set'.getValidator address = set.getValidator address) :
    set'.stakeOf address = set.stakeOf address :=
  congrArg (fun o => Option.elim o 0 fun v : Validator => v.effectiveStake.toNat) h

/-! ### Changes of the set

Each change is described by the entries it leaves alone and by what it
does to the active stake. -/

theorem getValidator_enter {w : Validator} (h : set.getValidator address = some w) (v : Validator) :
    (set.enter v).getValidator address = some w := by
  show (set.validators ++ [v]).find? _ = some w
  rw [find?_append]
  exact congrArg (Option.or · _) h

theorem activeStake_enter (set : ValidatorSet) (v : Validator) :
    (set.enter v).activeStake = set.activeStake + v.effectiveStake.toNat := by
  show ((set.validators ++ [v]).map _).sum = _
  rw [map_append, sum_append, map_singleton, sum_singleton]
  rfl

variable {other : Address}

theorem getValidator_leave (set : ValidatorSet) (h : other ≠ address) :
    (set.leave address).getValidator other = set.getValidator other := by
  show (set.validators.filter _).find? _ = _
  rw [find?_filter]
  congr 1
  funext v
  by_cases hv : v.address = other
  · simp [hv, h]
  · simp [hv]

theorem activeStake_leave (set : ValidatorSet) (address : Address) :
    (set.leave address).activeStake ≤ set.activeStake :=
  (filter_sublist.map _).sum_le_sum fun _ _ => Nat.zero_le _

variable {f : Validator → Validator} {validators : List Validator}

theorem find?_updateFirst (h : other ≠ address)
    (hf : ∀ v ∈ validators, v.address = address → (f v).address = address) :
    (updateFirst address f validators).find? (fun v => v.address = other)
      = validators.find? fun v => v.address = other := by
  induction validators with
  | nil => rfl
  | cons v vs ih =>
    rw [updateFirst]
    split
    · rename_i hv
      rw [find?_cons_of_neg (by simp [hf v mem_cons_self hv, Ne.symm h]),
        find?_cons_of_neg (by simp [hv, Ne.symm h])]
    · rw [find?_cons, find?_cons, ih fun w hw => hf w (mem_cons_of_mem _ hw)]

theorem total_updateFirst_le (hf : ∀ v, validators.find? (fun v => v.address = address) = some v →
      (f v).effectiveStake.toNat ≤ v.effectiveStake.toNat) :
    WeightedQuorum.total (fun v => v.effectiveStake.toNat) (updateFirst address f validators)
      ≤ WeightedQuorum.total (fun v => v.effectiveStake.toNat) validators := by
  induction validators with
  | nil => exact le_rfl
  | cons v vs ih =>
    unfold WeightedQuorum.total at ih ⊢
    rw [updateFirst]
    split
    · rename_i hv
      have hle := hf v (by simp [hv])
      simp only [map_cons, sum_cons]
      omega
    · rename_i hv
      have hle := ih fun w hw => hf w (by simpa [hv] using hw)
      simp only [map_cons, sum_cons]
      omega

theorem getValidator_jailValidator (set : ValidatorSet) (h : other ≠ address) :
    (set.jailValidator address).getValidator other = set.getValidator other :=
  find?_updateFirst h fun _ _ hv => hv

theorem activeStake_jailValidator (set : ValidatorSet) (address : Address) :
    (set.jailValidator address).activeStake ≤ set.activeStake := by
  refine total_updateFirst_le fun v _ => ?_
  unfold Validator.effectiveStake
  simp

variable {percentage : UInt16} {amount : Amount}

theorem slashValidator_spec (h : set.slashValidator address percentage = .ok (amount, set')) :
    ∃ v v', set.getValidator address = some v ∧ v'.address = address ∧
      v'.effectiveStake.toNat ≤ v.effectiveStake.toNat ∧
      set'.validators = updateFirst address (fun _ => v') set.validators := by
  unfold slashValidator at h
  split at h
  · cases h
  rename_i v hv
  split at h
  · cases h
  rename_i slashed v' hslash
  cases h
  have hslashed := Validator.slash_effectiveStake_le hslash
  exact ⟨v, v', hv, hslashed.1.trans (address_of_getValidator hv), hslashed.2, rfl⟩

theorem slashValidator_ok (h : set.slashValidator address percentage = .ok (amount, set')) :
    (∀ other ≠ address, set'.getValidator other = set.getValidator other) ∧
      set'.activeStake ≤ set.activeStake := by
  obtain ⟨v, _, hv, haddress, hle, heq⟩ := slashValidator_spec h
  refine ⟨fun other hother => ?_, ?_⟩
  · unfold getValidator
    rw [heq]
    exact find?_updateFirst hother fun w hw hwa => haddress
  · unfold activeStake
    rw [heq]
    refine total_updateFirst_le fun w hw => ?_
    obtain rfl : v = w := Option.some.inj (hv.symm.trans hw)
    exact hle

/-! ### Distinct addresses

`add_validator` refuses an address the set holds, so lookups find the one
entry there is. -/

def Distinct (set : ValidatorSet) : Prop := (set.validators.map Validator.address).Nodup

instance (set : ValidatorSet) : Decidable set.Distinct := inferInstanceAs (Decidable (List.Nodup _))

theorem Distinct.getValidator (h : set.Distinct) (hv : v ∈ set.validators) :
    set.getValidator v.address = some v :=
  Table.find?_key_of_mem h hv

theorem Distinct.enter (h : set.Distinct) (hfresh : ∀ w ∈ set.validators, w.address ≠ v.address) :
    (set.enter v).Distinct := by
  show ((set.validators ++ [v]).map Validator.address).Nodup
  rw [map_append, map_singleton, ← concat_eq_append, nodup_concat]
  refine ⟨fun hmem => ?_, h⟩
  obtain ⟨w, hw, heq⟩ := mem_map.mp hmem
  exact hfresh w hw heq

theorem Distinct.leave (h : set.Distinct) (address : Address) : (set.leave address).Distinct :=
  (filter_sublist.map _).nodup h

theorem map_address_updateFirst (hf : ∀ v, v.address = address → (f v).address = address) :
    (updateFirst address f validators).map Validator.address
      = validators.map Validator.address := by
  induction validators with
  | nil => rfl
  | cons v vs ih =>
    rw [updateFirst]
    split
    · rename_i hv
      rw [map_cons, map_cons, hf v hv, hv]
    · rw [map_cons, map_cons, ih]

theorem Distinct.updateFirst (h : set.Distinct)
    (heq : set'.validators = ValidatorSet.updateFirst address f set.validators)
    (hf : ∀ v, v.address = address → (f v).address = address) : set'.Distinct := by
  unfold Distinct
  rw [heq, map_address_updateFirst hf]
  exact h

/-! ### Changes that raise no stake -/

theorem stakeOf_leave_le (set : ValidatorSet) (address other : Address) :
    (set.leave address).stakeOf other ≤ set.stakeOf other := by
  by_cases h : other = address
  · have hnone : (set.leave address).getValidator other = none := by
      refine find?_eq_none.mpr fun v hv => ?_
      have hne := (mem_filter.mp hv).2
      rw [h]
      simpa using hne
    rw [stakeOf_of_none hnone]
    exact Nat.zero_le _
  · exact (stakeOf_congr (getValidator_leave set h)).le

theorem find?_updateFirst_self (hf : ∀ v, v.address = address → (f v).address = address) :
    (updateFirst address f validators).find? (fun v => v.address = address)
      = (validators.find? fun v => v.address = address).map f := by
  induction validators with
  | nil => rfl
  | cons v vs ih =>
    rw [updateFirst]
    split
    · rename_i hv
      rw [find?_cons_of_pos (by simp [hf v hv]), find?_cons_of_pos (by simp [hv])]
      rfl
    · rename_i hv
      rw [find?_cons_of_neg (by simp [hv]), find?_cons_of_neg (by simp [hv]), ih]

theorem stakeOf_updateFirst_le (heq : set'.validators = updateFirst address f set.validators)
    (haddress : ∀ v, v.address = address → (f v).address = address)
    (hle : ∀ v, set.getValidator address = some v →
      (f v).effectiveStake.toNat ≤ v.effectiveStake.toNat) (other : Address) :
    set'.stakeOf other ≤ set.stakeOf other := by
  by_cases h : other = address
  · subst h
    have hget : set'.getValidator other = (set.getValidator other).map f := by
      unfold getValidator
      rw [heq]
      exact find?_updateFirst_self haddress
    cases hv : set.getValidator other with
    | none =>
      rw [hv] at hget
      exact (stakeOf_congr (hget.trans hv.symm)).le
    | some v =>
      rw [hv] at hget
      rw [stakeOf_of_getValidator hget, stakeOf_of_getValidator hv]
      exact hle v hv
  · refine (stakeOf_congr ?_).le
    unfold getValidator
    rw [heq]
    exact find?_updateFirst h fun w _ hw => haddress w hw

end ValidatorSet

end Quantos

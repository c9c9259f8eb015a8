import Quantos.Consensus
import Quantos.Platform

/-!
# Committees

The rest of `consensus/committee.rs`: committees as snapshots of members
and stake, their stake-weighted selection by rejection sampling, and the
rotation that installs one committee per id for an epoch.

A committee records the stake its members had when it was drawn, the
validator set moves on. `Covers` is what the two have to do with each
other afterwards: no member has more effective stake in the set than the
committee records. A freshly drawn committee covers its set
(`Drawn.covers`), and so it stays while members are removed, slashed or
jailed; only an addition can break it.
-/

namespace Quantos

open WeightedQuorum (threshold)

abbrev ShardId := UInt16

/-- `vrf_proof` and `active` are set once and never read. -/
structure CommitteeMember where
  address : Address
  stake : U128
deriving DecidableEq, Repr

structure Committee where
  id : UInt16
  epoch : UInt64
  shardId : ShardId
  members : List CommitteeMember
  totalStake : U128
deriving DecidableEq, Repr

namespace Committee

/-- The committee of the selected members; the sum of their stakes wraps. -/
def snapshot (epoch : UInt64) (committeeId : UInt16) (members : List CommitteeMember) :
    Committee where
  id := committeeId
  epoch := epoch
  shardId := committeeId
  members := members
  totalStake := (members.map CommitteeMember.stake).sum

variable (c : Committee)

/-- The quorum threshold (2/3 + 1 of total stake), in checked arithmetic. -/
def quorumThreshold : Except ConsensusError U128 :=
  match checkedMul128 c.totalStake 2 with
  | none => .error (.arithmeticOverflow "Quorum calculation overflow: total_stake too large")
  | some doubled =>
    match checkedAdd128 (doubled / 3) 1 with
    | none => .error (.arithmeticOverflow "Quorum threshold overflow")
    | some threshold => .ok threshold

def hasMember (address : Address) : Bool :=
  c.members.any fun m => m.address = address

def memberCount : Nat := c.members.length

/-- The stake the committee records for an address. -/
def stakeOf (address : Address) : Nat :=
  WeightedQuorum.weightOf CommitteeMember.address (fun m => m.stake.toNat) c.members address

theorem quorumThreshold_toNat {c : Committee} {quorum : U128} (h : c.quorumThreshold = .ok quorum) :
    quorum.toNat = threshold c.totalStake.toNat := by
  unfold quorumThreshold checkedMul128 at h
  split at h
  · cases h
  rename_i doubled hdoubled
  split at hdoubled
  · rename_i hlt
    obtain rfl := Option.some.inj hdoubled
    have hnat : (c.totalStake * 2).toNat = 2 * c.totalStake.toNat := by
      rw [BitVec.toNat_mul, Nat.mod_eq_of_lt hlt]
      exact Nat.mul_comm _ _
    have hthird : (c.totalStake * 2 / 3).toNat = 2 * c.totalStake.toNat / 3 := by
      rw [BitVec.toNat_udiv, hnat]
      rfl
    have hone : (1 : U128).toNat = 1 := rfl
    have hroom : (c.totalStake * 2 / 3).toNat + (1 : U128).toNat < 2 ^ 128 := by
      rw [hthird, hone]
      omega
    obtain ⟨hadd, hsum⟩ := checkedAdd128_of_lt hroom
    rw [hadd] at h
    obtain rfl := Except.ok.inj h
    rw [hsum, hthird]
    rfl
  · cases hdoubled

end Committee

/-! ## Selection -/

section Selection

variable (hashData : Bytes → Hash)

/-- `u128::from_le_bytes` of the first sixteen bytes. -/
def leadingWord (seed : Hash) : U128 := BitVec.ofNat 128 (leValue ((arrayBytes seed).take 16))

/-- Rejection sampling: a digest beyond the last multiple of the total is
hashed again. The loop has no bound; `tries` digests are looked at. -/
def selectionValue (totalStake : U128) (i : Nat) : (tries : Nat) → (selectionSeed : Hash) →
    Option U128
  | 0, _ => none
  | tries + 1, selectionSeed =>
    let value := leadingWord selectionSeed
    let maxUnbiased := BitVec.allOnes 128 / totalStake * totalStake
    if value < maxUnbiased then some (value % totalStake)
    else
      selectionValue totalStake i tries (hashData (arrayBytes selectionSeed ++ [UInt8.ofNat i]))

/-- The first unused index at which the cumulative stake passes the value. -/
def selectIndex (selection : U128) (usedIndices : Finset Nat) :
    List Validator → (idx : Nat) → (cumulative : U128) → Option (Nat × Validator)
  | [], _, _ => none
  | v :: vs, idx, cumulative =>
    let cumulative := cumulative + v.stake.val
    if selection < cumulative ∧ idx ∉ usedIndices then some (idx, v)
    else selectIndex selection usedIndices vs (idx + 1) cumulative

def member (v : Validator) : CommitteeMember := ⟨v.address, v.stake.val⟩

/-- One seat: the selected validator joins, or nobody does. -/
def fillSeat (validators : List Validator) (selection : U128) (members : List CommitteeMember)
    (usedIndices : Finset Nat) : List CommitteeMember × Finset Nat :=
  match selectIndex selection usedIndices validators 0 0 with
  | none => (members, usedIndices)
  | some (idx, v) => (members ++ [member v], insert idx usedIndices)

/-- The loop over the seats, from seat `i` with `remaining` seats to go. -/
def selectSeats (validators : List Validator) (seed : Hash) (totalStake : U128)
    (validatorsPerCommittee tries : Nat) :
    (remaining i : Nat) → List CommitteeMember → Finset Nat → Option (List CommitteeMember)
  | 0, _, members, _ => some members
  | remaining + 1, i, members, usedIndices =>
    match selectionValue hashData totalStake i tries
        (hashData (arrayBytes seed ++ leBytes 8 i)) with
    | none => none
    | some selection =>
      let (members, usedIndices) := fillSeat validators selection members usedIndices
      if members.length ≥ validatorsPerCommittee then some members
      else
        selectSeats validators seed totalStake validatorsPerCommittee tries remaining (i + 1)
          members usedIndices

/-- Nothing when the sampling of some seat used up its tries. -/
def selectCommitteeMembers (validators : List Validator) (seed : Hash)
    (validatorsPerCommittee tries : Nat) : Option (List CommitteeMember) :=
  let totalStake := (validators.map fun v => v.stake.val).sum
  if totalStake = 0 then some []
  else
    selectSeats hashData validators seed totalStake validatorsPerCommittee tries
      validatorsPerCommittee 0 [] ∅

variable {validators : List Validator} {usedIndices : Finset Nat} {selection : U128}

theorem selectIndex_mem {found : Nat × Validator} : ∀ {idx : Nat} {cumulative : U128},
      selectIndex selection usedIndices validators idx cumulative = some found →
        found.2 ∈ validators := by
  induction validators with
  | nil => intro _ _ h; cases h
  | cons v vs ih =>
    intro idx cumulative h
    rw [selectIndex] at h
    split at h
    · obtain rfl := Option.some.inj h
      exact List.mem_cons_self
    · exact List.mem_cons_of_mem _ (ih h)

variable {members : List CommitteeMember}

theorem fillSeat_mem (hmembers : ∀ m ∈ members, ∃ v ∈ validators, m = member v) :
    ∀ m ∈ (fillSeat validators selection members usedIndices).1,
      ∃ v ∈ validators, m = member v := by
  unfold fillSeat
  split
  · exact hmembers
  rename_i idx v hfound
  intro m hm
  rcases List.mem_append.mp hm with hm | hm
  · exact hmembers m hm
  · exact ⟨v, selectIndex_mem hfound, List.mem_singleton.mp hm⟩

variable {validatorsPerCommittee tries : Nat} {seed : Hash}

theorem selectSeats_mem {totalStake : U128} {result : List CommitteeMember} {remaining : Nat} :
    ∀ {i : Nat} {members : List CommitteeMember} {usedIndices : Finset Nat},
      selectSeats hashData validators seed totalStake validatorsPerCommittee tries remaining i
        members usedIndices = some result → (∀ m ∈ members, ∃ v ∈ validators, m = member v) →
      ∀ m ∈ result, ∃ v ∈ validators, m = member v := by
  induction remaining with
  | zero =>
    intro i members usedIndices h hmembers
    obtain rfl := Option.some.inj h
    exact hmembers
  | succ remaining ih =>
    intro i members usedIndices h hmembers
    rw [selectSeats] at h
    split at h
    · cases h
    dsimp only at h
    split at h
    · obtain rfl := Option.some.inj h
      exact fillSeat_mem hmembers
    · exact ih h (fillSeat_mem hmembers)

theorem selectCommitteeMembers_mem
    (h : selectCommitteeMembers hashData validators seed validatorsPerCommittee tries
      = some members) : ∀ m ∈ members, ∃ v ∈ validators, m = member v := by
  unfold selectCommitteeMembers at h
  dsimp only at h
  split at h
  · obtain rfl := Option.some.inj h
    exact fun _ hm => absurd hm List.not_mem_nil
  · exact selectSeats_mem hashData h fun _ hm => absurd hm List.not_mem_nil

end Selection

/-! ## The manager -/

/-- The manager with its committees, keyed by epoch and id. -/
structure RotatingManager extends CommitteeManager where
  currentEpoch : UInt64
  committees : Table fun c : Committee => (c.epoch, c.id)
  numCommittees : UInt16
  validatorsPerCommittee : Nat

namespace RotatingManager

section Rotation

variable (hashData : Bytes → Hash)

/-- Starts from the validator set on disk, if one is there and not empty. -/
def new (stored : Option ValidatorSet) (numCommittees : UInt16) (validatorsPerCommittee : Nat) :
    RotatingManager where
  validatorSet :=
    match stored with
    | some set => if set.validators.isEmpty then .new else set
    | none => .new
  currentEpoch := 0
  committees := Table.empty
  numCommittees := numCommittees
  validatorsPerCommittee := validatorsPerCommittee

variable (cm : RotatingManager) (epoch : UInt64)
  (slot : UInt64) (committeeId : UInt16) (randomness : Hash)

def computeCommitteeSeed : Hash :=
  hashData (leBytes 8 epoch.toNat ++ leBytes 8 slot.toNat ++ leBytes 2 committeeId.toNat
    ++ arrayBytes randomness)

def insertCommittee (members : List CommitteeMember) : RotatingManager :=
  { cm with committees := cm.committees.put (.snapshot epoch committeeId members) }

/-- The loop over the committee ids. It stops short when a selection does
not come back; what it inserted so far stays. -/
def installCommittees (epoch slot : UInt64) (randomness : Hash) (tries : Nat) :
    List UInt16 → RotatingManager → Option Unit × RotatingManager
  | [], cm => (some (), cm)
  | committeeId :: rest, cm =>
    match selectCommitteeMembers hashData cm.validatorSet.activeValidators
        (computeCommitteeSeed hashData epoch slot committeeId randomness)
        cm.validatorsPerCommittee tries with
    | none => (none, cm)
    | some members =>
      installCommittees epoch slot randomness tries rest
        (cm.insertCommittee epoch committeeId members)

def committeeIds : List UInt16 :=
  (List.range cm.numCommittees.toNat).map UInt16.ofNat

def rotateCommittees (tries : Nat) : Option Unit × RotatingManager :=
  if cm.validatorSet.activeValidators.isEmpty then (some (), cm)
  else
    match installCommittees hashData epoch slot randomness tries cm.committeeIds cm with
    | (none, cm) => (none, cm)
    | (some (), cm) => (some (), { cm with currentEpoch := epoch })

end Rotation

variable (cm : RotatingManager)

def getCommittee (epoch : UInt64) (committeeId : UInt16) : Option Committee :=
  cm.committees.get (epoch, committeeId)

/-- The remainder panics without committees; there is then none to find. -/
def getCommitteeForShard (epoch : UInt64) (shardId : ShardId) : Option Committee :=
  if cm.numCommittees = 0 then none else cm.getCommittee epoch (shardId % cm.numCommittees)

/-- The committee in charge of a shard. -/
def sitting (shardId : ShardId) : Option Committee :=
  cm.getCommitteeForShard cm.currentEpoch shardId

/-! ### What a rotation leaves -/

/-- The committee was selected from the set as it is. -/
def Drawn (set : ValidatorSet) (c : Committee) : Prop :=
  ∀ m ∈ c.members, ∃ v ∈ set.validators, m = member v

variable {cm} {c : Committee} {epoch : UInt64} {id : UInt16}

theorem getCommittee_insertCommittee {e : UInt64} {id₀ : UInt16} {members : List CommitteeMember}
    (h : (cm.insertCommittee epoch id₀ members).getCommittee e id = some c) :
    c = .snapshot epoch id₀ members ∨ ((epoch, id₀) ≠ (e, id) ∧ cm.getCommittee e id = some c) := by
  have hget : (cm.insertCommittee epoch id₀ members).getCommittee e id
      = if (epoch, id₀) = (e, id) then some (.snapshot epoch id₀ members)
        else cm.getCommittee e id :=
    Table.get_put cm.committees (.snapshot epoch id₀ members) (e, id)
  rw [hget] at h
  split at h
  · exact .inl (Option.some.inj h).symm
  · rename_i hkey
    exact .inr ⟨hkey, h⟩

/-- What the loop over `ids` makes of a manager: the committees found are
old ones or drawn from the set, and once it has come back those it was to
install are all drawn. -/
structure Installed (epoch : UInt64) (ids : List UInt16) (cm : RotatingManager)
    (outcome : Option Unit × RotatingManager) : Prop where
  manager : outcome.2.toCommitteeManager = cm.toCommitteeManager
  currentEpoch : outcome.2.currentEpoch = cm.currentEpoch
  numCommittees : outcome.2.numCommittees = cm.numCommittees
  found : ∀ e id c, outcome.2.getCommittee e id = some c →
    Drawn cm.validatorSet c ∨ cm.getCommittee e id = some c
  fresh : outcome.1 = some () → ∀ id ∈ ids, ∀ c, outcome.2.getCommittee epoch id = some c →
    Drawn cm.validatorSet c

variable (hashData : Bytes → Hash)

theorem installed (epoch slot : UInt64) (randomness : Hash) (tries : Nat) (ids : List UInt16) :
    ∀ cm : RotatingManager,
      Installed epoch ids cm (installCommittees hashData epoch slot randomness tries ids cm) := by
  induction ids with
  | nil =>
    intro cm
    exact ⟨rfl, rfl, rfl, fun _ _ _ h => .inr h, fun _ _ h => absurd h List.not_mem_nil⟩
  | cons id₀ rest ih =>
    intro cm
    rw [installCommittees]
    split
    · exact ⟨rfl, rfl, rfl, fun _ _ _ h => .inr h, fun h => nomatch h⟩
    rename_i members hselect
    have hdrawn : Drawn cm.validatorSet (.snapshot epoch id₀ members) := by
      intro m hm
      obtain ⟨v, hv, rfl⟩ := selectCommitteeMembers_mem hashData hselect m hm
      exact ⟨v, List.mem_of_mem_filter hv, rfl⟩
    have hrest := ih (cm.insertCommittee epoch id₀ members)
    refine ⟨hrest.manager, hrest.currentEpoch, hrest.numCommittees, fun e id c h => ?_,
      fun hdone id hid c h => ?_⟩
    · rcases hrest.found e id c h with h | h
      · exact .inl h
      · rcases getCommittee_insertCommittee h with rfl | ⟨-, h⟩
        · exact .inl hdrawn
        · exact .inr h
    · rcases List.mem_cons.mp hid with rfl | hid
      · rcases hrest.found epoch id c h with h | h
        · exact h
        · rcases getCommittee_insertCommittee h with rfl | ⟨hkey, -⟩
          · exact hdrawn
          · exact absurd rfl hkey
      · exact hrest.fresh hdone id hid c h

theorem mem_committeeIds (h : id < cm.numCommittees) : id ∈ cm.committeeIds :=
  List.mem_map.mpr ⟨id.toNat, List.mem_range.mpr (UInt16.lt_iff_toNat_lt.mp h), UInt16.ofNat_toNat⟩

variable {shardId : ShardId}

theorem sitting_eq_some_iff : cm.sitting shardId = some c ↔ cm.numCommittees ≠ 0 ∧
        cm.getCommittee cm.currentEpoch (shardId % cm.numCommittees) = some c := by
  unfold sitting getCommitteeForShard
  split <;> simp_all

theorem epoch_of_sitting (h : cm.sitting shardId = some c) :
    c ∈ cm.committees.rows ∧ c.epoch = cm.currentEpoch := by
  obtain ⟨-, hget⟩ := sitting_eq_some_iff.mp h
  exact ⟨Table.mem_rows_of_get hget, congrArg Prod.fst (Table.key_of_get hget)⟩

theorem rotateCommittees_manager (cm : RotatingManager) (epoch slot : UInt64) (randomness : Hash)
    (tries : Nat) :
    (cm.rotateCommittees hashData epoch slot randomness tries).2.toCommitteeManager
      = cm.toCommitteeManager := by
  have hinstalled := installed hashData epoch slot randomness tries cm.committeeIds cm
  unfold rotateCommittees
  split
  · rfl
  split
  all_goals
    rename_i heq
    rw [heq] at hinstalled
    exact hinstalled.manager

/-- A committee sitting after a rotation was drawn from the set, unless it
was sitting before. -/
theorem sitting_rotateCommittees {slot : UInt64} {randomness : Hash} {tries : Nat}
    (h : (cm.rotateCommittees hashData epoch slot randomness tries).2.sitting shardId = some c) :
    Drawn cm.validatorSet c ∨ cm.sitting shardId = some c := by
  have hinstalled := installed hashData epoch slot randomness tries cm.committeeIds cm
  unfold rotateCommittees at h
  split at h
  · exact .inr h
  split at h
  · -- the selection did not come back: the epoch is still the old one
    rename_i cm' heq
    rw [heq] at hinstalled
    obtain ⟨hnum, hget⟩ := sitting_eq_some_iff.mp h
    rw [show cm'.numCommittees = cm.numCommittees from hinstalled.numCommittees] at hnum hget
    rw [show cm'.currentEpoch = cm.currentEpoch from hinstalled.currentEpoch] at hget
    refine (hinstalled.found _ _ _ hget).imp_right fun hold => ?_
    exact sitting_eq_some_iff.mpr ⟨hnum, hold⟩
  · rename_i cm' heq
    rw [heq] at hinstalled
    obtain ⟨hnum, hget⟩ := sitting_eq_some_iff.mp h
    refine .inl (hinstalled.fresh rfl _ (mem_committeeIds ?_) c hget)
    rw [← show cm'.numCommittees = cm.numCommittees from hinstalled.numCommittees]
    exact UInt16.mod_lt _ (UInt16.pos_iff_ne_zero.mpr hnum)

end RotatingManager

/-! ## A committee and the moving set -/

namespace Committee

/-- No member has more effective stake in the set than the committee records. -/
def Covers (c : Committee) (set : ValidatorSet) : Prop :=
  ∀ a, c.hasMember a = true → set.stakeOf a ≤ c.stakeOf a

variable {c : Committee} {set : ValidatorSet}

theorem Covers.mono {set' : ValidatorSet} (h : c.Covers set)
    (hle : ∀ a, set'.stakeOf a ≤ set.stakeOf a) : c.Covers set' :=
  fun a ha => (hle a).trans (h a ha)

/-- An addition is covered unless it brings a member back with more stake. -/
theorem Covers.enter (h : c.Covers set) {v : Validator}
    (hv : c.hasMember v.address = true → v.effectiveStake.toNat ≤ c.stakeOf v.address) :
    c.Covers (set.enter v) := by
  intro a ha
  have hfind : (set.enter v).getValidator a
      = (set.getValidator a).or (if v.address = a then some v else none) := by
    show (set.validators ++ [v]).find? _ = _
    rw [List.find?_append]
    congr 1
    by_cases hva : v.address = a <;> simp [hva]
  cases hget : set.getValidator a with
  | some =>
    rw [hget] at hfind
    rw [ValidatorSet.stakeOf_congr (hfind.trans hget.symm)]
    exact h a ha
  | none =>
    rw [hget, Option.none_or] at hfind
    split at hfind
    · rename_i hva
      rw [ValidatorSet.stakeOf_of_getValidator hfind]
      exact hva ▸ hv (hva ▸ ha)
    · rw [ValidatorSet.stakeOf_congr (hfind.trans hget.symm)]
      exact h a ha

theorem exists_member {a : Address} (h : c.hasMember a = true) :
    ∃ m ∈ c.members, m.address = a ∧ c.stakeOf a = m.stake.toNat := by
  unfold stakeOf WeightedQuorum.weightOf
  cases hfind : c.members.find? (fun m => m.address = a) with
  | some m => exact ⟨m, List.mem_of_find?_eq_some hfind, by simpa using List.find?_some hfind, rfl⟩
  | none =>
    obtain ⟨m, hm, hma⟩ := List.any_eq_true.mp h
    exact absurd hma (List.find?_eq_none.mp hfind m hm)

end Committee

theorem RotatingManager.Drawn.covers {set : ValidatorSet} {c : Committee}
    (h : RotatingManager.Drawn set c) (hset : set.Distinct) : c.Covers set := by
  intro a ha
  obtain ⟨m, hm, rfl, hstake⟩ := Committee.exists_member ha
  obtain ⟨v, hv, rfl⟩ := h m hm
  rw [hstake, show (member v).address = v.address from rfl,
    ValidatorSet.stakeOf_of_getValidator (hset.getValidator hv)]
  unfold Validator.effectiveStake
  split
  · exact le_rfl
  · exact Nat.zero_le _

end Quantos

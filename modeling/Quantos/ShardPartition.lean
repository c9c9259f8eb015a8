import Quantos.ShardMap
import Quantos.Tiling
import Quantos.Runs

/-!
# When the shard map is a partition

The ranges of a fresh map tile the 16-bit prefixes. A split keeps the
tiling when the range it halves has two prefixes or more and its new id is
free; a merge keeps it when the two ranges touch. The manager checks
neither: new ids are the number of shards, which a merge leaves behind the
ids in use, and it merges ids that are consecutive whether or not their
ranges are.

`Fits` is the missing check. In every run whose executed actions fit, the
map is a partition with as many ranges as it counts shards, no bound or
count wraps, and an address has one owner whichever way the map is walked.
-/

namespace Quantos

open Table Runs List UInt16

open Tiling (Tiles)

/-! ## Words and numbers -/

variable {a b : UInt16}

theorem toNat_add_of_lt (h : a.toNat + b.toNat < 2 ^ 16) : (a + b).toNat = a.toNat + b.toNat := by
  rw [UInt16.toNat_add]
  exact Nat.mod_eq_of_lt h

theorem checkedMul16_of_lt (h : a.toNat * b.toNat < 2 ^ 16) :
    ∃ c, checkedMul16 a b = some c ∧ c.toNat = a.toNat * b.toNat := by
  refine ⟨a * b, if_pos h, ?_⟩
  rw [UInt16.toNat_mul]
  exact Nat.mod_eq_of_lt h

namespace ShardRange

def lo (r : ShardRange) : Nat := r.start.toNat

def hi (r : ShardRange) : Nat := r.stop.toNat

end ShardRange

namespace ShardMap

/-- The ranges partition the prefixes, and there are as many as counted. -/
structure Partitioned (map : ShardMap) : Prop where
  tiles : Tiles ShardRange.lo ShardRange.hi map.ranges.rows (2 ^ 16)
  count : map.numShards.toNat = map.ranges.rows.length

/-! ## The fresh map -/

section New

variable {n i : UInt16}

theorem rangeSize_pos (hn : 0 < n.toNat) : 0 < 65535 / n.toNat :=
  Nat.div_pos (Nat.le_of_lt_succ n.toNat_lt) hn

theorem toNat_rangeSize (hn : 0 < n.toNat) :
    (65535 / max n 1 : UInt16).toNat = 65535 / n.toNat := by
  have hmax : max n 1 = n := by
    rw [max_def]
    split
    · rename_i hle
      refine UInt16.le_antisymm ?_ hle
      exact UInt16.le_iff_toNat_le.mpr hn
    · rfl
  rw [hmax, UInt16.toNat_div]
  rfl

theorem checkedMul16_start (hi : i < n) : ∃ c, checkedMul16 i (65535 / max n 1) = some c ∧
    c.toNat = i.toNat * (65535 / n.toNat) := by
  have hlt := lt_iff_toNat_lt.mp hi
  have hsize := toNat_rangeSize (n := n) (by omega)
  have hle : i.toNat * (65535 / n.toNat) ≤ n.toNat * (65535 / n.toNat) :=
    Nat.mul_le_mul_right _ hlt.le
  have hbound := Nat.mul_div_le 65535 n.toNat
  rw [← hsize] at hle hbound ⊢
  exact checkedMul16_of_lt (by omega)

theorem checkedSub16_stop (hi : i < n) : ∃ c,
    ((checkedMul16 (i + 1) (65535 / max n 1)).bind fun v => checkedSub16 v 1) = some c ∧
      c.toNat = (i.toNat + 1) * (65535 / n.toNat) - 1 := by
  have hlt := lt_iff_toNat_lt.mp hi
  have hnlt := n.toNat_lt
  have hone : (1 : UInt16).toNat = 1 := rfl
  have hsucc : (i + 1).toNat = i.toNat + 1 := toNat_add_of_lt (by omega)
  have hsize := toNat_rangeSize (n := n) (by omega)
  have hpos := rangeSize_pos (n := n) (by omega)
  have hle : (i.toNat + 1) * (65535 / n.toNat) ≤ n.toNat * (65535 / n.toNat) :=
    Nat.mul_le_mul_right _ hlt
  have hge : 1 * (65535 / n.toNat) ≤ (i.toNat + 1) * (65535 / n.toNat) :=
    Nat.mul_le_mul_right _ (by omega)
  have hbound := Nat.mul_div_le 65535 n.toNat
  obtain ⟨c, hc, hnat⟩ := checkedMul16_of_lt (a := i + 1) (b := 65535 / max n 1) (by
    rw [hsize, hsucc]
    omega)
  rw [hsize, hsucc] at hnat
  have hone_le : 1 ≤ c := le_iff_toNat_le.mpr (by omega)
  refine ⟨c - 1, ?_, ?_⟩
  · rw [hc, Option.bind_some]
    exact if_pos hone_le
  · rw [UInt16.toNat_sub_of_le c 1 hone_le, hnat, hone]

theorem uniformRange_start (hi : i < n) : (uniformRange n i).lo = i.toNat * (65535 / n.toNat) := by
  obtain ⟨c, hc, hnat⟩ := checkedMul16_start hi
  show ((checkedMul16 i (65535 / max n 1)).getD 0).toNat = _
  rw [hc, Option.getD_some, hnat]

theorem uniformRange_stop_last (hi : i = n - 1) : (uniformRange n i).hi = 65535 := by
  show (if i = n - 1 then (65535 : UInt16) else _).toNat = _
  rw [if_pos hi]
  rfl

theorem uniformRange_stop (hi : i < n) (hlast : i.toNat + 1 ≠ n.toNat) :
    (uniformRange n i).hi = (i.toNat + 1) * (65535 / n.toNat) - 1 := by
  have hlt := lt_iff_toNat_lt.mp hi
  have hne : i ≠ n - 1 := by
    rintro rfl
    have hsub : (n - 1).toNat = n.toNat - 1 := UInt16.toNat_sub_of_le n 1
      (UInt16.le_iff_toNat_le.mpr (Nat.one_le_iff_ne_zero.mpr (by omega)))
    omega
  obtain ⟨c, hc, hnat⟩ := checkedSub16_stop hi
  show (if i = n - 1 then (65535 : UInt16) else
    ((checkedMul16 (i + 1) (65535 / max n 1)).bind fun v => checkedSub16 v 1).getD 65535).toNat = _
  rw [if_neg hne, hc, Option.getD_some, hnat]

theorem partitioned_new (hn : 0 < n.toNat) : Partitioned (new n) := by
  have hofNat : ∀ j < n.toNat, (UInt16.ofNat j).toNat = j := fun j hj =>
    toNat_ofNat_of_lt (hj.trans n.toNat_lt)
  have hlt : ∀ j < n.toNat, UInt16.ofNat j < n := fun j hj =>
    lt_iff_toNat_lt.mpr ((hofNat j hj).symm ▸ hj)
  have hrows : (new n).ranges.rows.Perm
      ((List.range n.toNat).map fun j => uniformRange n (UInt16.ofNat j)) := by
    refine rows_putAll_empty ?_
    rw [map_map]
    refine nodup_range.map_on fun j hj k hk heq => ?_
    have hkeys : UInt16.ofNat j = UInt16.ofNat k := heq
    rw [← hofNat j (mem_range.mp hj), ← hofNat k (mem_range.mp hk), hkeys]
  refine ⟨Tiles.perm ?_ hrows.symm, ?_⟩
  · refine Tiling.tiles_even hn (rangeSize_pos hn) ((Nat.mul_div_le 65535 n.toNat).trans (by omega))
      (fun j hj => ?_) (fun j hj hlast => ?_) fun j hlast => ?_
    · rw [uniformRange_start (hlt j hj), hofNat j hj]
    · rw [uniformRange_stop (hlt j hj) (by rwa [hofNat j hj]), hofNat j hj]
    · refine uniformRange_stop_last (UInt16.toNat_inj.mp ?_)
      have hsub : (n - 1).toNat = n.toNat - 1 := UInt16.toNat_sub_of_le n 1
        (UInt16.le_iff_toNat_le.mpr hn)
      rw [hofNat j (by omega), hsub]
      omega
  · rw [hrows.length_eq, length_map, length_range]
    rfl

end New

/-! ## Splits and merges -/

/-- What an action has to find: a split, a range of two prefixes or more, a
free id and room for one more shard; a merge into the first shard, ranges
that touch. An unknown shard is refused anyway. -/
def Fits (map : ShardMap) : RebalanceAction → Prop
  | .split sourceShard newShardId => ∀ r ∈ map.ranges.get sourceShard,
      r.lo < r.hi ∧ map.ranges.get newShardId = none ∧ map.numShards.toNat + 1 < 2 ^ 16
  | .merge shardA shardB targetShard => targetShard = shardA ∧
      ∀ r ∈ map.ranges.get shardA, ∀ s ∈ map.ranges.get shardB, r.hi + 1 = s.lo
  | .migrate _ _ _ => True

instance decidableFits (map : ShardMap) : ∀ action, Decidable (Fits map action)
  | .split .. => inferInstanceAs (Decidable (∀ r ∈ _, _))
  | .merge .. => inferInstanceAs (Decidable (_ ∧ ∀ r ∈ _, ∀ s ∈ _, _))
  | .migrate _ _ _ => isTrue trivial

theorem toNat_mid {start stop : UInt16} (h : start ≤ stop) :
    (start + (stop - start) / 2).toNat = start.toNat + (stop.toNat - start.toNat) / 2 := by
  have hle := le_iff_toNat_le.mp h
  have hstop := stop.toNat_lt
  have hhalf : ((stop - start) / 2).toNat = (stop.toNat - start.toNat) / 2 := by
    rw [UInt16.toNat_div, UInt16.toNat_sub_of_le _ _ h]
    rfl
  rw [toNat_add_of_lt (by omega), hhalf]

variable {map map' : ShardMap}

theorem Partitioned.split {sourceShard newShardId : ShardId} (h : Partitioned map)
    (hfits : Fits map (.split sourceShard newShardId))
    (happly : ShardManager.splitRange map sourceShard newShardId = .ok map') :
    Partitioned map' := by
  unfold ShardManager.splitRange at happly
  split at happly
  · cases happly
  rename_i id start stop hget
  obtain rfl := Except.ok.inj happly
  obtain ⟨hlt, hfree, hroom⟩ := hfits _ hget
  obtain rfl : id = sourceShard := key_of_get hget
  have hlt' : start.toNat < stop.toNat := hlt
  have hmid := toNat_mid (le_iff_toNat_le.mpr hlt'.le)
  have hstop := stop.toNat_lt
  have hsucc : (start + (stop - start) / 2 + 1).toNat = (start + (stop - start) / 2).toNat + 1 :=
    toNat_add_of_lt (by
      rw [show (1 : UInt16).toNat = 1 from rfl]
      omega)
  have hne : id ≠ newShardId := by
    rintro rfl
    rw [hfree] at hget
    cases hget
  have hrows := rows_perm_of_get hget
  have hrows' : ((map.ranges.put ⟨id, start, start + (stop - start) / 2⟩).put
      ⟨newShardId, start + (stop - start) / 2 + 1, stop⟩).rows.Perm
      (⟨id, start, start + (stop - start) / 2⟩
        :: ⟨newShardId, start + (stop - start) / 2 + 1, stop⟩
        :: map.ranges.rows.filter fun w => w.shardId ≠ id) := by
    rw [rows_put_of_none]
    · exact .swap _ _ _
    · exact (get_put_of_ne _ hne).trans hfree
  refine ⟨Tiles.perm ?_ hrows'.symm, ?_⟩
  · refine (h.tiles.perm hrows).split rfl rfl hsucc ?_ ?_
    · show start.toNat ≤ (start + (stop - start) / 2).toNat
      omega
    · show (start + (stop - start) / 2).toNat < stop.toNat
      omega
  · rw [hrows'.length_eq, toNat_add_of_lt hroom, h.count, hrows.length_eq]
    rfl

theorem Partitioned.merge {shardA shardB targetShard : ShardId} (h : Partitioned map)
    (hfits : Fits map (.merge shardA shardB targetShard))
    (happly : ShardManager.mergeRanges map shardA shardB targetShard = .ok map') :
    Partitioned map' := by
  unfold ShardManager.mergeRanges at happly
  split at happly
  · cases happly
  rename_i idA startA stopA hgetA
  split at happly
  · cases happly
  rename_i idB startB stopB hgetB
  obtain rfl := Except.ok.inj happly
  obtain ⟨rfl, hfits⟩ := hfits
  have htouch := hfits _ hgetA _ hgetB
  obtain rfl : idA = targetShard := key_of_get hgetA
  obtain rfl : idB = shardB := key_of_get hgetB
  have hproper := h.tiles.proper _ (mem_rows_of_get hgetA)
  have hne : idB ≠ idA := by
    rintro rfl
    obtain ⟨-, rfl, rfl⟩ := ShardRange.mk.inj (Option.some.inj (hgetA.symm.trans hgetB))
    omega
  have hgetA' : (map.ranges.erase idB).get idA = some ⟨idA, startA, stopA⟩ := by
    rw [get_erase, if_neg hne]
    exact hgetA
  have hrows : map.ranges.rows.Perm (⟨idA, startA, stopA⟩ :: ⟨idB, startB, stopB⟩
      :: (map.ranges.erase idB).rows.filter fun w => w.shardId ≠ idA) :=
    ((rows_perm_of_get hgetB).trans
      ((rows_perm_of_get hgetA').cons _)).trans (.swap _ _ _)
  refine ⟨(h.tiles.perm hrows).merge htouch rfl rfl, ?_⟩
  have hlength := hrows.length_eq
  have hcount := h.count
  rw [hlength, length_cons] at hcount
  have hone : 1 ≤ map.numShards := UInt16.le_iff_toNat_le.mpr (hcount ▸ Nat.le_add_left 1 _)
  rw [UInt16.toNat_sub_of_le _ _ hone, hcount]
  rfl

variable {action : RebalanceAction}

theorem Partitioned.applyAction (h : Partitioned map) (hfits : Fits map action)
    (happly : ShardManager.applyAction map action = .ok map') : Partitioned map' := by
  cases action with
  | split => exact h.split hfits happly
  | merge => exact h.merge hfits happly
  | migrate =>
    obtain rfl := Except.ok.inj happly
    exact ⟨h.tiles, h.count⟩

/-- The bounds and the count that an action computes are exact. -/
def NoOverflow (map : ShardMap) : RebalanceAction → Prop
  | .split sourceShard _ => ∀ r ∈ map.ranges.get sourceShard,
      (r.stop - r.start).toNat + r.start.toNat = r.stop.toNat ∧
        (r.start + (r.stop - r.start) / 2).toNat = r.lo + (r.hi - r.lo) / 2 ∧
        (r.start + (r.stop - r.start) / 2 + 1).toNat = r.lo + (r.hi - r.lo) / 2 + 1 ∧
        (map.numShards + 1).toNat = map.numShards.toNat + 1
  | .merge shardA shardB _ => ∀ r ∈ map.ranges.get shardA, ∀ s ∈ map.ranges.get shardB,
      (map.numShards - 1).toNat + 1 = map.numShards.toNat
  | .migrate _ _ _ => True

theorem Partitioned.noOverflow (h : Partitioned map) (hfits : Fits map action) :
    NoOverflow map action := by
  cases action with
  | split =>
    intro r hr
    obtain ⟨hlt, -, hroom⟩ := hfits r hr
    have hlt' : r.start.toNat < r.stop.toNat := hlt
    have hle : r.start ≤ r.stop := le_iff_toNat_le.mpr hlt'.le
    have hmid := toNat_mid hle
    have hstop := r.stop.toNat_lt
    refine ⟨?_, hmid, ?_, toNat_add_of_lt hroom⟩
    · rw [UInt16.toNat_sub_of_le _ _ hle]
      omega
    · refine (toNat_add_of_lt ?_).trans (congrArg (· + 1) hmid)
      rw [hmid, show (1 : UInt16).toNat = 1 from rfl]
      omega
  | merge =>
    intro r hr s hs
    have hcount := h.count
    have hpos := length_pos_of_mem (mem_rows_of_get hr)
    have hone : 1 ≤ map.numShards := le_iff_toNat_le.mpr (by
      rw [hcount]
      exact hpos)
    rw [UInt16.toNat_sub_of_le _ _ hone, show (1 : UInt16).toNat = 1 from rfl]
    omega
  | migrate => trivial

/-- One range holds a prefix, and every walk over the map finds it. -/
theorem Partitioned.getShard (h : Partitioned map) (address : Address) : ∃ r ∈ map.ranges.rows,
      (r.start ≤ addressPrefix address ∧ addressPrefix address ≤ r.stop) ∧
      ∀ walk : List ShardRange, walk.Perm map.ranges.rows →
        map.getShard walk address = r.shardId := by
  obtain ⟨r, hr, hin, hfind⟩ := h.tiles.owner (addressPrefix address).toNat_lt
  refine ⟨r, hr, ⟨le_iff_toNat_le.mpr hin.1, le_iff_toNat_le.mpr hin.2⟩,
    fun walk hwalk => ?_⟩
  unfold ShardMap.getShard
  simp only [le_iff_toNat_le]
  have hfound := hfind walk hwalk
  unfold ShardRange.lo ShardRange.hi at hfound
  rw [hfound]

end ShardMap

/-! ## What a check returns -/

namespace ShardManager

variable {action : RebalanceAction}

theorem adjacentPair_cases {ids : List ShardId} (hsorted : ids.Pairwise (· ≤ ·))
    (h : adjacentPair ids = some action) :
    ∃ shardA shardB : ShardId, action = .merge shardA shardB shardA ∧
      shardB.toNat = shardA.toNat + 1 := by
  induction ids with
  | nil => cases h
  | cons shardA rest ih =>
    cases rest with
    | nil => cases h
    | cons shardB =>
      rw [adjacentPair] at h
      split at h
      · rename_i hnext
        refine ⟨shardA, shardB, (Option.some.inj h).symm, ?_⟩
        -- sorted ids cannot wrap around from the last one to the first
        have hle := le_iff_toNat_le.mp
          ((pairwise_cons.mp hsorted).1 shardB mem_cons_self)
        rw [hnext, UInt16.toNat_add, show (1 : UInt16).toNat = 1 from rfl] at hle ⊢
        omega
      · exact ih (pairwise_cons.mp hsorted).2 h

theorem mergeCandidates_sorted (sm : ShardManager) : sm.mergeCandidates.Pairwise (· ≤ ·) := by
  exact pairwise_insertionSort _ _

/-- A check returns a split with the number of shards as new id, or a merge
of consecutive ids into the lower one. -/
theorem checkRebalance_cases {sm : ShardManager} {now : UInt64}
    {walk : List (ShardId × ShardLoad)} (h : sm.checkRebalance now walk = some action) :
    (∃ sourceShard, action = .split sourceShard sm.shardMap.numShards ∧
        sm.shardMap.numShards < sm.config.maxShards) ∨
      ∃ shardA shardB : ShardId, action = .merge shardA shardB shardA ∧
        shardB.toNat = shardA.toNat + 1 := by
  unfold checkRebalance at h
  split at h
  · cases h
  split at h
  · rename_i hsplit
    obtain rfl := Option.some.inj h
    obtain ⟨⟨shardId, _⟩, -, hrow⟩ := exists_of_findSome?_eq_some hsplit
    dsimp only at hrow
    split at hrow
    · rename_i hroom
      exact .inl ⟨shardId, (Option.some.inj hrow).symm, hroom.2⟩
    · cases hrow
  · split at h
    · exact .inr (adjacentPair_cases sm.mergeCandidates_sorted h)
    · cases h

end ShardManager

/-! ## Runs -/

/-- A check reads the manager and changes nothing. -/
inductive ShardOp where
  | reportLoad (shardId : ShardId) (tps : UInt64)
  | checkRebalance (now : UInt64) (walk : List (ShardId × ShardLoad))
  | executeRebalance (action : RebalanceAction) (authToken : Hash) (now durationMs : UInt64)

namespace ShardManager

variable (sm : ShardManager)

def step : ShardOp → ShardManager
  | .reportLoad shardId tps => sm.reportLoad shardId tps
  | .checkRebalance _ _ => sm
  | .executeRebalance action authToken now durationMs =>
    (sm.executeRebalance action authToken now durationMs).2

/-- Every action executed with the right token fits the map it finds. -/
def ExecutesFitting : ShardOp → Prop
  | .executeRebalance action authToken _ _ =>
    sm.authToken = authToken → ShardMap.Fits sm.shardMap action
  | _ => True

instance decidableExecutesFitting : ∀ op, Decidable (ExecutesFitting sm op)
  | .executeRebalance .. => inferInstanceAs (Decidable (_ → _))
  | .reportLoad _ _ | .checkRebalance _ _ => isTrue trivial

theorem partitioned_step {sm : ShardManager} (op : ShardOp) (h : sm.shardMap.Partitioned)
    (hfits : ExecutesFitting sm op) : (sm.step op).shardMap.Partitioned := by
  cases op with
  | reportLoad => exact h
  | checkRebalance => exact h
  | executeRebalance action authToken now durationMs =>
    show (sm.executeRebalance action authToken now durationMs).2.shardMap.Partitioned
    unfold executeRebalance
    split
    · exact h
    rename_i htoken
    split
    · exact h
    · rename_i newMap happly
      exact h.applyAction (hfits (not_not.mp htoken)) happly

theorem partitioned_run (config : ShardingConfig) (authToken : Hash) {n : UInt16}
    (hn : 1 ≤ n.toNat) {ops : List ShardOp}
    (hmeet : Runs.StepsMeet step ExecutesFitting (withShards config authToken n) ops) :
    (run step (withShards config authToken n) ops).shardMap.Partitioned :=
  invariant_of_stepsMeet (I := fun sm => sm.shardMap.Partitioned)
    (fun _ op h hfits => partitioned_step op h hfits) (ShardMap.partitioned_new hn) hmeet

end ShardManager

namespace ShardMap

/-- Every prefix is in one range, the ranges are as many as counted, and an
address has one owner whichever way the map is walked. -/
structure OwnedOnce (map : ShardMap) : Prop where
  onePerPrefix : ∀ x : UInt16, ∃! r, r ∈ map.ranges.rows ∧ r.start ≤ x ∧ x ≤ r.stop
  count : map.numShards.toNat = map.ranges.rows.length
  owner : ∀ address, ∃ r ∈ map.ranges.rows,
    (r.start ≤ addressPrefix address ∧ addressPrefix address ≤ r.stop) ∧
    ∀ walk : List ShardRange, walk.Perm map.ranges.rows → map.getShard walk address = r.shardId

theorem Partitioned.ownedOnce {map : ShardMap} (h : Partitioned map) : OwnedOnce map where
  onePerPrefix := fun x => by
    obtain ⟨r, hr, hin⟩ := h.tiles.covers x.toNat x.toNat_lt
    refine ⟨r, ⟨hr, le_iff_toNat_le.mpr hin.1, le_iff_toNat_le.mpr hin.2⟩, ?_⟩
    rintro s ⟨hs, hlo, hhi⟩
    exact h.tiles.unique hs hr
      ⟨le_iff_toNat_le.mp hlo, le_iff_toNat_le.mp hhi⟩ hin
  count := h.count
  owner := h.getShard

/-- The checked arithmetic of the fresh map never falls back to a default. -/
def NewNoOverflow (n : UInt16) : Prop :=
  ∀ i < n, (checkedMul16 i (65535 / max n 1)).isSome = true ∧
    ((checkedMul16 (i + 1) (65535 / max n 1)).bind fun v => checkedSub16 v 1).isSome = true

theorem newNoOverflow (n : UInt16) : NewNoOverflow n := by
  intro i hi
  obtain ⟨c, hc, -⟩ := checkedMul16_start hi
  obtain ⟨d, hd, -⟩ := checkedSub16_stop hi
  exact ⟨hc ▸ rfl, hd ▸ rfl⟩

end ShardMap

namespace ShardManager

/-- In every run whose executed actions fit, the map owns every prefix once
and nothing that is computed on the way overflows. -/
theorem shard_map_partition (config : ShardingConfig) (authToken : Hash) (n : UInt16)
    (hn : 1 ≤ n.toNat) (ops : List ShardOp)
    (hmeet : Runs.StepsMeet step ExecutesFitting (withShards config authToken n) ops) :
    (run step (withShards config authToken n) ops).shardMap.OwnedOnce ∧ ShardMap.NewNoOverflow n ∧
      (∀ action, (run step (withShards config authToken n) ops).shardMap.Fits action →
        (run step (withShards config authToken n) ops).shardMap.NoOverflow action) ∧
      ∀ now walk shardA shardB targetShard,
        (run step (withShards config authToken n) ops).checkRebalance now walk
            = some (.merge shardA shardB targetShard) →
          targetShard = shardA ∧ shardB.toNat = shardA.toNat + 1 := by
  have h := partitioned_run config authToken hn hmeet
  refine ⟨h.ownedOnce, ShardMap.newNoOverflow n, fun _ hfits => h.noOverflow hfits,
    fun now walk shardA shardB targetShard hcheck => ?_⟩
  rcases checkRebalance_cases hcheck with ⟨_, hsplit, -⟩ | ⟨a, b, hmerge, hnext⟩
  · cases hsplit
  · obtain ⟨rfl, rfl, rfl⟩ := RebalanceAction.merge.inj hmerge
    exact ⟨rfl, hnext⟩

/-! ### Sample runs -/

def sampleConfig : ShardingConfig := ⟨1, 5, 100, 10, 0, 1⟩

/-- Three shards; the load of the first two is low and they are merged. -/
def mergedRun : List ShardOp :=
  [.reportLoad 0 5, .reportLoad 1 5, .executeRebalance (.merge 0 1 0) 7 1 0]

theorem shard_map_partition_merged :
    Runs.StepsMeet step ExecutesFitting (new sampleConfig 7) mergedRun ∧
      (run step (new sampleConfig 7) mergedRun).shardMap.OwnedOnce := by
  have hmeet : Runs.StepsMeet step ExecutesFitting (new sampleConfig 7) mergedRun := by
    decide
  exact ⟨hmeet, (shard_map_partition sampleConfig 7 3 (by decide) mergedRun hmeet).1⟩

/-- Then the merged shard is busy and is split. -/
def splitAfterMerge : List ShardOp :=
  mergedRun ++ [.reportLoad 0 500, .executeRebalance (.split 0 2) 7 2 0]

/-- Both actions are those the checks return. The split takes id 2, which
shard 2 still has: its range is overwritten, so that the last prefix is in
none, two ranges are left and three shards are counted. -/
theorem split_after_merge_loses_range :
    (run step (new sampleConfig 7) (mergedRun.take 2)).checkRebalance 1
        (run step (new sampleConfig 7) (mergedRun.take 2)).shardLoads.rows = some (.merge 0 1 0) ∧
      (run step (new sampleConfig 7) (splitAfterMerge.take 4)).checkRebalance 2
        (run step (new sampleConfig 7) (splitAfterMerge.take 4)).shardLoads.rows
        = some (.split 0 2) ∧
      (∀ r ∈ (run step (new sampleConfig 7) splitAfterMerge).shardMap.ranges.rows,
        ¬ (r.start ≤ 65535 ∧ 65535 ≤ r.stop)) ∧
      (run step (new sampleConfig 7) splitAfterMerge).shardMap.numShards = 3 ∧
      (run step (new sampleConfig 7) splitAfterMerge).shardMap.ranges.rows.length = 2 := by
  decide

end ShardManager

end Quantos

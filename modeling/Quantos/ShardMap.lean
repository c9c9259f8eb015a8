import Quantos.Committees
import Mathlib.Data.UInt

/-!
# Dynamic sharding

`sharding/mod.rs`: the map from shard ids to ranges of 16-bit address
prefixes, the load samples, and the manager that proposes and executes
splits and merges. Arithmetic on `u16` and `u64` wraps in a release build;
hash maps are tables, and where the code walks one, the order of the walk
is an argument.

A check returns one of two kinds of action (`checkRebalance_cases`): a
split whose new id is the current number of shards, or a merge of two
consecutive ids into the lower one. Neither looks at the ranges.
-/

namespace Quantos

def MAX_REBALANCE_HISTORY : Nat := 10000

structure ShardingConfig where
  minShards : UInt16
  maxShards : UInt16
  splitThresholdTps : UInt64
  mergeThresholdTps : UInt64
  rebalanceCooldownSecs : UInt64
  loadAverageEpochs : UInt64

/-! ## The map -/

/-- A shard with the first and the last prefix of its range. -/
structure ShardRange where
  shardId : ShardId
  start : UInt16
  stop : UInt16

structure ShardMap where
  numShards : UInt16
  ranges : Table ShardRange.shardId
  version : UInt64

def checkedMul16 (a b : UInt16) : Option UInt16 :=
  if a.toNat * b.toNat < 2 ^ 16 then some (a * b) else none

def checkedSub16 (a b : UInt16) : Option UInt16 := if b ≤ a then some (a - b) else none

/-- The first two bytes of an address, big-endian. -/
def addressPrefix (address : Address) : UInt16 := UInt16.ofNat (address.toNat / 2 ^ 240)

namespace ShardMap

/-- The range of shard `i` in the uniform layout. -/
def uniformRange (numShards i : UInt16) : ShardRange :=
  let rangeSize := 65535 / max numShards 1
  let start := (checkedMul16 i rangeSize).getD 0
  let stop :=
    if i = numShards - 1 then 65535
    else ((checkedMul16 (i + 1) rangeSize).bind fun v => checkedSub16 v 1).getD 65535
  ⟨i, start, stop⟩

def new (numShards : UInt16) : ShardMap where
  numShards := numShards
  ranges := Table.empty.putAll
    ((List.range numShards.toNat).map fun i => uniformRange numShards (UInt16.ofNat i))
  version := 1

/-- The first range found to hold the prefix, in the order of the walk. -/
def getShard (map : ShardMap) (walk : List ShardRange) (address : Address) : ShardId :=
  let addrPrefix := addressPrefix address
  match walk.find? fun r => r.start ≤ addrPrefix ∧ addrPrefix ≤ r.stop with
  | some r => r.shardId
  | none => addrPrefix % map.numShards

end ShardMap

/-! ## Load -/

/-- The fields that the rolling average and the thresholds read. -/
structure ShardLoad where
  tps : UInt64
  samples : List UInt64

namespace ShardLoad

def default : ShardLoad := ⟨0, []⟩

variable (load : ShardLoad)

def addSample (tps : UInt64) (maxSamples : Nat) : ShardLoad :=
  let samples := load.samples ++ [tps]
  let samples := if samples.length > maxSamples then samples.drop 1 else samples
  -- without samples the division panics, and only they have changed
  if samples.isEmpty then { load with samples }
  else ⟨samples.sum / UInt64.ofNat samples.length, samples⟩

def shouldSplit (threshold : UInt64) : Bool := load.tps > threshold

def shouldMerge (threshold : UInt64) : Bool := load.tps < threshold

end ShardLoad

/-! ## The manager -/

inductive RebalanceAction where
  | split (sourceShard newShardId : ShardId)
  | merge (shardA shardB targetShard : ShardId)
  | migrate (fromShard toShard : ShardId) (accounts : List Address)
deriving DecidableEq, Repr

structure RebalanceEvent where
  timestamp : UInt64
  action : RebalanceAction
  newVersion : UInt64
  durationMs : UInt64

inductive ShardingError where
  | shardNotFound (shardId : ShardId)
  | unauthorized

structure ShardManager where
  config : ShardingConfig
  shardMap : ShardMap
  shardLoads : Table (Prod.fst : ShardId × ShardLoad → ShardId)
  rebalanceHistory : List RebalanceEvent
  lastRebalance : UInt64
  authToken : Hash

namespace ShardManager

/-- A manager that starts with a given number of shards. -/
def withShards (config : ShardingConfig) (authToken : Hash) (initialShards : UInt16) :
    ShardManager where
  config := config
  shardMap := .new initialShards
  shardLoads := Table.empty
  rebalanceHistory := []
  lastRebalance := 0
  authToken := authToken

def new (config : ShardingConfig) (authToken : Hash) : ShardManager :=
  withShards config authToken ((config.minShards + config.maxShards) / 2)

variable (sm : ShardManager)

def reportLoad (shardId : ShardId) (tps : UInt64) : ShardManager :=
  let load := (sm.shardLoads.get shardId).elim .default Prod.snd
  { sm with shardLoads :=
      sm.shardLoads.put (shardId, load.addSample tps sm.config.loadAverageEpochs.toNat) }

/-- The first loaded shard that is to be split, in the order of the walk. -/
def splitAction (walk : List (ShardId × ShardLoad)) : Option RebalanceAction :=
  walk.findSome? fun (shardId, load) =>
    if load.shouldSplit sm.config.splitThresholdTps ∧
        sm.shardMap.numShards < sm.config.maxShards then
      some (.split shardId sm.shardMap.numShards)
    else none

/-- Two consecutive ids next to each other in the sorted candidates. -/
def adjacentPair : List ShardId → Option RebalanceAction
  | shardA :: shardB :: rest =>
    if shardB = shardA + 1 then some (.merge shardA shardB shardA)
    else adjacentPair (shardB :: rest)
  | _ => none

/-- The ids whose load is low, sorted; the order of the walk does not matter. -/
def mergeCandidates : List ShardId :=
  ((sm.shardLoads.rows.filter fun (_, load) => load.shouldMerge sm.config.mergeThresholdTps).map
    Prod.fst).insertionSort (· ≤ ·)

/-- `now - last` wraps when the clock is behind the last rebalance. -/
def checkRebalance (now : UInt64) (walk : List (ShardId × ShardLoad)) : Option RebalanceAction :=
  if now - sm.lastRebalance < sm.config.rebalanceCooldownSecs then none
  else
    match sm.splitAction walk with
    | some action => some action
    | none =>
      if sm.mergeCandidates.length ≥ 2 ∧ sm.shardMap.numShards > sm.config.minShards then
        adjacentPair sm.mergeCandidates
      else none

variable (map : ShardMap)

def splitRange (sourceShard newShardId : ShardId) : Except ShardingError ShardMap :=
  match map.ranges.get sourceShard with
  | none => .error (.shardNotFound sourceShard)
  | some ⟨_, start, stop⟩ =>
    let mid := start + (stop - start) / 2
    .ok
      { numShards := map.numShards + 1
        ranges := (map.ranges.put ⟨sourceShard, start, mid⟩).put ⟨newShardId, mid + 1, stop⟩
        version := map.version + 1 }

def mergeRanges (shardA shardB targetShard : ShardId) : Except ShardingError ShardMap :=
  match map.ranges.get shardA with
  | none => .error (.shardNotFound shardA)
  | some ⟨_, startA, _⟩ =>
    match map.ranges.get shardB with
    | none => .error (.shardNotFound shardB)
    | some ⟨_, _, stopB⟩ =>
      .ok
        { numShards := map.numShards - 1
          ranges := (map.ranges.erase shardB).put ⟨targetShard, startA, stopB⟩
          version := map.version + 1 }

def applyAction : RebalanceAction → Except ShardingError ShardMap
  | .split sourceShard newShardId => splitRange map sourceShard newShardId
  | .merge shardA shardB targetShard => mergeRanges map shardA shardB targetShard
  | .migrate _ _ _ => .ok { map with version := map.version + 1 }

/-- The clock is read when the event is recorded; `durationMs` is what the
stopwatch says. -/
def executeRebalance (action : RebalanceAction) (authToken : Hash) (now durationMs : UInt64) :
    Except ShardingError ShardMap × ShardManager :=
  if sm.authToken ≠ authToken then (.error .unauthorized, sm)
  else
    match applyAction sm.shardMap action with
    | .error e => (.error e, sm)
    | .ok newMap =>
      let history :=
        if sm.rebalanceHistory.length ≥ MAX_REBALANCE_HISTORY then sm.rebalanceHistory.drop 1
        else sm.rebalanceHistory
      (.ok newMap,
        { sm with
          shardMap := newMap
          rebalanceHistory := history ++ [⟨now, action, newMap.version, durationMs⟩]
          lastRebalance := now })

end ShardManager

end Quantos

import Quantos.Committees
import Quantos.Executor

/-!
# The vertex graph

`types/vertex.rs` and the part of `dag/graph.rs` through which vertices
enter: `create_vertex`, `add_vertex` with its eviction, and the internal
status update. Vertices are held in memory and on disk under their hash;
what the disk answers, and the order in which a map is walked for
eviction, are choices of the environment, one `DagContext` per call.

A vertex that was refused is not on disk (`addVertex_storage`): every
check comes before the write. The children lists and the tips are written
earlier, so those a failed call may already have touched.
-/

namespace Quantos

def DOMAIN_VERTEX : Bytes := asciiBytes "QUANTOS_VERTEX_V1"

def DOMAIN_COMMITTEE_VOTE : Bytes := asciiBytes "QUANTOS_COMMITTEE_VOTE_V1"

def MAX_TRANSACTIONS_PER_VERTEX : Nat := 10000

inductive VertexStatus where
  | pending
  | preConfirmed
  | confirmed
  | finalized
  | orphaned
deriving DecidableEq, Repr

structure CommitteeVote where
  validator : Address
  vertexHash : Hash
  approve : Bool
  stakeWeight : UInt64
  signature : Bytes
  timestamp : UInt64
deriving DecidableEq, Repr

def CommitteeVote.signingData (vote : CommitteeVote) : Bytes :=
  withDomain DOMAIN_COMMITTEE_VOTE
    (arrayBytes vote.validator ++ arrayBytes vote.vertexHash ++ [vote.approve.toUInt8]
      ++ leBytes 8 vote.stakeWeight.toNat ++ leBytes 8 vote.timestamp.toNat)

/-- A vertex with what the graph and the committees read of it. -/
structure Vertex extends DAGVertex where
  parents : List Hash
  timestamp : UInt64
  shardId : ShardId
  creator : Address
  signature : Bytes
  height : UInt64
  status : VertexStatus
  stateRoot : Hash
deriving DecidableEq, Repr

namespace Vertex

variable (v : Vertex)

def key : Hash := v.hash

section Hashing

variable (hashData : Bytes → Hash)

def computeHash (parents : List Hash) (transactions : List SignedTransaction) (timestamp : UInt64)
    (shardId : ShardId) (creator : Address) (height : UInt64) : Hash :=
  hashData (parents.flatMap arrayBytes ++ transactions.flatMap (fun tx => arrayBytes tx.hash)
    ++ leBytes 8 timestamp.toNat ++ leBytes 2 shardId.toNat ++ arrayBytes creator
    ++ leBytes 8 height.toNat)

/-- The clock is read once, for the timestamp. -/
def new (now : UInt64) (parents : List Hash) (transactions : List SignedTransaction)
    (shardId : ShardId) (creator : Address) (height : UInt64) : Except String Vertex :=
  if transactions.length > MAX_TRANSACTIONS_PER_VERTEX then
    .error ("Too many transactions: " ++ toString transactions.length ++ " > "
      ++ toString MAX_TRANSACTIONS_PER_VERTEX)
  else .ok
    { hash := computeHash hashData parents transactions now shardId creator height
      parents, transactions, timestamp := now, shardId, creator, signature := [], height
      status := .pending, stateRoot := 0 }

end Hashing

def signingData : Bytes :=
  withDomain DOMAIN_VERTEX (arrayBytes v.hash ++ arrayBytes v.stateRoot)

def setStateRoot (stateRoot : Hash) : Vertex := { v with stateRoot }

def setSignature (signature : Bytes) : Vertex := { v with signature }

def setStatus (status : VertexStatus) : Vertex := { v with status }

end Vertex

/-! ## The graph -/

def MAX_VERTICES_IN_MEMORY : Nat := 1000000

def MAX_TIPS_PER_SHARD : Nat := 100

def MAX_SHARDS : Nat := 1024

def MAX_CHILDREN_PER_VERTEX : Nat := 256

/-- The constructors of `DAGError` that these calls return. -/
inductive DAGError where
  | invalidParent
  | tooFewParents (min got : Nat)
  | tooManyParents (max got : Nat)
  | storageError (reason : String)
  | unauthorized (reason : String)
  | memoryExhausted (reason : String)
  | heightOverflow (height : UInt64)
  | traversalLimitExceeded (limit : Nat)
  | invalidVertex (reason : String)
  | shardLimitExceeded (limit : Nat)
  | childrenLimitExceeded
deriving DecidableEq, Repr

def DAGError.toText : DAGError → String
  | .invalidParent => "Invalid parent reference"
  | .tooFewParents min got =>
    "Too few parents: minimum " ++ toString min ++ ", got " ++ toString got
  | .tooManyParents max got =>
    "Too many parents: maximum " ++ toString max ++ ", got " ++ toString got
  | .storageError reason => "Storage error: " ++ reason
  | .unauthorized reason => "Unauthorized: " ++ reason
  | .memoryExhausted reason => "Memory exhausted: " ++ reason
  | .heightOverflow height => "Height overflow at " ++ toString height.toNat
  | .traversalLimitExceeded limit => "Traversal limit exceeded: " ++ toString limit
  | .invalidVertex reason => "Invalid vertex: " ++ reason
  | .shardLimitExceeded limit => "Shard limit exceeded: " ++ toString limit
  | .childrenLimitExceeded => "Children limit exceeded for vertex"

/-- What the disk answers during one call, and the order in which the map
of vertices is walked. -/
structure DagContext where
  readError : Hash → Option String
  writeError : Option String
  iteration : (t : Table Vertex.key) → List Vertex
  iteration_perm : ∀ t, (iteration t).Perm t.rows

/-- A disk that works. -/
def DagContext.working : DagContext := ⟨fun _ => none, none, Table.rows, fun _ => .refl _⟩

structure DAGGraph where
  storage : Table Vertex.key
  vertices : Table Vertex.key
  tips : Table (Prod.fst : ShardId × List Hash → ShardId)
  children : Table (Prod.fst : Hash × List Hash → Hash)
  heights : Table (Prod.fst : ShardId × UInt64 → ShardId)
  minParents : Nat
  maxParents : Nat
  authorizedCreators : Finset Address
  vertexCount : UInt64

namespace DAGGraph

/-- Only the genesis creator, the zero address, is authorised at first. -/
def new (storage : Table Vertex.key) (minParents maxParents : Nat) : DAGGraph where
  storage := storage
  vertices := Table.empty
  tips := Table.empty
  children := Table.empty
  heights := Table.empty
  minParents := minParents
  maxParents := maxParents
  authorizedCreators := {0}
  vertexCount := 0

variable (dag : DAGGraph) (vertex : Vertex) (address : Address)

def isAuthorizedCreator : Bool :=
  address ∈ dag.authorizedCreators

def unauthorizedCreator : DAGError :=
  .unauthorized ("Address " ++ debugArray address ++ " not authorized to create vertices")

/-- Up to a tenth of the limit of confirmed vertices leave memory. -/
def evictOldVertices (io : DagContext) (dag : DAGGraph) : DAGGraph :=
  let toEvict := ((io.iteration dag.vertices).filter fun v => v.status = .confirmed).take
    (MAX_VERTICES_IN_MEMORY / 10)
  { dag with
    vertices := toEvict.foldl (fun t v => t.erase v.hash) dag.vertices
    vertexCount := dag.vertexCount - UInt64.ofNat toEvict.length }

def getVertex (io : DagContext) (dag : DAGGraph) (hash : Hash) : Except DAGError (Option Vertex) :=
  match dag.vertices.get hash with
  | some v => .ok (some v)
  | none =>
    match io.readError hash with
    | some reason => .error (.storageError reason)
    | none => .ok (dag.storage.get hash)

/-- Every parent is in memory or on disk. -/
def checkParents (io : DagContext) (dag : DAGGraph) : List Hash → Except DAGError Unit
  | [] => .ok ()
  | parent :: rest =>
    match dag.getVertex io parent with
    | .error e => .error e
    | .ok none => .error .invalidParent
    | .ok (some _) => dag.checkParents io rest

/-- The loop stops at a parent that has its full number of children; the
parents before it have the new child already. -/
def pushChildren (vertexHash : Hash) : List Hash → Table (Prod.fst : Hash × List Hash → Hash) →
    Except DAGError Unit × Table (Prod.fst : Hash × List Hash → Hash)
  | [], children => (.ok (), children)
  | parent :: rest, children =>
    let entry := (children.get parent).elim [] Prod.snd
    if entry.length ≥ MAX_CHILDREN_PER_VERTEX then (.error .childrenLimitExceeded, children)
    else pushChildren vertexHash rest (children.put (parent, entry ++ [vertexHash]))

def updateTips : DAGGraph :=
  let tips := match dag.tips.get vertex.shardId with
    | none => [vertex.hash]
    | some (_, tips) =>
      let tips := tips.filter (fun tip => tip ∉ vertex.parents) ++ [vertex.hash]
      tips.drop (tips.length - MAX_TIPS_PER_SHARD)
  { dag with tips := dag.tips.put (vertex.shardId, tips) }

def updateHeights : DAGGraph :=
  let height := match dag.heights.get vertex.shardId with
    | none => vertex.height
    | some (_, height) => if vertex.height > height then vertex.height else height
  { dag with heights := dag.heights.put (vertex.shardId, height) }

/-- The two writes that make a vertex part of the graph. -/
def insertVertex : DAGGraph :=
  { dag with
    storage := dag.storage.put vertex
    vertices := dag.vertices.put vertex
    vertexCount := dag.vertexCount + 1 }

section

variable (io : DagContext) (dag : DAGGraph) (vertex : Vertex)

/-- From the children lists on, where the call begins to write. -/
def linkVertex : Except DAGError Unit × DAGGraph :=
  match pushChildren vertex.hash vertex.parents dag.children with
  | (.error e, children) => (.error e, { dag with children })
  | (.ok (), children) =>
    let dag := ({ dag with children } : DAGGraph).updateTips vertex |>.updateHeights vertex
    match io.writeError with
    | some reason => (.error (.storageError reason), dag)
    | none => (.ok (), dag.insertVertex vertex)

/-- The checks behind the lock. -/
def admitVertex : Except DAGError Unit × DAGGraph :=
  if vertex.parents.length < dag.minParents ∧ vertex.height > 0 then
    (.error (.tooFewParents dag.minParents vertex.parents.length), dag)
  else if vertex.parents.length > dag.maxParents then
    (.error (.tooManyParents dag.maxParents vertex.parents.length), dag)
  else
    match dag.checkParents io vertex.parents with
    | .error e => (.error e, dag)
    | .ok () =>
      if dag.tips.get vertex.shardId = none ∧ dag.tips.rows.length ≥ MAX_SHARDS then
        (.error (.shardLimitExceeded MAX_SHARDS), dag)
      else dag.linkVertex io vertex

def addVertex : Except DAGError Unit × DAGGraph :=
  if !dag.isAuthorizedCreator vertex.creator then
    (.error (unauthorizedCreator vertex.creator), dag)
  else if dag.vertexCount.toNat ≥ MAX_VERTICES_IN_MEMORY then
    let dag := dag.evictOldVertices io
    if dag.vertexCount.toNat ≥ MAX_VERTICES_IN_MEMORY then
      (.error (.memoryExhausted ("Vertex limit reached: " ++ toString MAX_VERTICES_IN_MEMORY)), dag)
    else dag.admitVertex io vertex
  else dag.admitVertex io vertex

end

variable (dag : DAGGraph) (shardId : ShardId)

def getTips : List Hash :=
  (dag.tips.get shardId).elim [] Prod.snd

def getHeight : UInt64 :=
  (dag.heights.get shardId).elim 0 Prod.snd

def selectParents : List Hash :=
  let tips := dag.getTips shardId
  tips.take (min (max tips.length dag.minParents) dag.maxParents)

def createVertex (hashData : Bytes → Hash) (now : UInt64) (dag : DAGGraph) (shardId : ShardId)
    (transactions : List SignedTransaction) (creator : Address) : Except DAGError Vertex :=
  if !dag.isAuthorizedCreator creator then .error (unauthorizedCreator creator)
  else
    let parents := dag.selectParents shardId
    let currentHeight := dag.getHeight shardId
    if parents.length < dag.minParents ∧ currentHeight > 0 then
      .error (.tooFewParents dag.minParents parents.length)
    else if currentHeight.toNat + 1 ≥ 2 ^ 64 then .error (.heightOverflow currentHeight)
    else
      match Vertex.new hashData now parents transactions shardId creator (currentHeight + 1) with
      | .error e => .error (.invalidVertex e)
      | .ok vertex => .ok vertex

/-- In memory the status changes before the write to disk is tried. -/
def updateVertexStatusInternal (io : DagContext) (dag : DAGGraph) (hash : Hash)
    (status : VertexStatus) : Except DAGError Unit × DAGGraph :=
  match dag.vertices.get hash with
  | some vertex =>
    let dag := { dag with vertices := dag.vertices.put (vertex.setStatus status) }
    match io.writeError with
    | some reason => (.error (.storageError reason), dag)
    | none => (.ok (), { dag with storage := dag.storage.put (vertex.setStatus status) })
  | none =>
    match io.readError hash with
    | some reason => (.error (.storageError reason), dag)
    | none =>
      match dag.storage.get hash with
      | none => (.ok (), dag)
      | some vertex =>
        match io.writeError with
        | some reason => (.error (.storageError reason), dag)
        | none => (.ok (), { dag with storage := dag.storage.put (vertex.setStatus status) })

end DAGGraph

end Quantos

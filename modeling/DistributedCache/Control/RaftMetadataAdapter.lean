import DistributedCache.Control.HeartbeatManager

/-! The shard metadata of a caller that runs alone.  `Control.Failover` has the same operations with
concurrent callers. -/

namespace DistributedCache.Control

structure ShardMetadata where
  replicas : List Bytes
  leader : Bytes
deriving DecidableEq, Repr

abbrev Shards := AList fun _ : Bytes => ShardMetadata

structure RaftMetadataAdapter where
  heartbeat : HeartbeatManager
  shards : Shards

/-- `ElectLeaderIfNeeded`. -/
def electLeaderIfNeeded (heartbeat : HeartbeatManager) (shard : ShardMetadata) : ShardMetadata :=
  match shard.replicas.find? heartbeat.isAlive with
  | some candidate => { shard with leader := candidate }
  | none => { shard with leader := [] }

/-- The body of the loop over the shards: keeps a leader that is alive. -/
def refresh (heartbeat : HeartbeatManager) (shard : ShardMetadata) : ShardMetadata :=
  if shard.leader ≠ [] ∧ heartbeat.isAlive shard.leader = true then shard
  else electLeaderIfNeeded heartbeat shard

/-- Replaces the metadata of a shard that is registered. -/
def Shards.modify (shards : Shards) (shardId : Bytes) (f : ShardMetadata → ShardMetadata) :
    Shards :=
  match shards.lookup shardId with
  | none => shards
  | some shard => shards.insert shardId (f shard)

theorem Shards.lookup_modify (shards : Shards) (shardId other : Bytes)
    (f : ShardMetadata → ShardMetadata) :
    (shards.modify shardId f).lookup other =
      if other = shardId then (shards.lookup other).map f else shards.lookup other := by
  unfold modify
  by_cases same : other = shardId
  · subst same
    cases found : shards.lookup other <;> simp [found]
  · cases shards.lookup shardId <;> simp [same, AList.lookup_insert_ne same]

namespace RaftMetadataAdapter

def new : RaftMetadataAdapter := ⟨.new, ∅⟩

def registerNode (adapter : RaftMetadataAdapter) (nodeId : Bytes) (heartbeatMs : UInt64) :
    RaftMetadataAdapter :=
  { adapter with heartbeat := adapter.heartbeat.registerNode nodeId heartbeatMs }

def recordHeartbeat (adapter : RaftMetadataAdapter) (nodeId : Bytes) (heartbeatMs : UInt64) :
    RaftMetadataAdapter :=
  { adapter with heartbeat := adapter.heartbeat.recordHeartbeat nodeId heartbeatMs }

def addShard (adapter : RaftMetadataAdapter) (shardId : Bytes) (replicas : List Bytes) :
    RaftMetadataAdapter :=
  { adapter with
    shards := adapter.shards.insert shardId (electLeaderIfNeeded adapter.heartbeat ⟨replicas, []⟩) }

def leaderForShard (adapter : RaftMetadataAdapter) (shardId : Bytes) : Bytes :=
  match adapter.shards.lookup shardId with
  | none => []
  | some shard => shard.leader

/-- The loop over the shards that `OnHeartbeatTimeout` and `IngestGossip` share. -/
def electionPass (adapter : RaftMetadataAdapter) : RaftMetadataAdapter :=
  { adapter with
    shards := adapter.shards.keys.foldl
      (fun shards shardId => shards.modify shardId (refresh adapter.heartbeat)) adapter.shards }

def onHeartbeatTimeout (adapter : RaftMetadataAdapter) (nodeId : Bytes) (timeoutMs : UInt64) :
    RaftMetadataAdapter :=
  { adapter with
    heartbeat := adapter.heartbeat.onHeartbeatTimeout nodeId timeoutMs }.electionPass

def ingestGossip (adapter : RaftMetadataAdapter) (observations : List NodeHealth) :
    RaftMetadataAdapter :=
  { adapter with heartbeat := adapter.heartbeat.ingestGossip observations }.electionPass

def getNodeHealth (adapter : RaftMetadataAdapter) (nodeId : Bytes) : Option NodeHealth :=
  adapter.heartbeat.getNodeHealth nodeId

/-- A call of one of the operations that change the metadata. -/
inductive Call
  | registerNode (nodeId : Bytes) (heartbeatMs : UInt64)
  | recordHeartbeat (nodeId : Bytes) (heartbeatMs : UInt64)
  | addShard (shardId : Bytes) (replicas : List Bytes)
  | onHeartbeatTimeout (nodeId : Bytes) (timeoutMs : UInt64)
  | ingestGossip (observations : List NodeHealth)
deriving DecidableEq, Repr

def apply (adapter : RaftMetadataAdapter) : Call → RaftMetadataAdapter
  | .registerNode nodeId heartbeatMs => adapter.registerNode nodeId heartbeatMs
  | .recordHeartbeat nodeId heartbeatMs => adapter.recordHeartbeat nodeId heartbeatMs
  | .addShard shardId replicas => adapter.addShard shardId replicas
  | .onHeartbeatTimeout nodeId timeoutMs => adapter.onHeartbeatTimeout nodeId timeoutMs
  | .ingestGossip observations => adapter.ingestGossip observations

def run (adapter : RaftMetadataAdapter) (calls : List Call) : RaftMetadataAdapter :=
  calls.foldl apply adapter

variable {adapter : RaftMetadataAdapter}

/-! ### The election pass -/

theorem lookup_foldl_modify (f : ShardMetadata → ShardMetadata) (ids : List Bytes)
    (distinct : ids.Nodup) (shards : Shards) (shardId : Bytes) :
    (ids.foldl (fun shards id => shards.modify id f) shards).lookup shardId =
      if shardId ∈ ids then (shards.lookup shardId).map f else shards.lookup shardId := by
  induction ids generalizing shards with
  | nil => simp
  | cons id ids ih =>
    obtain ⟨fresh, distinct⟩ := List.nodup_cons.mp distinct
    rw [List.foldl_cons, ih distinct, Shards.lookup_modify]
    by_cases same : shardId = id
    · subst same
      simp [fresh]
    · simp [same]

/-- The pass refreshes every shard. -/
theorem lookup_electionPass (shardId : Bytes) :
    adapter.electionPass.shards.lookup shardId =
      (adapter.shards.lookup shardId).map (refresh adapter.heartbeat) := by
  rw [electionPass, lookup_foldl_modify _ _ adapter.shards.keys_nodup]
  split
  · rfl
  · rename_i absent
    rw [AList.lookup_eq_none.mpr absent]
    rfl

end RaftMetadataAdapter

end DistributedCache.Control

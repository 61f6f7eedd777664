import DistributedCache.Bytes
import Mathlib.Data.List.AList

/-! The health of the nodes, as heartbeats, timeouts, and gossip report it.  Each operation runs
under the manager's mutex, so it is one function here. -/

namespace DistributedCache.Control

structure NodeHealth where
  nodeId : Bytes
  alive : Bool
  lastHeartbeatMs : UInt64
deriving DecidableEq, Repr

structure HeartbeatManager where
  nodes : AList fun _ : Bytes => NodeHealth
  lastObservationMs : AList fun _ : Bytes => UInt64

namespace HeartbeatManager

def new : HeartbeatManager := ⟨∅, ∅⟩

/-- `nodes_[node_id]`, which is value-initialised if it is new. -/
def entry (manager : HeartbeatManager) (nodeId : Bytes) : NodeHealth :=
  (manager.nodes.lookup nodeId).getD ⟨[], false, 0⟩

/-- `last_observation_ms_[node_id]`. -/
def lastObserved (manager : HeartbeatManager) (nodeId : Bytes) : UInt64 :=
  (manager.lastObservationMs.lookup nodeId).getD 0

/-- Stores what `entry` and `last_observed` refer to. -/
def put (manager : HeartbeatManager) (nodeId : Bytes) (entry : NodeHealth)
    (lastObserved : UInt64) : HeartbeatManager :=
  ⟨manager.nodes.insert nodeId entry, manager.lastObservationMs.insert nodeId lastObserved⟩

/-- `!entry.node_id.empty() && ms < last_observed`. -/
def stale (manager : HeartbeatManager) (nodeId : Bytes) (ms : UInt64) : Bool :=
  (manager.entry nodeId).nodeId ≠ [] && ms < manager.lastObserved nodeId

/-- The operation leaves the entry as it is, or as it is initialised. -/
def ignore (manager : HeartbeatManager) (nodeId : Bytes) : HeartbeatManager :=
  manager.put nodeId (manager.entry nodeId) (manager.lastObserved nodeId)

/-- The body that `RegisterNode` and `RecordHeartbeat` share. -/
def beat (manager : HeartbeatManager) (nodeId : Bytes) (heartbeatMs : UInt64) : HeartbeatManager :=
  if manager.stale nodeId heartbeatMs then manager.ignore nodeId
  else manager.put nodeId ⟨nodeId, true, heartbeatMs⟩ heartbeatMs

def registerNode (manager : HeartbeatManager) (nodeId : Bytes) (heartbeatMs : UInt64) :
    HeartbeatManager :=
  manager.beat nodeId heartbeatMs

def recordHeartbeat (manager : HeartbeatManager) (nodeId : Bytes) (heartbeatMs : UInt64) :
    HeartbeatManager :=
  manager.beat nodeId heartbeatMs

def onHeartbeatTimeout (manager : HeartbeatManager) (nodeId : Bytes) (timeoutMs : UInt64) :
    HeartbeatManager :=
  if manager.stale nodeId timeoutMs then manager.ignore nodeId
  else
    manager.put nodeId { manager.entry nodeId with nodeId := nodeId, alive := false }
      (if manager.lastObserved nodeId < timeoutMs then timeoutMs else manager.lastObserved nodeId)

/-- The body of the loop of `IngestGossip`. -/
def ingest (manager : HeartbeatManager) (observation : NodeHealth) : HeartbeatManager :=
  let entry := manager.entry observation.nodeId
  let lastObserved := manager.lastObserved observation.nodeId
  if entry.nodeId ≠ [] ∧ (observation.lastHeartbeatMs < lastObserved ∨
      (observation.lastHeartbeatMs = lastObserved ∧ entry.alive = false ∧
        observation.alive = true)) then
    manager.ignore observation.nodeId
  else manager.put observation.nodeId observation observation.lastHeartbeatMs

def ingestGossip (manager : HeartbeatManager) (observations : List NodeHealth) :
    HeartbeatManager :=
  observations.foldl ingest manager

def getNodeHealth (manager : HeartbeatManager) (nodeId : Bytes) : Option NodeHealth :=
  manager.nodes.lookup nodeId

def snapshot (manager : HeartbeatManager) : List NodeHealth :=
  manager.nodes.entries.map Sigma.snd

def isAlive (manager : HeartbeatManager) (nodeId : Bytes) : Bool :=
  match manager.nodes.lookup nodeId with
  | none => false
  | some health => health.alive

variable {manager : HeartbeatManager}

theorem isAlive_eq_entry (nodeId : Bytes) :
    manager.isAlive nodeId = (manager.entry nodeId).alive := by
  unfold isAlive entry
  cases manager.nodes.lookup nodeId <;> rfl

theorem isAlive_put (nodeId other : Bytes) (entry : NodeHealth) (lastObserved : UInt64) :
    (manager.put nodeId entry lastObserved).isAlive other =
      if other = nodeId then entry.alive else manager.isAlive other := by
  unfold isAlive put
  split_ifs with same
  · subst same
    simp
  · simp [AList.lookup_insert_ne same]

@[simp] theorem isAlive_ignore (nodeId other : Bytes) :
    (manager.ignore nodeId).isAlive other = manager.isAlive other := by
  rw [ignore, isAlive_put, ← isAlive_eq_entry]
  split_ifs with same
  · rw [same]
  · rfl

/-- A heartbeat makes its node alive unless it is stale, and changes no other node. -/
theorem isAlive_beat (nodeId other : Bytes) (ms : UInt64) :
    (manager.beat nodeId ms).isAlive other =
      (manager.isAlive other || (decide (other = nodeId) && !manager.stale nodeId ms)) := by
  unfold beat
  cases old : manager.stale nodeId ms with
  | true => simp
  | false =>
    rw [if_neg (by simp), isAlive_put]
    by_cases same : other = nodeId <;> simp [same]

theorem isAlive_beat_mono {nodeId other : Bytes} (ms : UInt64)
    (alive : manager.isAlive other = true) : (manager.beat nodeId ms).isAlive other = true := by
  rw [isAlive_beat, alive, Bool.true_or]

theorem isAlive_onHeartbeatTimeout_ne {nodeId other : Bytes} (different : other ≠ nodeId)
    (ms : UInt64) :
    (manager.onHeartbeatTimeout nodeId ms).isAlive other = manager.isAlive other := by
  unfold onHeartbeatTimeout
  split
  · exact isAlive_ignore nodeId other
  · rw [isAlive_put, if_neg different]

theorem isAlive_ingest_ne {observation : NodeHealth} {other : Bytes}
    (different : other ≠ observation.nodeId) :
    (manager.ingest observation).isAlive other = manager.isAlive other := by
  unfold ingest
  dsimp only
  split
  · exact isAlive_ignore _ other
  · rw [isAlive_put, if_neg different]

/-- Gossip changes only the nodes that it mentions. -/
theorem isAlive_ingestGossip_ne {observations : List NodeHealth} {other : Bytes}
    (different : ∀ observation ∈ observations, other ≠ observation.nodeId) :
    (manager.ingestGossip observations).isAlive other = manager.isAlive other := by
  unfold ingestGossip
  induction observations generalizing manager with
  | nil => rfl
  | cons observation observations ih =>
    simp only [List.mem_cons, forall_eq_or_imp] at different
    rw [List.foldl_cons, ih different.2, isAlive_ingest_ne different.1]

end HeartbeatManager

end DistributedCache.Control

import DistributedCache.Bytes
import Mathlib.Data.List.AList
import Mathlib.Data.Rat.Defs

/-! The contract of the dashboard's events.  `parseClusterEvent` accepts the objects that have the
fields of an event, in any order, and no others. -/

namespace DistributedCache.Dashboard

/-- A number that `JSON.parse` returns.  Too large a number becomes an infinity. -/
inductive JsNumber
  | finite (value : ℚ)
  | infinite
  deriving DecidableEq

/-- A property of an object, as far as `typeof` tells values apart. -/
inductive JsField
  | string (content : Bytes)
  | number (value : JsNumber)
  | other
  deriving DecidableEq

/-- An object with its own properties, or any other value. -/
inductive JsValue
  | record (properties : AList fun _ : Bytes => JsField)
  | other

inductive ClusterEvent
  | nodeHeartbeat (nodeId : Bytes) (ts : ℚ)
  | shardMoved (shardId : ℚ) (fromNode toNode : Bytes) (ts : ℚ)
  | replicaLag (shardId lagMs ts : ℚ)
  deriving DecidableEq

def ClusterEvent.ts : ClusterEvent → ℚ
  | nodeHeartbeat _ ts => ts
  | shardMoved _ _ _ ts => ts
  | replicaLag _ _ ts => ts

variable {input : AList fun _ : Bytes => JsField}

/-- The property of the key, if it is a string. -/
def stringAt (input : AList fun _ : Bytes => JsField) (key : Bytes) : Option Bytes :=
  match input.lookup key with
  | some (.string content) => some content
  | _ => none

/-- The property of the key, if it is a finite number. -/
def finiteAt (input : AList fun _ : Bytes => JsField) (key : Bytes) : Option ℚ :=
  match input.lookup key with
  | some (.number (.finite value)) => some value
  | _ => none

def hasExactKeys (input : AList fun _ : Bytes => JsField) (keys : List Bytes) : Bool :=
  input.keys.length = keys.length && keys.all fun key => key ∈ input.keys

/-- `throw new Error(message)` in place of a missing result. -/
def orThrow (message : Bytes) : Option ClusterEvent → Except Bytes ClusterEvent
  | some event => .ok event
  | none => .error message

def nodeHeartbeatKeys : List Bytes := [ascii "type", ascii "nodeId", ascii "ts"]

def shardMovedKeys : List Bytes :=
  [ascii "type", ascii "shardId", ascii "from", ascii "to", ascii "ts"]

def replicaLagKeys : List Bytes := [ascii "type", ascii "shardId", ascii "lagMs", ascii "ts"]

def parseNodeHeartbeat (input : AList fun _ : Bytes => JsField) : Option ClusterEvent :=
  if hasExactKeys input nodeHeartbeatKeys then do
    let nodeId ← stringAt input (ascii "nodeId")
    let ts ← finiteAt input (ascii "ts")
    return .nodeHeartbeat nodeId ts
  else none

def parseShardMoved (input : AList fun _ : Bytes => JsField) : Option ClusterEvent :=
  if hasExactKeys input shardMovedKeys then do
    let shardId ← finiteAt input (ascii "shardId")
    let fromNode ← stringAt input (ascii "from")
    let toNode ← stringAt input (ascii "to")
    let ts ← finiteAt input (ascii "ts")
    return .shardMoved shardId fromNode toNode ts
  else none

def parseReplicaLag (input : AList fun _ : Bytes => JsField) : Option ClusterEvent :=
  if hasExactKeys input replicaLagKeys then do
    let shardId ← finiteAt input (ascii "shardId")
    let lagMs ← finiteAt input (ascii "lagMs")
    let ts ← finiteAt input (ascii "ts")
    return .replicaLag shardId lagMs ts
  else none

def parseClusterEvent : JsValue → Except Bytes ClusterEvent
  | .other => .error (ascii "Cluster event must be an object.")
  | .record input =>
    if stringAt input (ascii "type") = some (ascii "node_heartbeat") then
      orThrow (ascii "Invalid node_heartbeat event.") (parseNodeHeartbeat input)
    else if stringAt input (ascii "type") = some (ascii "shard_moved") then
      orThrow (ascii "Invalid shard_moved event.") (parseShardMoved input)
    else if stringAt input (ascii "type") = some (ascii "replica_lag") then
      orThrow (ascii "Invalid replica_lag event.") (parseReplicaLag input)
    else .error (ascii "Unknown cluster event type.")

/-! ### The objects of an event -/

/-- The properties of an event, in the order of the contract. -/
def ClusterEvent.properties : ClusterEvent → List (Sigma fun _ : Bytes => JsField)
  | nodeHeartbeat nodeId ts =>
    [⟨ascii "type", .string (ascii "node_heartbeat")⟩, ⟨ascii "nodeId", .string nodeId⟩,
      ⟨ascii "ts", .number (.finite ts)⟩]
  | shardMoved shardId fromNode toNode ts =>
    [⟨ascii "type", .string (ascii "shard_moved")⟩, ⟨ascii "shardId", .number (.finite shardId)⟩,
      ⟨ascii "from", .string fromNode⟩, ⟨ascii "to", .string toNode⟩,
      ⟨ascii "ts", .number (.finite ts)⟩]
  | replicaLag shardId lagMs ts =>
    [⟨ascii "type", .string (ascii "replica_lag")⟩, ⟨ascii "shardId", .number (.finite shardId)⟩,
      ⟨ascii "lagMs", .number (.finite lagMs)⟩, ⟨ascii "ts", .number (.finite ts)⟩]

theorem ClusterEvent.nodupKeys (event : ClusterEvent) : event.properties.NodupKeys := by
  cases event with
  | nodeHeartbeat => exact (show nodeHeartbeatKeys.Nodup by decide)
  | shardMoved => exact (show shardMovedKeys.Nodup by decide)
  | replicaLag => exact (show replicaLagKeys.Nodup by decide)

/-- An object has the given properties and no others, in terms of its keys and their values. -/
theorem perm_iff_exact {properties : List (Sigma fun _ : Bytes => JsField)}
    (distinct : properties.NodupKeys) : input.entries.Perm properties ↔
      hasExactKeys input (properties.map Sigma.fst) = true ∧
        ∀ p ∈ properties, input.lookup p.1 = some p.2 := by
  constructor
  · intro same
    have found : ∀ p ∈ properties, input.lookup p.1 = some p.2 := fun p member =>
      List.mem_dlookup input.nodupKeys (same.mem_iff.mpr member)
    refine ⟨?_, found⟩
    simp only [hasExactKeys, Bool.and_eq_true, decide_eq_true_eq, List.all_eq_true,
      List.forall_mem_map]
    refine ⟨by rw [AList.keys, List.keys, List.length_map, List.length_map, same.length_eq], ?_⟩
    intro p member
    exact List.mem_map_of_mem (same.mem_iff.mpr member)
  · rintro ⟨exact, found⟩
    simp only [hasExactKeys, Bool.and_eq_true, decide_eq_true_eq, AList.keys, List.keys,
      List.length_map] at exact
    have subset : properties ⊆ input.entries := fun p member =>
      List.of_mem_dlookup (found p member)
    have subperm := List.subperm_of_subset distinct.nodup subset
    exact (subperm.perm_of_length_le exact.1.le).symm

theorem stringAt_eq_some {key content : Bytes} :
    stringAt input key = some content ↔ input.lookup key = some (.string content) := by
  unfold stringAt
  split <;> simp_all

theorem finiteAt_eq_some {key : Bytes} {value : ℚ} :
    finiteAt input key = some value ↔ input.lookup key = some (.number (.finite value)) := by
  unfold finiteAt
  split <;> simp_all

theorem orThrow_eq_ok {message : Bytes} {result : Option ClusterEvent} {event : ClusterEvent} :
    orThrow message result = .ok event ↔ result = some event := by
  cases result <;> simp [orThrow]

/-- The properties of a heartbeat, but for the type. -/
theorem parseNodeHeartbeat_eq_some {event : ClusterEvent} :
    parseNodeHeartbeat input = some event ↔ hasExactKeys input nodeHeartbeatKeys = true ∧
      ∃ nodeId ts, event = .nodeHeartbeat nodeId ts ∧
        input.lookup (ascii "nodeId") = some (.string nodeId) ∧
        input.lookup (ascii "ts") = some (.number (.finite ts)) := by
  simp only [parseNodeHeartbeat, Option.ite_none_right_eq_some, Option.bind_eq_bind,
    Option.bind_eq_some_iff, Option.pure_def, Option.some.injEq, stringAt_eq_some, finiteAt_eq_some]
  grind

theorem parseShardMoved_eq_some {event : ClusterEvent} :
    parseShardMoved input = some event ↔ hasExactKeys input shardMovedKeys = true ∧
      ∃ shardId fromNode toNode ts, event = .shardMoved shardId fromNode toNode ts ∧
        input.lookup (ascii "shardId") = some (.number (.finite shardId)) ∧
        input.lookup (ascii "from") = some (.string fromNode) ∧
        input.lookup (ascii "to") = some (.string toNode) ∧
        input.lookup (ascii "ts") = some (.number (.finite ts)) := by
  simp only [parseShardMoved, Option.ite_none_right_eq_some, Option.bind_eq_bind,
    Option.bind_eq_some_iff, Option.pure_def, Option.some.injEq, stringAt_eq_some, finiteAt_eq_some]
  grind

theorem parseReplicaLag_eq_some {event : ClusterEvent} :
    parseReplicaLag input = some event ↔ hasExactKeys input replicaLagKeys = true ∧
      ∃ shardId lagMs ts, event = .replicaLag shardId lagMs ts ∧
        input.lookup (ascii "shardId") = some (.number (.finite shardId)) ∧
        input.lookup (ascii "lagMs") = some (.number (.finite lagMs)) ∧
        input.lookup (ascii "ts") = some (.number (.finite ts)) := by
  simp only [parseReplicaLag, Option.ite_none_right_eq_some, Option.bind_eq_bind,
    Option.bind_eq_some_iff, Option.pure_def, Option.some.injEq, finiteAt_eq_some]
  grind

/-- An object is accepted as an event of its type. -/
theorem parseClusterEvent_eq_ok {event : ClusterEvent} :
    parseClusterEvent (.record input) = .ok event ↔
      (input.lookup (ascii "type") = some (.string (ascii "node_heartbeat")) ∧
        parseNodeHeartbeat input = some event) ∨
      (input.lookup (ascii "type") = some (.string (ascii "shard_moved")) ∧
        parseShardMoved input = some event) ∨
      (input.lookup (ascii "type") = some (.string (ascii "replica_lag")) ∧
        parseReplicaLag input = some event) := by
  have notMoved : ascii "node_heartbeat" ≠ ascii "shard_moved" := by decide
  have notLag : ascii "node_heartbeat" ≠ ascii "replica_lag" := by decide
  have movedNotLag : ascii "shard_moved" ≠ ascii "replica_lag" := by decide
  simp only [parseClusterEvent, stringAt_eq_some]
  split
  · rw [orThrow_eq_ok]
    grind
  · split
    · rw [orThrow_eq_ok]
      grind
    · split
      · rw [orThrow_eq_ok]
        grind
      · grind

/-- An object is accepted as an event if and only if its properties are those of the event, in some
order. -/
theorem parseClusterEvent_iff {event : ClusterEvent} :
    parseClusterEvent (.record input) = .ok event ↔ input.entries.Perm event.properties := by
  rw [perm_iff_exact event.nodupKeys, parseClusterEvent_eq_ok, parseNodeHeartbeat_eq_some,
    parseShardMoved_eq_some, parseReplicaLag_eq_some]
  cases event with
  | nodeHeartbeat nodeId ts =>
    have keys : (ClusterEvent.nodeHeartbeat nodeId ts).properties.map Sigma.fst =
      nodeHeartbeatKeys := rfl
    rw [keys]
    simp only [ClusterEvent.properties, List.forall_mem_cons]
    grind
  | shardMoved shardId fromNode toNode ts =>
    have keys : (ClusterEvent.shardMoved shardId fromNode toNode ts).properties.map Sigma.fst =
      shardMovedKeys := rfl
    rw [keys]
    simp only [ClusterEvent.properties, List.forall_mem_cons]
    grind
  | replicaLag shardId lagMs ts =>
    have keys : (ClusterEvent.replicaLag shardId lagMs ts).properties.map Sigma.fst =
      replicaLagKeys := rfl
    rw [keys]
    simp only [ClusterEvent.properties, List.forall_mem_cons]
    grind

/-- A value is accepted as an event if and only if it is an object with the properties of the event
and no others, in any order. -/
theorem parseClusterEvent_accepts (value : JsValue) (event : ClusterEvent) :
    parseClusterEvent value = .ok event ↔
      ∃ properties, value = .record properties ∧ properties.entries.Perm event.properties := by
  constructor
  · intro ok
    cases value with
    | other => cases ok
    | record properties => exact ⟨properties, rfl, parseClusterEvent_iff.mp ok⟩
  · rintro ⟨properties, rfl, same⟩
    exact parseClusterEvent_iff.mpr same

end DistributedCache.Dashboard

import DistributedCache.Control.EventOrder
import DistributedCache.Control.Leadership

/-! How the leaders of the shards succeed each other, for a caller that runs alone.  A leader that
is seated is alive, and only a call after which it is dead replaces it, by the first replica that is
alive. -/

namespace DistributedCache.Control

/-- The first replica that is alive, or the empty name. -/
def firstAlive (heartbeat : HeartbeatManager) (replicas : List Bytes) : Bytes :=
  (replicas.find? heartbeat.isAlive).getD []

theorem electLeaderIfNeeded_eq (heartbeat : HeartbeatManager) (shard : ShardMetadata) :
    electLeaderIfNeeded heartbeat shard =
      { shard with leader := firstAlive heartbeat shard.replicas } := by
  unfold electLeaderIfNeeded firstAlive
  cases shard.replicas.find? heartbeat.isAlive <;> rfl

theorem isAlive_firstAlive {heartbeat : HeartbeatManager} {replicas : List Bytes}
    (found : firstAlive heartbeat replicas ≠ []) :
    heartbeat.isAlive (firstAlive heartbeat replicas) = true := by
  unfold firstAlive at *
  cases elected : replicas.find? heartbeat.isAlive with
  | none => simp [elected] at found
  | some candidate => exact List.find?_some elected

/-- The election pass keeps a leader that is alive, and replaces any other. -/
theorem refresh_eq (heartbeat : HeartbeatManager) (shard : ShardMetadata) :
    (refresh heartbeat shard).leader =
      if shard.leader ≠ [] ∧ heartbeat.isAlive shard.leader = true then shard.leader
      else firstAlive heartbeat shard.replicas := by
  unfold refresh
  split
  · rfl
  · rw [electLeaderIfNeeded_eq]

theorem isAlive_refresh {heartbeat : HeartbeatManager} {shard : ShardMetadata}
    (seated : (refresh heartbeat shard).leader ≠ []) :
    heartbeat.isAlive (refresh heartbeat shard).leader = true := by
  rw [refresh_eq] at *
  split at seated
  · rename_i keeps
    rw [if_pos keeps]
    exact keeps.2
  · rename_i replaces
    rw [if_neg replaces]
    exact isAlive_firstAlive seated

namespace HeartbeatManager

variable {manager before after : HeartbeatManager} {nodeId : Bytes}

theorem Sane.name_of_alive (sane : Sane nodeId manager) (alive : manager.isAlive nodeId = true) :
    (manager.entry nodeId).nodeId = nodeId := by
  rcases sane.name with name | fresh
  · exact name
  · rw [isAlive_eq_entry, fresh] at alive
    cases alive

/-- What is stale stays stale. -/
theorem Effect.stale_mono (effect : Effect nodeId before after) (named : nodeId ≠ [])
    (name : (before.entry nodeId).nodeId = nodeId) {ms : UInt64}
    (old : before.stale nodeId ms = true) : after.stale nodeId ms = true := by
  have stale_iff : ∀ {m : HeartbeatManager} {ms : UInt64}, (m.entry nodeId).nodeId = nodeId →
      (m.stale nodeId ms = true ↔ ms < m.lastObserved nodeId) := by
    intro m ms name
    simp [stale, name, named]
  have older := (stale_iff name).mp old
  cases effect with
  | same entry observed =>
    rw [stale_iff (by rw [entry, name]), observed]
    exact older
  | @reported health current name' entry observed =>
    rw [stale_iff (by rw [entry, name']), observed]
    have newer : ¬ health.lastHeartbeatMs < before.lastObserved nodeId := by
      rw [← stale_iff name, current]
      simp
    exact UInt64.lt_of_lt_of_le older (UInt64.not_lt.mp newer)
  | timedOut entry observed =>
    rw [stale_iff (by rw [entry]), observed]
    split
    · rename_i later
      exact UInt64.lt_trans older later
    · exact older

/-- An observation that is stale or reports a node alive leaves it alive. -/
theorem isAlive_ingest_spared {observation : NodeHealth}
    (alive : manager.isAlive observation.nodeId = true)
    (spared : observation.alive = true ∨
      manager.stale observation.nodeId observation.lastHeartbeatMs = true) :
    (manager.ingest observation).isAlive observation.nodeId = true := by
  unfold ingest
  dsimp only
  split
  · rw [isAlive_ignore, alive]
  · rename_i current
    rw [isAlive_put, if_pos rfl]
    refine spared.resolve_right fun old => current ?_
    simp only [stale, ne_eq, Bool.and_eq_true, decide_eq_true_eq] at old
    exact ⟨old.1, .inl old.2⟩

theorem isAlive_ingestGossip_spared {observations : List NodeHealth} (named : nodeId ≠ [])
    (sane : Sane nodeId manager) (alive : manager.isAlive nodeId = true)
    (spared : ∀ observation ∈ observations, observation.nodeId = nodeId →
      observation.alive = true ∨ manager.stale nodeId observation.lastHeartbeatMs = true) :
    (manager.ingestGossip observations).isAlive nodeId = true := by
  unfold ingestGossip
  induction observations generalizing manager with
  | nil => exact alive
  | cons observation observations ih =>
    obtain ⟨first, rest⟩ := List.forall_mem_cons.mp spared
    have effect := @effect_ingest manager nodeId observation
    have stays : (manager.ingest observation).isAlive nodeId = true := by
      by_cases same : observation.nodeId = nodeId
      · subst same
        exact isAlive_ingest_spared alive (first rfl)
      · rw [isAlive_ingest_ne (Ne.symm same), alive]
    refine ih (effect.sane sane) stays fun other member same => ?_
    exact (rest other member same).imp_right (effect.stale_mono named (sane.name_of_alive alive))

end HeartbeatManager

namespace RaftMetadataAdapter

variable {adapter : RaftMetadataAdapter} {call : Call} {shardId : Bytes}

theorem leaderForShard_eq {shard : ShardMetadata}
    (found : adapter.shards.lookup shardId = some shard) :
    adapter.leaderForShard shardId = shard.leader := by
  rw [leaderForShard, found]

/-- What a call other than its own `AddShard` does to a shard: nothing, or a turn of the election
pass with the health of the nodes after the call. -/
theorem lookup_apply (foreign : ∀ replicas, call ≠ .addShard shardId replicas) :
    (adapter.apply call).shards.lookup shardId = adapter.shards.lookup shardId ∨
      (adapter.apply call).shards.lookup shardId =
        (adapter.shards.lookup shardId).map (refresh (adapter.apply call).heartbeat) := by
  cases call with
  | registerNode nodeId ms | recordHeartbeat nodeId ms => exact .inl rfl
  | addShard other replicas =>
    have different : shardId ≠ other := by
      rintro rfl
      exact foreign replicas rfl
    exact .inl (AList.lookup_insert_ne different)
  | onHeartbeatTimeout nodeId ms => exact .inr (lookup_electionPass shardId)
  | ingestGossip observations => exact .inr (lookup_electionPass shardId)

/-- Every leader is alive. -/
def Seated (adapter : RaftMetadataAdapter) : Prop :=
  ∀ shardId shard, adapter.shards.lookup shardId = some shard → shard.leader ≠ [] →
    adapter.heartbeat.isAlive shard.leader = true

theorem electionPass_seated (adapter : RaftMetadataAdapter) : adapter.electionPass.Seated := by
  intro shardId shard found leads
  rw [lookup_electionPass] at found
  obtain ⟨old, -, rfl⟩ := Option.map_eq_some_iff.mp found
  exact isAlive_refresh leads

theorem Seated.apply (seated : adapter.Seated) (call : Call) : (adapter.apply call).Seated := by
  cases call with
  | registerNode nodeId ms | recordHeartbeat nodeId ms =>
    intro shardId shard found leads
    exact HeartbeatManager.isAlive_beat_mono ms (seated shardId shard found leads)
  | addShard other replicas =>
    intro shardId shard found leads
    by_cases same : shardId = other
    · subst same
      have elected : electLeaderIfNeeded adapter.heartbeat ⟨replicas, []⟩ = shard := by
        simpa [RaftMetadataAdapter.apply, addShard] using found
      rw [← elected, electLeaderIfNeeded_eq] at leads ⊢
      exact isAlive_firstAlive leads
    · rw [RaftMetadataAdapter.apply, addShard, AList.lookup_insert_ne same] at found
      exact seated shardId shard found leads
  | onHeartbeatTimeout nodeId ms => exact electionPass_seated _
  | ingestGossip observations => exact electionPass_seated _

theorem seated_run (seated : adapter.Seated) (calls : List Call) : (adapter.run calls).Seated := by
  induction calls generalizing adapter with
  | nil => exact seated
  | cons call calls ih => exact ih (seated.apply call)

theorem new_seated : new.Seated := by
  intro shardId shard found
  cases found

/-! ### Calls that spare the leader -/

/-- A call does not report the death of `leader`, or the report is stale. -/
def Call.Spares (heartbeat : HeartbeatManager) (leader : Bytes) : Call → Prop
  | .registerNode _ _ | .recordHeartbeat _ _ | .addShard _ _ => True
  | .onHeartbeatTimeout nodeId ms => nodeId = leader → heartbeat.stale leader ms = true
  | .ingestGossip observations => ∀ observation ∈ observations, observation.nodeId = leader →
      observation.alive = true ∨ heartbeat.stale leader observation.lastHeartbeatMs = true

/-- What a call does to the health of the nodes is an operation of the heartbeat manager. -/
theorem heartbeat_apply (adapter : RaftMetadataAdapter) (call : Call) :
    (adapter.apply call).heartbeat = adapter.heartbeat ∨
      ∃ operation, (adapter.apply call).heartbeat = adapter.heartbeat.apply operation := by
  cases call with
  | registerNode nodeId ms => exact .inr ⟨.registerNode nodeId ms, rfl⟩
  | recordHeartbeat nodeId ms => exact .inr ⟨.recordHeartbeat nodeId ms, rfl⟩
  | addShard shardId replicas => exact .inl rfl
  | onHeartbeatTimeout nodeId ms => exact .inr ⟨.onHeartbeatTimeout nodeId ms, rfl⟩
  | ingestGossip observations => exact .inr ⟨.ingestGossip observations, rfl⟩

theorem sane_run (nodeId : Bytes) (calls : List Call) :
    HeartbeatManager.Sane nodeId (new.run calls).heartbeat := by
  refine List.foldlRecOn (motive := fun adapter => HeartbeatManager.Sane nodeId adapter.heartbeat)
    calls apply ?_ ?_
  · exact HeartbeatManager.new_sane nodeId
  · intro adapter sane call _
    rcases heartbeat_apply adapter call with same | ⟨operation, same⟩
    · rw [same]
      exact sane
    · rw [same]
      exact (HeartbeatManager.sane_apply sane operation).1

theorem isAlive_apply_spared {leader : Bytes} (named : leader ≠ [])
    (sane : HeartbeatManager.Sane leader adapter.heartbeat)
    (alive : adapter.heartbeat.isAlive leader = true)
    (spares : call.Spares adapter.heartbeat leader) :
    (adapter.apply call).heartbeat.isAlive leader = true := by
  cases call with
  | registerNode nodeId ms | recordHeartbeat nodeId ms =>
    exact HeartbeatManager.isAlive_beat_mono ms alive
  | addShard other replicas => exact alive
  | onHeartbeatTimeout nodeId ms =>
    show (adapter.heartbeat.onHeartbeatTimeout nodeId ms).isAlive leader = true
    by_cases same : nodeId = leader
    · subst same
      rw [HeartbeatManager.onHeartbeatTimeout, if_pos (spares rfl),
        HeartbeatManager.isAlive_ignore, alive]
    · rw [HeartbeatManager.isAlive_onHeartbeatTimeout_ne (Ne.symm same), alive]
  | ingestGossip observations =>
    exact HeartbeatManager.isAlive_ingestGossip_spared named sane alive spares

/-! ### Succession -/

/-- A leader that is alive after a call keeps its shard. -/
theorem leaderForShard_apply (foreign : ∀ replicas, call ≠ .addShard shardId replicas)
    {shard : ShardMetadata} (found : adapter.shards.lookup shardId = some shard)
    (leads : shard.leader ≠ []) :
    (adapter.apply call).leaderForShard shardId = shard.leader ∨
      ((adapter.apply call).heartbeat.isAlive shard.leader = false ∧
        (adapter.apply call).leaderForShard shardId =
          firstAlive (adapter.apply call).heartbeat shard.replicas) := by
  rcases @lookup_apply adapter call shardId foreign with same | refreshed
  · exact .inl (leaderForShard_eq (same.trans found))
  · rw [found] at refreshed
    rw [leaderForShard_eq refreshed, refresh_eq]
    cases alive : (adapter.apply call).heartbeat.isAlive shard.leader with
    | true => exact .inl (if_pos ⟨leads, rfl⟩)
    | false => exact .inr ⟨rfl, if_neg (by simp)⟩

/-- A call other than `AddShard` of the shard replaces a leader only if the leader is dead after it,
and then by the first replica that is alive.  Stale reports, and reports about other nodes, do not
replace it. -/
theorem leader_succession (calls : List Call) {call : Call} {shardId : Bytes}
    (foreign : ∀ replicas, call ≠ .addShard shardId replicas)
    (leads : (new.run calls).leaderForShard shardId ≠ []) :
    (new.run calls).heartbeat.isAlive ((new.run calls).leaderForShard shardId) = true ∧
    (((new.run calls).apply call).leaderForShard shardId ≠ (new.run calls).leaderForShard shardId →
      ((new.run calls).apply call).heartbeat.isAlive ((new.run calls).leaderForShard shardId) =
          false ∧
        ∃ shard, (new.run calls).shards.lookup shardId = some shard ∧
          ((new.run calls).apply call).leaderForShard shardId =
            firstAlive ((new.run calls).apply call).heartbeat shard.replicas) ∧
    (call.Spares (new.run calls).heartbeat ((new.run calls).leaderForShard shardId) →
      ((new.run calls).apply call).leaderForShard shardId =
        (new.run calls).leaderForShard shardId) := by
  cases found : (new.run calls).shards.lookup shardId with
  | none => simp [leaderForShard, found] at leads
  | some shard =>
    rw [leaderForShard_eq found] at leads ⊢
    have seated := seated_run new_seated calls shardId shard found leads
    have outcome := leaderForShard_apply foreign found leads
    refine ⟨seated, fun changed => ?_, fun spares => ?_⟩
    · obtain ⟨dead, elected⟩ := outcome.resolve_left changed
      exact ⟨dead, shard, rfl, elected⟩
    · have alive := isAlive_apply_spared leads (sane_run shard.leader calls) seated spares
      refine outcome.resolve_right fun replaced => ?_
      rw [replaced.1] at alive
      cases alive

/-- A stale timeout of the leader, after the calls of `failover` have seated the second replica. -/
theorem failover_keeps_leader :
    ((new.run failover).apply (.onHeartbeatTimeout (ascii "b") 50)).leaderForShard (ascii "s") =
      ascii "b" :=
  ((@leader_succession failover (.onHeartbeatTimeout (ascii "b") 50) (ascii "s") nofun
    (by decide)).2.2 (by intro; decide)).trans (by decide)

end RaftMetadataAdapter

end DistributedCache.Control

import DistributedCache.Control.RaftMetadataAdapter

/-! Which shards have a leader, for a caller that runs alone.  A timeout and gossip are followed by
an election pass, but a registration and a heartbeat are not, so a node that they make alive is not
elected for a shard that has lost its leader. -/

namespace DistributedCache.Control

/-- An election leaves a shard without a leader only if no replica is alive. -/
theorem electLeaderIfNeeded_leader {heartbeat : HeartbeatManager} {shard : ShardMetadata}
    (unnamed : heartbeat.isAlive [] = false)
    (alive : ∃ replica ∈ shard.replicas, heartbeat.isAlive replica = true) :
    (electLeaderIfNeeded heartbeat shard).leader ≠ [] := by
  unfold electLeaderIfNeeded
  split
  · rename_i candidate elected
    rintro rfl
    simp [List.find?_some elected] at unnamed
  · rename_i unelected
    obtain ⟨replica, member, alive⟩ := alive
    simp [List.find?_eq_none.mp unelected replica member] at alive

@[simp] theorem electLeaderIfNeeded_replicas (heartbeat : HeartbeatManager)
    (shard : ShardMetadata) : (electLeaderIfNeeded heartbeat shard).replicas = shard.replicas := by
  unfold electLeaderIfNeeded
  split <;> rfl

theorem refresh_leader {heartbeat : HeartbeatManager} {shard : ShardMetadata}
    (unnamed : heartbeat.isAlive [] = false)
    (alive : ∃ replica ∈ (refresh heartbeat shard).replicas, heartbeat.isAlive replica = true) :
    (refresh heartbeat shard).leader ≠ [] := by
  unfold refresh at *
  split_ifs at * with keeps
  · exact keeps.1
  · exact electLeaderIfNeeded_leader unnamed (by simpa using alive)

namespace RaftMetadataAdapter

variable {adapter : RaftMetadataAdapter}

/-- Every shard with a replica that is alive has a leader. -/
def Led (adapter : RaftMetadataAdapter) : Prop :=
  ∀ shardId shard, adapter.shards.lookup shardId = some shard →
    (∃ replica ∈ shard.replicas, adapter.heartbeat.isAlive replica = true) → shard.leader ≠ []

/-- The node ids whose health the call reports are non-empty. -/
def Call.Named : Call → Prop
  | .registerNode nodeId _ | .recordHeartbeat nodeId _ | .onHeartbeatTimeout nodeId _ => nodeId ≠ []
  | .addShard _ _ => True
  | .ingestGossip observations => ∀ observation ∈ observations, observation.nodeId ≠ []

instance (call : Call) : Decidable call.Named :=
  match call with
  | .registerNode _ _ | .recordHeartbeat _ _ | .onHeartbeatTimeout _ _ =>
    inferInstanceAs (Decidable (_ ≠ _))
  | .addShard _ _ => .isTrue trivial
  | .ingestGossip observations =>
    inferInstanceAs (Decidable (∀ observation ∈ observations, observation.nodeId ≠ []))

/-- A heartbeat makes a node alive that is a replica of a shard without a leader. -/
def Revives (adapter : RaftMetadataAdapter) (nodeId : Bytes) (heartbeatMs : UInt64) : Prop :=
  adapter.heartbeat.isAlive nodeId = false ∧ adapter.heartbeat.stale nodeId heartbeatMs = false ∧
    ∃ shardId shard, adapter.shards.lookup shardId = some shard ∧ shard.leader = [] ∧
      nodeId ∈ shard.replicas

/-- The call is a registration or a heartbeat that makes a replica of a leaderless shard alive. -/
def Call.Revives (adapter : RaftMetadataAdapter) : Call → Prop
  | .registerNode nodeId heartbeatMs | .recordHeartbeat nodeId heartbeatMs =>
    adapter.Revives nodeId heartbeatMs
  | _ => False

/-- The empty node id stays unknown. -/
theorem apply_unnamed {call : Call} (named : call.Named)
    (unnamed : adapter.heartbeat.isAlive [] = false) :
    (adapter.apply call).heartbeat.isAlive [] = false := by
  cases call with
  | registerNode nodeId ms | recordHeartbeat nodeId ms =>
    show (adapter.heartbeat.beat nodeId ms).isAlive [] = false
    rw [HeartbeatManager.isAlive_beat, unnamed, decide_eq_false (Ne.symm named)]
    rfl
  | addShard => exact unnamed
  | onHeartbeatTimeout nodeId ms =>
    exact (HeartbeatManager.isAlive_onHeartbeatTimeout_ne (Ne.symm named) ms).trans unnamed
  | ingestGossip observations =>
    exact (HeartbeatManager.isAlive_ingestGossip_ne fun o member => Ne.symm (named o member)).trans
      unnamed

/-- After an election pass every shard with a replica that is alive has a leader. -/
theorem electionPass_led (unnamed : adapter.heartbeat.isAlive [] = false) :
    adapter.electionPass.Led := by
  intro shardId shard found alive
  rw [lookup_electionPass] at found
  obtain ⟨old, -, rfl⟩ := Option.map_eq_some_iff.mp found
  exact refresh_leader unnamed alive

/-- A heartbeat keeps every shard led exactly when it does not revive a replica of a leaderless
shard. -/
theorem beat_led_iff (led : adapter.Led) (nodeId : Bytes) (ms : UInt64) :
    Led { adapter with heartbeat := adapter.heartbeat.beat nodeId ms } ↔
      ¬adapter.Revives nodeId ms := by
  constructor
  · rintro led' ⟨-, fresh, shardId, shard, found, leaderless, member⟩
    refine led' shardId shard found ⟨nodeId, member, ?_⟩ leaderless
    rw [HeartbeatManager.isAlive_beat, fresh]
    simp
  · rintro calm shardId shard found ⟨replica, member, alive⟩ leaderless
    cases before : adapter.heartbeat.isAlive replica with
    | true => exact led shardId shard found ⟨replica, member, before⟩ leaderless
    | false =>
      rw [HeartbeatManager.isAlive_beat, before] at alive
      simp only [Bool.false_or, Bool.and_eq_true, decide_eq_true_eq, Bool.not_eq_true'] at alive
      obtain ⟨rfl, fresh⟩ := alive
      exact calm ⟨before, fresh, shardId, shard, found, leaderless, member⟩

theorem apply_led_iff (led : adapter.Led) (unnamed : adapter.heartbeat.isAlive [] = false)
    {call : Call} (named : call.Named) :
    (adapter.apply call).Led ↔ ¬call.Revives adapter := by
  cases call with
  | registerNode nodeId ms | recordHeartbeat nodeId ms => exact beat_led_iff led nodeId ms
  | addShard shardId replicas =>
    refine iff_of_true ?_ id
    intro other shard found alive
    by_cases same : other = shardId
    · subst same
      have elected : electLeaderIfNeeded adapter.heartbeat ⟨replicas, []⟩ = shard := by
        simpa [apply, addShard] using found
      rw [← elected] at alive ⊢
      exact electLeaderIfNeeded_leader unnamed (by simpa [apply, addShard] using alive)
    · rw [apply, addShard, AList.lookup_insert_ne same] at found
      exact led other shard found alive
  | onHeartbeatTimeout nodeId ms =>
    have unnamed' := @apply_unnamed adapter (.onHeartbeatTimeout nodeId ms) named unnamed
    exact iff_of_true (electionPass_led unnamed') id
  | ingestGossip observations =>
    have unnamed' := @apply_unnamed adapter (.ingestGossip observations) named unnamed
    exact iff_of_true (electionPass_led unnamed') id

theorem run_append (calls calls' : List Call) :
    adapter.run (calls ++ calls') = (adapter.run calls).run calls' :=
  List.foldl_append

theorem run_unnamed {calls : List Call} (named : ∀ call ∈ calls, call.Named)
    (unnamed : adapter.heartbeat.isAlive [] = false) :
    (adapter.run calls).heartbeat.isAlive [] = false := by
  induction calls generalizing adapter with
  | nil => exact unnamed
  | cons call calls ih =>
    simp only [List.mem_cons, forall_eq_or_imp] at named
    exact ih named.2 (apply_unnamed named.1 unnamed)

/-- A run without a revival of a replica of a leaderless shard keeps every shard led. -/
theorem run_led {calls : List Call} (named : ∀ call ∈ calls, call.Named) (led : adapter.Led)
    (unnamed : adapter.heartbeat.isAlive [] = false)
    (calm : ∀ before call after, calls = before ++ call :: after →
      ¬call.Revives (adapter.run before)) : (adapter.run calls).Led := by
  induction calls generalizing adapter with
  | nil => exact led
  | cons call calls ih =>
    simp only [List.mem_cons, forall_eq_or_imp] at named
    refine ih named.2 ((apply_led_iff led unnamed named.1).mpr (calm [] call calls rfl))
      (apply_unnamed named.1 unnamed) fun before next after split => ?_
    exact calm (call :: before) next after (by rw [split]; rfl)

theorem new_led : new.Led := by
  intro shardId shard found
  cases found

/-- In a run of calls with non-empty node ids, every shard with a replica that is alive has a
leader after each call exactly when no registration or heartbeat makes a replica of a leaderless
shard alive. -/
theorem run_led_iff {calls : List Call} (named : ∀ call ∈ calls, call.Named) :
    (∀ before after, calls = before ++ after → (new.run before).Led) ↔
      ∀ before call after, calls = before ++ call :: after → ¬call.Revives (new.run before) := by
  constructor
  · rintro led before call after rfl
    have unnamed := @run_unnamed new before
      (fun c member => named c (List.mem_append_left _ member)) rfl
    rw [← apply_led_iff (led before _ rfl) unnamed (named call (by simp))]
    have next := led (before ++ [call]) after (by simp)
    rwa [run_append] at next
  · rintro calm before after rfl
    refine run_led (fun c member => named c (List.mem_append_left _ member)) new_led rfl ?_
    rintro pre call post rfl
    exact calm pre call (post ++ after) (by simp)

/-- Two replicas register before their shard, and then the leader times out. -/
def failover : List Call :=
  [.registerNode (ascii "a") 100, .registerNode (ascii "b") 100,
    .addShard (ascii "s") [ascii "a", ascii "b"], .onHeartbeatTimeout (ascii "a") 200]

theorem failover_led :
    (new.run failover).Led ∧ (new.run failover).leaderForShard (ascii "s") = ascii "b" := by
  have named : ∀ call ∈ failover, call.Named := by decide
  refine ⟨(run_led_iff named).mpr ?_ failover [] rfl, by decide⟩
  intro before call after split
  match before with
  | [] | [_] =>
    simp only [failover, List.cons_append, List.nil_append, List.cons.injEq] at split
    obtain ⟨rfl, rfl, -⟩ := split
    rintro ⟨-, -, _, _, found, -⟩
    cases found
  | [_, _] =>
    simp only [failover, List.cons_append, List.nil_append, List.cons.injEq] at split
    obtain ⟨-, -, rfl, -⟩ := split
    exact id
  | [_, _, _] =>
    simp only [failover, List.cons_append, List.nil_append, List.cons.injEq] at split
    obtain ⟨-, -, -, rfl, -⟩ := split
    exact id
  | _ :: _ :: _ :: _ :: _ => simp [failover] at split

/-- A shard is added before its only replica registers. -/
def lateRegistration : List Call :=
  [.addShard (ascii "s") [ascii "a"], .registerNode (ascii "a") 0]

/-- The registration makes the replica alive and leaves the shard without a leader. -/
theorem lateRegistration_not_led :
    (∀ call ∈ lateRegistration, call.Named) ∧ ¬(new.run lateRegistration).Led := by
  refine ⟨by decide, fun led => ?_⟩
  exact led (ascii "s") ⟨[ascii "a"], []⟩ (by decide) ⟨ascii "a", by decide, by decide⟩ rfl

end RaftMetadataAdapter

end DistributedCache.Control

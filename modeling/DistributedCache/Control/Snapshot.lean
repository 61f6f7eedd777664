import DistributedCache.Control.EventOrder

/-! What `Snapshot` hands on.  A manager that ingests the snapshot of another reports the same
health of every node.  It does not learn when a node timed out, so the two part if an event between
the last heartbeat and the timeout comes next, and agree for good after an event that is newer.  A
manager that ingests an old snapshot of its own revives no node. -/

namespace DistributedCache.Control

namespace HeartbeatManager

variable {manager manager' : HeartbeatManager} {nodeId : Bytes}

/-! ### One observation of each node -/

theorem view_ingestGossip_ne {observations : List NodeHealth}
    (unmentioned : nodeId ∉ observations.map NodeHealth.nodeId) :
    (manager.ingestGossip observations).view nodeId = manager.view nodeId := by
  unfold ingestGossip
  induction observations generalizing manager with
  | nil => rfl
  | cons observation observations ih =>
    rw [List.map_cons, List.mem_cons, not_or] at unmentioned
    rw [List.foldl_cons, ih unmentioned.2, view_ingest_ne unmentioned.1]

theorem entry_congr (same : manager.view nodeId = manager'.view nodeId) :
    manager.entry nodeId = manager'.entry nodeId :=
  congrArg (·.1.getD ⟨[], false, 0⟩) same

theorem lastObserved_congr (same : manager.view nodeId = manager'.view nodeId) :
    manager.lastObserved nodeId = manager'.lastObserved nodeId :=
  congrArg (·.2.getD 0) same

theorem view_put_self (nodeId : Bytes) (health : NodeHealth) (ms : UInt64) :
    (manager.put nodeId health ms).view nodeId = (some health, some ms) := by
  rw [view_put, if_pos rfl]

theorem view_ignore_congr (same : manager.view nodeId = manager'.view nodeId) :
    (manager.ignore nodeId).view nodeId = (manager'.ignore nodeId).view nodeId := by
  rw [ignore, ignore, view_put_self, view_put_self, entry_congr same, lastObserved_congr same]

/-- What an observation leaves about its node depends on what is stored about that node. -/
theorem view_ingest_congr {observation : NodeHealth}
    (same : manager.view observation.nodeId = manager'.view observation.nodeId) :
    (manager.ingest observation).view observation.nodeId =
      (manager'.ingest observation).view observation.nodeId := by
  unfold ingest
  dsimp only
  rw [entry_congr same, lastObserved_congr same]
  split
  · exact view_ignore_congr same
  · rw [view_put_self, view_put_self]

/-- Of observations of different nodes, one tells about each. -/
theorem view_ingestGossip_once {observations : List NodeHealth} {observation : NodeHealth}
    (once : (observations.map NodeHealth.nodeId).Nodup) (member : observation ∈ observations) :
    (manager.ingestGossip observations).view observation.nodeId =
      (manager.ingest observation).view observation.nodeId := by
  obtain ⟨earlier, later, rfl⟩ := List.append_of_mem member
  rw [List.map_append, List.map_cons, List.nodup_append] at once
  obtain ⟨-, tail, apart⟩ := once
  have notEarlier : observation.nodeId ∉ earlier.map NodeHealth.nodeId :=
    fun present => apart _ present _ List.mem_cons_self rfl
  have notLater : observation.nodeId ∉ later.map NodeHealth.nodeId :=
    (List.nodup_cons.mp tail).1
  rw [ingestGossip, List.foldl_append, List.foldl_cons]
  exact (view_ingestGossip_ne notLater).trans (view_ingest_congr (view_ingestGossip_ne notEarlier))

/-! ### The snapshot -/

theorem run_append (manager : HeartbeatManager) (calls more : List Call) :
    manager.run (calls ++ more) = (manager.run calls).run more :=
  List.foldl_append

theorem sane_run (sane : Sane nodeId manager) (calls : List Call) :
    Sane nodeId (manager.run calls) ∧ (nodeId ≠ [] →
      manager.lastHeartbeat nodeId ≤ (manager.run calls).lastHeartbeat nodeId) := by
  unfold run
  induction calls generalizing manager with
  | nil => exact ⟨sane, fun _ => UInt64.le_refl _⟩
  | cons call calls ih =>
    obtain ⟨next, grows⟩ := sane_apply sane call
    obtain ⟨sane', grows'⟩ := ih next
    exact ⟨sane', fun named => UInt64.le_trans (grows named) (grows' named)⟩

theorem entry_of_lookup {health : NodeHealth} (known : manager.nodes.lookup nodeId = some health) :
    manager.entry nodeId = health := by
  rw [entry, known]
  rfl

/-- Each entry holds the name that it is stored under. -/
theorem nodeId_of_lookup (calls : List Call) {health : NodeHealth}
    (known : (new.run calls).nodes.lookup nodeId = some health) : health.nodeId = nodeId := by
  by_cases named : nodeId = []
  · have sane := (sane_run (new_sane nodeId) calls).1
    rcases sane.name with name | fresh
    · rwa [entry_of_lookup known] at name
    · rw [entry_of_lookup known] at fresh
      rw [fresh, named]
  · have decided := decided_run named calls
    rw [view, known] at decided
    generalize about nodeId (calls.flatMap Call.events) = events at decided
    generalize (new.run calls).lastObservationMs.lookup nodeId = observed at decided
    cases decided with
    | known name => exact name

theorem map_nodeId_snapshot (calls : List Call) :
    (new.run calls).snapshot.map NodeHealth.nodeId = (new.run calls).nodes.keys := by
  rw [snapshot, List.map_map, AList.keys, List.keys]
  refine List.map_congr_left fun entry member => ?_
  exact nodeId_of_lookup calls (AList.mem_lookup_iff.mpr member)

theorem mem_snapshot (calls : List Call) {health : NodeHealth} :
    health ∈ (new.run calls).snapshot ↔
      (new.run calls).nodes.lookup health.nodeId = some health := by
  rw [snapshot, List.mem_map]
  constructor
  · rintro ⟨⟨nodeId, stored⟩, member, rfl⟩
    have known : (new.run calls).nodes.lookup nodeId = some stored :=
      AList.mem_lookup_iff.mpr member
    rwa [nodeId_of_lookup calls known]
  · intro known
    exact ⟨⟨health.nodeId, health⟩, AList.mem_lookup_iff.mp known, rfl⟩

/-- A manager that ingests a snapshot, in any order, takes from it one observation for each node
that the snapshot knows. -/
theorem view_ingest_snapshot {calls : List Call} {observations : List NodeHealth}
    (taken : observations.Perm (new.run calls).snapshot) (manager : HeartbeatManager)
    (nodeId : Bytes) :
    ((manager.ingestGossip observations).view nodeId = manager.view nodeId ∧
        (new.run calls).nodes.lookup nodeId = none) ∨
      ∃ health, (new.run calls).nodes.lookup nodeId = some health ∧ health.nodeId = nodeId ∧
        (manager.ingestGossip observations).view nodeId =
          (manager.ingest health).view nodeId := by
  have names := (taken.map NodeHealth.nodeId).trans (.of_eq (map_nodeId_snapshot calls))
  cases known : (new.run calls).nodes.lookup nodeId with
  | none =>
    refine .inl ⟨view_ingestGossip_ne fun present => ?_, rfl⟩
    rw [AList.lookup_eq_none] at known
    exact known (AList.mem_keys.mpr (names.mem_iff.mp present))
  | some health =>
    have name := nodeId_of_lookup calls known
    subst name
    refine .inr ⟨health, rfl, rfl, view_ingestGossip_once ?_ ?_⟩
    · exact names.nodup_iff.mpr (AList.keys_nodup _)
    · exact taken.mem_iff.mpr ((mem_snapshot calls).mpr known)

/-! ### A restored manager -/

/-- What a new manager stores after it has ingested a snapshot: the entries, and as the last
observation of each node its last heartbeat. -/
theorem view_restored {calls : List Call} {observations : List NodeHealth}
    (taken : observations.Perm (new.run calls).snapshot) (nodeId : Bytes) :
    (new.ingestGossip observations).view nodeId =
      ((new.run calls).nodes.lookup nodeId,
        ((new.run calls).nodes.lookup nodeId).map NodeHealth.lastHeartbeatMs) := by
  rcases view_ingest_snapshot taken new nodeId with ⟨same, unknown⟩ | ⟨health, known, rfl, told⟩
  · rw [same, unknown]
    rfl
  · have fresh : (new.entry health.nodeId).nodeId = [] := rfl
    rw [told, known, ingest, if_neg fun old => old.1 fresh, view_put_self]
    rfl

/-- The calls one event at a time. -/
def Call.reports : Call → List Call
  | .ingestGossip observations => observations.map fun observation => .ingestGossip [observation]
  | call => [call]

theorem run_reports (manager : HeartbeatManager) (calls : List Call) :
    manager.run (calls.flatMap Call.reports) = manager.run calls := by
  induction calls generalizing manager with
  | nil => rfl
  | cons call calls ih =>
    have one : manager.run call.reports = manager.apply call := by
      cases call with
      | registerNode | recordHeartbeat | onHeartbeatTimeout => rfl
      | ingestGossip observations => exact List.foldl_map
    rw [List.flatMap_cons, run_append, ih, one]
    rfl

theorem events_reports (calls : List Call) :
    (calls.flatMap Call.reports).flatMap Call.events = calls.flatMap Call.events := by
  rw [List.flatMap_assoc]
  refine List.flatMap_congr fun call _ => ?_
  cases call with
  | registerNode | recordHeartbeat | onHeartbeatTimeout => rfl
  | ingestGossip observations => simp [Call.reports, Call.events, List.flatMap_map]

/-- A call that reports one event. -/
inductive Single : Call → NodeHealth → Prop
  | registerNode (nodeId : Bytes) (ms : UInt64) :
      Single (.registerNode nodeId ms) ⟨nodeId, true, ms⟩
  | recordHeartbeat (nodeId : Bytes) (ms : UInt64) :
      Single (.recordHeartbeat nodeId ms) ⟨nodeId, true, ms⟩
  | onHeartbeatTimeout (nodeId : Bytes) (ms : UInt64) :
      Single (.onHeartbeatTimeout nodeId ms) ⟨nodeId, false, ms⟩
  | ingestGossip (observation : NodeHealth) : Single (.ingestGossip [observation]) observation

theorem single_of_mem_reports {calls : List Call} {call : Call}
    (member : call ∈ calls.flatMap Call.reports) :
    ∃ event, Single call event ∧ call.events = [event] := by
  obtain ⟨whole, -, member⟩ := List.mem_flatMap.mp member
  cases whole with
  | registerNode | recordHeartbeat | onHeartbeatTimeout =>
    cases List.mem_singleton.mp member
    exact ⟨_, by constructor, rfl⟩
  | ingestGossip observations =>
    obtain ⟨observation, -, rfl⟩ := List.mem_map.mp member
    exact ⟨observation, .ingestGossip observation, rfl⟩

theorem Single.view_ne {call : Call} {event : NodeHealth} (single : Single call event)
    (different : nodeId ≠ event.nodeId) :
    (manager.apply call).view nodeId = manager.view nodeId := by
  cases single with
  | registerNode _ ms | recordHeartbeat _ ms => exact view_beat_ne different ms
  | onHeartbeatTimeout _ ms => exact view_onHeartbeatTimeout_ne different ms
  | ingestGossip observation => exact view_ingest_ne different

theorem stale_of_newer {ms : UInt64} (newer : manager.lastObserved nodeId < ms) :
    manager.stale nodeId ms = false := by
  have current : ¬ ms < manager.lastObserved nodeId := UInt64.not_lt.mpr (UInt64.le_of_lt newer)
  simp [stale, current]

theorem view_beat_newer {ms : UInt64} (newer : manager.lastObserved nodeId < ms) :
    (manager.beat nodeId ms).view nodeId = (some ⟨nodeId, true, ms⟩, some ms) := by
  rw [beat, stale_of_newer newer, if_neg (by simp), view_put_self]

theorem view_onHeartbeatTimeout_newer {ms : UInt64} (newer : manager.lastObserved nodeId < ms) :
    (manager.onHeartbeatTimeout nodeId ms).view nodeId =
      (some { manager.entry nodeId with nodeId := nodeId, alive := false }, some ms) := by
  rw [onHeartbeatTimeout, stale_of_newer newer, if_neg (by simp), view_put_self, if_pos newer]

theorem view_ingest_newer {observation : NodeHealth}
    (newer : manager.lastObserved observation.nodeId < observation.lastHeartbeatMs) :
    (manager.ingest observation).view observation.nodeId =
      (some observation, some observation.lastHeartbeatMs) := by
  unfold ingest
  dsimp only
  rw [if_neg, view_put_self]
  rintro ⟨-, older | ⟨equal, -⟩⟩
  · exact UInt64.lt_asymm newer older
  · rw [equal] at newer
    exact UInt64.lt_irrefl _ newer

/-- After an event that is newer than what both have observed, two managers with the same entry of
the node store the same about it. -/
theorem Single.view_newer {call : Call} {event : NodeHealth} (single : Single call event)
    (same : manager.entry event.nodeId = manager'.entry event.nodeId)
    (newer : manager.lastObserved event.nodeId < event.lastHeartbeatMs)
    (newer' : manager'.lastObserved event.nodeId < event.lastHeartbeatMs) :
    (manager.apply call).view event.nodeId = (manager'.apply call).view event.nodeId := by
  cases single with
  | registerNode _ ms | recordHeartbeat _ ms =>
    exact (view_beat_newer newer).trans (view_beat_newer newer').symm
  | onHeartbeatTimeout other ms =>
    refine (view_onHeartbeatTimeout_newer newer).trans
      (Eq.trans ?_ (view_onHeartbeatTimeout_newer newer').symm)
    rw [same]
  | ingestGossip observation =>
    exact (view_ingest_newer newer).trans (view_ingest_newer newer').symm

theorem view_beat_congr (same : manager.view nodeId = manager'.view nodeId) (ms : UInt64) :
    (manager.beat nodeId ms).view nodeId = (manager'.beat nodeId ms).view nodeId := by
  unfold beat stale
  rw [entry_congr same, lastObserved_congr same]
  split
  · exact view_ignore_congr same
  · rw [view_put_self, view_put_self]

theorem view_onHeartbeatTimeout_congr (same : manager.view nodeId = manager'.view nodeId)
    (ms : UInt64) :
    (manager.onHeartbeatTimeout nodeId ms).view nodeId =
      (manager'.onHeartbeatTimeout nodeId ms).view nodeId := by
  unfold onHeartbeatTimeout stale
  rw [entry_congr same, lastObserved_congr same]
  split
  · exact view_ignore_congr same
  · rw [view_put_self, view_put_self]

/-- Managers that store the same about a node still do after the same event. -/
theorem Single.view_congr {call : Call} {event : NodeHealth} (single : Single call event)
    (same : manager.view nodeId = manager'.view nodeId) :
    (manager.apply call).view nodeId = (manager'.apply call).view nodeId := by
  by_cases name : nodeId = event.nodeId
  · subst name
    cases single with
    | registerNode _ ms | recordHeartbeat _ ms => exact view_beat_congr same ms
    | onHeartbeatTimeout _ ms => exact view_onHeartbeatTimeout_congr same ms
    | ingestGossip observation => exact view_ingest_congr same
  · rw [single.view_ne name, single.view_ne name, same]

theorem view_run_congr (same : manager.view nodeId = manager'.view nodeId) {calls : List Call}
    (single : ∀ call ∈ calls, ∃ event, Single call event ∧ call.events = [event]) :
    (manager.run calls).view nodeId = (manager'.run calls).view nodeId := by
  unfold run
  induction calls generalizing manager manager' with
  | nil => exact same
  | cons call calls ih =>
    obtain ⟨⟨event, one, -⟩, rest⟩ := List.forall_mem_cons.mp single
    exact ih (one.view_congr same) rest

/-- Two managers with the same entry of a node still have the same after calls whose first event
about the node is newer than what they have observed. -/
theorem lookup_run_eq (same : manager.nodes.lookup nodeId = manager'.nodes.lookup nodeId)
    (behind : manager'.lastObserved nodeId ≤ manager.lastObserved nodeId) {calls : List Call}
    (single : ∀ call ∈ calls, ∃ event, Single call event ∧ call.events = [event])
    (newer : ∀ event ∈ (about nodeId (calls.flatMap Call.events)).head?,
      manager.lastObserved nodeId < event.lastHeartbeatMs) :
    (manager.run calls).nodes.lookup nodeId = (manager'.run calls).nodes.lookup nodeId := by
  induction calls generalizing manager manager' with
  | nil => exact same
  | cons call calls ih =>
    obtain ⟨⟨event, one, events⟩, rest⟩ := List.forall_mem_cons.mp single
    rw [List.flatMap_cons, events, List.singleton_append, about] at newer
    by_cases name : nodeId = event.nodeId
    · subst name
      rw [List.filter_cons_of_pos (by simp), List.head?_cons] at newer
      have newer : manager.lastObserved event.nodeId < event.lastHeartbeatMs := newer event rfl
      have entries : manager.entry event.nodeId = manager'.entry event.nodeId := by
        rw [entry, entry, same]
      have newer' : manager'.lastObserved event.nodeId < event.lastHeartbeatMs :=
        UInt64.lt_of_le_of_lt behind newer
      have level := one.view_newer entries newer newer'
      exact congrArg Prod.fst (view_run_congr level rest)
    · rw [List.filter_cons_of_neg (by simpa using Ne.symm name)] at newer
      have kept : (manager.apply call).view nodeId = manager.view nodeId := one.view_ne name
      have kept' : (manager'.apply call).view nodeId = manager'.view nodeId := one.view_ne name
      refine ih ?_ ?_ rest ?_
      · exact (congrArg Prod.fst kept).trans (same.trans (congrArg Prod.fst kept').symm)
      · rwa [lastObserved_congr kept, lastObserved_congr kept']
      · rwa [lastObserved_congr kept]

theorem Single.effect {call : Call} {event : NodeHealth} (single : Single call event)
    (nodeId : Bytes) : Effect nodeId manager (manager.apply call) := by
  cases single with
  | registerNode other ms | recordHeartbeat other ms => exact effect_beat nodeId other ms
  | onHeartbeatTimeout other ms => exact effect_onHeartbeatTimeout nodeId other ms
  | ingestGossip => exact effect_ingest nodeId event

/-- Only a timeout moves the last observation past the last heartbeat, and then the node is dead
until the next heartbeat. -/
theorem lastHeartbeat_of_alive (calls : List Call)
    (alive : ((new.run calls).entry nodeId).alive = true) :
    (new.run calls).lastHeartbeat nodeId = (new.run calls).lastObserved nodeId := by
  rw [← run_reports] at *
  have single := fun call => @single_of_mem_reports calls call
  generalize calls.flatMap Call.reports = calls at *
  induction calls using List.reverseRecOn with
  | nil => cases alive
  | append_singleton calls call ih =>
    obtain ⟨event, one, -⟩ := single call (by simp)
    have ih := fun alive => ih alive fun call member => single call (by simp [member])
    have effect : Effect nodeId (new.run calls) (new.run (calls ++ [call])) := by
      rw [run_append]
      exact one.effect nodeId
    rw [lastHeartbeat]
    cases effect with
    | same entry observed =>
      rw [entry] at alive
      rw [entry, observed]
      exact ih alive
    | reported _ _ entry observed => rw [entry, observed]
    | timedOut entry _ =>
      rw [entry] at alive
      cases alive

/-- A heartbeat between the last heartbeat and the timeout of a node is stale for the manager that
saw the timeout, and revives the node for one that has only the snapshot. -/
theorem isAlive_between {calls : List Call} {observations : List NodeHealth}
    (taken : observations.Perm (new.run calls).snapshot) (named : nodeId ≠ []) {ms : UInt64}
    (after : (new.run calls).lastHeartbeat nodeId ≤ ms)
    (before : ms < (new.run calls).lastObserved nodeId) :
    ((new.run calls).recordHeartbeat nodeId ms).isAlive nodeId = false ∧
      ((new.ingestGossip observations).recordHeartbeat nodeId ms).isAlive nodeId = true := by
  rcases (decided_run named calls).cases named with
    ⟨-, -, unobserved⟩ | ⟨health, last, known, entry, observed, name⟩
  · rw [unobserved] at before
    cases UInt64.not_lt_zero before
  · constructor
    · have dead : ((new.run calls).entry nodeId).alive = false := by
        rw [← Bool.not_eq_true]
        intro alive
        rw [lastHeartbeat_of_alive calls alive] at after
        exact UInt64.not_le.mpr before after
      have old : (new.run calls).stale nodeId ms = true := by
        rw [stale_known name rfl]
        exact decide_eq_true before
      rw [recordHeartbeat, isAlive_beat, isAlive_eq_entry, dead, old]
      simp
    · have restored := view_restored taken nodeId
      rw [(Prod.mk.inj known).1] at restored
      have current : (new.ingestGossip observations).stale nodeId ms = false := by
        have last : (new.ingestGossip observations).lastObserved nodeId = health.lastHeartbeatMs :=
          congrArg (·.2.getD 0) restored
        rw [lastHeartbeat, entry] at after
        simp [stale, last, UInt64.not_lt.mpr after]
      rw [recordHeartbeat, isAlive_beat, current]
      simp

/-- A manager that starts from a snapshot reports the health of every node as the manager that the
snapshot is of, and still does after further calls if the first event about the node is newer than
what was observed.  Without that it can revive a node that has timed out. -/
theorem snapshot_restores (calls : List Call) {observations : List NodeHealth}
    (taken : observations.Perm (new.run calls).snapshot) (nodeId : Bytes) :
    (new.ingestGossip observations).getNodeHealth nodeId =
      (new.run calls).getNodeHealth nodeId ∧
    (∀ more : List Call,
      (∀ event ∈ (about nodeId (more.flatMap Call.events)).head?,
        (new.run calls).lastObserved nodeId < event.lastHeartbeatMs) →
      ((new.ingestGossip observations).run more).getNodeHealth nodeId =
        (new.run (calls ++ more)).getNodeHealth nodeId) ∧
    (nodeId ≠ [] → ∀ ms, (new.run calls).lastHeartbeat nodeId ≤ ms →
      ms < (new.run calls).lastObserved nodeId →
      (new.run (calls ++ [.recordHeartbeat nodeId ms])).isAlive nodeId = false ∧
        ((new.ingestGossip observations).run [.recordHeartbeat nodeId ms]).isAlive nodeId =
          true) := by
  have restored := view_restored taken nodeId
  have same := congrArg Prod.fst restored
  have behind : (new.ingestGossip observations).lastObserved nodeId ≤
      (new.run calls).lastObserved nodeId := by
    have last : (new.ingestGossip observations).lastObserved nodeId =
        (new.run calls).lastHeartbeat nodeId := by
      rw [lastHeartbeat, entry]
      refine (congrArg (·.2.getD 0) restored).trans ?_
      cases (new.run calls).nodes.lookup nodeId <;> rfl
    rw [last]
    exact (sane_run (new_sane nodeId) calls).1.bound
  refine ⟨same, fun more newer => ?_, fun named ms after before => ?_⟩
  · rw [run_append, ← run_reports _ more, ← run_reports (new.run calls)]
    rw [← events_reports] at newer
    exact (lookup_run_eq same.symm behind (fun _ => single_of_mem_reports) newer).symm
  · rw [run_append]
    exact isAlive_between taken named after before

/-- A node that has timed out, and one that has not. -/
def timedOut : List Call :=
  [.registerNode [97] 5, .registerNode [98] 6, .onHeartbeatTimeout [97] 9]

theorem timedOut_restored :
    ((new.ingestGossip (new.run timedOut).snapshot.reverse).run
        [.recordHeartbeat [98] 7, .recordHeartbeat [97] 12]).getNodeHealth [97] =
      some ⟨[97], true, 12⟩ ∧
    ((new.ingestGossip (new.run timedOut).snapshot.reverse).run
        [.recordHeartbeat [97] 7]).isAlive [97] = true := by
  obtain ⟨-, continues, parts⟩ :=
    snapshot_restores timedOut (List.reverse_perm _) [97]
  refine ⟨(continues _ ?_).trans ?_, (parts (by decide) 7 ?_ ?_).2⟩
  · decide
  · decide
  · decide
  · decide

/-! ### An old snapshot -/

theorem remembers_run (manager : HeartbeatManager) (calls : List Call) :
    manager.Remembers (manager.run calls) := by
  unfold run
  induction calls generalizing manager with
  | nil => exact fun _ known => known
  | cons call calls ih =>
    intro nodeId known
    exact ih (manager.apply call) nodeId (remembers_apply manager call nodeId known)

/-- The times of an old entry and of the later one, with the last observation. -/
theorem lastHeartbeatMs_old {calls more : List Call} {old health : NodeHealth} (named : nodeId ≠ [])
    (known : (new.run calls).nodes.lookup nodeId = some old)
    (later : (new.run (calls ++ more)).entry nodeId = health) :
    old.lastHeartbeatMs ≤ health.lastHeartbeatMs ∧
      health.lastHeartbeatMs ≤ (new.run (calls ++ more)).lastObserved nodeId := by
  have sane := (sane_run (new_sane nodeId) calls).1
  have bound := (sane_run (new_sane nodeId) (calls ++ more)).1.bound
  have grows := (sane_run sane more).2 named
  rw [← run_append, lastHeartbeat, lastHeartbeat, later, entry_of_lookup known] at grows
  rw [lastHeartbeat, later] at bound
  exact ⟨grows, bound⟩

theorem health_cases {old health : NodeHealth} (name : health.nodeId = old.nodeId)
    (time : old.lastHeartbeatMs = health.lastHeartbeatMs)
    (kept : health.alive = false → old.alive ≠ true) :
    old = health ∨ (health.alive = true ∧ old = { health with alive := false }) := by
  obtain ⟨nodeId, alive, ms⟩ := health
  obtain ⟨nodeId', alive', ms'⟩ := old
  cases name
  cases time
  cases alive <;> cases alive' <;> simp_all

/-- A manager that ingests an old snapshot of its own, in any order, keeps the health of every node,
except that a node which was dead at the time of its last heartbeat, and whose heartbeat came again
at that time, is reported dead again.  So it revives no node. -/
theorem old_snapshot_merges (calls more : List Call) {observations : List NodeHealth}
    (taken : observations.Perm (new.run calls).snapshot) {nodeId : Bytes} (named : nodeId ≠ []) :
    ((new.run (calls ++ more)).ingestGossip observations).getNodeHealth nodeId =
        (new.run (calls ++ more)).getNodeHealth nodeId ∨
      ∃ health : NodeHealth, health.alive = true ∧
        (new.run (calls ++ more)).getNodeHealth nodeId = some health ∧
        (new.run calls).getNodeHealth nodeId = some { health with alive := false } ∧
        ((new.run (calls ++ more)).ingestGossip observations).getNodeHealth nodeId =
          some { health with alive := false } := by
  rcases view_ingest_snapshot taken (new.run (calls ++ more)) nodeId with
    ⟨same, -⟩ | ⟨old, known, rfl, told⟩
  · exact .inl (congrArg Prod.fst same)
  have remembered := remembers_run (new.run calls) more old.nodeId (by rw [known]; rfl)
  rw [← run_append] at remembered
  rcases (decided_run named (calls ++ more)).cases named with
    ⟨unknown, -⟩ | ⟨health, last, stored, entry, observed, name⟩
  · rw [(Prod.mk.inj unknown).1] at remembered
    cases remembered
  have told := congrArg Prod.fst told
  unfold ingest at told
  dsimp only at told
  split at told
  · refine .inl (told.trans ?_)
    rw [view_ignore_self stored, (Prod.mk.inj stored).1.symm]
    rfl
  · -- the old entry is recorded, so its time is that of the last observation
    rename_i recorded
    rw [view_put_self] at told
    obtain ⟨grows, bound⟩ := lastHeartbeatMs_old named known entry
    have reached : (new.run (calls ++ more)).lastObserved old.nodeId ≤ old.lastHeartbeatMs :=
      UInt64.not_lt.mp fun older => recorded ⟨name, .inl older⟩
    have time : old.lastHeartbeatMs = health.lastHeartbeatMs :=
      UInt64.le_antisymm grows (UInt64.le_trans bound reached)
    have last : old.lastHeartbeatMs = (new.run (calls ++ more)).lastObserved old.nodeId :=
      UInt64.le_antisymm (UInt64.le_trans grows bound) reached
    have present := (Prod.mk.inj stored).1
    have sameName : health.nodeId = old.nodeId := nodeId_of_lookup (calls ++ more) present
    rcases health_cases sameName time fun dead revived =>
        recorded ⟨name, .inr ⟨last, by rw [entry, dead], revived⟩⟩ with rfl | ⟨alive, killed⟩
    · exact .inl (told.trans present.symm)
    · refine .inr ⟨health, alive, present, known.trans ?_, told.trans ?_⟩
      · rw [← killed]
      · rw [← killed]

/-- Gossip that reports a node dead. -/
def reportedDead : List Call := [.ingestGossip [⟨[97], false, 5⟩, ⟨[98], true, 6⟩]]

/-- The heartbeat of that node at that time, and a timeout of the other. -/
def revivedOnce : List Call := [.recordHeartbeat [97] 5, .onHeartbeatTimeout [98] 9]

theorem revivedOnce_merges :
    ((new.run (reportedDead ++ revivedOnce)).ingestGossip
      (new.run reportedDead).snapshot).getNodeHealth [98] = some ⟨[98], false, 6⟩ := by
  have timedOut : (new.run (reportedDead ++ revivedOnce)).getNodeHealth [98] =
      some ⟨[98], false, 6⟩ := by decide
  rcases old_snapshot_merges reportedDead revivedOnce (.refl _)
      (show ([98] : Bytes) ≠ [] by decide) with kept | ⟨health, alive, known, -⟩
  · rw [kept]
    exact timedOut
  · cases Option.some.inj (known.symm.trans timedOut)
    cases alive

end HeartbeatManager

end DistributedCache.Control

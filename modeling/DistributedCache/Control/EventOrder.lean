import DistributedCache.Control.Observation

/-! How the heartbeat manager orders what it hears about a node.  The time of the last heartbeat
does not go back, except under the empty name, which the checks for stale events take for a new
entry.  Two events about a node give the same in either order, except a heartbeat and a report of
the node's death that carry the same time. -/

namespace DistributedCache.Control

open Lib

namespace HeartbeatManager

variable {manager before after : HeartbeatManager} {nodeId other : Bytes}

theorem entry_put (nodeId other : Bytes) (health : NodeHealth) (ms : UInt64) :
    (manager.put nodeId health ms).entry other =
      if other = nodeId then health else manager.entry other := by
  show ((manager.put nodeId health ms).view other).1.getD ⟨[], false, 0⟩ = _
  rw [view_put]
  split <;> rfl

theorem lastObserved_put (nodeId other : Bytes) (health : NodeHealth) (ms : UInt64) :
    (manager.put nodeId health ms).lastObserved other =
      if other = nodeId then ms else manager.lastObserved other := by
  show ((manager.put nodeId health ms).view other).2.getD 0 = _
  rw [view_put]
  split <;> rfl

@[simp] theorem entry_ignore (nodeId other : Bytes) :
    (manager.ignore nodeId).entry other = manager.entry other := by
  rw [ignore, entry_put]
  split
  · rename_i same
    rw [same]
  · rfl

@[simp] theorem lastObserved_ignore (nodeId other : Bytes) :
    (manager.ignore nodeId).lastObserved other = manager.lastObserved other := by
  rw [ignore, lastObserved_put]
  split
  · rename_i same
    rw [same]
  · rfl

/-! ### The time of the last heartbeat -/

/-- `last_heartbeat_ms` of the entry of a node, or zero without an entry. -/
def lastHeartbeat (manager : HeartbeatManager) (nodeId : Bytes) : UInt64 :=
  (manager.entry nodeId).lastHeartbeatMs

/-- From one operation to the next, the heartbeat that `GetNodeHealth` reports does not go back, and
it does not exceed the last observation. -/
structure Orderly (nodeId : Bytes) (before after : HeartbeatManager) : Prop where
  grows : ∀ health, before.getNodeHealth nodeId = some health →
    ∃ health', after.getNodeHealth nodeId = some health' ∧
      health.lastHeartbeatMs ≤ health'.lastHeartbeatMs
  bounded : ∀ health, after.getNodeHealth nodeId = some health →
    health.lastHeartbeatMs ≤ after.lastObserved nodeId

/-- A relation between the states before and after each call of a run. -/
def EachStep (R : HeartbeatManager → HeartbeatManager → Prop) :
    HeartbeatManager → List Call → Prop
  | _, [] => True
  | manager, call :: calls => R manager (manager.apply call) ∧ EachStep R (manager.apply call) calls

/-- No operation forgets a node. -/
def Remembers (before after : HeartbeatManager) : Prop :=
  ∀ nodeId, (before.nodes.lookup nodeId).isSome → (after.nodes.lookup nodeId).isSome

theorem remembers_put (manager : HeartbeatManager) (nodeId : Bytes) (health : NodeHealth)
    (ms : UInt64) : manager.Remembers (manager.put nodeId health ms) := by
  intro other known
  show ((manager.put nodeId health ms).view other).1.isSome = true
  rw [view_put]
  split
  · rfl
  · exact known

theorem remembers_ingestGossip (manager : HeartbeatManager) (observations : List NodeHealth) :
    manager.Remembers (manager.ingestGossip observations) := by
  unfold ingestGossip
  induction observations generalizing manager with
  | nil => exact fun _ known => known
  | cons observation observations ih =>
    intro nodeId known
    refine ih (manager.ingest observation) nodeId ?_
    unfold ingest
    dsimp only
    split
    · exact remembers_put _ _ _ _ nodeId known
    · exact remembers_put _ _ _ _ nodeId known

theorem remembers_apply (manager : HeartbeatManager) (call : Call) :
    manager.Remembers (manager.apply call) := by
  cases call with
  | registerNode nodeId ms | recordHeartbeat nodeId ms =>
    show manager.Remembers (manager.beat nodeId ms)
    unfold beat
    split
    · exact remembers_put _ _ _ _
    · exact remembers_put _ _ _ _
  | onHeartbeatTimeout nodeId ms =>
    show manager.Remembers (manager.onHeartbeatTimeout nodeId ms)
    unfold onHeartbeatTimeout
    split
    · exact remembers_put _ _ _ _
    · exact remembers_put _ _ _ _
  | ingestGossip observations => exact remembers_ingestGossip manager observations

/-- The entry of a node holds its name, or has just been initialised, and its heartbeat does not
exceed the last observation. -/
structure Sane (nodeId : Bytes) (manager : HeartbeatManager) : Prop where
  name : (manager.entry nodeId).nodeId = nodeId ∨ manager.entry nodeId = ⟨[], false, 0⟩
  bound : manager.lastHeartbeat nodeId ≤ manager.lastObserved nodeId

theorem new_sane (nodeId : Bytes) : Sane nodeId new := by
  have start : new.entry nodeId = ⟨[], false, 0⟩ := by simp [entry, new]
  refine ⟨.inr start, ?_⟩
  rw [lastHeartbeat, start]
  exact UInt64.zero_le

/-- What is reported is what the entry holds. -/
theorem orderly_iff (remembers : before.Remembers after) (sane : Sane nodeId after) :
    Orderly nodeId before after ↔ before.lastHeartbeat nodeId ≤ after.lastHeartbeat nodeId := by
  have reported : ∀ {m : HeartbeatManager} {health}, m.getNodeHealth nodeId = some health →
      health.lastHeartbeatMs = m.lastHeartbeat nodeId := by
    intro m health known
    rw [getNodeHealth] at known
    rw [lastHeartbeat, entry, known]
    rfl
  constructor
  · intro orderly
    cases known : before.getNodeHealth nodeId with
    | none =>
      rw [getNodeHealth] at known
      rw [lastHeartbeat, entry, known]
      exact UInt64.zero_le
    | some health =>
      obtain ⟨health', known', grows⟩ := orderly.grows health known
      rwa [reported known, reported known'] at grows
  · intro grows
    refine ⟨fun health known => ?_, fun health known => ?_⟩
    · have kept := remembers nodeId (by rw [getNodeHealth] at known; simp [known])
      obtain ⟨health', known'⟩ := Option.isSome_iff_exists.mp kept
      refine ⟨health', known', ?_⟩
      rwa [reported known, reported known']
    · rw [reported known]
      exact sane.bound

/-! ### What an event does to an entry -/

/-- An event leaves the entry of a node as it is, replaces it by a report that is not stale, or
marks it dead at a time. -/
inductive Effect (nodeId : Bytes) (before after : HeartbeatManager) : Prop
  | same : after.entry nodeId = before.entry nodeId →
      after.lastObserved nodeId = before.lastObserved nodeId → Effect nodeId before after
  | reported {health : NodeHealth} : before.stale nodeId health.lastHeartbeatMs = false →
      health.nodeId = nodeId → after.entry nodeId = health →
      after.lastObserved nodeId = health.lastHeartbeatMs → Effect nodeId before after
  | timedOut {ms : UInt64} :
      after.entry nodeId = { before.entry nodeId with nodeId := nodeId, alive := false } →
      after.lastObserved nodeId =
        (if before.lastObserved nodeId < ms then ms else before.lastObserved nodeId) →
      Effect nodeId before after

theorem effect_ignore : Effect nodeId manager (manager.ignore other) :=
  .same (entry_ignore other nodeId) (lastObserved_ignore other nodeId)

theorem effect_put_ne (different : nodeId ≠ other) (health : NodeHealth) (ms : UInt64) :
    Effect nodeId manager (manager.put other health ms) :=
  .same (by rw [entry_put, if_neg different]) (by rw [lastObserved_put, if_neg different])

theorem effect_beat (nodeId other : Bytes) (ms : UInt64) :
    Effect nodeId manager (manager.beat other ms) := by
  unfold beat
  split
  · exact effect_ignore
  · rename_i current
    by_cases same : nodeId = other
    · subst same
      refine .reported ?_ rfl (by rw [entry_put, if_pos rfl]) (by rw [lastObserved_put, if_pos rfl])
      simpa using current
    · exact effect_put_ne same _ _

theorem effect_onHeartbeatTimeout (nodeId other : Bytes) (ms : UInt64) :
    Effect nodeId manager (manager.onHeartbeatTimeout other ms) := by
  unfold onHeartbeatTimeout
  split
  · exact effect_ignore
  · by_cases same : nodeId = other
    · subst same
      exact .timedOut (by rw [entry_put, if_pos rfl]) (by rw [lastObserved_put, if_pos rfl])
    · exact effect_put_ne same _ _

theorem effect_ingest (nodeId : Bytes) (observation : NodeHealth) :
    Effect nodeId manager (manager.ingest observation) := by
  unfold ingest
  dsimp only
  split
  · exact effect_ignore
  · rename_i current
    by_cases same : nodeId = observation.nodeId
    · subst same
      refine .reported ?_ rfl (by rw [entry_put, if_pos rfl]) (by rw [lastObserved_put, if_pos rfl])
      rw [stale, Bool.eq_false_iff]
      intro old
      simp only [ne_eq, Bool.and_eq_true, decide_eq_true_eq] at old
      exact current ⟨old.1, .inl old.2⟩
    · exact effect_put_ne same _ _

/-- An event that is not stale does not lie before the last heartbeat. -/
theorem Sane.lastHeartbeat_le (sane : Sane nodeId manager) (named : nodeId ≠ []) {ms : UInt64}
    (current : manager.stale nodeId ms = false) : manager.lastHeartbeat nodeId ≤ ms := by
  rcases sane.name with name | fresh
  · have observed : manager.lastObserved nodeId ≤ ms := by
      simpa [stale, name, named] using current
    exact UInt64.le_trans sane.bound observed
  · rw [lastHeartbeat, fresh]
    exact UInt64.zero_le

theorem Effect.sane (effect : Effect nodeId before after) (sane : Sane nodeId before) :
    Sane nodeId after := by
  cases effect with
  | same entry observed =>
    refine ⟨?_, ?_⟩
    · rw [entry]
      exact sane.name
    · rw [lastHeartbeat, entry, observed]
      exact sane.bound
  | reported _ name entry observed =>
    refine ⟨.inl (by rw [entry, name]), ?_⟩
    apply UInt64.le_of_eq
    rw [lastHeartbeat, entry, observed]
  | timedOut entry observed =>
    refine ⟨.inl (by rw [entry]), ?_⟩
    rw [lastHeartbeat, entry, observed]
    split
    · rename_i later
      exact UInt64.le_trans sane.bound (UInt64.le_of_lt later)
    · exact sane.bound

/-- Under a name that is not empty the last heartbeat does not go back. -/
theorem Effect.grows (effect : Effect nodeId before after) (sane : Sane nodeId before)
    (named : nodeId ≠ []) : before.lastHeartbeat nodeId ≤ after.lastHeartbeat nodeId := by
  cases effect with
  | same entry _ =>
    apply UInt64.le_of_eq
    rw [lastHeartbeat, lastHeartbeat, entry]
  | reported current _ entry _ =>
    have later := sane.lastHeartbeat_le named current
    rwa [← entry] at later
  | timedOut entry _ =>
    apply UInt64.le_of_eq
    rw [lastHeartbeat, lastHeartbeat, entry]

theorem sane_ingestGossip (sane : Sane nodeId manager) (observations : List NodeHealth) :
    Sane nodeId (manager.ingestGossip observations) ∧ (nodeId ≠ [] →
      manager.lastHeartbeat nodeId ≤ (manager.ingestGossip observations).lastHeartbeat nodeId) := by
  unfold ingestGossip
  induction observations generalizing manager with
  | nil => exact ⟨sane, fun _ => UInt64.le_refl _⟩
  | cons observation observations ih =>
    have effect := @effect_ingest manager nodeId observation
    obtain ⟨sane', grows⟩ := ih (effect.sane sane)
    exact ⟨sane', fun named => UInt64.le_trans (effect.grows sane named) (grows named)⟩

theorem sane_apply (sane : Sane nodeId manager) (call : Call) :
    Sane nodeId (manager.apply call) ∧ (nodeId ≠ [] →
      manager.lastHeartbeat nodeId ≤ (manager.apply call).lastHeartbeat nodeId) := by
  have one : ∀ {after : HeartbeatManager}, Effect nodeId manager after → Sane nodeId after ∧
      (nodeId ≠ [] → manager.lastHeartbeat nodeId ≤ after.lastHeartbeat nodeId) :=
    fun effect => ⟨effect.sane sane, effect.grows sane⟩
  cases call with
  | registerNode other ms | recordHeartbeat other ms => exact one (effect_beat nodeId other ms)
  | onHeartbeatTimeout other ms => exact one (effect_onHeartbeatTimeout nodeId other ms)
  | ingestGossip observations => exact sane_ingestGossip sane observations

/-! ### The empty name -/

/-- The time that a call reports for the empty name: that of its last observation, and none for a
timeout, which moves no heartbeat. -/
def Call.unnamedMs : Call → Option UInt64
  | .registerNode nodeId ms | .recordHeartbeat nodeId ms => if nodeId = [] then some ms else none
  | .onHeartbeatTimeout _ _ => none
  | .ingestGossip observations => ((about [] observations).getLast?).map NodeHealth.lastHeartbeatMs

theorem Sane.unnamed (sane : Sane [] manager) : (manager.entry []).nodeId = [] := by
  rcases sane.name with name | fresh
  · exact name
  · rw [fresh]

theorem lastHeartbeat_beat_unnamed (sane : Sane [] manager) (other : Bytes) (ms : UInt64) :
    (manager.beat other ms).lastHeartbeat [] =
      (if other = [] then some ms else none).getD (manager.lastHeartbeat []) := by
  by_cases unnamed : other = []
  · subst unnamed
    rw [beat, stale_of_fresh_entry sane.unnamed, if_neg (by simp), lastHeartbeat, entry_put]
    simp
  · unfold beat lastHeartbeat
    split
    · simp
    · simp [entry_put, Ne.symm unnamed]

theorem lastHeartbeat_onHeartbeatTimeout (nodeId other : Bytes) (ms : UInt64) :
    (manager.onHeartbeatTimeout other ms).lastHeartbeat nodeId = manager.lastHeartbeat nodeId := by
  unfold onHeartbeatTimeout lastHeartbeat
  split
  · rw [entry_ignore]
  · rw [entry_put]
    split
    · rename_i same
      rw [same]
    · rfl

theorem lastHeartbeat_ingest_unnamed (sane : Sane [] manager) (observation : NodeHealth) :
    (manager.ingest observation).lastHeartbeat [] =
      if observation.nodeId = [] then observation.lastHeartbeatMs
      else manager.lastHeartbeat [] := by
  unfold ingest lastHeartbeat
  dsimp only
  by_cases unnamed : observation.nodeId = []
  · rw [unnamed, if_neg (fun old => old.1 sane.unnamed), entry_put, if_pos rfl, if_pos rfl]
  · rw [if_neg unnamed]
    split
    · rw [entry_ignore]
    · rw [entry_put, if_neg (Ne.symm unnamed)]

theorem lastHeartbeat_ingestGossip_unnamed (sane : Sane [] manager)
    (observations : List NodeHealth) :
    (manager.ingestGossip observations).lastHeartbeat [] =
      (((about [] observations).getLast?).map NodeHealth.lastHeartbeatMs).getD
        (manager.lastHeartbeat []) := by
  induction observations using List.reverseRecOn with
  | nil => rfl
  | append_singleton observations observation ih =>
    have sane' := (sane_ingestGossip sane observations).1
    have last : manager.ingestGossip (observations ++ [observation]) =
        (manager.ingestGossip observations).ingest observation := by
      simp [ingestGossip]
    rw [last, lastHeartbeat_ingest_unnamed sane', about_concat]
    split
    · simp
    · exact ih

/-- A call leaves the time that it reports, if it reports one. -/
theorem lastHeartbeat_apply_unnamed (sane : Sane [] manager) (call : Call) :
    (manager.apply call).lastHeartbeat [] = call.unnamedMs.getD (manager.lastHeartbeat []) := by
  cases call with
  | registerNode other ms | recordHeartbeat other ms =>
    exact lastHeartbeat_beat_unnamed sane other ms
  | onHeartbeatTimeout other ms => exact lastHeartbeat_onHeartbeatTimeout [] other ms
  | ingestGossip observations => exact lastHeartbeat_ingestGossip_unnamed sane observations

/-! ### Every run -/

theorem eachStep_orderly_named (named : nodeId ≠ []) (sane : Sane nodeId manager)
    (calls : List Call) : EachStep (Orderly nodeId) manager calls := by
  induction calls generalizing manager with
  | nil => trivial
  | cons call calls ih =>
    obtain ⟨sane', grows⟩ := sane_apply sane call
    exact ⟨(orderly_iff (remembers_apply manager call) sane').mpr (grows named), ih sane'⟩

/-- Under the empty name, the times must not go back from one call to the next. -/
theorem eachStep_orderly_unnamed (sane : Sane [] manager) (calls : List Call) :
    EachStep (Orderly []) manager calls ↔
      List.IsChain (· ≤ ·) (manager.lastHeartbeat [] :: calls.filterMap Call.unnamedMs) := by
  induction calls generalizing manager with
  | nil => simp [EachStep]
  | cons call calls ih =>
    obtain ⟨sane', -⟩ := sane_apply sane call
    rw [EachStep, orderly_iff (remembers_apply manager call) sane', ih sane',
      lastHeartbeat_apply_unnamed sane call]
    cases reported : call.unnamedMs with
    | none => simp [reported]
    | some ms => simp [reported]

/-- The heartbeat times are orderly in a run, for a given name, unless the name is empty and some
call reports an earlier time for it than the one before. -/
theorem heartbeats_orderly_iff (calls : List Call) (nodeId : Bytes) :
    EachStep (Orderly nodeId) new calls ↔
      (nodeId = [] → List.IsChain (· ≤ ·) (calls.filterMap Call.unnamedMs)) := by
  by_cases named : nodeId = []
  · subst named
    have start : new.lastHeartbeat [] = 0 := rfl
    rw [eachStep_orderly_unnamed (new_sane []), start]
    cases calls.filterMap Call.unnamedMs with
    | nil => simp
    | cons ms rest => simp
  · simp [named, eachStep_orderly_named named (new_sane nodeId) calls]

/-- Gossip about the empty name, and older gossip about it. -/
def unnamedGossip : List Call :=
  [.ingestGossip [⟨[], true, 100⟩], .ingestGossip [⟨[], true, 50⟩]]

theorem unnamed_heartbeat_goes_back : ¬ EachStep (Orderly []) new unnamedGossip := by
  rintro ⟨-, ⟨grows, -⟩, -⟩
  obtain ⟨health', known', order⟩ := grows ⟨[], true, 100⟩ (by decide)
  have stored : ((new.run unnamedGossip).getNodeHealth []) = some ⟨[], true, 50⟩ := by decide
  cases known'.symm.trans stored
  exact absurd order (by decide)

/-! ### Two events in either order -/

/-- An event about a node. -/
inductive Event
  | heartbeat (ms : UInt64)
  | timeout (ms : UInt64)
  | gossip (alive : Bool) (ms : UInt64)
deriving DecidableEq, Repr

namespace Event

def call (nodeId : Bytes) : Event → Call
  | heartbeat ms => .recordHeartbeat nodeId ms
  | timeout ms => .onHeartbeatTimeout nodeId ms
  | gossip alive ms => .ingestGossip [⟨nodeId, alive, ms⟩]

def ms : Event → UInt64
  | heartbeat ms | timeout ms | gossip _ ms => ms

/-- Whether the event reports the node alive. -/
def alive : Event → Bool
  | heartbeat _ => true
  | timeout _ => false
  | gossip alive _ => alive

/-- What becomes of the liveness of a node when the event carries the time of the last one. -/
def tie : Event → Bool → Bool
  | heartbeat _, _ => true
  | timeout _, _ => false
  | gossip reported _, alive => alive && reported

/-- What becomes of the liveness of a node and the time of its last observation. -/
def next (event : Event) : Option (Bool × UInt64) → Bool × UInt64
  | none => (event.alive, event.ms)
  | some (alive, last) =>
    if event.ms < last then (alive, last)
    else if last < event.ms then (event.alive, event.ms)
    else (event.tie alive, last)

variable {event : Event} {reported : Bool} {last : UInt64}

theorem next_old (old : event.ms < last) : event.next (some (reported, last)) = (reported, last) :=
  if_pos old

theorem next_current (current : ¬ event.ms < last) : event.next (some (reported, last)) =
    (if last < event.ms then event.alive else event.tie reported, event.ms) := by
  rw [next, if_neg current]
  split
  · rfl
  · rename_i notNewer
    rw [UInt64.le_antisymm (UInt64.not_lt.mp current) (UInt64.not_lt.mp notNewer)]

/-- A heartbeat and a report of the node's death. -/
def Opposed : Event → Event → Prop
  | heartbeat _, other => other.alive = false
  | other, heartbeat _ => other.alive = false
  | _, _ => False

/-- An event at time `ms` is not stale. -/
def Current (known : Option (Bool × UInt64)) (ms : UInt64) : Prop :=
  ∀ reported last, known = some (reported, last) → ¬ ms < last

theorem tie_alive_comm_iff (x y : Event) : y.tie x.alive = x.tie y.alive ↔ ¬ Opposed x y := by
  cases x <;> cases y <;> simp [tie, alive, Opposed, Bool.and_comm]

theorem tie_tie_comm_iff (x y : Event) (reported : Bool) :
    y.tie (x.tie reported) = x.tie (y.tie reported) ↔ ¬ Opposed x y := by
  cases x <;> cases y <;> simp [tie, alive, Opposed, Bool.and_right_comm]

/-- Of two events at different times, the later one decides in either order. -/
theorem next_comm_of_lt {x y : Event} (earlier : x.ms < y.ms) (known : Option (Bool × UInt64)) :
    y.next (some (x.next known)) = x.next (some (y.next known)) := by
  have later : ∀ {reported last}, last < y.ms →
      y.next (some (reported, last)) = (y.alive, y.ms) := by
    intro reported last newer
    rw [next_current (UInt64.not_lt.mpr (UInt64.le_of_lt newer)), if_pos newer]
  cases known with
  | none =>
    show y.next (some (x.alive, x.ms)) = x.next (some (y.alive, y.ms))
    rw [later earlier, next_old earlier]
  | some pair =>
    obtain ⟨reported, last⟩ := pair
    by_cases newer : last < y.ms
    · rw [later newer, next_old earlier]
      by_cases old : x.ms < last
      · rw [next_old old, later newer]
      · rw [next_current old, later earlier]
    · have old : x.ms < last := UInt64.lt_of_lt_of_le earlier (UInt64.not_lt.mp newer)
      rw [next_old old]
      by_cases stale : y.ms < last
      · rw [next_old stale, next_old old]
      · rw [next_current stale, next_old earlier]

/-- Of two events at the same time, a heartbeat and a report of death do not commute. -/
theorem next_comm_of_eq {x y : Event} (same : x.ms = y.ms) {known : Option (Bool × UInt64)}
    (current : Current known x.ms) :
    (y.next (some (x.next known))).1 = (x.next (some (y.next known))).1 ↔ ¬ Opposed x y := by
  have tied : ∀ {event : Event} {reported last}, last = event.ms →
      event.next (some (reported, last)) = (event.tie reported, last) := by
    rintro event reported _ rfl
    rw [next_current (UInt64.lt_irrefl _), if_neg (UInt64.lt_irrefl _)]
  cases known with
  | none =>
    show (y.next (some (x.alive, x.ms))).1 = (x.next (some (y.alive, y.ms))).1 ↔ _
    rw [tied same, tied same.symm]
    exact tie_alive_comm_iff x y
  | some pair =>
    obtain ⟨reported, last⟩ := pair
    have notOld := current reported last rfl
    have first := @next_current x reported last notOld
    have second := @next_current y reported last (same ▸ notOld)
    rw [first, second, tied same, tied same.symm, same]
    split
    · exact tie_alive_comm_iff x y
    · exact tie_tie_comm_iff x y reported

/-- Two events agree in either order unless they conflict. -/
theorem next_comm_iff (x y : Event) (known : Option (Bool × UInt64)) :
    (y.next (some (x.next known))).1 = (x.next (some (y.next known))).1 ↔
      ¬ (x.ms = y.ms ∧ Current known x.ms ∧ Opposed x y) := by
  by_cases same : x.ms = y.ms
  · by_cases current : Current known x.ms
    · rw [next_comm_of_eq same current]
      exact not_congr (by simp only [same, true_and, same ▸ current])
    · refine iff_of_true ?_ fun conflict => current conflict.2.1
      unfold Current at current
      push Not at current
      obtain ⟨reported, last, rfl, old⟩ := current
      have old' : y.ms < last := same ▸ old
      rw [next_old old, next_old old', next_old old]
  · have commutes : y.next (some (x.next known)) = x.next (some (y.next known)) := by
      rcases UInt64.lt_or_lt_of_ne same with earlier | later
      · exact next_comm_of_lt earlier known
      · exact (next_comm_of_lt later known).symm
    simp [commutes, same]

end Event

/-- The liveness of a node and the time of its last observation, if it is known. -/
def status (manager : HeartbeatManager) (nodeId : Bytes) : Option (Bool × UInt64) :=
  match manager.view nodeId with
  | (some health, some ms) => some (health.alive, ms)
  | _ => none

theorem status_put (nodeId : Bytes) (health : NodeHealth) (ms : UInt64) :
    (manager.put nodeId health ms).status nodeId = some (health.alive, ms) := by
  rw [status, view_put, if_pos rfl]

theorem status_known {health : NodeHealth} {ms : UInt64}
    (known : manager.view nodeId = (some health, some ms)) :
    manager.status nodeId = some (health.alive, ms) := by
  rw [status, known]

theorem status_ignore {health : NodeHealth} {ms : UInt64}
    (known : manager.view nodeId = (some health, some ms)) :
    (manager.ignore nodeId).status nodeId = some (health.alive, ms) :=
  status_known (view_ignore_self known)

theorem isAlive_of_status {alive : Bool} {ms : UInt64}
    (known : manager.status nodeId = some (alive, ms)) : manager.isAlive nodeId = alive := by
  unfold status view at known
  unfold isAlive
  split at known
  · rename_i health last stored
    obtain ⟨node, -⟩ := Prod.mk.inj stored
    rw [node]
    exact (Prod.mk.inj (Option.some.inj known)).1
  · cases known

theorem status_unknown (unknown : manager.view nodeId = (none, none)) :
    manager.status nodeId = none := by
  rw [status, unknown]

theorem status_beat {events : List NodeHealth} (named : nodeId ≠ [])
    (decided : Decided nodeId events (manager.view nodeId)) (ms : UInt64) :
    (manager.beat nodeId ms).status nodeId =
      some ((Event.heartbeat ms).next (manager.status nodeId)) := by
  unfold beat
  rcases decided.cases named with ⟨absent, fresh, -⟩ | ⟨health, last, known, -, observed, name⟩
  · rw [stale_of_fresh_entry fresh, if_neg (by simp), status_put, status_unknown absent]
    rfl
  · rw [status_known known, stale_known name observed]
    by_cases old : ms < last
    · rw [if_pos (by simpa using old), status_ignore known, Event.next_old old]
    · rw [if_neg (by simpa using old), status_put, Event.next_current old]
      split <;> rfl

theorem status_onHeartbeatTimeout {events : List NodeHealth} (named : nodeId ≠ [])
    (decided : Decided nodeId events (manager.view nodeId)) (ms : UInt64) :
    (manager.onHeartbeatTimeout nodeId ms).status nodeId =
      some ((Event.timeout ms).next (manager.status nodeId)) := by
  unfold onHeartbeatTimeout
  rcases decided.cases named with
    ⟨absent, fresh, observed⟩ | ⟨health, last, known, -, observed, name⟩
  · rw [stale_of_fresh_entry fresh, if_neg (by simp), status_put, status_unknown absent, observed,
      raised_observed UInt64.zero_le]
    rfl
  · rw [status_known known, stale_known name observed]
    by_cases old : ms < last
    · rw [if_pos (by simpa using old), status_ignore known, Event.next_old old]
    · rw [if_neg (by simpa using old), status_put, Event.next_current old, observed,
        raised_observed (UInt64.not_lt.mp old)]
      split <;> rfl

theorem status_ingest {events : List NodeHealth} (named : nodeId ≠ [])
    (decided : Decided nodeId events (manager.view nodeId)) (alive : Bool) (ms : UInt64) :
    (manager.ingest ⟨nodeId, alive, ms⟩).status nodeId =
      some ((Event.gossip alive ms).next (manager.status nodeId)) := by
  unfold ingest
  dsimp only
  rcases decided.cases named with
    ⟨absent, fresh, -⟩ | ⟨health, last, known, entry, observed, name⟩
  · rw [if_neg (fun old => old.1 fresh), status_put, status_unknown absent]
    rfl
  · rw [status_known known, observed, entry]
    rw [entry] at name
    by_cases old : ms < last
    · rw [if_pos ⟨name, .inl old⟩, status_ignore known, Event.next_old old]
    · rw [Event.next_current old]
      by_cases refused : ms = last ∧ health.alive = false ∧ alive = true
      · obtain ⟨rfl, dead, rfl⟩ := refused
        rw [if_pos ⟨name, .inr ⟨rfl, dead, rfl⟩⟩, status_ignore known]
        simp [dead, Event.tie, Event.ms]
      · rw [if_neg (fun stale => stale.2.elim old refused), status_put]
        by_cases newer : last < ms
        · simp [newer, Event.alive, Event.ms]
        · have same : ms = last :=
            UInt64.le_antisymm (UInt64.not_lt.mp newer) (UInt64.not_lt.mp old)
          cases lives : health.alive <;> cases alive <;> simp_all [Event.tie, Event.ms]

theorem status_run (named : nodeId ≠ []) (calls : List Call) (event : Event) :
    ((new.run calls).apply (event.call nodeId)).status nodeId =
      some (event.next ((new.run calls).status nodeId)) := by
  have decided := decided_run named calls
  cases event with
  | heartbeat ms => exact status_beat named decided ms
  | timeout ms => exact status_onHeartbeatTimeout named decided ms
  | gossip alive ms => exact status_ingest named decided alive ms

/-- The liveness of a node after two events. -/
theorem isAlive_two_events (named : nodeId ≠ []) (calls : List Call) (x y : Event) :
    (((new.run calls).apply (x.call nodeId)).apply (y.call nodeId)).isAlive nodeId =
      (y.next (some (x.next ((new.run calls).status nodeId)))).1 := by
  have one := status_run named calls x
  have extended : new.run (calls ++ [x.call nodeId]) = (new.run calls).apply (x.call nodeId) := by
    simp [run]
  have two := status_run named (calls ++ [x.call nodeId]) y
  rw [extended, one] at two
  exact isAlive_of_status two

/-- Two events about a node conflict if they carry the same time, which is not stale, and one of
them is a heartbeat and the other reports the node dead. -/
def Conflict (manager : HeartbeatManager) (nodeId : Bytes) (x y : Event) : Prop :=
  x.ms = y.ms ∧ manager.stale nodeId x.ms = false ∧ x.Opposed y

theorem current_iff (named : nodeId ≠ []) (calls : List Call) (ms : UInt64) :
    Event.Current ((new.run calls).status nodeId) ms ↔
      (new.run calls).stale nodeId ms = false := by
  rcases (decided_run named calls).cases named with
    ⟨absent, fresh, -⟩ | ⟨health, last, known, -, observed, name⟩
  · rw [status_unknown absent, stale_of_fresh_entry fresh]
    simp [Event.Current]
  · rw [status_known known, stale_known name observed]
    simp [Event.Current]

/-- Two events about a node leave the same liveness in either order unless they conflict. -/
theorem isAlive_comm_iff (calls : List Call) (named : nodeId ≠ []) (x y : Event) :
    (((new.run calls).apply (x.call nodeId)).apply (y.call nodeId)).isAlive nodeId =
        (((new.run calls).apply (y.call nodeId)).apply (x.call nodeId)).isAlive nodeId ↔
      ¬ Conflict (new.run calls) nodeId x y := by
  rw [isAlive_two_events named, isAlive_two_events named, Event.next_comm_iff, Conflict,
    current_iff named]

/-- A timeout and live gossip at the same time leave a node dead in either order. -/
theorem timeout_gossip_comm :
    ((new.apply (.onHeartbeatTimeout [97] 5)).apply (.ingestGossip [⟨[97], true, 5⟩])).isAlive
        [97] =
      ((new.apply (.ingestGossip [⟨[97], true, 5⟩])).apply (.onHeartbeatTimeout [97] 5)).isAlive
        [97] :=
  (isAlive_comm_iff [] (by decide) (.timeout 5) (.gossip true 5)).mpr fun conflict => conflict.2.2

/-- A heartbeat and a timeout at the same time do not. -/
theorem heartbeat_timeout_conflict :
    ((new.apply (.recordHeartbeat [97] 5)).apply (.onHeartbeatTimeout [97] 5)).isAlive [97] =
        false ∧
      ((new.apply (.onHeartbeatTimeout [97] 5)).apply (.recordHeartbeat [97] 5)).isAlive [97] =
        true := by
  decide

end HeartbeatManager

end DistributedCache.Control

import DistributedCache.Dashboard.ClusterEvents
import DistributedCache.Dashboard.WsClient
import DistributedCache.Lib.Upsert
import Mathlib.Data.List.Induction
import Mathlib.Data.List.Sort
import Mathlib.Data.Rat.Floor
import Mathlib.Tactic.Linarith
import Mathlib.Tactic.NormNum

/-! What the page shows of the events that its socket delivers.  The topology, the lag and the time
are those of the latest events, whatever connections they came over, and the latency is the largest
of the samples in the chart. -/

namespace DistributedCache.Dashboard

open Lib

/-! ### The state of the page -/

structure NodeState where
  id : Bytes
  alive : Bool
  deriving DecidableEq

structure ShardState where
  id : ℚ
  owner : Bytes
  deriving DecidableEq

/-- The operations on numbers whose results the page rounds.  Nothing is assumed of them. -/
structure Doubles where
  add : ℚ → ℚ → ℚ
  sub : ℚ → ℚ → ℚ
  div : ℚ → ℚ → ℚ
  mod : ℚ → ℚ → ℚ

def clamp (value low high : ℚ) : ℚ := min high (max low value)

def latencySampleFromEvent (d : Doubles) : ClusterEvent → ℚ
  | .replicaLag _ lagMs _ => clamp (d.div lagMs 4) 0.8 8
  | event => clamp (d.add (d.div (d.mod event.ts 4000) 1000) 1) 0.8 8

def opsPerSecFromEvent (d : Doubles) (event : ClusterEvent) : ℚ :=
  let base := 170000
  let jitter := d.sub (d.mod event.ts 40000) 20000
  let adjustment := match event with
    | .nodeHeartbeat .. => 15000
    | .shardMoved .. => -5000
    | .replicaLag .. => -10000
  clamp (d.add (d.add base jitter) adjustment) 110000 230000

def percentile (values : List ℚ) (ratio : ℚ) : ℚ :=
  let sorted := values.mergeSort (· ≤ ·)
  let index := min (sorted.length - 1) ⌊sorted.length * ratio⌋₊
  sorted.getD index 0

/-- The variables of the page that its events change. -/
structure PageState where
  nodes : List NodeState
  shards : List ShardState
  lastEventAt : Option ℚ
  replicaLagMs : ℚ
  opsPerSec : ℚ
  latencySamples : List ℚ

def defaultLatencySamples : List ℚ := [1.4, 1.8, 2.2, 2.1, 2.4, 2.3, 2.0]

def maxLatencySamples : Nat := 12

def PageState.initial : PageState :=
  { nodes := []
    shards := []
    lastEventAt := none
    replicaLagMs := 8
    opsPerSec := 180000
    latencySamples := defaultLatencySamples }

/-- `values.slice(-count)`. -/
def lastOf (count : Nat) (values : List ℚ) : List ℚ := values.drop (values.length - count)

/-- What the callback does with every event. -/
def PageState.note (d : Doubles) (state : PageState) (event : ClusterEvent) : PageState :=
  { state with
    lastEventAt := some event.ts
    opsPerSec := opsPerSecFromEvent d event
    latencySamples :=
      lastOf maxLatencySamples (state.latencySamples ++ [latencySampleFromEvent d event]) }

/-- The callback `onEvent` of the page. -/
def PageState.onEvent (d : Doubles) (state : PageState) (event : ClusterEvent) : PageState :=
  let state := state.note d event
  match event with
  | .nodeHeartbeat nodeId _ =>
    { state with
      nodes := upsert (fun node => node.id = nodeId) (fun node => { node with alive := true })
        ⟨nodeId, true⟩ state.nodes }
  | .replicaLag _ lagMs _ => { state with replicaLagMs := lagMs }
  | .shardMoved shardId _ toNode _ =>
    { state with
      shards := upsert (fun shard => shard.id = shardId)
        (fun shard => { shard with owner := toNode }) ⟨shardId, toNode⟩ state.shards }

def PageState.p99Ms (state : PageState) : ℚ := percentile state.latencySamples 0.99

/-- The page after some events. -/
def shown (d : Doubles) (events : List ClusterEvent) : PageState :=
  events.foldl (PageState.onEvent d) .initial

/-! ### What the events decide -/

/-- The owner that the event gives to the shard. -/
def ClusterEvent.ownerOf (shardId : ℚ) : ClusterEvent → Option Bytes
  | shardMoved moved _ toNode _ => if moved = shardId then some toNode else none
  | _ => none

def ClusterEvent.lag : ClusterEvent → Option ℚ
  | replicaLag _ lagMs _ => some lagMs
  | _ => none

/-- What the page shows after some events. -/
structure Shows (d : Doubles) (events : List ClusterEvent) (state : PageState) : Prop where
  nodesDistinct : (state.nodes.map NodeState.id).Nodup
  nodes : ∀ node, node ∈ state.nodes ↔
    node.alive = true ∧ ∃ ts, .nodeHeartbeat node.id ts ∈ events
  shardsDistinct : (state.shards.map ShardState.id).Nodup
  shards : ∀ shard, shard ∈ state.shards ↔
    events.reverse.findSome? (ClusterEvent.ownerOf shard.id) = some shard.owner
  lastEventAt : state.lastEventAt = events.getLast?.map ClusterEvent.ts
  replicaLagMs : state.replicaLagMs = (events.reverse.findSome? ClusterEvent.lag).getD 8
  opsPerSec : 110000 ≤ state.opsPerSec ∧ state.opsPerSec ≤ 230000
  latencySamples : state.latencySamples =
    lastOf maxLatencySamples (defaultLatencySamples ++ events.map (latencySampleFromEvent d))
  samplesWithin : ∀ sample ∈ state.latencySamples, 0.8 ≤ sample ∧ sample ≤ 8

theorem clamp_within (value : ℚ) {low high : ℚ} (ordered : low ≤ high) :
    low ≤ clamp value low high ∧ clamp value low high ≤ high :=
  ⟨le_min ordered (le_max_left low value), min_le_left high _⟩

theorem latencySampleFromEvent_within (d : Doubles) (event : ClusterEvent) :
    0.8 ≤ latencySampleFromEvent d event ∧ latencySampleFromEvent d event ≤ 8 := by
  cases event <;> exact clamp_within _ (by norm_num)

theorem opsPerSecFromEvent_within (d : Doubles) (event : ClusterEvent) :
    110000 ≤ opsPerSecFromEvent d event ∧ opsPerSecFromEvent d event ≤ 230000 :=
  clamp_within _ (by norm_num)

theorem initial_shows (d : Doubles) : Shows d [] .initial where
  nodesDistinct := List.nodup_nil
  nodes node := by simp [PageState.initial]
  shardsDistinct := List.nodup_nil
  shards shard := by simp [PageState.initial]
  lastEventAt := rfl
  replicaLagMs := rfl
  opsPerSec := by norm_num [PageState.initial]
  latencySamples := rfl
  samplesWithin := by norm_num [PageState.initial, defaultLatencySamples]

theorem lastOf_lastOf_append (count : Nat) (values : List ℚ) (value : ℚ) :
    lastOf count (lastOf count values ++ [value]) = lastOf count (values ++ [value]) := by
  unfold lastOf
  rw [← List.drop_append_of_le_length (Nat.sub_le values.length count), List.drop_drop]
  congr 1
  simp only [List.length_drop, List.length_append, List.length_singleton]
  omega

theorem mem_of_mem_lastOf {count : Nat} {values : List ℚ} {value : ℚ}
    (member : value ∈ lastOf count values) : value ∈ values := List.mem_of_mem_drop member

section

variable {d : Doubles} {events : List ClusterEvent} {state : PageState}

theorem Shows.latency (shows : Shows d events state) (event : ClusterEvent) :
    (state.note d event).latencySamples = lastOf maxLatencySamples
        (defaultLatencySamples ++ (events ++ [event]).map (latencySampleFromEvent d)) ∧
      ∀ sample ∈ (state.note d event).latencySamples, 0.8 ≤ sample ∧ sample ≤ 8 := by
  constructor
  · rw [PageState.note, shows.latencySamples, lastOf_lastOf_append, List.map_append,
      List.append_assoc]
    rfl
  · intro sample member
    rcases List.mem_append.mp (mem_of_mem_lastOf member) with earlier | last
    · exact shows.samplesWithin sample earlier
    · rw [List.mem_singleton.mp last]
      exact latencySampleFromEvent_within d event

theorem Shows.heartbeat (shows : Shows d events state) (nodeId : Bytes) (ts : ℚ) :
    Shows d (events ++ [.nodeHeartbeat nodeId ts])
      (state.onEvent d (.nodeHeartbeat nodeId ts)) := by
  have changed : ∀ node : NodeState, node.id = (⟨nodeId, true⟩ : NodeState).id →
      { node with alive := true } = (⟨nodeId, true⟩ : NodeState) := by
    rintro ⟨_, _⟩ rfl
    rfl
  obtain ⟨latency, within⟩ := shows.latency (.nodeHeartbeat nodeId ts)
  refine ⟨nodup_upsert changed shows.nodesDistinct, fun node => ?_, shows.shardsDistinct, ?_, ?_,
    ?_, opsPerSecFromEvent_within d _, latency, within⟩
  · refine (mem_upsert changed shows.nodesDistinct).trans ?_
    rw [shows.nodes]
    obtain ⟨id, alive⟩ := node
    simp only [NodeState.mk.injEq, List.mem_append, List.mem_singleton,
      ClusterEvent.nodeHeartbeat.injEq]
    grind
  · simpa [PageState.onEvent, PageState.note, List.findSome?_cons, ClusterEvent.ownerOf] using
      shows.shards
  · simp [PageState.onEvent, PageState.note]
  · simpa [PageState.onEvent, PageState.note, List.findSome?_cons, ClusterEvent.lag] using
      shows.replicaLagMs

theorem Shows.moved (shows : Shows d events state) (shardId : ℚ) (fromNode toNode : Bytes)
    (ts : ℚ) : Shows d (events ++ [.shardMoved shardId fromNode toNode ts])
      (state.onEvent d (.shardMoved shardId fromNode toNode ts)) := by
  have changed : ∀ shard : ShardState, shard.id = (⟨shardId, toNode⟩ : ShardState).id →
      { shard with owner := toNode } = (⟨shardId, toNode⟩ : ShardState) := by
    rintro ⟨_, _⟩ rfl
    rfl
  obtain ⟨latency, within⟩ := shows.latency (.shardMoved shardId fromNode toNode ts)
  refine ⟨shows.nodesDistinct, ?_, nodup_upsert changed shows.shardsDistinct, fun shard => ?_, ?_,
    ?_, opsPerSecFromEvent_within d _, latency, within⟩
  · simpa [PageState.onEvent, PageState.note] using shows.nodes
  · refine (mem_upsert changed shows.shardsDistinct).trans ?_
    rw [shows.shards]
    obtain ⟨id, owner⟩ := shard
    simp only [List.reverse_append, List.reverse_singleton, List.singleton_append,
      List.findSome?_cons, ClusterEvent.ownerOf, ShardState.mk.injEq]
    by_cases same : shardId = id
    · subst same
      simp [eq_comm]
    · simp [same, Ne.symm same]
  · simp [PageState.onEvent, PageState.note]
  · simpa [PageState.onEvent, PageState.note, List.findSome?_cons, ClusterEvent.lag] using
      shows.replicaLagMs

theorem Shows.lagged (shows : Shows d events state) (shardId lagMs ts : ℚ) :
    Shows d (events ++ [.replicaLag shardId lagMs ts])
      (state.onEvent d (.replicaLag shardId lagMs ts)) := by
  obtain ⟨latency, within⟩ := shows.latency (.replicaLag shardId lagMs ts)
  refine ⟨shows.nodesDistinct, ?_, shows.shardsDistinct, ?_, ?_, ?_, opsPerSecFromEvent_within d _,
    latency, within⟩
  · simpa [PageState.onEvent, PageState.note] using shows.nodes
  · simpa [PageState.onEvent, PageState.note, List.findSome?_cons, ClusterEvent.ownerOf] using
      shows.shards
  · simp [PageState.onEvent, PageState.note]
  · simp [PageState.onEvent, List.findSome?_cons, ClusterEvent.lag]

end

/-- What the page shows is decided by the events, in their order. -/
theorem shown_shows (d : Doubles) (events : List ClusterEvent) :
    Shows d events (shown d events) := by
  induction events using List.reverseRecOn with
  | nil => exact initial_shows d
  | append_singleton events event ih =>
    rw [shown, List.foldl_append]
    cases event with
    | nodeHeartbeat nodeId ts => exact ih.heartbeat nodeId ts
    | shardMoved shardId fromNode toNode ts => exact ih.moved shardId fromNode toNode ts
    | replicaLag shardId lagMs ts => exact ih.lagged shardId lagMs ts

/-! ### The latency -/

theorem Shows.length {d : Doubles} {events : List ClusterEvent} {state : PageState}
    (shows : Shows d events state) :
    7 ≤ state.latencySamples.length ∧ state.latencySamples.length ≤ maxLatencySamples := by
  have total : 7 ≤ (defaultLatencySamples ++ events.map (latencySampleFromEvent d)).length := by
    rw [List.length_append]
    exact Nat.le_add_right 7 _
  rw [shows.latencySamples, lastOf, List.length_drop]
  unfold maxLatencySamples
  omega

/-- Of a hundred values or fewer, the percentile 0.99 is the largest. -/
theorem percentile_largest {values : List ℚ} (nonempty : values ≠ []) (few : values.length ≤ 100) :
    percentile values 0.99 ∈ values ∧ ∀ value ∈ values, value ≤ percentile values 0.99 := by
  have perm := List.mergeSort_perm values fun a b => decide (a ≤ b)
  have ordered : (values.mergeSort (· ≤ ·)).Pairwise (· ≤ ·) := List.pairwise_mergeSort' _ values
  have positive : 0 < values.length := List.length_pos_iff.mpr nonempty
  have last : values.length - 1 ≤ ⌊(values.length : ℚ) * 0.99⌋₊ := by
    refine Nat.le_floor ?_
    have cast : (values.length : ℚ) ≤ 100 := by exact_mod_cast few
    rw [Nat.cast_sub positive, Nat.cast_one]
    linarith
  have index : percentile values 0.99 = (values.mergeSort (· ≤ ·)).getD (values.length - 1) 0 := by
    rw [percentile, perm.length_eq, Nat.min_eq_left last]
  have inside : values.length - 1 < (values.mergeSort (· ≤ ·)).length := by
    rw [perm.length_eq]
    omega
  rw [index, List.getD_eq_getElem?_getD, List.getElem?_eq_getElem inside, Option.getD_some]
  refine ⟨perm.subset (List.getElem_mem inside), fun value member => ?_⟩
  obtain ⟨i, below, rfl⟩ := List.getElem_of_mem (perm.symm.subset member)
  rcases Nat.lt_or_eq_of_le (show i ≤ values.length - 1 by rw [perm.length_eq] at below; omega) with
    earlier | rfl
  · exact List.pairwise_iff_getElem.mp ordered i _ below inside earlier
  · exact le_rfl

/-! ### The events of a run -/

section

variable {ε : Type}

/-- The event that a task delivers: that of a message of the current socket, if it is
well-formed. -/
def acceptedAt (parse : Bytes → Option ε) (c : ClusterSocket) : Task → Option ε
  | .event ws (.message (.text data)) => if c.socket = some ws then parse data else none
  | _ => none

/-- The events that the tasks of a run deliver. -/
def accepted (parse : Bytes → Option ε) :
    Pool Unit ClusterSocket (List Frame) → List (Unit × Task) → List ε
  | _, [] => []
  | s, task :: tasks =>
    match (page parse).step s task with
    | none => []
    | some r => (acceptedAt parse s.shared task.2).toList ++ accepted parse r.1 tasks

def Effect.event : Effect ε → Option ε
  | .delivered event => some event
  | _ => none

/-- The arguments of the calls of `onEvent`. -/
def deliveries (effects : List (List (Effect ε))) : List ε :=
  effects.flatten.filterMap Effect.event

theorem handle_event (parse : Bytes → Option ε) (c : ClusterSocket) (ws : Nat)
    (event : SocketEvent) : (c.handle parse ws event).effects.filterMap Effect.event =
      (acceptedAt parse c (.event ws event)).toList := by
  unfold ClusterSocket.handle
  by_cases current : c.socket = some ws
  · rw [if_neg (not_not.mpr current)]
    cases event with
    | message data =>
      cases data with
      | text data =>
        simp only [acceptedAt, if_pos current]
        cases parse data <;> rfl
      | binary => rfl
    | opened => rfl
    | error => rfl
    | closed =>
      dsimp only
      split <;> rfl
  · rw [if_pos current]
    cases event with
    | message data => cases data <;> simp [acceptedAt, current]
    | _ => rfl

theorem fire_event (c : ClusterSocket) (id : Nat) (isOpen : Bool) (timer : Timer) :
    (c.fire id isOpen timer : Outcome ε).effects.filterMap Effect.event = [] := by
  unfold ClusterSocket.fire
  split
  · split <;> rfl
  · split
    · rfl
    · split <;> rfl

theorem close_event (c : ClusterSocket) :
    (c.close : Outcome ε).effects.filterMap Effect.event = [] := by
  unfold ClusterSocket.close
  split <;> rfl

theorem resume_event (c : ClusterSocket) (frame : Frame) :
    (c.resume frame : Outcome ε).effects.filterMap Effect.event = [] := by
  cases frame with
  | reconnect ws =>
    simp only [ClusterSocket.resume, ClusterSocket.scheduleReconnect]
    split <;> rfl
  | _ => rfl

/-- A step delivers what it accepts. -/
theorem next_event {parse : Bytes → Option ε} {c : ClusterSocket} {frames below : List Frame}
    {task : Task} {outcome : Outcome ε}
    (moved : c.next parse frames task = some (outcome, below)) :
    outcome.effects.filterMap Effect.event = (acceptedAt parse c task).toList := by
  unfold ClusterSocket.next at moved
  split at moved
  · split at moved <;> cases moved
    exact handle_event parse c _ _
  · split at moved <;> cases moved
    exact handle_event parse c _ _
  · obtain ⟨timer, -, same⟩ := Option.map_eq_some_iff.mp moved
    cases same
    exact fire_event c _ _ timer
  · cases moved
    exact close_event c
  · cases moved
    exact close_event c
  · cases moved
    exact resume_event c _
  · cases moved

/-- The callback of a run gets the events of the well-formed messages of the sockets that were
current when these came, each once and in their order. -/
theorem deliveries_eq_accepted {parse : Bytes → Option ε}
    {s after : Pool Unit ClusterSocket (List Frame)} {tasks : List (Unit × Task)}
    {effects : List (List (Effect ε))} (ran : (page parse).run s tasks = some (after, effects)) :
    deliveries effects = accepted parse s tasks := by
  induction tasks generalizing s effects with
  | nil =>
    cases ran
    rfl
  | cons task tasks ih =>
    obtain ⟨t, shown, rest, moved, later, rfl⟩ := Program.run_cons_eq_some.mp ran
    obtain ⟨shared, local', advanced, rfl⟩ := Program.step_eq_some.mp moved
    obtain ⟨⟨outcome, below⟩, ranNext, same⟩ := Option.map_eq_some_iff.mp advanced
    cases same
    rw [accepted, moved]
    have first := next_event ranNext
    have others := ih later
    unfold deliveries at others ⊢
    rw [List.flatten_cons, List.filterMap_append, first, others]

end

/-- A message as an event.  `jsonParse` stands for `JSON.parse`, as far as `parseClusterEvent` looks
at its result. -/
def parseMessage (jsonParse : Bytes → Option JsValue) (data : Bytes) : Option ClusterEvent :=
  (jsonParse data).bind fun value =>
    match parseClusterEvent value with
    | .ok event => some event
    | .error _ => none

theorem parseMessage_eq_some {jsonParse : Bytes → Option JsValue} {data : Bytes}
    {event : ClusterEvent} (parsed : parseMessage jsonParse data = some event) :
    ∃ properties, jsonParse data = some (.record properties) ∧
      properties.entries.Perm event.properties := by
  obtain ⟨value, read, parsed⟩ := Option.bind_eq_some_iff.mp parsed
  split at parsed
  · rename_i event' ok
    cases parsed
    cases value with
    | other => cases ok
    | record properties => exact ⟨properties, read, parseClusterEvent_iff.mp ok⟩
  · cases parsed

theorem mem_accepted {ε : Type} {parse : Bytes → Option ε} {event : ε}
    {s : Pool Unit ClusterSocket (List Frame)} {tasks : List (Unit × Task)}
    (member : event ∈ accepted parse s tasks) :
    ∃ ws data, ((), Task.event ws (.message (.text data))) ∈ tasks ∧ parse data = some event := by
  induction tasks generalizing s with
  | nil => cases member
  | cons task tasks ih =>
    rw [accepted] at member
    split at member
    · cases member
    · rcases List.mem_append.mp member with here | later
      · have here := Option.mem_toList.mp here
        unfold acceptedAt at here
        split at here
        · rename_i ws data taken
          split at here
          · exact ⟨ws, data, taken ▸ List.mem_cons_self, here⟩
          · cases here
        · cases here
      · obtain ⟨ws, data, inside, parsed⟩ := ih later
        exact ⟨ws, data, List.mem_cons_of_mem _ inside, parsed⟩

/-- In every run of the page, over any number of connections, what it shows is decided by the
messages that are objects with the properties of an event and that came while their socket was the
current one; the latency that it shows is the largest sample of the chart. -/
theorem page_shows (jsonParse : Bytes → Option JsValue) (d : Doubles)
    {after : Pool Unit ClusterSocket (List Frame)} {tasks : List (Unit × Task)}
    {effects : List (List (Effect ClusterEvent))}
    (ran : (page (parseMessage jsonParse)).run pageStart tasks = some (after, effects)) :
    let events := accepted (parseMessage jsonParse) pageStart tasks
    let state := shown d (deliveries effects)
    Shows d events state ∧
      (state.p99Ms ∈ state.latencySamples ∧ ∀ sample ∈ state.latencySamples,
        sample ≤ state.p99Ms) ∧
      ∀ event ∈ events, ∃ ws data properties,
        ((), Task.event ws (.message (.text data))) ∈ tasks ∧
          jsonParse data = some (.record properties) ∧
          properties.entries.Perm event.properties := by
  intro events state
  have shows : Shows d events state := by
    have same : deliveries effects = events := deliveries_eq_accepted ran
    rw [← same]
    exact shown_shows d _
  obtain ⟨enough, few⟩ := shows.length
  have nonempty : state.latencySamples ≠ [] := List.ne_nil_of_length_pos (by omega)
  refine ⟨shows, percentile_largest nonempty (few.trans (by decide)), fun event member => ?_⟩
  obtain ⟨ws, data, inside, parsed⟩ := mem_accepted member
  obtain ⟨properties, read, same⟩ := parseMessage_eq_some parsed
  exact ⟨ws, data, properties, inside, read, same⟩

/-- A heartbeat of a node. -/
def beat (nodeId : Bytes) : ClusterEvent := .nodeHeartbeat nodeId 5

def beatText (nodeId : Bytes) : Bytes :=
  ascii "\x7b\"type\":\"node_heartbeat\",\"nodeId\":\"" ++ nodeId ++ ascii "\",\"ts\":5\x7d"

/-- `JSON.parse` on the texts of heartbeats of the nodes `a`, `b` and `c`. -/
def beatJson (data : Bytes) : Option JsValue :=
  ([ascii "a", ascii "b", ascii "c"].find? fun nodeId => beatText nodeId = data).map fun nodeId =>
    .record ⟨(beat nodeId).properties, (beat nodeId).nodupKeys⟩

/-- The first socket brings a heartbeat of `a` and closes.  After the page has made the second one,
a heartbeat of `b` comes late on the first, and a malformed message and a heartbeat of `c` on the
second. -/
def beatTasks : List (Unit × Task) :=
  [.event 0 .opened, .resume, .resume, .event 0 (.message (.text (beatText (ascii "a")))), .resume,
    .event 0 .closed, .resume, .resume, .fire 3 false, .resume, .resume,
    .event 0 (.message (.text (beatText (ascii "b")))), .event 1 .opened, .resume, .resume,
    .event 1 (.message (.text (ascii "x"))),
    .event 1 (.message (.text (beatText (ascii "c"))))].map ((), ·)

/-- Exact arithmetic, with the remainder of numbers that are not negative. -/
def exactDoubles : Doubles :=
  ⟨(· + ·), (· - ·), (· / ·), fun a b => a - b * ⌊a / b⌋⟩

/-- The page shows the two nodes whose heartbeats came on the current socket. -/
theorem beatTasks_shows : ∃ after effects,
    (page (parseMessage beatJson)).run pageStart beatTasks = some (after, effects) ∧
      ∀ node, node ∈ (shown exactDoubles (deliveries effects)).nodes ↔
        node = ⟨ascii "a", true⟩ ∨ node = ⟨ascii "c", true⟩ := by
  have runs : ((page (parseMessage beatJson)).run pageStart beatTasks).isSome = true := by decide
  have events : accepted (parseMessage beatJson) pageStart beatTasks =
      [beat (ascii "a"), beat (ascii "c")] := by decide
  obtain ⟨⟨after, effects⟩, ran⟩ := Option.isSome_iff_exists.mp runs
  refine ⟨after, effects, ran, fun node => ?_⟩
  obtain ⟨shows, -⟩ := page_shows beatJson exactDoubles ran
  rw [shows.nodes, events]
  obtain ⟨id, alive⟩ := node
  simp [beat, exists_or, and_or_left, and_comm]

end DistributedCache.Dashboard

import DistributedCache.Control.HeartbeatManager
import DistributedCache.Lib.Register
import Mathlib.Data.Bool.Basic
import Mathlib.Data.List.Induction
import Mathlib.Data.Prod.Lex

/-! What the heartbeat manager knows about a node after any operations: the newest event about the
node decides, and gossip leaves the same state in every order. -/

namespace DistributedCache.Control

open Lib

namespace HeartbeatManager

variable {manager : HeartbeatManager} {nodeId other : Bytes}

/-- A call of one of the operations that change the manager. -/
inductive Call
  | registerNode (nodeId : Bytes) (heartbeatMs : UInt64)
  | recordHeartbeat (nodeId : Bytes) (heartbeatMs : UInt64)
  | onHeartbeatTimeout (nodeId : Bytes) (timeoutMs : UInt64)
  | ingestGossip (observations : List NodeHealth)
deriving DecidableEq, Repr

def apply (manager : HeartbeatManager) : Call → HeartbeatManager
  | .registerNode nodeId heartbeatMs => manager.registerNode nodeId heartbeatMs
  | .recordHeartbeat nodeId heartbeatMs => manager.recordHeartbeat nodeId heartbeatMs
  | .onHeartbeatTimeout nodeId timeoutMs => manager.onHeartbeatTimeout nodeId timeoutMs
  | .ingestGossip observations => manager.ingestGossip observations

def run (manager : HeartbeatManager) (calls : List Call) : HeartbeatManager :=
  calls.foldl apply manager

/-- The events that a call reports: a node, whether it is alive, and a timestamp. -/
def Call.events : Call → List NodeHealth
  | .registerNode nodeId ms | .recordHeartbeat nodeId ms => [⟨nodeId, true, ms⟩]
  | .onHeartbeatTimeout nodeId ms => [⟨nodeId, false, ms⟩]
  | .ingestGossip observations => observations

/-- What the manager stores about a node. -/
def view (manager : HeartbeatManager) (nodeId : Bytes) : Option NodeHealth × Option UInt64 :=
  (manager.nodes.lookup nodeId, manager.lastObservationMs.lookup nodeId)

theorem view_put (nodeId other : Bytes) (entry : NodeHealth) (lastObserved : UInt64) :
    (manager.put nodeId entry lastObserved).view other =
      if other = nodeId then (some entry, some lastObserved) else manager.view other := by
  unfold view put
  split
  · rename_i same
    subst same
    simp
  · rename_i different
    simp [AList.lookup_insert_ne different]

theorem view_ignore_ne (different : other ≠ nodeId) :
    (manager.ignore nodeId).view other = manager.view other := by
  rw [ignore, view_put, if_neg different]

theorem view_ignore_self {health : NodeHealth} {ms : UInt64}
    (stored : manager.view nodeId = (some health, some ms)) :
    (manager.ignore nodeId).view nodeId = (some health, some ms) := by
  obtain ⟨node, observed⟩ := Prod.mk.inj stored
  rw [ignore, view_put, if_pos rfl, entry, lastObserved, node, observed]
  rfl

/-! ### The newest event -/

/-- What is stored about a node after `events` about it: a timestamp that none of them exceeds, and
what one of those with that timestamp reports. -/
inductive Decided (nodeId : Bytes) :
    List NodeHealth → Option NodeHealth × Option UInt64 → Prop
  | unknown : Decided nodeId [] (none, none)
  | known {events : List NodeHealth} {health event : NodeHealth} {ms : UInt64} :
      health.nodeId = nodeId → (∀ e ∈ events, e.lastHeartbeatMs ≤ ms) → event ∈ events →
      event.lastHeartbeatMs = ms → event.alive = health.alive →
      Decided nodeId events (some health, some ms)

/-- An operation that reports an event about a node leaves what is stored, which is not older, or
stores the event. -/
inductive Merged (event : NodeHealth) : Option NodeHealth × Option UInt64 →
    Option NodeHealth × Option UInt64 → Prop
  | ignored {health : NodeHealth} {ms : UInt64} : event.lastHeartbeatMs ≤ ms →
      Merged event (some health, some ms) (some health, some ms)
  | first {health : NodeHealth} : health.nodeId = event.nodeId → health.alive = event.alive →
      Merged event (none, none) (some health, some event.lastHeartbeatMs)
  | newer {old health : NodeHealth} {ms : UInt64} : ms ≤ event.lastHeartbeatMs →
      health.nodeId = event.nodeId → health.alive = event.alive →
      Merged event (some old, some ms) (some health, some event.lastHeartbeatMs)

theorem Decided.known_of_mem {events : List NodeHealth} {event : NodeHealth}
    {stored : Option NodeHealth × Option UInt64} (decided : Decided nodeId events stored)
    (member : event ∈ events) :
    ∃ (health : NodeHealth) (ms : UInt64) (decider : NodeHealth), stored = (some health, some ms) ∧
      (∀ e ∈ events, e.lastHeartbeatMs ≤ ms) ∧ decider ∈ events ∧ decider.lastHeartbeatMs = ms ∧
      decider.alive = health.alive := by
  cases decided with
  | unknown => cases member
  | known _ bound present newest agrees => exact ⟨_, _, _, rfl, bound, present, newest, agrees⟩

theorem Decided.merged {events : List NodeHealth} {event : NodeHealth}
    {before after : Option NodeHealth × Option UInt64}
    (decided : Decided event.nodeId events before)
    (merged : Merged event before after) : Decided event.nodeId (events ++ [event]) after := by
  have snoc : ∀ {ms : UInt64}, (∀ e ∈ events, e.lastHeartbeatMs ≤ ms) →
      event.lastHeartbeatMs ≤ ms → ∀ e ∈ events ++ [event], e.lastHeartbeatMs ≤ ms := by
    intro ms bound last e member
    rcases List.mem_append.mp member with earlier | now
    · exact bound e earlier
    · rwa [List.mem_singleton.mp now]
  cases merged with
  | ignored stale =>
    cases decided with
    | known name bound member newest agrees =>
      exact .known name (snoc bound stale) (List.mem_append_left _ member) newest agrees
  | first name agrees =>
    cases decided
    exact .known name (snoc (by simp) (UInt64.le_refl _)) (by simp) rfl agrees.symm
  | newer newer name agrees =>
    cases decided with
    | known _ bound _ _ _ =>
      refine .known name (snoc (fun e member => ?_) (UInt64.le_refl _)) (by simp) rfl agrees.symm
      exact UInt64.le_trans (bound e member) newer

/-- What is stored under a name that is not empty: nothing, or an entry that is not stale for the
checks of the operations. -/
theorem Decided.cases {events : List NodeHealth} (named : nodeId ≠ [])
    (decided : Decided nodeId events (manager.view nodeId)) :
    (manager.view nodeId = (none, none) ∧ (manager.entry nodeId).nodeId = [] ∧
        manager.lastObserved nodeId = 0) ∨
      ∃ health ms, manager.view nodeId = (some health, some ms) ∧ manager.entry nodeId = health ∧
        manager.lastObserved nodeId = ms ∧ (manager.entry nodeId).nodeId ≠ [] := by
  unfold entry lastObserved
  unfold view at *
  generalize manager.nodes.lookup nodeId = node at *
  generalize manager.lastObservationMs.lookup nodeId = observed at *
  cases decided with
  | unknown => exact .inl ⟨rfl, rfl, rfl⟩
  | known name => exact .inr ⟨_, _, rfl, rfl, rfl, by simpa [name] using named⟩

/-- Nothing is stale for an entry that looks new. -/
theorem stale_of_fresh_entry (fresh : (manager.entry nodeId).nodeId = []) (ms : UInt64) :
    manager.stale nodeId ms = false := by
  simp [stale, fresh]

theorem stale_known {last : UInt64} (name : (manager.entry nodeId).nodeId ≠ [])
    (observed : manager.lastObserved nodeId = last) (ms : UInt64) :
    manager.stale nodeId ms = decide (ms < last) := by
  simp [stale, name, observed]

/-- A report that is not newer is ignored. -/
theorem merged_ignore {event health : NodeHealth} {last : UInt64}
    (stored : manager.view nodeId = (some health, some last))
    (old : event.lastHeartbeatMs ≤ last) :
    Merged event (manager.view nodeId) ((manager.ignore nodeId).view nodeId) := by
  rw [view_ignore_self stored, stored]
  exact .ignored old

theorem merged_beat {events : List NodeHealth} (named : nodeId ≠ [])
    (decided : Decided nodeId events (manager.view nodeId)) (ms : UInt64) :
    Merged ⟨nodeId, true, ms⟩ (manager.view nodeId) ((manager.beat nodeId ms).view nodeId) := by
  rcases decided.cases named with ⟨absent, name, -⟩ | ⟨health, last, stored, -, observed, name⟩
  · have fresh := stale_of_fresh_entry name ms
    rw [beat, fresh, if_neg (by simp), view_put, if_pos rfl, absent]
    exact .first rfl rfl
  · unfold beat
    split
    · rename_i old
      have old : ms < last := by simpa [stale_known name observed] using old
      exact merged_ignore stored (UInt64.le_of_lt old)
    · rename_i fresh
      rw [view_put, if_pos rfl, stored]
      have fresh : last ≤ ms := by simpa [stale_known name observed] using fresh
      exact .newer fresh rfl rfl

/-- The time that a timeout which is not stale leaves as the last observation. -/
theorem raised_observed {last ms : UInt64} (below : last ≤ ms) :
    (if last < ms then ms else last) = ms := by
  split
  · rfl
  · rename_i notBelow
    exact UInt64.le_antisymm below (UInt64.not_lt.mp notBelow)

theorem merged_onHeartbeatTimeout {events : List NodeHealth} (named : nodeId ≠ [])
    (decided : Decided nodeId events (manager.view nodeId)) (ms : UInt64) :
    Merged ⟨nodeId, false, ms⟩ (manager.view nodeId)
      ((manager.onHeartbeatTimeout nodeId ms).view nodeId) := by
  unfold onHeartbeatTimeout
  rcases decided.cases named with
    ⟨absent, name, observed⟩ | ⟨health, last, stored, -, observed, name⟩
  · have fresh := stale_of_fresh_entry name ms
    rw [fresh, if_neg (by simp), view_put, if_pos rfl, absent, observed,
      raised_observed UInt64.zero_le]
    exact .first rfl rfl
  · split
    · rename_i old
      have old : ms < last := by simpa [stale_known name observed] using old
      exact merged_ignore stored (UInt64.le_of_lt old)
    · rename_i fresh
      have fresh : last ≤ ms := by simpa [stale_known name observed] using fresh
      rw [view_put, if_pos rfl, stored, observed, raised_observed fresh]
      exact .newer fresh rfl rfl

theorem merged_ingest {events : List NodeHealth} {observation : NodeHealth}
    (named : observation.nodeId ≠ [])
    (decided : Decided observation.nodeId events (manager.view observation.nodeId)) :
    Merged observation (manager.view observation.nodeId)
      ((manager.ingest observation).view observation.nodeId) := by
  unfold ingest
  dsimp only
  rcases decided.cases named with ⟨absent, name, -⟩ | ⟨health, last, stored, -, observed, name⟩
  · rw [if_neg (by simp [name]), view_put, if_pos rfl, absent]
    exact .first rfl rfl
  · split
    · rename_i old
      rw [observed] at old
      rcases old.2 with older | ⟨same, -, -⟩
      · exact merged_ignore stored (UInt64.le_of_lt older)
      · exact merged_ignore stored (UInt64.le_of_eq same)
    · rename_i fresh
      rw [view_put, if_pos rfl, stored]
      rw [observed] at fresh
      have newer : last ≤ observation.lastHeartbeatMs :=
        UInt64.not_lt.mp fun older => fresh ⟨name, .inl older⟩
      exact .newer newer rfl rfl

theorem view_beat_ne (different : other ≠ nodeId) (ms : UInt64) :
    (manager.beat nodeId ms).view other = manager.view other := by
  unfold beat
  split
  · exact view_ignore_ne different
  · rw [view_put, if_neg different]

theorem view_onHeartbeatTimeout_ne (different : other ≠ nodeId) (ms : UInt64) :
    (manager.onHeartbeatTimeout nodeId ms).view other = manager.view other := by
  unfold onHeartbeatTimeout
  split
  · exact view_ignore_ne different
  · rw [view_put, if_neg different]

theorem view_ingest_ne {observation : NodeHealth} (different : other ≠ observation.nodeId) :
    (manager.ingest observation).view other = manager.view other := by
  unfold ingest
  dsimp only
  split
  · exact view_ignore_ne different
  · rw [view_put, if_neg different]

/-- The events about a node. -/
def about (nodeId : Bytes) (events : List NodeHealth) : List NodeHealth :=
  events.filter (·.nodeId = nodeId)

theorem mem_about {event : NodeHealth} {events : List NodeHealth} :
    event ∈ about nodeId events ↔ event ∈ events ∧ event.nodeId = nodeId := by
  simp [about]

theorem about_concat (nodeId : Bytes) (events : List NodeHealth) (event : NodeHealth) :
    about nodeId (events ++ [event]) =
      if event.nodeId = nodeId then about nodeId events ++ [event] else about nodeId events := by
  unfold about
  split
  · rename_i same
    simp [same]
  · rename_i different
    simp [different]

/-- An operation reports one event about one node. -/
theorem Decided.report {events : List NodeHealth} {event : NodeHealth} {after : HeartbeatManager}
    (decided : Decided nodeId (about nodeId events) (manager.view nodeId))
    (merged : nodeId = event.nodeId → Merged event (manager.view nodeId) (after.view nodeId))
    (frame : nodeId ≠ event.nodeId → after.view nodeId = manager.view nodeId) :
    Decided nodeId (about nodeId (events ++ [event])) (after.view nodeId) := by
  rw [about_concat]
  split
  · rename_i same
    subst same
    exact decided.merged (merged rfl)
  · rename_i different
    rw [frame (Ne.symm different)]
    exact decided

theorem decided_beat {events : List NodeHealth} (named : nodeId ≠ [])
    (decided : Decided nodeId (about nodeId events) (manager.view nodeId)) (ms : UInt64) :
    Decided nodeId (about nodeId (events ++ [⟨other, true, ms⟩]))
      ((manager.beat other ms).view nodeId) := by
  refine decided.report (fun same => ?_) (view_beat_ne · ms)
  subst same
  exact merged_beat named decided ms

theorem decided_ingestGossip {events observations : List NodeHealth} (named : nodeId ≠ [])
    (decided : Decided nodeId (about nodeId events) (manager.view nodeId)) :
    Decided nodeId (about nodeId (events ++ observations))
      ((manager.ingestGossip observations).view nodeId) := by
  unfold ingestGossip
  induction observations generalizing manager events with
  | nil => simpa using decided
  | cons observation observations ih =>
    rw [List.append_cons, List.foldl_cons]
    refine ih (decided.report (fun same => ?_) view_ingest_ne)
    subst same
    exact merged_ingest named decided

theorem decided_apply {events : List NodeHealth} (named : nodeId ≠ [])
    (decided : Decided nodeId (about nodeId events) (manager.view nodeId)) (call : Call) :
    Decided nodeId (about nodeId (events ++ call.events)) ((manager.apply call).view nodeId) := by
  cases call with
  | registerNode other ms | recordHeartbeat other ms => exact decided_beat named decided ms
  | onHeartbeatTimeout other ms =>
    refine decided.report (fun same => ?_) (view_onHeartbeatTimeout_ne · ms)
    subst same
    exact merged_onHeartbeatTimeout named decided ms
  | ingestGossip observations => exact decided_ingestGossip named decided

/-- What is stored after any operations. -/
theorem decided_run (named : nodeId ≠ []) (calls : List Call) :
    Decided nodeId (about nodeId (calls.flatMap Call.events)) ((new.run calls).view nodeId) := by
  induction calls using List.reverseRecOn with
  | nil => exact .unknown
  | append_singleton calls call ih =>
    rw [run, List.foldl_append, List.flatMap_append, List.flatMap_singleton]
    exact decided_apply named ih call

/-- The last observation of a node is the newest timestamp of the events about it, and one of the
events with that timestamp decides whether it is alive.  So the newest event decides if it is newer
than the others. -/
theorem newest_decides (calls : List Call) {nodeId : Bytes} (named : nodeId ≠ [])
    (reported : ∃ event ∈ calls.flatMap Call.events, event.nodeId = nodeId) :
    ∃ ms, (new.run calls).lastObservationMs.lookup nodeId = some ms ∧
      (∀ event ∈ calls.flatMap Call.events, event.nodeId = nodeId →
        event.lastHeartbeatMs ≤ ms) ∧
      (∃ event ∈ calls.flatMap Call.events, event.nodeId = nodeId ∧ event.lastHeartbeatMs = ms ∧
        (new.run calls).isAlive nodeId = event.alive) ∧
      ∀ newest ∈ calls.flatMap Call.events, newest.nodeId = nodeId →
        (∀ event ∈ calls.flatMap Call.events, event.nodeId = nodeId → event ≠ newest →
          event.lastHeartbeatMs < newest.lastHeartbeatMs) →
        (new.run calls).isAlive nodeId = newest.alive := by
  obtain ⟨witness, heard, mentioned⟩ := reported
  obtain ⟨health, ms, decider, stored, bound, member, newest, agrees⟩ :=
    (decided_run named calls).known_of_mem (mem_about.mpr ⟨heard, mentioned⟩)
  obtain ⟨node, observed⟩ := Prod.mk.inj stored
  obtain ⟨heard', mentioned'⟩ := mem_about.mp member
  have alive : (new.run calls).isAlive nodeId = decider.alive := by
    rw [isAlive, node]
    exact agrees.symm
  have bound : ∀ event ∈ calls.flatMap Call.events, event.nodeId = nodeId →
      event.lastHeartbeatMs ≤ ms :=
    fun event member name => bound event (mem_about.mpr ⟨member, name⟩)
  refine ⟨ms, observed, bound, ⟨decider, heard', mentioned', newest, alive⟩, ?_⟩
  intro strict present name older
  by_cases same : decider = strict
  · rw [alive, same]
  · have below := older decider heard' mentioned' same
    rw [newest] at below
    exact absurd (bound strict present name) (UInt64.not_le.mpr below)

/-- A timeout, then a heartbeat that was sent earlier. -/
def lateHeartbeat : List Call :=
  [.registerNode [97] 5, .ingestGossip [⟨[98], true, 9⟩, ⟨[97], false, 5⟩],
    .onHeartbeatTimeout [97] 7, .recordHeartbeat [97] 6]

theorem lateHeartbeat_dead : (new.run lateHeartbeat).isAlive [97] = false := by
  obtain ⟨-, -, -, -, decides⟩ :=
    newest_decides lateHeartbeat (by decide) ⟨⟨[97], true, 5⟩, by decide, rfl⟩
  exact decides ⟨[97], false, 7⟩ (by decide) rfl (by decide)

/-! ### Gossip -/

/-- The order in which observations of a node replace each other: by time, and of two at the same
time the one that reports the node dead. -/
def precedence (observation : NodeHealth) : ℕ ×ₗ Bool :=
  toLex (observation.lastHeartbeatMs.toNat, !observation.alive)

/-- Where what is stored about a node stands in that order.  The time is that of the last
observation, which a timeout moves past the last heartbeat. -/
def rank : Option NodeHealth × Option UInt64 → WithBot (ℕ ×ₗ Bool)
  | (some health, some ms) => (toLex (ms.toNat, !health.alive) : ℕ ×ₗ Bool)
  | _ => ⊥

def stored (observation : NodeHealth) : Option NodeHealth × Option UInt64 :=
  (some observation, some observation.lastHeartbeatMs)

theorem rank_stored (observation : NodeHealth) :
    rank (stored observation) = precedence observation := rfl

theorem precedence_lt_rank {observation health : NodeHealth} {ms : UInt64} :
    (precedence observation : WithBot (ℕ ×ₗ Bool)) < rank (some health, some ms) ↔
      observation.lastHeartbeatMs < ms ∨
        (observation.lastHeartbeatMs = ms ∧ health.alive = false ∧ observation.alive = true) := by
  rw [rank, precedence, WithBot.coe_lt_coe, Prod.Lex.toLex_lt_toLex]
  simp only [UInt64.toNat_inj, ← UInt64.lt_iff_toNat_lt]
  cases health.alive <;> cases observation.alive <;> simp

/-- Two observations of a node that stand in the same place are the same. -/
theorem precedence_injective {observation observation' : NodeHealth}
    (name : observation.nodeId = observation'.nodeId)
    (equal : precedence observation = precedence observation') : observation = observation' := by
  obtain ⟨nodeId, alive, ms⟩ := observation
  obtain ⟨nodeId', alive', ms'⟩ := observation'
  obtain ⟨time, live⟩ := Prod.mk.inj (toLex.injective equal)
  cases name
  cases UInt64.toNat_inj.mp time
  cases Bool.not_inj live
  rfl

/-- An observation is recorded unless what is stored precedes it. -/
theorem view_ingest {events : List NodeHealth} {observation : NodeHealth}
    (named : observation.nodeId ≠ [])
    (decided : Decided observation.nodeId events (manager.view observation.nodeId)) :
    (manager.ingest observation).view observation.nodeId =
      record precedence rank stored (manager.view observation.nodeId) observation := by
  unfold ingest record
  dsimp only
  rcases decided.cases named with ⟨absent, name, -⟩ | ⟨health, last, known, entry, observed, name⟩
  · rw [if_neg (by simp [name]), view_put, if_pos rfl, absent, if_neg (by simp [rank])]
    rfl
  · rw [known, observed]
    by_cases old : (precedence observation : WithBot (ℕ ×ₗ Bool)) < rank (some health, some last)
    · rw [if_pos old, if_pos ⟨name, by rw [entry]; exact precedence_lt_rank.mp old⟩]
      exact view_ignore_self known
    · rw [if_neg old, if_neg fun stale => old (precedence_lt_rank.mpr (entry ▸ stale.2)),
        view_put, if_pos rfl]
      rfl

theorem view_ingestGossip {events : List NodeHealth} (named : nodeId ≠ [])
    (decided : Decided nodeId (about nodeId events) (manager.view nodeId))
    (observations : List NodeHealth) :
    (manager.ingestGossip observations).view nodeId =
      (about nodeId observations).foldl (record precedence rank stored) (manager.view nodeId) := by
  induction observations generalizing manager events with
  | nil => rfl
  | cons observation observations ih =>
    have next : Decided nodeId (about nodeId (events ++ [observation]))
        ((manager.ingest observation).view nodeId) := decided_ingestGossip named decided
    have step := ih next
    rw [ingestGossip, List.foldl_cons]
    rw [ingestGossip] at step
    rw [step]
    by_cases same : observation.nodeId = nodeId
    · subst same
      rw [view_ingest named decided, about, about, List.filter_cons_of_pos (by simp)]
      rfl
    · rw [view_ingest_ne (Ne.symm same), about, about, List.filter_cons_of_neg (by simp [same])]

/-- Gossip in batches. -/
def exchange (manager : HeartbeatManager) (batches : List (List NodeHealth)) : HeartbeatManager :=
  batches.foldl ingestGossip manager

theorem exchange_eq (manager : HeartbeatManager) (batches : List (List NodeHealth)) :
    manager.exchange batches = manager.ingestGossip batches.flatten :=
  List.foldl_flatten.symm

theorem view_exchange_of_empty (manager : HeartbeatManager) {batches : List (List NodeHealth)}
    (named : ∀ observation ∈ batches.flatten, observation.nodeId ≠ []) :
    (manager.exchange batches).view [] = manager.view [] := by
  rw [exchange_eq]
  generalize batches.flatten = observations at *
  unfold ingestGossip
  induction observations generalizing manager with
  | nil => rfl
  | cons observation observations ih =>
    obtain ⟨first, rest⟩ := List.forall_mem_cons.mp named
    rw [List.foldl_cons, ih _ rest, view_ingest_ne (Ne.symm first)]

theorem view_exchange (calls : List Call) (named : nodeId ≠ [])
    (batches : List (List NodeHealth)) :
    ((new.run calls).exchange batches).view nodeId =
      (about nodeId batches.flatten).foldl (record precedence rank stored)
        ((new.run calls).view nodeId) := by
  rw [exchange_eq]
  exact view_ingestGossip named (decided_run named calls) _

/-- A node is dead if what is stored about it does not stand below a report of its death at the time
of its last observation. -/
theorem not_alive_of_le_rank {ms : UInt64}
    (observed : manager.lastObservationMs.lookup nodeId = some ms)
    (outranked : ((toLex (ms.toNat, true) : ℕ ×ₗ Bool) : WithBot (ℕ ×ₗ Bool)) ≤
      rank (manager.view nodeId)) : manager.isAlive nodeId = false := by
  unfold isAlive
  unfold view at outranked
  rw [observed] at outranked
  cases node : manager.nodes.lookup nodeId with
  | none => rfl
  | some health =>
    rw [node, rank, WithBot.coe_le_coe, Prod.Lex.toLex_le_toLex] at outranked
    rcases outranked with later | ⟨-, dead⟩
    · exact absurd later (lt_irrefl _)
    · simpa using Bool.eq_true_of_true_le dead

/-- Managers that ingest the same observations, in any order and batches and with any repetitions,
store the same about a node if they did before or if one of the observations is newer than what
they had observed. -/
theorem exchange_congr (calls calls' : List Call) {batches batches' : List (List NodeHealth)}
    (named : ∀ observation ∈ batches.flatten, observation.nodeId ≠ [])
    (same : ∀ observation, observation ∈ batches.flatten ↔ observation ∈ batches'.flatten)
    {nodeId : Bytes}
    (level : (new.run calls).view nodeId = (new.run calls').view nodeId ∨
      ∃ observation ∈ batches.flatten, observation.nodeId = nodeId ∧
        rank ((new.run calls).view nodeId) ≤ precedence observation ∧
        rank ((new.run calls').view nodeId) ≤ precedence observation) :
    ((new.run calls).exchange batches).view nodeId =
      ((new.run calls').exchange batches').view nodeId := by
  by_cases empty : nodeId = []
  · subst empty
    rw [view_exchange_of_empty _ named,
      view_exchange_of_empty _ fun o member => named o ((same o).mpr member)]
    rcases level with equal | ⟨observation, member, name, -⟩
    · exact equal
    · exact absurd name (named observation member)
  · rw [view_exchange calls empty, view_exchange calls' empty]
    refine foldl_record_congr (fun o _ => rank_stored o) ?_ ?_ ?_
    · intro a first b second equal
      have name := (mem_about.mp first).2.trans (mem_about.mp second).2.symm
      exact precedence_injective name equal
    · intro observation
      rw [mem_about, mem_about, same]
    · refine level.imp_right fun ⟨observation, member, name, outranks⟩ => ?_
      exact ⟨observation, mem_about.mpr ⟨member, name⟩, outranks⟩

/-- Of two reports at the time of the last observation, the one that the node is dead wins: whether
it was there before the gossip or came with it. -/
theorem exchange_dead (calls : List Call) {batches : List (List NodeHealth)} (named : nodeId ≠ [])
    {ms : UInt64}
    (observed : ((new.run calls).exchange batches).lastObservationMs.lookup nodeId = some ms)
    (dead : ((new.run calls).lastObservationMs.lookup nodeId = some ms ∧
        (new.run calls).isAlive nodeId = false) ∨ ⟨nodeId, false, ms⟩ ∈ batches.flatten) :
    ((new.run calls).exchange batches).isAlive nodeId = false := by
  refine not_alive_of_le_rank observed ?_
  rw [view_exchange calls named]
  have ranks : ∀ o ∈ about nodeId batches.flatten, rank (stored o) = precedence o :=
    fun o _ => rank_stored o
  obtain ⟨kept, above⟩ := le_rank_foldl_record ranks ((new.run calls).view nodeId)
  rcases dead with ⟨before, dead⟩ | reported
  · refine le_trans (le_of_eq ?_) kept
    rcases (decided_run named calls).cases named with ⟨absent, -⟩ | ⟨health, last, known, -⟩
    · cases before.symm.trans (Prod.mk.inj absent).2
    · obtain ⟨node, observed'⟩ := Prod.mk.inj known
      cases before.symm.trans observed'
      rw [isAlive, node] at dead
      rw [known, rank, show health.alive = false from dead]
      rfl
  · exact above _ (mem_about.mpr ⟨reported, rfl⟩)

theorem rank_le_of_newer {observation : NodeHealth}
    (newer : ∀ ms, manager.lastObservationMs.lookup nodeId = some ms →
      ms < observation.lastHeartbeatMs) : rank (manager.view nodeId) ≤ precedence observation := by
  unfold view
  generalize manager.nodes.lookup nodeId = node at *
  generalize manager.lastObservationMs.lookup nodeId = observed at *
  cases node with
  | none => exact bot_le
  | some health =>
    cases observed with
    | none => exact bot_le
    | some ms =>
      rw [rank, precedence, WithBot.coe_le_coe, Prod.Lex.toLex_le_toLex]
      exact .inl (UInt64.lt_iff_toNat_lt.mp (newer ms rfl))

/-- Managers converge when they ingest the same gossip, in any order and batches and with any
repetitions. -/
theorem gossip_converges (calls : List Call) {batches batches' : List (List NodeHealth)}
    (named : ∀ observation ∈ batches.flatten, observation.nodeId ≠ [])
    (same : ∀ observation, observation ∈ batches.flatten ↔ observation ∈ batches'.flatten)
    (nodeId : Bytes) :
    (((new.run calls).exchange batches).getNodeHealth nodeId =
        ((new.run calls).exchange batches').getNodeHealth nodeId ∧
      ((new.run calls).exchange batches).lastObservationMs.lookup nodeId =
        ((new.run calls).exchange batches').lastObservationMs.lookup nodeId) ∧
    -- of two reports at the same time, the one that the node is dead wins
    (∀ ms, ((new.run calls).exchange batches).lastObservationMs.lookup nodeId = some ms →
      ((new.run calls).lastObservationMs.lookup nodeId = some ms ∧
        (new.run calls).isAlive nodeId = false) ∨ ⟨nodeId, false, ms⟩ ∈ batches.flatten →
      ((new.run calls).exchange batches).isAlive nodeId = false) ∧
    -- a manager with another past agrees on each node that the gossip has news of
    ∀ calls', (∃ observation ∈ batches.flatten, observation.nodeId = nodeId ∧
        ∀ ms, (new.run calls).lastObservationMs.lookup nodeId = some ms ∨
            (new.run calls').lastObservationMs.lookup nodeId = some ms →
          ms < observation.lastHeartbeatMs) →
      ((new.run calls).exchange batches).getNodeHealth nodeId =
          ((new.run calls').exchange batches').getNodeHealth nodeId ∧
        ((new.run calls).exchange batches).lastObservationMs.lookup nodeId =
          ((new.run calls').exchange batches').lastObservationMs.lookup nodeId := by
  refine ⟨Prod.mk.inj (exchange_congr calls calls named same (.inl rfl)), ?_, ?_⟩
  · intro ms observed dead
    by_cases empty : nodeId = []
    · subst empty
      have kept := Prod.mk.inj (view_exchange_of_empty (new.run calls) named)
      rcases dead with ⟨-, dead⟩ | reported
      · rwa [isAlive, kept.1]
      · exact absurd rfl (named _ reported)
    · exact exchange_dead calls empty observed dead
  · intro calls' ⟨observation, member, name, newer⟩
    have outranked := rank_le_of_newer fun ms observed => newer ms (.inl observed)
    have outranked' := rank_le_of_newer fun ms observed => newer ms (.inr observed)
    exact Prod.mk.inj (exchange_congr calls calls' named same
      (.inr ⟨observation, member, name, outranked, outranked'⟩))

/-- Gossip that contradicts itself, and that repeats a report of a timeout. -/
def contested : List NodeHealth :=
  [⟨[97], true, 7⟩, ⟨[98], true, 3⟩, ⟨[97], false, 7⟩, ⟨[98], true, 3⟩]

theorem contested_converges :
    ((new.run lateHeartbeat).exchange [contested]).getNodeHealth [97] =
      ((new.run lateHeartbeat).exchange [contested.reverse, contested]).getNodeHealth [97] := by
  have converges := @gossip_converges lateHeartbeat [contested] [contested.reverse, contested]
    (by decide) (by simp) [97]
  exact converges.1.1

end HeartbeatManager

end DistributedCache.Control

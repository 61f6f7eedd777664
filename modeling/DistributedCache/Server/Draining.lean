import DistributedCache.Server.Conversation

/-! What the stop flag does to the connections of a server: once it is set, a connection takes no
further command, receives at most one more chunk, and closes after a few more steps, whatever the
other workers and the network do. -/

namespace DistributedCache.Server

open DistributedCache.Core DistributedCache.Protocol Lib

variable {cfg : Config}

namespace Worker

/-- The worker serves a RESP connection, or has served one. -/
def Connected : Worker cfg → Prop
  | waiting | handling .. | answering _ => False
  | outer _ | receiving _ | inner _ | executing .. | counting .. | replying ..
  | refusing | closed => True

/-- A command in progress is in a section of `Set` or `Get`, not in `EnforceCapacity`. -/
def Light : Worker cfg → Prop
  | executing _ _ _ call => call.Plain ∧ call ≠ .idle
  | _ => True

/-- The steps that a connection can take after the flag was set. -/
def stepsLeft : Worker cfg → Nat
  | closed | waiting | handling .. | answering _ => 0
  | outer _ | refusing => 1
  | inner _ => 2
  | receiving _ | replying .. => 3
  | counting .. => 4
  | executing _ _ _ (.getShared _) => 6
  | executing .. => 5

/-- The chunks that a connection can receive after the flag was set. -/
def chunksLeft : Worker cfg → Nat
  | receiving _ => 1
  | _ => 0

theorem stepsLeft_le (worker : Worker cfg) : worker.stepsLeft ≤ 6 := by
  unfold stepsLeft
  split <;> decide

theorem limitFrame_drains (stream : Stream) :
    (limitFrame stream : Worker cfg).Connected ∧ (limitFrame stream : Worker cfg).Light ∧
      (limitFrame stream : Worker cfg).chunksLeft = 0 ∧
      (limitFrame stream : Worker cfg).stepsLeft = 1 := by
  unfold limitFrame
  split <;> exact ⟨trivial, trivial, rfl, rfl⟩

theorem nextFrame_drains (stream : Stream) (consumed : Nat) :
    (nextFrame stream consumed : Worker cfg).Connected ∧
      (nextFrame stream consumed : Worker cfg).Light ∧
      (nextFrame stream consumed : Worker cfg).chunksLeft = 0 ∧
      (nextFrame stream consumed : Worker cfg).stepsLeft ≤ 2 := by
  unfold nextFrame
  dsimp only
  split
  · obtain ⟨connected, light, chunks, steps⟩ := limitFrame_drains _
    exact ⟨connected, light, chunks, by omega⟩
  · exact ⟨trivial, trivial, rfl, Nat.le_refl 2⟩

theorem startCommand_light (stream : Stream) (cmd : RESPCommand) (consumed : Nat) (now : Int) :
    (startCommand stream cmd consumed now : Worker cfg).Light := by
  unfold startCommand
  rcases beginCommand_cases cfg cmd.name cmd.args now with
    ⟨result, begun, -⟩ | ⟨key, value, -, -, -, begun⟩ | ⟨key, -, -, -, begun⟩
  · rw [begun]
    trivial
  · rw [begun]
    exact ⟨trivial, nofun⟩
  · rw [begun]
    exact ⟨trivial, nofun⟩

/-- A call that has not returned is not idle. -/
theorem unfinished_ne_idle {call : Call cfg} {event : Event}
    (unfinished : finishCommand call event = none) : call ≠ .idle := by
  rintro rfl
  cases event <;> cases unfinished

theorem Light.steps {node node' : CacheNode cfg} {worker worker' : Worker cfg} {event : NodeEvent}
    (light : worker.Light) (unbounded : cfg.maxEntries = 0)
    (moved : Steps node worker node' worker' event) : worker'.Light := by
  cases moved with
  | rpc request now remote =>
    unfold startCall
    split <;> trivial
  | leaveFrames | stuck => exact (limitFrame_drains _).2.1
  | take now running head => exact startCommand_light _ _ _ now
  | @execute stream cmd consumed call call' store event clock ran unfinished =>
    have moved : call.advance node.store (.proceed clock) = some (store, call', event) := ran
    exact ⟨Call.advance_plain unbounded light.1 moved, unfinished_ne_idle unfinished⟩
  | reply => exact (nextFrame_drains _ _).2.1
  | _ => trivial

theorem Light.advance {node node' : CacheNode cfg} {worker worker' : Worker cfg}
    {event : NodeEvent} (light : worker.Light) (unbounded : cfg.maxEntries = 0)
    (moved : Advances node worker node' worker' event) : worker'.Light := by
  cases moved with
  | step moved => exact light.steps unbounded moved
  | reorder | signal => exact light

end Worker

/-- The chunks that an event receives. -/
def NodeEvent.chunks : NodeEvent → Nat
  | received _ => 1
  | _ => 0

namespace Worker

/-- What one step of a connection does after the flag was set. -/
structure Drains (worker worker' : Worker cfg) (event : NodeEvent) : Prop where
  connected : worker'.Connected
  steps : worker'.stepsLeft < worker.stepsLeft
  noCommand : event.command = none
  chunks : event.chunks + worker'.chunksLeft ≤ worker.chunksLeft

theorem Steps.drains {node node' : CacheNode cfg} {worker worker' : Worker cfg} {event : NodeEvent}
    (moved : Steps node worker node' worker' event) (unbounded : cfg.maxEntries = 0)
    (light : worker.Light) (stopped : node.stop = true) (connected : worker.Connected) :
    worker.Drains worker' event := by
  cases moved with
  | connect | rpc | handle | handled | answer => exact absurd connected id
  | stay running | stuck running | take now running => simp [stopped] at running
  | leave | hangUp | again | data | refuse | fail | count =>
    exact ⟨trivial, by simp [stepsLeft], rfl, by simp [chunksLeft, NodeEvent.chunks]⟩
  | @leaveFrames stream =>
    obtain ⟨connected', -, chunks, steps⟩ := limitFrame_drains stream
    exact ⟨connected', by rw [steps]; simp [stepsLeft], rfl, by rw [chunks]; exact Nat.zero_le _⟩
  | @reply stream consumed =>
    obtain ⟨connected', -, chunks, steps⟩ := nextFrame_drains stream consumed
    exact ⟨connected', Nat.lt_succ_of_le steps, rfl, by rw [chunks]; exact Nat.zero_le _⟩
  | @execute stream cmd consumed call call' store event clock ran unfinished =>
    cases call with
    | getShared key =>
      simp only [Call.proceed] at ran
      split at ran <;> cases ran
      · cases unfinished
      · exact ⟨trivial, by simp [stepsLeft], rfl, by simp [chunksLeft, NodeEvent.chunks]⟩
    | setSection key value expiresAt now =>
      cases ran
      rw [Call.enforceCapacity, if_pos unbounded] at unfinished
      cases unfinished
    | getExclusive key =>
      cases ran
      cases unfinished
    | idle => exact absurd rfl light.2
    | _ => exact absurd light.1 id
  | @executed stream cmd consumed call call' store event result clock ran finished =>
    refine ⟨trivial, ?_, rfl, by simp [chunksLeft, NodeEvent.chunks]⟩
    cases call <;> simp [stepsLeft]

/-- A step that is not the worker's own leaves it where it is. -/
theorem foreign_sound {idleTimeout : Int} {node node' : CacheNode cfg} {worker worker' : Worker cfg}
    {input : Input} {event : NodeEvent} (foreign : own input = false)
    (moved : worker.advance idleTimeout node input = some (node', worker', event)) :
    worker' = worker ∧ event.command = none ∧ event.chunks = 0 := by
  cases input with
  | reorder i map =>
    obtain ⟨after, -, same⟩ := Option.map_eq_some_iff.mp moved
    cases same
    exact ⟨rfl, rfl, rfl⟩
  | signal =>
    cases moved
    exact ⟨rfl, rfl, rfl⟩
  | _ => cases foreign

/-- A connection that has not closed can always move. -/
theorem exists_advance {idleTimeout : Int} {node : CacheNode cfg} {worker : Worker cfg}
    (light : worker.Light) (stopped : node.stop = true) (connected : worker.Connected)
    (unclosed : worker ≠ closed) :
    ∃ input, own input = true ∧ (worker.advance idleTimeout node input).isSome = true := by
  cases worker with
  | waiting | handling | answering => exact absurd connected id
  | closed => exact absurd rfl unclosed
  | outer | counting => exact ⟨.proceed 0, rfl, rfl⟩
  | inner stream => exact ⟨.proceed 0, rfl, by simp [Worker.advance, proceed, stopped]⟩
  | receiving stream => exact ⟨.recv .closed, rfl, rfl⟩
  | replying | refusing => exact ⟨.send none, rfl, rfl⟩
  | executing stream cmd consumed call =>
    refine ⟨.proceed 0, rfl, ?_⟩
    simp only [Worker.advance, proceed, Option.isSome_map]
    cases call with
    | setSection | getExclusive => rfl
    | getShared key =>
      simp only [Call.proceed]
      split <;> rfl
    | idle => exact absurd rfl light.2
    | _ => exact absurd light.1 id

end Worker

section

variable {ι : Type} [DecidableEq ι] {idleTimeout : Int}

/-- The steps of worker `i` in a schedule. -/
def ownSteps (i : ι) (schedule : List (ι × Input)) : List (ι × Input) :=
  schedule.filter fun l => l.1 = i ∧ Worker.own l.2 = true

theorem cacheNode_light (unbounded : cfg.maxEntries = 0) {schedule : List (ι × Input)}
    {after : Pool ι (CacheNode cfg) (Worker cfg)} {events : List (ι × NodeEvent)}
    (ran : (cacheNode ι cfg idleTimeout).run (nodeStart ι cfg) schedule = some (after, events))
    (i : ι) : (after.thread i).Light := by
  refine Program.run_invariant (fun _ => True) (fun s => ∀ i, (s.thread i).Light) ?_
    (fun _ => trivial) ran (fun _ _ => trivial) i
  rintro s ⟨j, input⟩ t event light - moved i
  obtain ⟨node, worker, advanced, rfl⟩ := Program.step_eq_some.mp moved
  obtain ⟨⟨node', worker', shown⟩, moves, same⟩ := Option.map_eq_some_iff.mp advanced
  cases same
  by_cases same : i = j
  · subst same
    simpa using (light i).advance unbounded (Worker.advance_sound moves)
  · simpa [same] using light i

/-- What a connection has done in a run that began after the flag was set. -/
structure Drained (i : ι) (s t : Pool ι (CacheNode cfg) (Worker cfg)) (schedule : List (ι × Input))
    (events : List (ι × NodeEvent)) : Prop where
  connected : (t.thread i).Connected
  steps : (ownSteps i schedule).length + (t.thread i).stepsLeft ≤ (s.thread i).stepsLeft
  noCommand : (eventsOf i events).filterMap NodeEvent.command = []
  chunks : ((eventsOf i events).map NodeEvent.chunks).sum + (t.thread i).chunksLeft ≤
    (s.thread i).chunksLeft

theorem Drained.trans {i : ι} {s t u : Pool ι (CacheNode cfg) (Worker cfg)}
    {ls ls' : List (ι × Input)} {es es' : List (ι × NodeEvent)} (first : Drained i s t ls es)
    (rest : Drained i t u ls' es') : Drained i s u (ls ++ ls') (es ++ es') where
  connected := rest.connected
  steps := by
    have := first.steps
    have := rest.steps
    simp only [ownSteps, List.filter_append, List.length_append] at *
    omega
  noCommand := by
    have := first.noCommand
    have := rest.noCommand
    simp only [eventsOf, List.filterMap_append] at *
    simp [*]
  chunks := by
    have := first.chunks
    have := rest.chunks
    simp only [eventsOf, List.filterMap_append, List.map_append, List.sum_append] at *
    omega

variable {s t : Pool ι (CacheNode cfg) (Worker cfg)} {i : ι}

/-- The invariant of the runs that begin after the flag was set. -/
def Stopping (s : Pool ι (CacheNode cfg) (Worker cfg)) : Prop :=
  s.shared.stop = true ∧ ∀ i, (s.thread i).Light

theorem drained_step (unbounded : cfg.maxEntries = 0) {l : ι × Input} {event : ι × NodeEvent}
    (stopping : Stopping s) (connected : (s.thread i).Connected)
    (moved : (cacheNode ι cfg idleTimeout).step s l = some (t, event)) :
    Stopping t ∧ Drained i s t [l] [event] := by
  obtain ⟨j, input⟩ := l
  obtain ⟨stopped, light⟩ := stopping
  obtain ⟨node, worker, advanced, rfl⟩ := Program.step_eq_some.mp moved
  obtain ⟨⟨node', worker', shown⟩, moves, same⟩ := Option.map_eq_some_iff.mp advanced
  cases same
  have sound := Worker.advance_sound moves
  refine ⟨⟨Worker.advance_stop sound stopped, fun i => ?_⟩, ?_⟩
  · by_cases same : i = j
    · subst same
      simpa using (light i).advance unbounded sound
    · simpa [same] using light i
  · by_cases same : j = i
    · subst same
      cases ownInput : Worker.own input with
      | true =>
        have drains :=
          (Worker.own_sound ownInput moves).drains unbounded (light j) stopped connected
        refine ⟨by simpa using drains.connected, ?_, ?_, ?_⟩
        · have one : (ownSteps j [(j, input)]).length = 1 := by simp [ownSteps, ownInput]
          dsimp only
          rw [one, Function.update_self, Nat.add_comm]
          exact drains.steps
        · simp [eventsOf, drains.noCommand]
        · simpa [eventsOf] using drains.chunks
      | false =>
        obtain ⟨rfl, noCommand, noChunk⟩ := Worker.foreign_sound ownInput moves
        refine ⟨by simpa using connected, by simp [ownSteps, ownInput], ?_, ?_⟩
        · simp [eventsOf, noCommand]
        · simp [eventsOf, noChunk]
    · refine ⟨by simpa [Ne.symm same] using connected, ?_, ?_, ?_⟩
      · simp [ownSteps, same, Ne.symm same]
      · simp [eventsOf, same]
      · simp [eventsOf, same, Ne.symm same]

theorem drained_run (unbounded : cfg.maxEntries = 0) {schedule : List (ι × Input)}
    {events : List (ι × NodeEvent)} (stopping : Stopping s) (connected : (s.thread i).Connected)
    (ran : (cacheNode ι cfg idleTimeout).run s schedule = some (t, events)) :
    Stopping t ∧ Drained i s t schedule events := by
  induction schedule generalizing s events with
  | nil =>
    cases ran
    exact ⟨stopping, connected, by simp [ownSteps], rfl, by simp [eventsOf]⟩
  | cons l schedule ih =>
    obtain ⟨u, event, rest, moved, tail, rfl⟩ := Program.run_cons_eq_some.mp ran
    obtain ⟨stopping', first⟩ := drained_step unbounded stopping connected moved
    obtain ⟨final, others⟩ := ih stopping' first.connected tail
    exact ⟨final, first.trans others⟩

/-- Once the flag is set, a connection of a server takes no further command, receives at most one
more chunk, and takes at most six more steps; as long as it has not closed it can take one. -/
theorem stopped_drains (unbounded : cfg.maxEntries = 0) {before later : List (ι × Input)}
    {past events : List (ι × NodeEvent)}
    (ran : (cacheNode ι cfg idleTimeout).run (nodeStart ι cfg) before = some (s, past))
    (stopped : s.shared.stop = true) (connected : (s.thread i).Connected)
    (runs : (cacheNode ι cfg idleTimeout).run s later = some (t, events)) :
    (eventsOf i events).filterMap NodeEvent.command = [] ∧
      ((eventsOf i events).map NodeEvent.chunks).sum ≤ 1 ∧ (ownSteps i later).length ≤ 6 ∧
      (t.thread i = .closed ∨ ∃ input, Worker.own input = true ∧
        ((cacheNode ι cfg idleTimeout).step t (i, input)).isSome = true) := by
  have stopping : Stopping s := ⟨stopped, cacheNode_light unbounded ran⟩
  obtain ⟨⟨stopped', light'⟩, drained⟩ := drained_run unbounded stopping connected runs
  have steps := drained.steps
  have chunks := drained.chunks
  have few : (s.thread i).chunksLeft ≤ 1 := by
    unfold Worker.chunksLeft
    split <;> decide
  have bound := (s.thread i).stepsLeft_le
  refine ⟨drained.noCommand, by omega, by omega, ?_⟩
  by_cases closed : t.thread i = .closed
  · exact .inl closed
  · obtain ⟨input, ownInput, moves⟩ :=
      Worker.exists_advance (light' i) stopped' drained.connected closed
    refine .inr ⟨input, ownInput, ?_⟩
    simpa [Program.step, cacheNode] using moves

/-- The connection of `mixedSchedule` sends a second command, and the flag is set before the
connection looks at it. -/
def stoppedSchedule : List (Bool × Input) :=
  mixedSchedule ++ [(false, .proceed 8), (true, .signal)]

def stoppedChunk : List (Bool × Input) :=
  [(false, .recv (.data (ascii "*2\r\n$3\r\nGET\r\n$1\r\na\r\n") 9)), (false, .proceed 9),
    (false, .proceed 9)]

theorem stoppedSchedule_drains : ∃ s t past events,
    (cacheNode Bool openConfig 10).run (nodeStart Bool openConfig) stoppedSchedule =
        some (s, past) ∧
      (cacheNode Bool openConfig 10).run s stoppedChunk = some (t, events) ∧
      (eventsOf false events).filterMap NodeEvent.command = [] ∧
      ((eventsOf false events).map NodeEvent.chunks).sum ≤ 1 ∧
      (ownSteps false stoppedChunk).length ≤ 6 ∧
      (t.thread false = .closed ∨ ∃ input, Worker.own input = true ∧
        ((cacheNode Bool openConfig 10).step t (false, input)).isSome = true) := by
  have ends : (((cacheNode Bool openConfig 10).run (nodeStart Bool openConfig)
      stoppedSchedule).bind fun r => ((cacheNode Bool openConfig 10).run r.1 stoppedChunk).map
        fun _ => (r.1.shared.stop, r.1.thread false)) = some (true, .receiving ⟨[], 1⟩) := by rfl
  obtain ⟨⟨s, past⟩, ran, rest⟩ := Option.bind_eq_some_iff.mp ends
  obtain ⟨⟨t, events⟩, runs, state⟩ := Option.map_eq_some_iff.mp rest
  obtain ⟨stopped, receiving⟩ := Prod.mk.inj state
  have connected : (s.thread false).Connected := by
    rw [receiving]
    trivial
  exact ⟨s, t, past, events, ran, runs, stopped_drains rfl ran stopped connected runs⟩

end

end DistributedCache.Server
